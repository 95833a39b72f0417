import Weregopher.Digest
import Weregopher.Ids
import Weregopher.Lib.MsgPack

/-! # Semantic values of the runtime protocol and their named-field form

`toMsgPack` is the MessagePack value of named-field serialization: a structure is a
map from its field names, a tagged variant a map whose first entry is its tag, an
absent option nil, and a byte vector one binary value.
-/
namespace Weregopher.Protocol
open Lib.Bytes Lib.MsgPack Value

abbrev AppInstanceId := Uuid

abbrev RuntimeId := Uuid

abbrev ProtocolSessionId := Uuid

abbrev CapabilityGrantId := Uuid

abbrev UserActivationId := Uuid

abbrev TraceId := Uuid

abbrev RendererId := UInt64

def uuidToMsgPack (uuid : Uuid) : Value := binary (toBeBytes 16 uuid.toNat)

def digestToMsgPack (digest : Sha256Digest) : Value := text digest.toText

def u64ToMsgPack (value : UInt64) : Value := integer value.toNat

def u32ToMsgPack (value : UInt32) : Value := integer value.toNat

def u16ToMsgPack (value : UInt16) : Value := integer value.toNat

inductive ObjectKind
  | app
  | browserWindow
  | webContents
  | session
  | webRequest
  | menu
  | menuItem
  | tray
  | nativeImage
  | notification
  | downloadItem
  | messagePort
  | utilityProcess
  | adapterDefined (type : UInt16)

def ObjectKind.toMsgPack : ObjectKind → Value
  | app => text "app"
  | browserWindow => text "browser_window"
  | webContents => text "web_contents"
  | session => text "session"
  | webRequest => text "web_request"
  | menu => text "menu"
  | menuItem => text "menu_item"
  | tray => text "tray"
  | nativeImage => text "native_image"
  | notification => text "notification"
  | downloadItem => text "download_item"
  | messagePort => text "message_port"
  | utilityProcess => text "utility_process"
  | adapterDefined type => record [("adapter_defined", u16ToMsgPack type)]

structure ObjectHandle where
  app : AppInstanceId
  id : UInt64
  generation : UInt32
  kind : ObjectKind

def ObjectHandle.toMsgPack (handle : ObjectHandle) : Value :=
  record [("app", uuidToMsgPack handle.app), ("id", u64ToMsgPack handle.id),
    ("generation", u32ToMsgPack handle.generation), ("kind", handle.kind.toMsgPack)]

/-- Function, promise, message-port, shared-buffer and stream handles alike. -/
structure OpaqueHandle where
  app : AppInstanceId
  id : UInt64
  generation : UInt32

def OpaqueHandle.toMsgPack (handle : OpaqueHandle) : Value :=
  record [("app", uuidToMsgPack handle.app), ("id", u64ToMsgPack handle.id),
    ("generation", u32ToMsgPack handle.generation)]

structure ContentBlobId where
  sha256 : Sha256Digest
  byteLen : UInt64

def ContentBlobId.toMsgPack (blob : ContentBlobId) : Value :=
  record [("sha256", digestToMsgPack blob.sha256), ("byte_len", u64ToMsgPack blob.byteLen)]

inductive BufferStorage
  | inline (value : List UInt8)
  | shared (handle : OpaqueHandle)
  | stream (handle : OpaqueHandle)
  | blob (id : ContentBlobId)

def tagged (kind : String) (fields : List (String × Value)) : Value := record (("kind", text kind) :: fields)

def BufferStorage.toMsgPack : BufferStorage → Value
  | inline value => tagged "inline" [("value", binary value)]
  | shared handle => tagged "shared" [("handle", handle.toMsgPack)]
  | stream handle => tagged "stream" [("handle", handle.toMsgPack)]
  | blob id => tagged "blob" [("id", id.toMsgPack)]

inductive TypedArrayKind
  | int8
  | uint8
  | uint8Clamped
  | int16
  | uint16
  | int32
  | uint32
  | float32
  | float64
  | bigInt64
  | bigUint64

def TypedArrayKind.toMsgPack : TypedArrayKind → Value
  | int8 => text "int8"
  | uint8 => text "uint8"
  | uint8Clamped => text "uint8_clamped"
  | int16 => text "int16"
  | uint16 => text "uint16"
  | int32 => text "int32"
  | uint32 => text "uint32"
  | float32 => text "float32"
  | float64 => text "float64"
  | bigInt64 => text "big_int64"
  | bigUint64 => text "big_uint64"

structure F64 where
  bits : UInt64

namespace F64

variable (value : F64)

def exponent : Nat := value.bits.toNat / 2 ^ 52 % 2 ^ 11

def mantissa : Nat := value.bits.toNat % 2 ^ 52

def isFinite : Bool := value.exponent ≠ 2047

/-- `fract() != 0.0` for a finite value. Above exponent 1075 every value is an integer, below 1023
every nonzero one is a fraction, and in between the lowest bits of the significand decide. -/
def hasFraction : Bool :=
  if value.exponent = 0 then value.mantissa ≠ 0
  else if value.exponent < 1023 then true
  else if value.exponent < 1075 then (2 ^ 52 + value.mantissa) % 2 ^ (1075 - value.exponent) ≠ 0
  else false

def toMsgPack : Value := .node (.float (toBeBytes 8 value.bits.toNat)) []

end F64

/-- An object's entries keep their order; the data of an error is a map in key order. -/
inductive WireValue
  | undefined
  | null
  | bool (value : Bool)
  | integer (value : Int64)
  | float (value : F64)
  | negativeZero
  | nan
  | positiveInfinity
  | negativeInfinity
  | bigInt (negative : Bool) (magnitudeBe : List UInt8)
  | string (value : String)
  | bytes (value : List UInt8)
  | array (values : List WireValue)
  | object (entries : List (String × WireValue))
  | reference (id : UInt32)
  | dateMillis (value : Int64)
  | regExp (source flags : String)
  | error (name message : String) (stack code kind : Option String) (cause : Option WireValue)
      (data : List (String × WireValue))
  | handle (value : ObjectHandle)
  | function (value : OpaqueHandle)
  | promise (value : OpaqueHandle)
  | messagePort (value : OpaqueHandle)
  | typedArray (arrayKind : TypedArrayKind) (byteOffset elementCount : UInt64) (storage : BufferStorage)

structure WireError where
  (name message : String)
  (stack code kind : Option String)
  cause : Option WireValue
  data : List (String × WireValue)

def WireError.toWireValue (error : WireError) : WireValue :=
  .error error.name error.message error.stack error.code error.kind error.cause error.data

def errorRecord (name message : String) (stack code kind : Option String) (cause : Value)
    (entries : Nat) (data : List Value) : Value :=
  record [("name", text name), ("message", text message), ("stack", optional text stack),
    ("code", optional text code), ("kind", optional text kind), ("cause", cause),
    ("data", .node (.map entries) data)]

mutual

def WireValue.toMsgPack : WireValue → Value
  | .undefined => tagged "undefined" []
  | .null => tagged "null" []
  | .bool value => tagged "bool" [("value", boolean value)]
  | .integer value => tagged "integer" [("value", Value.integer value.toInt)]
  | .float value => tagged "float" [("value", value.toMsgPack)]
  | .negativeZero => tagged "negative_zero" []
  | .nan => tagged "nan" []
  | .positiveInfinity => tagged "positive_infinity" []
  | .negativeInfinity => tagged "negative_infinity" []
  | .bigInt negative magnitudeBe =>
    tagged "big_int" [("negative", boolean negative), ("magnitude_be", binary magnitudeBe)]
  | .string value => tagged "string" [("value", text value)]
  | .bytes value => tagged "bytes" [("value", binary value)]
  | .array values => tagged "array" [("values", sequence (valuesToMsgPack values))]
  | .object entries => tagged "object" [("entries", sequence (entriesToMsgPack entries))]
  | .reference id => tagged "reference" [("id", u32ToMsgPack id)]
  | .dateMillis value => tagged "date_millis" [("value", Value.integer value.toInt)]
  | .regExp source flags => tagged "reg_exp" [("source", text source), ("flags", text flags)]
  | .error name message stack code kind cause data =>
    tagged "error" [("value", errorRecord name message stack code kind (causeToMsgPack cause)
      data.length (dataToMsgPack data))]
  | .handle value => tagged "handle" [("value", value.toMsgPack)]
  | .function value => tagged "function" [("value", value.toMsgPack)]
  | .promise value => tagged "promise" [("value", value.toMsgPack)]
  | .messagePort value => tagged "message_port" [("value", value.toMsgPack)]
  | .typedArray arrayKind byteOffset elementCount storage =>
    tagged "typed_array" [("array_kind", arrayKind.toMsgPack), ("byte_offset", u64ToMsgPack byteOffset),
      ("element_count", u64ToMsgPack elementCount), ("storage", storage.toMsgPack)]

def valuesToMsgPack : List WireValue → List Value
  | [] => []
  | value :: rest => value.toMsgPack :: valuesToMsgPack rest

def entriesToMsgPack : List (String × WireValue) → List Value
  | [] => []
  | entry :: rest => record [("key", text entry.1), ("value", entryValueToMsgPack entry)] :: entriesToMsgPack rest

def dataToMsgPack : List (String × WireValue) → List Value
  | [] => []
  | entry :: rest => text entry.1 :: entryValueToMsgPack entry :: dataToMsgPack rest

def entryValueToMsgPack : String × WireValue → Value
  | (_, value) => value.toMsgPack

def causeToMsgPack : Option WireValue → Value
  | none => absent
  | some value => value.toMsgPack

end

def WireError.toMsgPack (error : WireError) : Value :=
  errorRecord error.name error.message error.stack error.code error.kind (causeToMsgPack error.cause)
    error.data.length (dataToMsgPack error.data)

end Weregopher.Protocol
