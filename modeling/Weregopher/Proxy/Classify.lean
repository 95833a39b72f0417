import Weregopher.Lib.Transition
import Weregopher.Proxy.Message

/-! # Bounded JSON reading and message classification

The JSON library is a parameter. It shows the visitor a stream of values, elements
and keys in document order, and stops where it finds an error. The visitor charges
every value to a budget before it looks at it, so an exhausted budget is reported
even when the library would fail further on.
-/
namespace Weregopher.Proxy
open Lib.Stateful

mutual

/-- What the library hands to the visitor for one value. -/
inductive JsonStream
  | invalid (error : SerdeJsonError)
  | unit
  | bool (value : Bool)
  | i64 (value : Int64)
  | u64 (value : UInt64)
  | f64 (bits : UInt64)
  | str (value : String)
  | seq (elements : JsonElements)
  | map (entries : JsonEntries)

inductive JsonElements
  | done
  | failed (error : SerdeJsonError)
  | next (element : JsonStream) (rest : JsonElements)

inductive JsonEntries
  | done
  | failed (error : SerdeJsonError)
  | entry (key : String) (value : JsonStream) (rest : JsonEntries)

end

/-- A document is its root value and what the library says about the bytes after it. -/
structure JsonDocument where
  root : JsonStream
  trailing : Option SerdeJsonError

/-- `pos` and `neg` are the exact integers; a float is kept as its IEEE-754 bits. -/
inductive Number
  | pos (value : UInt64)
  | neg (value : Int64)
  | float (bits : UInt64)

namespace Number

def ofI64 (value : Int64) : Number := if value < 0 then .neg value else .pos value.toUInt64

/-- Non-finite floats have an exponent of all ones and are not JSON numbers. -/
def ofF64 (bits : UInt64) : Option Number :=
  if (bits >>> 52) &&& 0x7ff = 0x7ff then none else some (.float bits)

def asU64 : Number → Option UInt64
  | pos value => some value
  | _ => none

def asI64 : Number → Option Int64
  | pos value => if value.toNat < 2 ^ 63 then some (Int64.ofNat value.toNat) else none
  | neg value => some value
  | float _ => none

end Number

inductive Value
  | null
  | bool (value : Bool)
  | number (value : Number)
  | string (value : String)
  | array (values : List Value)
  | object (entries : List (String × Value))

inductive JsonViolation
  | duplicateKey
  | depth
  | nodes

structure JsonBudget where
  limits : AppServerJsonLimits
  nodes : Nat
  violation : Option JsonViolation

abbrev JsonReader := Transition JsonBudget SerdeJsonError

def JsonBudget.fail {α : Type} (violation : JsonViolation) (message : String) : JsonReader α := do
  modify fun budget => { budget with violation := some violation }
  throw (.custom message)

def JsonBudget.claim (depth : Nat) : JsonReader Unit := do
  let budget ← get
  if depth > budget.limits.depth then
    JsonBudget.fail .depth "JSON depth limit exceeded"
  else if budget.nodes ≥ budget.limits.nodes then
    JsonBudget.fail .nodes "JSON node limit exceeded"
  else
    modify fun budget => { budget with nodes := budget.nodes + 1 }

mutual

def visitValue (depth : Nat) : JsonStream → JsonReader Value
  | .invalid error => throw error
  | .unit => pure .null
  | .bool value => pure (.bool value)
  | .i64 value => pure (.number (Number.ofI64 value))
  | .u64 value => pure (.number (.pos value))
  | .f64 bits =>
    match Number.ofF64 bits with
    | some number => pure (.number number)
    | none => throw (.custom "non-finite JSON number")
  | .str value => pure (.string value)
  | .seq elements => do
    let values ← visitSeq (depth + 1) elements
    return .array values
  | .map entries => do
    let values ← visitMap (depth + 1) [] entries
    return .object values

def visitSeq (depth : Nat) : JsonElements → JsonReader (List Value)
  | .done => pure []
  | .failed error => throw error
  | .next element rest => do
    JsonBudget.claim depth
    let value ← visitValue depth element
    let values ← visitSeq depth rest
    return value :: values

def visitMap (depth : Nat) (keys : List String) : JsonEntries → JsonReader (List (String × Value))
  | .done => pure []
  | .failed error => throw error
  | .entry key value rest => do
    if key ∈ keys then
      JsonBudget.fail .duplicateKey "duplicate JSON object key"
    else
      JsonBudget.claim depth
      let value ← visitValue depth value
      let values ← visitMap depth (key :: keys) rest
      return (key, value) :: values

end

/-- The parts of the platform the proxy relies on: the JSON library, the hash and the largest
instant the monotonic clock can represent. -/
structure ProxyEnvironment where
  serdeJson : List UInt8 → JsonDocument
  sha256 : Sha256
  lastInstant : Nat

def parseBoundedJson (env : ProxyEnvironment) (bytes : List UInt8) (limits : AppServerJsonLimits) :
    Except AppServerProxyError Value :=
  let document := env.serdeJson bytes
  let read : JsonReader Value := do
    JsonBudget.claim 1
    visitValue 1 document.root
  match exec read ⟨limits, 0, none⟩ with
  | (.error source, budget) =>
    match budget.violation with
    | some .duplicateKey => .error .duplicateObjectKey
    | some .depth => .error .jsonDepthLimitExceeded
    | some .nodes => .error .jsonNodeLimitExceeded
    | none => .error (.invalidJson source)
  | (.ok value, _) =>
    match document.trailing with
    | some source => .error (.invalidJson source)
    | none => .ok value

structure ClassifiedMessage where
  kind : AppServerProxyMessageKind
  method : Option String
  requestId : Option AppServerRequestId

def maxMethodBytes : Nat := 1024

def maxRequestIdBytes : Nat := 256

def isControl (c : Char) : Bool := c.toNat ≤ 0x1f || (0x7f ≤ c.toNat && c.toNat ≤ 0x9f)

def boundedText (maximum : Nat) (value : String) : Bool :=
  value ≠ "" && value.utf8ByteSize ≤ maximum && !value.toList.any isControl

def parseRequestId : Value → Except AppServerProxyError AppServerRequestId
  | .number number =>
    match number.asU64, number.asI64 with
    | some value, _ => .ok (.unsigned value)
    | none, some value => .ok (.signed value)
    | none, none => .error .invalidRequestId
  | .string value =>
    if boundedText maxRequestIdBytes value then .ok (.text value) else .error .invalidRequestId
  | _ => .error .invalidRequestId

def classifyObject (object : List (String × Value)) :
    Except AppServerProxyError ClassifiedMessage := do
  let hasResult := (object.lookup "result").isSome
  let hasError := (object.lookup "error").isSome
  match object.lookup "method" with
  | some method =>
    if hasResult || hasError then throw .ambiguousMessageShape
    let method ← match method with
      | .string value => if boundedText maxMethodBytes value then pure value else throw .invalidMethod
      | _ => throw .invalidMethod
    match object.lookup "id" with
    | some id => do
      let requestId ← parseRequestId id
      return ⟨.request, some method, some requestId⟩
    | none => return ⟨.notification, some method, none⟩
  | none =>
    let kind : AppServerProxyMessageKind := if hasResult then .successResponse else .errorResponse
    match object.lookup "id" with
    | none => throw .ambiguousMessageShape
    | some id =>
      if hasResult == hasError then throw .ambiguousMessageShape
      match id with
      | .null => return ⟨kind, none, none⟩
      | value => do
        let requestId ← parseRequestId value
        return ⟨kind, none, some requestId⟩

variable {message : ClassifiedMessage} {object : List (String × Value)} {env : ProxyEnvironment}
  {jsonLine : List UInt8} {limits : AppServerProxyLimits} {e : AppServerProxyError}

theorem requestId_of_classifyObject
    (h : classifyObject object = .ok message) (hKind : message.kind = .request) :
    ∃ requestId, message.requestId = some requestId := by
  have hResponse (b : Bool) : (if b then AppServerProxyMessageKind.successResponse else
      .errorResponse) ≠ .request := by cases b <;> decide
  simp only [classifyObject, bind, Except.bind, pure, Except.pure, throw, throwThe,
    MonadExceptOf.throw] at h
  repeat' split at h
  all_goals first
    | cases h; done
    | (cases h; first
        | exact ⟨_, rfl⟩
        | exact absurd hKind (hResponse _)
        | cases hKind)

def isAsciiWhitespace (byte : UInt8) : Bool :=
  byte = 0x20 || byte = 0x09 || byte = 0x0a || byte = 0x0c || byte = 0x0d

def parseAndClassify (env : ProxyEnvironment) (jsonLine : List UInt8) (limits : AppServerProxyLimits) :
    Except AppServerProxyError ClassifiedMessage := do
  if jsonLine.all isAsciiWhitespace then throw .emptyLine
  if jsonLine.any (fun byte => byte = 0x0d || byte = 0x0a) then throw .embeddedLineBreak
  if jsonLine.length > limits.lineBytes then throw .lineTooLarge
  let value ← parseBoundedJson env jsonLine limits.json
  match value with
  | .object object => classifyObject object
  | _ => throw .topLevelNotObject

theorem requestId_of_parseAndClassify
    (h : parseAndClassify env jsonLine limits = .ok message) (hKind : message.kind = .request) :
    ∃ requestId, message.requestId = some requestId := by
  simp only [parseAndClassify, bind, Except.bind, throw, throwThe, MonadExceptOf.throw] at h
  repeat' split at h
  all_goals first
    | exact requestId_of_classifyObject h hKind
    | cases h

theorem parseRequestId_error {value : Value} (h : parseRequestId value = .error e) :
    e ≠ .inconsistentCorrelationState := by
  rintro rfl
  unfold parseRequestId at h
  repeat' split at h
  all_goals simp_all

theorem classifyObject_error
    (h : classifyObject object = .error e) : e ≠ .inconsistentCorrelationState := by
  rintro rfl
  simp only [classifyObject, bind, Except.bind, pure, Except.pure, throw, throwThe,
    MonadExceptOf.throw] at h
  repeat' split at h
  all_goals first
    | cases h; done
    | (cases h; rename_i hId; exact absurd rfl (parseRequestId_error hId))

theorem parseBoundedJson_error {bytes : List UInt8} {limits : AppServerJsonLimits}
    (h : parseBoundedJson env bytes limits = .error e) : e ≠ .inconsistentCorrelationState := by
  rintro rfl
  unfold parseBoundedJson at h
  dsimp only at h
  repeat' split at h
  all_goals cases h

theorem parseAndClassify_error (h : parseAndClassify env jsonLine limits = .error e) :
    e ≠ .inconsistentCorrelationState := by
  rintro rfl
  simp only [parseAndClassify, bind, Except.bind, throw, throwThe, MonadExceptOf.throw] at h
  repeat' split at h
  all_goals first
    | exact absurd rfl (classifyObject_error h)
    | (cases h; rename_i hRead; exact absurd rfl (parseBoundedJson_error hRead))
    | cases h

end Weregopher.Proxy
