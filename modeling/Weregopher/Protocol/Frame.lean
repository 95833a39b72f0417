import Weregopher.Lib.Bytes
import Weregopher.Lib.Outcome

/-! # Frame headers

A header is 28 bytes in little-endian order without padding. Decoding checks
the reserved bytes, the flags and the message kind.
-/
namespace Weregopher.Protocol
open Lib.Bytes Lib.Outcome

inductive MessageKind
  | hello
  | welcome
  | reject
  | loadApplication
  | applicationReady
  | applicationExit
  | call
  | callResult
  | callError
  | cancel
  | event
  | subscribe
  | unsubscribe
  | ipcSend
  | ipcInvoke
  | ipcReply
  | ipcError
  | streamOpen
  | streamWindow
  | streamData
  | streamEnd
  | streamError
  | retainHandle
  | releaseHandle
  | sharedBufferOffer
  | sharedBufferAccept
  | sharedBufferRelease
  | heartbeat
  | diagnostics
  | shutdown
  deriving DecidableEq

namespace MessageKind

def registered : List MessageKind :=
  [hello, welcome, reject, loadApplication, applicationReady, applicationExit, call, callResult, callError,
    cancel, event, subscribe, unsubscribe, ipcSend, ipcInvoke, ipcReply, ipcError, streamOpen, streamWindow,
    streamData, streamEnd, streamError, retainHandle, releaseHandle, sharedBufferOffer, sharedBufferAccept,
    sharedBufferRelease, heartbeat, diagnostics, shutdown]

def tag (kind : MessageKind) : UInt8 := UInt8.ofNat (registered.idxOf kind + 1)

end MessageKind

inductive FrameHeaderError
  | invalidLength (actual : Nat)
  | reservedBitsSet
  | unknownFlags (flags : UInt8)
  | unknownMessageKind (tag : UInt8)
  deriving DecidableEq

def MessageKind.tryFrom (value : UInt8) : Except FrameHeaderError MessageKind :=
  if value = 0 then .error (.unknownMessageKind value)
  else
    match registered[value.toNat - 1]? with
    | some kind => .ok kind
    | none => .error (.unknownMessageKind value)

theorem MessageKind.tryFrom_tag (kind : MessageKind) : tryFrom kind.tag = .ok kind := by
  cases kind <;> rfl

structure FrameHeader where
  frameLength : UInt32
  (protocolMajor protocolMinor : UInt16)
  messageKind : MessageKind
  flags : UInt8
  (requestId sequence : UInt64)
  deriving DecidableEq

def frameHeaderLen : Nat := 28

def slice (bytes : List UInt8) (start length : Nat) : List UInt8 := (bytes.drop start).take length

namespace FrameHeader

def new (frameLength : UInt32) (protocolMajor protocolMinor : UInt16) (messageKind : MessageKind)
    (requestId sequence : UInt64) : FrameHeader :=
  ⟨frameLength, protocolMajor, protocolMinor, messageKind, 0, requestId, sequence⟩

def encode (header : FrameHeader) : List UInt8 :=
  toLeBytes 4 header.frameLength.toNat ++ toLeBytes 2 header.protocolMajor.toNat ++
    toLeBytes 2 header.protocolMinor.toNat ++ [header.messageKind.tag] ++ [header.flags] ++ toLeBytes 2 0 ++
    toLeBytes 8 header.requestId.toNat ++ toLeBytes 8 header.sequence.toNat

def decode (bytes : List UInt8) : Except FrameHeaderError FrameHeader := do
  if bytes.length ≠ frameHeaderLen then throw (.invalidLength bytes.length)
  if bytes.getD 10 0 ≠ 0 ∨ bytes.getD 11 0 ≠ 0 then throw .reservedBitsSet
  if bytes.getD 9 0 ≠ 0 then throw (.unknownFlags (bytes.getD 9 0))
  let messageKind ← MessageKind.tryFrom (bytes.getD 8 0)
  return {
    frameLength := UInt32.ofNat (fromLeBytes (slice bytes 0 4))
    protocolMajor := UInt16.ofNat (fromLeBytes (slice bytes 4 2))
    protocolMinor := UInt16.ofNat (fromLeBytes (slice bytes 6 2))
    messageKind
    flags := bytes.getD 9 0
    requestId := UInt64.ofNat (fromLeBytes (slice bytes 12 8))
    sequence := UInt64.ofNat (fromLeBytes (slice bytes 20 8)) }

theorem length_encode (header : FrameHeader) : header.encode.length = frameHeaderLen := by
  simp [encode, frameHeaderLen]

theorem decode_encode {header : FrameHeader} (hFlags : header.flags = 0) : decode header.encode = .ok header := by
  have hLength : slice header.encode 0 4 = toLeBytes 4 header.frameLength.toNat := rfl
  have hMajor : slice header.encode 4 2 = toLeBytes 2 header.protocolMajor.toNat := rfl
  have hMinor : slice header.encode 6 2 = toLeBytes 2 header.protocolMinor.toNat := rfl
  have hRequest : slice header.encode 12 8 = toLeBytes 8 header.requestId.toNat := rfl
  have hSequence : slice header.encode 20 8 = toLeBytes 8 header.sequence.toNat := rfl
  have hKind : header.encode.getD 8 0 = header.messageKind.tag := rfl
  have hFlag : header.encode.getD 9 0 = 0 := hFlags
  have hReserved : header.encode.getD 10 0 = 0 ∧ header.encode.getD 11 0 = 0 := ⟨rfl, rfl⟩
  simp only [decode, guard_ok, bind_ok, pure_ok, length_encode, hReserved, hFlag, hKind, MessageKind.tryFrom_tag,
    hLength, hMajor, hMinor, hRequest, hSequence]
  rw [fromLeBytes_toLeBytes header.frameLength.toNat_lt, fromLeBytes_toLeBytes header.protocolMajor.toNat_lt,
    fromLeBytes_toLeBytes header.protocolMinor.toNat_lt, fromLeBytes_toLeBytes header.requestId.toNat_lt,
    fromLeBytes_toLeBytes header.sequence.toNat_lt]
  simp [← hFlags]

end FrameHeader

end Weregopher.Protocol
