import Weregopher.Lib.Transition
import Weregopher.Protocol.Frame
import Weregopher.Protocol.Inspect
import Weregopher.Protocol.Message

/-! # The framed writer and reader

The MessagePack library is a parameter. A transport accepts all bytes of a
frame or fails after some of them; a reader's input is the bytes not read yet.
Reserving the payload is assumed to succeed.
-/
namespace Weregopher.Protocol
open Lib.Checked Lib.MsgPack Lib.Stateful

inductive ProtocolMessage
  | hello (message : RuntimeHello)
  | welcome (message : RuntimeWelcome)
  | reject (message : ProtocolReject)
  | call (message : RuntimeCall)
  | callResult (message : RuntimeCallResult)
  | callError (message : RuntimeCallError)
  | cancel (message : RuntimeCancel)
  | event (message : RuntimeEvent)
  | streamOpen (message : RuntimeStreamOpen)
  | streamWindow (message : RuntimeStreamWindow)
  | streamData (message : RuntimeStreamData)
  | shutdown (message : RuntimeShutdown)

namespace ProtocolMessage

def kind : ProtocolMessage → MessageKind
  | hello _ => .hello
  | welcome _ => .welcome
  | reject _ => .reject
  | call _ => .call
  | callResult _ => .callResult
  | callError _ => .callError
  | cancel _ => .cancel
  | event _ => .event
  | streamOpen _ => .streamOpen
  | streamWindow _ => .streamWindow
  | streamData _ => .streamData
  | shutdown _ => .shutdown

def toMsgPack : ProtocolMessage → Value
  | hello message => message.toMsgPack
  | welcome message => message.toMsgPack
  | reject message => message.toMsgPack
  | call message => message.toMsgPack
  | callResult message => message.toMsgPack
  | callError message => message.toMsgPack
  | cancel message => message.toMsgPack
  | event message => message.toMsgPack
  | streamOpen message => message.toMsgPack
  | streamWindow message => message.toMsgPack
  | streamData message => message.toMsgPack
  | shutdown message => message.toMsgPack

def validateMessage (message : ProtocolMessage) (limits : ProtocolLimits) : Checked Unit :=
  match message with
  | hello message => checkLimits message.requestedLimits
  | welcome message => checkLimits message.limits
  | call message => message.validate limits
  | callResult message => message.validate limits
  | callError message => message.validate limits
  | event message => message.validate limits
  | streamData message => message.validate limits
  | reject _ | cancel _ | streamOpen _ | streamWindow _ | shutdown _ => .ok ()

/-- What deserialization checks of the decoded fields. Messages that depend on limits are rebuilt
under the default ones; the others only check what their types carry. -/
def rebuild : ProtocolMessage → Checked Unit
  | call message => do
    message.target.rebuild
    message.validate .secureDefault
  | callResult message => message.validate .secureDefault
  | callError message => message.validate .secureDefault
  | event message => message.validate .secureDefault
  | streamData message => message.validate .secureDefault
  | hello _ | welcome _ | reject _ | cancel _ | streamOpen _ | streamWindow _ | shutdown _ => .ok ()

end ProtocolMessage

/-- `writeNamed` gives the bytes handed to the output and whether serialization completed;
`fromSlice` decodes the fields of a message, before they are checked. -/
structure MessagePackLibrary where
  writeNamed : ProtocolMessage → List UInt8 × Bool
  fromSlice : MessageKind → List UInt8 → Option ProtocolMessage

/-- A completed serialization is an encoding of the message's value, and is decoded to the message. -/
structure MessagePackLibrary.Faithful (library : MessagePackLibrary) : Prop where
  encodes : ∀ message bytes, library.writeNamed message = (bytes, true) → Encodes message.toMsgPack bytes
  decodes : ∀ message bytes, library.writeNamed message = (bytes, true) →
    library.fromSlice message.kind bytes = some message

inductive FrameWriteError
  | invalidLimits (source : ProtocolLimitError)
  | invalidMessage (source : RuntimeProtocolContractError)
  | encode
  | frameTooLarge (maximum : UInt32)
  | sequenceExhausted
  | io

structure SentMessage where
  requestId : UInt64
  message : ProtocolMessage
  header : FrameHeader

structure FramedWriter where
  output : List UInt8
  version : ProtocolVersion
  limits : ProtocolLimits
  nextSequence : UInt64

namespace FramedWriter

def new (output : List UInt8) (version : ProtocolVersion) (limits : ProtocolLimits) :
    Except FrameWriteError FramedWriter :=
  match limits.validate with
  | .error source => .error (.invalidLimits source)
  | .ok () => .ok ⟨output, version, limits, 1⟩

/-- Serialization into the bounded payload: exceeding the bound hides an encoding failure. -/
def boundedPayload (library : MessagePackLibrary) (maximum : UInt32) (message : ProtocolMessage) :
    Except FrameWriteError (List UInt8) :=
  match library.writeNamed message with
  | (bytes, complete) =>
    if bytes.length > maximum.toNat then .error (.frameTooLarge maximum)
    else if complete then .ok bytes
    else .error .encode

/-- With `fault = some n` the transport fails after `n` bytes of the frame. -/
def writeAll (fault : Option Nat) (bytes : List UInt8) : Transition FramedWriter FrameWriteError Unit :=
  match fault with
  | none => modify fun writer => { writer with output := writer.output ++ bytes }
  | some n => do
    modify fun writer => { writer with output := writer.output ++ bytes.take n }
    throw .io

def liftInvalidMessage (result : Checked Unit) : Except FrameWriteError Unit :=
  match result with
  | .ok () => .ok ()
  | .error source => .error (.invalidMessage source)

def send (library : MessagePackLibrary) (fault : Option Nat) (requestId : UInt64) (message : ProtocolMessage) :
    Transition FramedWriter FrameWriteError FrameHeader := do
  let writer ← get
  liftInvalidMessage (message.validateMessage writer.limits)
  let payload ← boundedPayload library writer.limits.maxFrameBytes message
  if payload.length > u32Max then throw (.frameTooLarge writer.limits.maxFrameBytes)
  match checkedSucc writer.nextSequence with
  | none => throw .sequenceExhausted
  | some nextSequence => do
    let header := FrameHeader.new (UInt32.ofNat payload.length) writer.version.major writer.version.minor
      message.kind requestId writer.nextSequence
    writeAll fault (header.encode ++ payload)
    modify fun writer => { writer with nextSequence }
    return header

/-- The messages sent over a transport that does not fail; a refused message is skipped. -/
def sendEach (library : MessagePackLibrary) :
    List (UInt64 × ProtocolMessage) → FramedWriter → List SentMessage × FramedWriter
  | [], writer => ([], writer)
  | (requestId, message) :: rest, writer =>
    match exec (send library none requestId message) writer with
    | (.ok header, writer) =>
      let (sent, writer) := sendEach library rest writer
      (⟨requestId, message, header⟩ :: sent, writer)
    | (.error _, writer) => sendEach library rest writer

end FramedWriter

inductive FrameReadError
  | invalidLimits (source : ProtocolLimitError)
  | invalidHeader (source : FrameHeaderError)
  | frameTooLarge (maximum actual : UInt32)
  | unexpectedVersion (expectedMajor expectedMinor actualMajor actualMinor : UInt16)
  | unexpectedSequence (expected actual : UInt64)
  | unexpectedMessageKind (expected actual : MessageKind)
  | invalidMessagePack (source : MessagePackError)
  | decode
  | invalidMessage (source : RuntimeProtocolContractError)
  | sequenceExhausted
  | io
  deriving DecidableEq

structure ReceivedMessage where
  header : FrameHeader
  payload : ProtocolMessage

structure FramedReader where
  input : List UInt8
  version : ProtocolVersion
  limits : ProtocolLimits
  nextSequence : UInt64

namespace FramedReader

def new (input : List UInt8) (version : ProtocolVersion) (limits : ProtocolLimits) :
    Except FrameReadError FramedReader :=
  match limits.validate with
  | .error source => .error (.invalidLimits source)
  | .ok () => .ok ⟨input, version, limits, 1⟩

/-- An input that ends early is used up. -/
def readExact (length : Nat) : Transition FramedReader FrameReadError (List UInt8) := do
  let reader ← get
  modify fun reader => { reader with input := reader.input.drop length }
  if reader.input.length < length then throw .io
  return reader.input.take length

def liftInvalidHeader (result : Except FrameHeaderError FrameHeader) : Except FrameReadError FrameHeader :=
  match result with
  | .ok header => .ok header
  | .error source => .error (.invalidHeader source)

def checkHeader (reader : FramedReader) (kind : MessageKind) (header : FrameHeader) : Except FrameReadError Unit :=
  if header.frameLength > reader.limits.maxFrameBytes then
    .error (.frameTooLarge reader.limits.maxFrameBytes header.frameLength)
  else if header.protocolMajor ≠ reader.version.major ∨ header.protocolMinor ≠ reader.version.minor then
    .error (.unexpectedVersion reader.version.major reader.version.minor header.protocolMajor
      header.protocolMinor)
  else if header.sequence ≠ reader.nextSequence then
    .error (.unexpectedSequence reader.nextSequence header.sequence)
  else if header.messageKind ≠ kind then
    .error (.unexpectedMessageKind kind header.messageKind)
  else
    .ok ()

def deserialize (library : MessagePackLibrary) (kind : MessageKind) (payload : List UInt8) :
    Except FrameReadError ProtocolMessage :=
  match library.fromSlice kind payload with
  | none => .error .decode
  | some message =>
    match message.rebuild with
    | .error _ => .error .decode
    | .ok () => .ok message

def openPayload (library : MessagePackLibrary) (limits : ProtocolLimits) (kind : MessageKind)
    (payload : List UInt8) : Except FrameReadError ProtocolMessage :=
  match inspectMessagepack payload limits with
  | .error source => .error (.invalidMessagePack source)
  | .ok _ => do
    let message ← deserialize library kind payload
    match message.validateMessage limits with
    | .error source => throw (.invalidMessage source)
    | .ok () => return message

def receive (library : MessagePackLibrary) (kind : MessageKind) :
    Transition FramedReader FrameReadError ReceivedMessage := do
  let headerBytes ← readExact frameHeaderLen
  let header ← liftInvalidHeader (FrameHeader.decode headerBytes)
  let reader ← get
  checkHeader reader kind header
  let payloadBytes ← readExact header.frameLength.toNat
  let payload ← openPayload library reader.limits kind payloadBytes
  match checkedSucc reader.nextSequence with
  | none => throw .sequenceExhausted
  | some nextSequence => do
    modify fun reader => { reader with nextSequence }
    return ⟨header, payload⟩

def receiveAll (library : MessagePackLibrary) :
    List MessageKind → Transition FramedReader FrameReadError (List ReceivedMessage)
  | [] => return []
  | kind :: rest => do
    let message ← receive library kind
    let messages ← receiveAll library rest
    return message :: messages

end FramedReader

end Weregopher.Protocol
