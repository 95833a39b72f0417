import Weregopher.Lib.MsgPackCodec
import Weregopher.Protocol.Framing
import Weregopher.Protocol.Preflight

/-! # Streams of frames

What a run of sends leaves on the output, and what a reader makes of it: after
the header of a sent frame is read, only the payload's preflight can fail.
-/
namespace Weregopher.Protocol
open Lib.Checked Lib.MsgPack Lib.Outcome Lib.Stateful

def Fits (limits : ProtocolLimits) (value : Value) : Prop :=
  EveryHead (MessagePackCursor.Permitted limits) value ∧ nodes value ≤ limits.maxGraphNodes.toNat ∧
    depth value ≤ limits.maxObjectDepth.toNat

/-- What the reader asks of a message beyond the checks of the writer. -/
def ProtocolMessage.Readable (message : ProtocolMessage) (limits : ProtocolLimits) : Prop :=
  message.rebuild = .ok () ∧ Fits limits message.toMsgPack

section

variable (library : MessagePackLibrary) (version : ProtocolVersion) (limits : ProtocolLimits)

/-- What a successful send establishes about its message and payload. -/
structure Framed (sequence : UInt64) (sent : SentMessage) (payload : List UInt8) (next : UInt64) : Prop where
  valid : sent.message.validateMessage limits = .ok ()
  written : library.writeNamed sent.message = (payload, true)
  bounded : payload.length ≤ limits.maxFrameBytes.toNat
  succ : checkedSucc sequence = some next
  header : sent.header = FrameHeader.new (UInt32.ofNat payload.length) version.major version.minor
    sent.message.kind sent.requestId sequence

inductive Stream : UInt64 → List SentMessage → List UInt8 → Prop
  | nil (sequence : UInt64) : Stream sequence [] []
  | cons {sequence next : UInt64} {sent : SentMessage} {rest : List SentMessage} {payload bytes : List UInt8}
      (hFramed : Framed library version limits sequence sent payload next) (hRest : Stream next rest bytes) :
      Stream sequence (sent :: rest) (sent.header.encode ++ (payload ++ bytes))

end

variable {library : MessagePackLibrary} {version : ProtocolVersion} {limits : ProtocolLimits}

theorem u32_ofNat_length {payload : List UInt8} (h : payload.length ≤ limits.maxFrameBytes.toNat) :
    (UInt32.ofNat payload.length).toNat = payload.length := by
  have hBound := limits.maxFrameBytes.toNat_lt
  rw [UInt32.toNat_ofNat']
  omega

namespace FramedWriter

variable {message : ProtocolMessage} {payload : List UInt8}

theorem boundedPayload_ok {maximum : UInt32} : boundedPayload library maximum message = .ok payload ↔
      library.writeNamed message = (payload, true) ∧ payload.length ≤ maximum.toNat := by
  rcases hWritten : library.writeNamed message with ⟨bytes, complete⟩
  rw [boundedPayload, hWritten]
  simp only [ite_error_ok, Prod.mk.injEq, Nat.not_lt]
  constructor
  · rintro ⟨hBound, h⟩
    cases complete with
    | false => cases h
    | true =>
      obtain rfl : bytes = payload := Except.ok.inj h
      exact ⟨⟨rfl, rfl⟩, hBound⟩
  · rintro ⟨⟨rfl, rfl⟩, hBound⟩
    exact ⟨hBound, rfl⟩

theorem liftInvalidMessage_ok {result : Checked Unit} : liftInvalidMessage result = .ok () ↔ result = .ok () := by
  cases result <;> simp [liftInvalidMessage]

theorem wp_send (library : MessagePackLibrary) (writer : FramedWriter) (fault : Option Nat) (requestId : UInt64)
    (message : ProtocolMessage) : wp (send library fault requestId message) writer
      (fun header after => ∃ payload next,
        Framed library writer.version writer.limits writer.nextSequence ⟨requestId, message, header⟩ payload next ∧
          after = { writer with output := writer.output ++ (header.encode ++ payload), nextSequence := next })
      (fun _ after => after = writer ∨ ∃ n header payload next, fault = some n ∧
        Framed library writer.version writer.limits writer.nextSequence ⟨requestId, message, header⟩ payload next ∧
          after = { writer with output := writer.output ++ (header.encode ++ payload).take n }) := by
  unfold send
  simp only [wp_bind, wp_get, wp_lift]
  refine ⟨fun _ hValid => ⟨fun payload hPayload => ?_, fun _ _ => .inl trivial⟩, fun _ _ => .inl trivial⟩
  obtain ⟨hWritten, hBound⟩ := boundedPayload_ok.1 hPayload
  refine wp_ite.2 ⟨fun _ => .inl (rfl : writer = writer), fun _ => ?_⟩
  cases hNext : checkedSucc writer.nextSequence with
  | none => exact .inl rfl
  | some next =>
    have hValid := liftInvalidMessage_ok.1 hValid
    cases fault with
    | none => exact ⟨payload, next, ⟨hValid, hWritten, hBound, hNext, rfl⟩, rfl⟩
    | some n => exact .inr ⟨n, _, payload, next, rfl, ⟨hValid, hWritten, hBound, hNext, rfl⟩, rfl⟩

theorem exec_send {writer : FramedWriter} {requestId next : UInt64}
    (hValid : message.validateMessage writer.limits = .ok ())
    (hWritten : library.writeNamed message = (payload, true))
    (hBound : payload.length ≤ writer.limits.maxFrameBytes.toNat)
    (hNext : checkedSucc writer.nextSequence = some next) :
    let header := FrameHeader.new (UInt32.ofNat payload.length) writer.version.major writer.version.minor
      message.kind requestId writer.nextSequence
    exec (send library none requestId message) writer =
      (.ok header, { writer with output := writer.output ++ (header.encode ++ payload), nextSequence := next }) := by
  have hPayload := boundedPayload_ok.2 ⟨hWritten, hBound⟩
  have hWord : ¬payload.length > u32Max := by
    have := writer.limits.maxFrameBytes.toNat_lt
    simp only [u32Max]
    omega
  simp only [send, exec_bind, exec_get, exec_lift, hValid, liftInvalidMessage, hPayload]
  rw [if_neg hWord, hNext]
  rfl

theorem stream_sendEach (library : MessagePackLibrary) (attempts : List (UInt64 × ProtocolMessage))
    (writer : FramedWriter) :
    ∃ bytes, Stream library writer.version writer.limits writer.nextSequence
        (sendEach library attempts writer).1 bytes ∧
      (sendEach library attempts writer).2.output = writer.output ++ bytes := by
  induction attempts generalizing writer with
  | nil => exact ⟨[], .nil _, (List.append_nil _).symm⟩
  | cons attempt rest ih =>
    obtain ⟨requestId, message⟩ := attempt
    have hSend := wp_send library writer none requestId message
    rw [wp] at hSend
    rw [sendEach]
    split at hSend
    · next header after hExec =>
      obtain ⟨payload, next, hFramed, rfl⟩ := hSend
      obtain ⟨bytes, hStream, hOutput⟩ := ih { writer with
        output := writer.output ++ (header.encode ++ payload), nextSequence := next }
      refine ⟨header.encode ++ (payload ++ bytes), ?_, ?_⟩
      · rw [hExec]
        exact .cons hFramed hStream
      · rw [hExec]
        change (sendEach library rest _).2.output = _
        rw [hOutput]
        simp
    · next error after hExec =>
      obtain rfl | ⟨_, _, _, _, hFault, -⟩ := hSend
      · rw [hExec]
        exact ih after
      · cases hFault

end FramedWriter

namespace SentMessage

def received (sent : SentMessage) : ReceivedMessage := ⟨sent.header, sent.message⟩

end SentMessage

namespace FramedReader

variable {bytes rest payload : List UInt8} {reader : FramedReader} {next sequence : UInt64} {sent : SentMessage}

theorem exec_readExact {length : Nat} (hInput : reader.input = bytes ++ rest) (hLength : bytes.length = length) :
    exec (readExact length) reader = (.ok bytes, { reader with input := rest }) := by
  subst hLength
  have hEnough : ¬reader.input.length < bytes.length := by
    rw [hInput, List.length_append]
    omega
  simp only [readExact, exec_bind, exec_get, exec_modify]
  rw [if_neg hEnough, exec_pure, hInput, List.take_left, List.drop_left]

theorem checkHeader_framed
    (h : Framed library reader.version reader.limits reader.nextSequence sent payload next) :
    reader.checkHeader sent.message.kind sent.header = .ok () := by
  have hLength : ¬UInt32.ofNat payload.length > reader.limits.maxFrameBytes := by
    rw [gt_iff_lt, UInt32.lt_iff_toNat_lt, u32_ofNat_length h.bounded]
    exact Nat.not_lt.2 h.bounded
  rw [h.header]
  simp [checkHeader, FrameHeader.new, hLength]

theorem exec_receive
    (h : Framed library reader.version reader.limits reader.nextSequence sent payload next)
    (hInput : reader.input = sent.header.encode ++ (payload ++ rest)) :
    exec (receive library sent.message.kind) reader =
      match openPayload library reader.limits sent.message.kind payload with
      | .ok message => (.ok ⟨sent.header, message⟩, { reader with input := rest, nextSequence := next })
      | .error error => (.error error, { reader with input := rest }) := by
  have hHeader := exec_readExact hInput sent.header.length_encode
  have hDecode : FrameHeader.decode sent.header.encode = .ok sent.header :=
    FrameHeader.decode_encode (by rw [h.header]; rfl)
  have hLength : payload.length = sent.header.frameLength.toNat := by
    rw [h.header]
    exact (u32_ofNat_length h.bounded).symm
  have hPayload : exec (readExact _) { reader with input := payload ++ rest } =
      (.ok payload, { reader with input := rest }) := exec_readExact rfl hLength
  have hCheck : checkHeader { reader with input := payload ++ rest } sent.message.kind sent.header = .ok () :=
    checkHeader_framed h
  rw [receive, exec_bind, hHeader]
  simp only [exec_bind, exec_lift, exec_get, hDecode, liftInvalidHeader, hCheck, hPayload]
  cases openPayload library reader.limits sent.message.kind payload with
  | error error => rfl
  | ok message => simp only [h.succ, exec_bind, exec_modify, exec_pure]

theorem deserialize_framed {message : ProtocolMessage}
    (hLibrary : library.Faithful) (h : Framed library version limits sequence sent payload next) :
    deserialize library sent.message.kind payload = .ok message ↔
      message = sent.message ∧ sent.message.rebuild = .ok () := by
  rw [deserialize, hLibrary.decodes _ _ h.written]
  cases hRebuild : sent.message.rebuild with
  | error source => simp [hRebuild]
  | ok => simp [hRebuild, eq_comm]

/-- An encoding belongs to one value, so the preflight counts the value that the message has. -/
theorem inspectMessagepack_written
    (hLibrary : library.Faithful) (h : Framed library version limits sequence sent payload next)
    (hLimits : limits.validate = .ok ()) :
    (∃ budget, inspectMessagepack payload limits = .ok budget) ↔ Fits limits sent.message.toMsgPack := by
  have hEncodes := hLibrary.encodes _ _ h.written
  constructor
  · rintro ⟨budget, hInspect⟩
    obtain ⟨-, -, value, hValue, hEvery, hNodes, hDepth, -⟩ := inspectMessagepack_ok_iff.1 hInspect
    obtain ⟨rfl, -, -⟩ := hValue.unique hEncodes (congrArg (· ++ []) rfl)
    exact ⟨hEvery, hNodes, hDepth⟩
  · rintro ⟨hEvery, hNodes, hDepth⟩
    have hPositive := depth_pos sent.message.toMsgPack
    have hLe := depth_le_nodes sent.message.toMsgPack
    exact ⟨⟨_, _, hPositive.trans_le hLe, hPositive, hLe⟩, inspectMessagepack_ok_iff.2
      ⟨hLimits, h.bounded, _, hEncodes, hEvery, hNodes, hDepth, rfl, rfl⟩⟩

theorem openPayload_framed {message : ProtocolMessage} (hLibrary : library.Faithful)
    (h : Framed library version limits sequence sent payload next) (hLimits : limits.validate = .ok ()) :
    openPayload library limits sent.message.kind payload = .ok message ↔
      message = sent.message ∧ sent.message.Readable limits := by
  rw [ProtocolMessage.Readable, ← inspectMessagepack_written hLibrary h hLimits, openPayload]
  cases hInspect : inspectMessagepack payload limits with
  | error source => simp
  | ok budget =>
    simp only [bind_ok, deserialize_framed hLibrary h, Except.ok.injEq, exists_eq', and_true]
    constructor
    · rintro ⟨_, ⟨rfl, hRebuild⟩, hValid⟩
      rw [h.valid] at hValid
      exact ⟨(pure_ok.mp hValid).symm, hRebuild⟩
    · rintro ⟨rfl, hRebuild⟩
      exact ⟨_, ⟨rfl, hRebuild⟩, by rw [h.valid]; rfl⟩

theorem readable_of_receive (reader : FramedReader) {rest : FramedReader}
    {received : ReceivedMessage} (hLibrary : library.Faithful)
    (h : Framed library reader.version reader.limits reader.nextSequence sent payload next)
    (hInput : reader.input = sent.header.encode ++ (payload ++ bytes)) (hLimits : reader.limits.validate = .ok ())
    (hReceive : exec (receive library sent.message.kind) reader = (.ok received, rest)) :
    sent.message.Readable reader.limits := by
  rw [exec_receive h hInput] at hReceive
  cases hOpen : openPayload library reader.limits sent.message.kind payload with
  | error error =>
    rw [hOpen] at hReceive
    cases hReceive
  | ok message => exact ((openPayload_framed hLibrary h hLimits).1 hOpen).2

theorem receiveAll_stream {sent : List SentMessage} {received : List ReceivedMessage} (hLibrary : library.Faithful)
    (hStream : Stream library reader.version reader.limits reader.nextSequence sent bytes)
    (hInput : reader.input = bytes) (hLimits : reader.limits.validate = .ok ()) :
    (exec (receiveAll library (sent.map (·.message.kind))) reader).1 = .ok received ↔
      received = sent.map SentMessage.received ∧ ∀ message ∈ sent, message.message.Readable reader.limits := by
  induction sent generalizing reader bytes received with
  | nil => simp [receiveAll, eq_comm]
  | cons first rest ih =>
    obtain - | @⟨_, next, _, _, payload, bytes, hFramed, hRest⟩ := hStream
    rw [List.map_cons, receiveAll, exec_bind, exec_receive hFramed hInput]
    cases hPayload : openPayload library reader.limits first.message.kind payload with
    | error error =>
      have hRefused : ¬first.message.Readable reader.limits := fun hReadable => by
        cases hPayload.symm.trans ((openPayload_framed hLibrary hFramed hLimits).2 ⟨rfl, hReadable⟩)
      simp [hRefused]
    | ok message =>
      obtain ⟨rfl, hReadable⟩ := (openPayload_framed hLibrary hFramed hLimits).1 hPayload
      have hTail (tail : List ReceivedMessage) :
          (exec (receiveAll library (rest.map (·.message.kind)))
            { reader with input := bytes, nextSequence := next }).1 = .ok tail ↔ _ :=
        ih hRest rfl hLimits
      rcases hExec : exec (receiveAll library (rest.map (·.message.kind)))
        { reader with input := bytes, nextSequence := next } with ⟨outcome, final⟩
      rw [hExec] at hTail
      simp only [exec_bind, hExec, List.map_cons, List.forall_mem_cons, hReadable, true_and]
      cases outcome with
      | error error =>
        have hRefused : ¬∀ message ∈ rest, message.message.Readable reader.limits := fun hRestReadable => by
          cases (hTail _).2 ⟨rfl, hRestReadable⟩
        simp [hRefused]
      | ok tail =>
        obtain ⟨rfl, hRestReadable⟩ := (hTail tail).1 rfl
        simp only [exec_pure, Except.ok.injEq]
        exact ⟨fun hReceived => ⟨hReceived.symm, hRestReadable⟩, fun hReceived => hReceived.1.symm⟩

end FramedReader

theorem Stream.headers {sequence : UInt64} {sent : List SentMessage} {bytes : List UInt8}
    (h : Stream library version limits sequence sent bytes) :
    sent.map (·.header.sequence.toNat) = List.range' sequence.toNat sent.length ∧
      sent.map (·.header.requestId) = sent.map (·.requestId) := by
  induction h with
  | nil sequence => exact ⟨rfl, rfl⟩
  | @cons sequence next first rest payload bytes hFramed hRest ih =>
    obtain ⟨hSequences, hRequests⟩ := ih
    have hNext := checkedSucc_toNat hFramed.succ
    have hHeader := hFramed.header
    constructor
    · rw [List.map_cons, hSequences, List.length_cons, List.range'_succ, hNext, hHeader]
      rfl
    · rw [List.map_cons, hRequests, List.map_cons, hHeader]
      rfl

end Weregopher.Protocol
