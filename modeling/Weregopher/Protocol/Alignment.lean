import Weregopher.Protocol.RoundTrip

/-! # Where a reader starts to read

A call that refuses a frame by its header leaves the payload unread, so the next
call starts inside that frame. Every other call leaves the reader at the end of one.
-/
namespace Weregopher.Protocol
open Lib.Checked Lib.MsgPack Lib.Stateful FramedReader FrameHeader

structure Frame where
  header : FrameHeader
  payload : List UInt8
  flags_zero : header.flags = 0
  length_payload : payload.length = header.frameLength.toNat

namespace Frame

def bytes (frame : Frame) : List UInt8 := frame.header.encode ++ frame.payload

def concat (frames : List Frame) : List UInt8 := frames.flatMap bytes

theorem concat_cons (frame : Frame) (rest : List Frame) :
    concat (frame :: rest) = frame.header.encode ++ (frame.payload ++ concat rest) := by
  rw [concat, List.flatMap_cons, bytes, List.append_assoc, concat]

theorem length_concat_append (front back : List Frame) :
    (concat (front ++ back)).length = (concat front).length + (concat back).length := by
  rw [concat, List.flatMap_append, List.length_append, concat, concat]

end Frame

namespace FramedReader

def receiveEach (library : MessagePackLibrary) (kinds : List MessageKind) (reader : FramedReader) : FramedReader :=
  kinds.foldl (fun reader kind => (exec (receive library kind) reader).2) reader

def AtFrame (frames : List Frame) (reader : FramedReader) (rest : List Frame) : Prop :=
  (∃ front, frames = front ++ rest) ∧ reader.input = Frame.concat rest

/-- The call starts at a frame, and a message that it returns is the one in that frame. -/
def ReadsFrame (library : MessagePackLibrary) (frames : List Frame) (reader : FramedReader) (kind : MessageKind) :
    Prop :=
  ∃ rest, AtFrame frames reader rest ∧
    ∀ message after, exec (receive library kind) reader = (.ok message, after) →
      ∃ frame tail, rest = frame :: tail ∧ message.header = frame.header ∧
        openPayload library reader.limits kind frame.payload = .ok message.payload

/-- The header in front of the reader is accepted for the requested kind, or announces no payload. -/
def TakesPayload (reader : FramedReader) (kind : MessageKind) : Prop :=
  ∀ header, decode (reader.input.take frameHeaderLen) = .ok header →
    header.frameLength = 0 ∨ reader.checkHeader kind header = .ok ()

variable {library : MessagePackLibrary} {reader : FramedReader} {kind : MessageKind}

theorem receive_end (h : reader.input = []) : exec (receive library kind) reader = (.error .io, reader) := by
  have hRead : exec (readExact frameHeaderLen) reader = (.error .io, reader) := by
    simp only [readExact, exec_bind, exec_get, exec_modify]
    rw [if_pos (by rw [h]; decide), exec_bind, exec_throw, h, List.drop_nil, ← h]
  rw [receive, exec_bind, hRead]

variable {frame : Frame} {rest : List UInt8} {frames : List Frame}

theorem receive_refused {error : FrameReadError}
    (hInput : reader.input = frame.header.encode ++ (frame.payload ++ rest))
    (hCheck : reader.checkHeader kind frame.header = .error error) :
    exec (receive library kind) reader = (.error error, { reader with input := frame.payload ++ rest }) := by
  have hHeader := exec_readExact hInput frame.header.length_encode
  have hDecode := decode_encode frame.flags_zero
  have hSame : checkHeader { reader with input := frame.payload ++ rest } kind frame.header = .error error := hCheck
  rw [receive, exec_bind, hHeader]
  simp [exec_bind, hDecode, liftInvalidHeader, hSame]

/-- A frame whose header is accepted: it is read whole, whatever its payload holds. -/
theorem receive_accepted (library : MessagePackLibrary)
    (hInput : reader.input = frame.header.encode ++ (frame.payload ++ rest))
    (hCheck : reader.checkHeader kind frame.header = .ok ()) :
    ∃ outcome next, exec (receive library kind) reader =
        (outcome, { reader with input := rest, nextSequence := next }) ∧
      ∀ message, outcome = .ok message → message.header = frame.header ∧
        openPayload library reader.limits kind frame.payload = .ok message.payload := by
  have hHeader := exec_readExact hInput frame.header.length_encode
  have hDecode := decode_encode frame.flags_zero
  have hPayload : exec (readExact _) { reader with input := frame.payload ++ rest } =
      (.ok frame.payload, { reader with input := rest }) := exec_readExact rfl frame.length_payload
  have hSame : checkHeader { reader with input := frame.payload ++ rest } kind frame.header = .ok () := hCheck
  rw [receive, exec_bind, hHeader]
  simp only [exec_bind, exec_lift, exec_get, hDecode, liftInvalidHeader, hSame, hPayload]
  cases openPayload library reader.limits kind frame.payload with
  | error error => exact ⟨.error error, reader.nextSequence, rfl, by simp⟩
  | ok message =>
    cases checkedSucc reader.nextSequence with
    | none => exact ⟨.error .sequenceExhausted, reader.nextSequence, rfl, by simp⟩
    | some next =>
      refine ⟨.ok ⟨frame.header, message⟩, next, rfl, ?_⟩
      rintro _ ⟨⟩
      exact ⟨rfl, rfl⟩

theorem decode_atFrame (hInput : reader.input = frame.header.encode ++ (frame.payload ++ rest)) :
    decode (reader.input.take frameHeaderLen) = .ok frame.header := by
  rw [hInput, ← frame.header.length_encode, List.take_left, decode_encode frame.flags_zero]

theorem receiveEach_concat (front : List MessageKind) (kind : MessageKind) (reader : FramedReader) :
    receiveEach library (front ++ [kind]) reader =
      (exec (receive library kind) (receiveEach library front reader)).2 := by
  rw [receiveEach, List.foldl_append]
  rfl

theorem AtFrame.readsFrame {rest : List Frame} (h : AtFrame frames reader rest) :
    ReadsFrame library frames reader kind := by
  refine ⟨rest, h, fun message after hExec => ?_⟩
  cases rest with
  | nil =>
    rw [receive_end h.2] at hExec
    cases hExec
  | cons frame tail =>
    have hInput := h.2.trans (Frame.concat_cons frame tail)
    cases hCheck : reader.checkHeader kind frame.header with
    | error error =>
      rw [receive_refused hInput hCheck] at hExec
      cases hExec
    | ok =>
      obtain ⟨outcome, next, hReceive, hOutcome⟩ := receive_accepted library hInput hCheck
      rw [hReceive] at hExec
      exact ⟨frame, tail, rfl, hOutcome message (congrArg Prod.fst hExec)⟩

/-- The step: a call that takes the payload ends at a frame again. -/
theorem AtFrame.receive {rest : List Frame} (h : AtFrame frames reader rest) (hTakes : TakesPayload reader kind) :
    ∃ rest', AtFrame frames (exec (receive library kind) reader).2 rest' := by
  cases rest with
  | nil =>
    rw [receive_end h.2]
    exact ⟨[], h⟩
  | cons frame tail =>
    obtain ⟨⟨front, hFrames⟩, hConcat⟩ := h
    have hInput := hConcat.trans (Frame.concat_cons frame tail)
    have hTail : ∃ front, frames = front ++ tail := ⟨front ++ [frame], by rw [hFrames, List.append_assoc]; rfl⟩
    cases hCheck : reader.checkHeader kind frame.header with
    | error error =>
      have hEmpty : frame.payload = [] := by
        rcases hTakes frame.header (decode_atFrame hInput) with hZero | hOk
        · apply List.eq_nil_of_length_eq_zero
          rw [frame.length_payload, hZero]
          rfl
        · cases hCheck.symm.trans hOk
      rw [receive_refused hInput hCheck]
      exact ⟨tail, hTail, by rw [hEmpty]; rfl⟩
    | ok =>
      obtain ⟨outcome, next, hReceive, -⟩ := receive_accepted library hInput hCheck
      rw [hReceive]
      exact ⟨tail, hTail, rfl⟩

theorem not_atFrame_payload {front tail rest : List Frame} (hPayload : frame.payload ≠ [])
    (hInput : reader.input = frame.payload ++ Frame.concat tail) :
    ¬AtFrame (front ++ frame :: tail) reader rest := by
  rintro ⟨⟨before, hFrames⟩, hConcat⟩
  have hLength : (Frame.concat rest).length = frame.payload.length + (Frame.concat tail).length := by
    rw [← hConcat, hInput, List.length_append]
  have hPositive : 0 < frame.payload.length := List.length_pos_iff.2 hPayload
  rcases List.append_eq_append_iff.1 hFrames with ⟨middle, rfl, hTail⟩ | ⟨middle, rfl, hRest⟩
  · -- the suffix starts after the frame, or at it
    cases middle with
    | nil =>
      rw [List.nil_append] at hTail
      subst hTail
      rw [Frame.concat_cons] at hLength
      simp only [List.length_append, length_encode, frameHeaderLen] at hLength
      omega
    | cons first middle =>
      rw [List.cons_append] at hTail
      obtain ⟨rfl, rfl⟩ := List.cons.inj hTail
      rw [Frame.length_concat_append] at hLength
      omega
  · rw [hRest, Frame.length_concat_append, Frame.concat_cons] at hLength
    simp only [List.length_append, length_encode, frameHeaderLen] at hLength
    omega

theorem takesPayload_of_atFrame {rest rest' : List Frame} (h : AtFrame frames reader rest)
    (hNext : AtFrame frames (exec (receive library kind) reader).2 rest') : TakesPayload reader kind := by
  intro header hDecode
  obtain ⟨⟨front, rfl⟩, hConcat⟩ := h
  cases rest with
  | nil =>
    rw [hConcat] at hDecode
    cases hDecode
  | cons frame tail =>
    have hInput := hConcat.trans (Frame.concat_cons frame tail)
    rw [decode_atFrame hInput] at hDecode
    cases hDecode
    cases hCheck : reader.checkHeader kind frame.header with
    | ok => exact .inr rfl
    | error error =>
      rw [receive_refused hInput hCheck] at hNext
      refine .inl ?_
      by_contra hLength
      refine not_atFrame_payload (fun hEmpty => hLength ?_) rfl hNext
      apply UInt32.toNat_inj.1
      rw [← frame.length_payload, hEmpty]
      rfl

/-- Every call of a run reads a frame of the stream if and only if no call that is followed by another
one refuses a frame with a payload by its header. -/
theorem calls_read_frames_iff (library : MessagePackLibrary) (version : ProtocolVersion) (limits : ProtocolLimits)
    (sequence : UInt64) (frames : List Frame) (kinds : List MessageKind) :
    let reader : FramedReader := ⟨Frame.concat frames, version, limits, sequence⟩
    (∀ front kind back, kinds = front ++ kind :: back →
        ReadsFrame library frames (receiveEach library front reader) kind) ↔
      ∀ front kind next back, kinds = front ++ kind :: next :: back →
        TakesPayload (receiveEach library front reader) kind := by
  intro reader
  constructor
  · intro hReads front kind next back hKinds
    obtain ⟨rest, hRest, -⟩ := hReads front kind (next :: back) hKinds
    obtain ⟨rest', hRest', -⟩ := hReads (front ++ [kind]) next back (by simp [hKinds])
    rw [receiveEach_concat] at hRest'
    exact takesPayload_of_atFrame hRest hRest'
  · intro hTakes front kind back hKinds
    -- induction on the calls before: each of them is followed by another one
    suffices hFrame : ∃ rest, AtFrame frames (receiveEach library front reader) rest by
      obtain ⟨rest, hRest⟩ := hFrame
      exact hRest.readsFrame
    induction front using List.reverseRecOn generalizing kind back with
    | nil => exact ⟨frames, ⟨[], rfl⟩, rfl⟩
    | append_singleton front last ih =>
      have hSplit : kinds = front ++ last :: kind :: back := by simp [hKinds]
      obtain ⟨rest, hRest⟩ := ih last (kind :: back) hSplit
      rw [receiveEach_concat]
      exact hRest.receive (hTakes front last kind back hSplit)

theorem receive_invalid {header : List UInt8} {error : FrameHeaderError} (hInput : reader.input = header ++ rest)
    (hLength : header.length = frameHeaderLen) (hDecode : decode header = .error error) :
    exec (receive library kind) reader = (.error (.invalidHeader error), { reader with input := rest }) := by
  have hHeader := exec_readExact hInput hLength
  rw [receive, exec_bind, hHeader]
  simp [exec_bind, hDecode, liftInvalidHeader]

end FramedReader

section

/-- A result that a peer put into the bytes of a stream. -/
def hiddenFrame : List UInt8 := (knownFrame nullResult 7 1).header.encode ++ write nullResult.toMsgPack

def carrier : ProtocolMessage := .streamData ⟨⟨2, 1, 1⟩, 1, List.replicate 19 255 ++ hiddenFrame⟩

/-- The frame of the stream data, whose payload has the hidden frame after three times 28 bytes. -/
def carrierFrame : Frame where
  header := (knownFrame carrier 0 1).header
  payload := write carrier.toMsgPack
  flags_zero := rfl
  length_payload := by decide +kernel

def sampleReader (input : List UInt8) : FramedReader := ⟨input, versionOne, .secureDefault, 1⟩

theorem receiveEach_carrier : receiveEach (.knowing nullResult) (List.replicate 4 .callResult)
    (sampleReader (Frame.concat [carrierFrame])) = sampleReader hiddenFrame := by
  have hRefused : exec (receive (.knowing nullResult) .callResult)
      (sampleReader (Frame.concat [carrierFrame])) =
        (.error (.unexpectedMessageKind .callResult .streamData), sampleReader (carrierFrame.payload ++ [])) :=
    receive_refused (Frame.concat_cons carrierFrame []) (by decide +kernel)
  have hSkip (input : List UInt8) (hLength : (input.take 28).length = 28)
      (hDecode : decode (input.take 28) = .error .reservedBitsSet) :
      (exec (receive (.knowing nullResult) .callResult) (sampleReader input)).2 =
        sampleReader (input.drop 28) := by
    rw [receive_invalid (List.take_append_drop 28 input).symm hLength hDecode]
    rfl
  have hRest : (((carrierFrame.payload ++ []).drop 28).drop 28).drop 28 = hiddenFrame := by decide +kernel
  simp only [receiveEach, List.replicate, List.foldl_cons, List.foldl_nil, hRefused]
  rw [hSkip _ (by decide +kernel) (by decide +kernel), hSkip _ (by decide +kernel) (by decide +kernel),
    hSkip _ (by decide +kernel) (by decide +kernel), hRest]

theorem receive_known {known : ProtocolMessage} (hLibrary : (MessagePackLibrary.knowing known).Faithful)
    (hRebuild : known.rebuild = .ok ()) (hValid : known.validateMessage .secureDefault = .ok ())
    (hBound : (write known.toMsgPack).length ≤ ProtocolLimits.secureDefault.maxFrameBytes.toNat)
    (hFits : Fits .secureDefault known.toMsgPack) (requestId : UInt64) :
    exec (receive (.knowing known) known.kind)
        (sampleReader ((knownFrame known requestId 1).header.encode ++ write known.toMsgPack)) =
      (.ok ⟨(knownFrame known requestId 1).header, known⟩, ⟨[], versionOne, .secureDefault, 2⟩) := by
  let sent := knownFrame known requestId 1
  have hFramed : Framed (.knowing known) versionOne .secureDefault 1 sent (write known.toMsgPack) 2 :=
    ⟨hValid, writeNamed_knowing.2 ⟨rfl, rfl⟩, hBound, rfl, rfl⟩
  have hOpen := (openPayload_framed hLibrary hFramed (by decide)).2 ⟨rfl, hRebuild, hFits⟩
  have hInput : (sampleReader (sent.header.encode ++ write known.toMsgPack)).input =
      sent.header.encode ++ (write known.toMsgPack ++ []) := by
    rw [List.append_nil]
    rfl
  have hReceive := exec_receive hFramed hInput
  simp only [sampleReader, hOpen] at hReceive
  exact hReceive

theorem receive_hidden : exec (receive (.knowing nullResult) .callResult) (sampleReader hiddenFrame) =
    (.ok ⟨(knownFrame nullResult 7 1).header, nullResult⟩, ⟨[], versionOne, .secureDefault, 2⟩) :=
  receive_known nullResult_faithful nullResult_rebuild nullResult_rebuild nullResult_bound nullResult_fits 7

/-- Five calls on a stream of one valid frame: the last one returns a message out of its payload. -/
theorem hidden_frame_returned :
    let library := MessagePackLibrary.knowing nullResult
    let reader := sampleReader (Frame.concat [carrierFrame])
    carrier.validateMessage .secureDefault = .ok () ∧
      (∃ message after, exec (receive library .callResult)
          (receiveEach library (List.replicate 4 .callResult) reader) = (.ok message, after) ∧
        ∀ frame ∈ [carrierFrame], message.header ≠ frame.header) ∧
      ¬∀ front kind back, List.replicate 5 MessageKind.callResult = front ++ kind :: back →
        ReadsFrame library [carrierFrame] (receiveEach library front reader) kind := by
  intro library reader
  have hLast : exec (receive library .callResult)
      (receiveEach library (List.replicate 4 .callResult) reader) =
        (.ok ⟨(knownFrame nullResult 7 1).header, nullResult⟩, ⟨[], versionOne, .secureDefault, 2⟩) := by
    rw [receiveEach_carrier]
    exact receive_hidden
  have hOther : ∀ frame ∈ [carrierFrame], (knownFrame nullResult 7 1).header ≠ frame.header := by
    intro frame hFrame
    rw [List.mem_singleton.1 hFrame]
    decide +kernel
  refine ⟨by decide +kernel, ⟨_, _, hLast, hOther⟩, fun hReads => ?_⟩
  obtain ⟨rest, ⟨⟨front, hFrames⟩, -⟩, hMessage⟩ := hReads (List.replicate 4 .callResult) .callResult [] rfl
  obtain ⟨frame, tail, rfl, hHeader, -⟩ := hMessage _ _ hLast
  have hMember : frame ∈ [carrierFrame] := by
    rw [hFrames]
    exact List.mem_append_right front List.mem_cons_self
  exact hOther frame hMember hHeader

end

end Weregopher.Protocol
