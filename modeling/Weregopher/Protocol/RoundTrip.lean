import Weregopher.Lib.MsgPackWriter
import Weregopher.Protocol.Stream

/-! # What a reader returns of the frames a writer sent

The writer bounds a payload only by its bytes, while the reader counts the
values, the nesting and the lengths inside it before decoding. So a sent
message is returned exactly when its MessagePack value passes that count.
-/
namespace Weregopher.Protocol
open Lib.Bytes Lib.Checked Lib.MsgPack Lib.Stateful FramedWriter

variable {library : MessagePackLibrary} {version : ProtocolVersion} {limits : ProtocolLimits}

/-- The received messages are the sent ones, with their request identifiers and the sequence numbers
one, two, three and so on. -/
structure Delivered (sent : List SentMessage) (received : List ReceivedMessage) : Prop where
  messages : received.map (·.payload) = sent.map (·.message)
  requests : received.map (·.header.requestId) = sent.map (·.requestId)
  sequences : received.map (·.header.sequence.toNat) = List.range' 1 sent.length

theorem Stream.delivered {sent : List SentMessage} {bytes : List UInt8}
    (h : Stream library version limits 1 sent bytes) : Delivered sent (sent.map SentMessage.received) := by
  obtain ⟨hSequences, hRequests⟩ := h.headers
  refine ⟨?_, ?_, ?_⟩
  · rw [List.map_map]
    rfl
  · rw [List.map_map, ← hRequests]
    rfl
  · rw [List.map_map]
    exact hSequences

theorem new_ok {writer : FramedWriter} (h : new [] version limits = .ok writer) :
    limits.validate = .ok () ∧ writer = ⟨[], version, limits, 1⟩ := by
  rw [new] at h
  split at h
  · cases h
  · next hLimits =>
    cases h
    exact ⟨hLimits, rfl⟩

/-- Over the bytes of a run that starts with an empty output, the reader succeeds exactly when every
sent message fits. -/
theorem receiveAll_sendEach {attempts : List (UInt64 × ProtocolMessage)} {sent : List SentMessage}
    {final : FramedWriter} {received : List ReceivedMessage} (hLibrary : library.Faithful)
    (hLimits : limits.validate = .ok ())
    (hSent : sendEach library attempts ⟨[], version, limits, 1⟩ = (sent, final)) :
    ((exec (FramedReader.receiveAll library (sent.map (·.message.kind)))
        ⟨final.output, version, limits, 1⟩).1 = .ok received ↔
      received = sent.map SentMessage.received ∧ ∀ message ∈ sent, message.message.Readable limits) ∧
    Delivered sent (sent.map SentMessage.received) := by
  obtain ⟨bytes, hStream, hOutput⟩ := stream_sendEach library attempts ⟨[], version, limits, 1⟩
  rw [hSent] at hStream hOutput
  exact ⟨FramedReader.receiveAll_stream hLibrary hStream hOutput hLimits, hStream.delivered⟩

/-- A reader with the writer's version and limits returns the sent messages, numbered from one, exactly
when decoding rebuilds each of them and its MessagePack value is within the limits. -/
theorem sent_messages_delivered_iff (library : MessagePackLibrary) (hLibrary : library.Faithful)
    (version : ProtocolVersion) (limits : ProtocolLimits) (writer : FramedWriter)
    (hWriter : new [] version limits = .ok writer)
    (attempts : List (UInt64 × ProtocolMessage)) (sent : List SentMessage) (final : FramedWriter)
    (hSent : writer.sendEach library attempts = (sent, final)) :
    ∃ reader, FramedReader.new final.output version limits = .ok reader ∧
      ((∃ received rest, exec (FramedReader.receiveAll library (sent.map (·.message.kind))) reader =
          (.ok received, rest) ∧ Delivered sent received) ↔
        ∀ message ∈ sent, message.message.Readable limits) := by
  obtain ⟨hLimits, rfl⟩ := new_ok hWriter
  refine ⟨⟨final.output, version, limits, 1⟩, by simp only [FramedReader.new, hLimits], ?_, ?_⟩
  · rintro ⟨received, rest, hExec, -⟩
    exact ((receiveAll_sendEach hLibrary hLimits hSent).1.1 (congrArg Prod.fst hExec)).2
  · intro hReadable
    obtain ⟨hIff, hDelivered⟩ := receiveAll_sendEach hLibrary hLimits hSent
    exact ⟨_, _, exec_eq_of_fst (hIff.2 ⟨rfl, hReadable⟩), hDelivered⟩

section

open Classical in
/-- A library that knows one message, in its shortest encoding. -/
noncomputable def MessagePackLibrary.knowing (known : ProtocolMessage) : MessagePackLibrary where
  writeNamed message := if message = known then (write known.toMsgPack, true) else ([], false)
  fromSlice kind bytes := if kind = known.kind ∧ bytes = write known.toMsgPack then some known else none

variable {known : ProtocolMessage}

theorem writeNamed_knowing {message : ProtocolMessage} {bytes : List UInt8} :
    (MessagePackLibrary.knowing known).writeNamed message = (bytes, true) ↔
      message = known ∧ bytes = write known.toMsgPack := by
  simp only [MessagePackLibrary.knowing]
  split
  · next h => simp [h, eq_comm]
  · next h => simp [h]

theorem faithful_knowing (h : wellFormed known.toMsgPack = true) :
    (MessagePackLibrary.knowing known).Faithful where
  encodes message bytes hWritten := by
    obtain ⟨rfl, rfl⟩ := writeNamed_knowing.1 hWritten
    exact encodes_write h
  decodes message bytes hWritten := by
    obtain ⟨rfl, rfl⟩ := writeNamed_knowing.1 hWritten
    exact if_pos ⟨rfl, rfl⟩

def knownFrame (known : ProtocolMessage) (requestId sequence : UInt64) : SentMessage :=
  ⟨requestId, known, .new (UInt32.ofNat (write known.toMsgPack).length) 1 0 known.kind requestId sequence⟩

theorem one_ne : (1 : UInt16) ≠ 0 := by decide

def versionOne : ProtocolVersion := ⟨1, 0, one_ne⟩

theorem exec_send_known {writer : FramedWriter} {requestId next : UInt64} (hVersion : writer.version = versionOne)
    (hValid : known.validateMessage writer.limits = .ok ())
    (hBound : (write known.toMsgPack).length ≤ writer.limits.maxFrameBytes.toNat)
    (hNext : checkedSucc writer.nextSequence = some next) :
    exec (send (.knowing known) none requestId known) writer =
      (.ok (knownFrame known requestId writer.nextSequence).header, { writer with
        output := writer.output ++
          ((knownFrame known requestId writer.nextSequence).header.encode ++ write known.toMsgPack)
        nextSequence := next }) := by
  rw [exec_send hValid (writeNamed_knowing.2 ⟨rfl, rfl⟩) hBound hNext, hVersion]
  rfl

theorem sent_not_received (hLibrary : (MessagePackLibrary.knowing known).Faithful)
    (hValid : known.validateMessage .secureDefault = .ok ())
    (hBound : (write known.toMsgPack).length ≤ ProtocolLimits.secureDefault.maxFrameBytes.toNat)
    (hRefused : ¬known.Readable .secureDefault) (requestId : UInt64) :
    ∃ writer header final reader,
      new [] versionOne .secureDefault = .ok writer ∧
      exec (send (.knowing known) none requestId known) writer = (.ok header, final) ∧
      FramedReader.new final.output versionOne .secureDefault = .ok reader ∧
      ∀ received rest, exec (FramedReader.receive (.knowing known) known.kind) reader ≠ (.ok received, rest) := by
  let sent := knownFrame known requestId 1
  have hFramed : Framed (.knowing known) versionOne .secureDefault 1 sent (write known.toMsgPack) 2 :=
    ⟨hValid, writeNamed_knowing.2 ⟨rfl, rfl⟩, hBound, rfl, rfl⟩
  have hLimits : ProtocolLimits.secureDefault.validate = .ok () := by decide
  refine ⟨⟨[], versionOne, .secureDefault, 1⟩, sent.header,
    ⟨[] ++ (sent.header.encode ++ write known.toMsgPack), versionOne, .secureDefault, 2⟩,
    ⟨sent.header.encode ++ (write known.toMsgPack ++ []), versionOne, .secureDefault, 1⟩, ?_, ?_, ?_, ?_⟩
  · rw [new, hLimits]
  · exact exec_send_known rfl hValid hBound rfl
  · rw [FramedReader.new, hLimits, List.append_nil, List.nil_append]
  · intro received rest hReceive
    exact hRefused (FramedReader.readable_of_receive ⟨_, versionOne, .secureDefault, 1⟩ hLibrary hFramed rfl hLimits
      hReceive)

def nestedArrays : Nat → WireValue
  | 0 => .null
  | depth + 1 => .array [nestedArrays depth]

/-- Thirty-one nested arrays are 32 levels for the wire validator and 65 for the preflight: each array is
a map from its tag and its items, under the map of the message. -/
theorem nested_result_sent_not_received :
    let message := ProtocolMessage.callResult ⟨nestedArrays 31⟩
    let library := MessagePackLibrary.knowing message
    library.Faithful ∧ message.rebuild = .ok () ∧
      ∃ writer header final reader,
        new [] versionOne .secureDefault = .ok writer ∧
        exec (send library none 7 message) writer = (.ok header, final) ∧
        FramedReader.new final.output versionOne .secureDefault = .ok reader ∧
        ∀ received rest, exec (FramedReader.receive library .callResult) reader ≠ (.ok received, rest) := by
  intro message library
  have hLibrary : library.Faithful := faithful_knowing (by decide +kernel)
  have hRebuild : message.rebuild = .ok () := by decide +kernel
  refine ⟨hLibrary, hRebuild, sent_not_received hLibrary hRebuild (by decide +kernel) ?_ 7⟩
  rintro ⟨-, hFits⟩
  have hDepth : ¬depth message.toMsgPack ≤ ProtocolLimits.secureDefault.maxObjectDepth.toNat := by decide +kernel
  exact hDepth hFits.2.2

theorem permitted_utf8Bytes {limits : ProtocolLimits} {text : String}
    (h : (utf8Bytes text).length ≤ limits.maxStringBytes.toNat) :
    MessagePackCursor.Permitted limits (.str (utf8Bytes text)) := ⟨h, text.isValidUTF8⟩

theorem sendEach_known_twice (hValid : known.validateMessage .secureDefault = .ok ())
    (hBound : (write known.toMsgPack).length ≤ ProtocolLimits.secureDefault.maxFrameBytes.toNat)
    (first second : UInt64) : ∃ final, sendEach (.knowing known) [(first, known), (second, known)]
      ⟨[], versionOne, .secureDefault, 1⟩ = ([knownFrame known first 1, knownFrame known second 2], final) := by
  rw [sendEach, exec_send_known rfl hValid hBound rfl]
  simp only [sendEach]
  rw [exec_send_known rfl hValid hBound rfl]
  exact ⟨_, rfl⟩

def nullResult : ProtocolMessage := .callResult ⟨.null⟩

theorem nullResult_rebuild : nullResult.rebuild = .ok () := by decide +kernel

theorem nullResult_bound :
    (write nullResult.toMsgPack).length ≤ ProtocolLimits.secureDefault.maxFrameBytes.toNat := by decide +kernel

theorem nullResult_faithful : (MessagePackLibrary.knowing nullResult).Faithful := faithful_knowing (by decide +kernel)

theorem nullResult_fits : Fits .secureDefault nullResult.toMsgPack := by
  refine ⟨?_, by decide +kernel, by decide +kernel⟩
  exact ⟨trivial, ⟨permitted_utf8Bytes (by decide +kernel), trivial⟩,
    ⟨trivial, ⟨permitted_utf8Bytes (by decide +kernel), trivial⟩,
      ⟨permitted_utf8Bytes (by decide +kernel), trivial⟩, trivial⟩, trivial⟩

theorem two_results_delivered :
    let message := ProtocolMessage.callResult ⟨.null⟩
    let library := MessagePackLibrary.knowing message
    let sent := [knownFrame message 7 1, knownFrame message 9 2]
    ∃ writer final reader received rest,
      new [] versionOne .secureDefault = .ok writer ∧
      writer.sendEach library [(7, message), (9, message)] = (sent, final) ∧
      FramedReader.new final.output versionOne .secureDefault = .ok reader ∧
      exec (FramedReader.receiveAll library [.callResult, .callResult]) reader = (.ok received, rest) ∧
      Delivered sent received := by
  intro message library sent
  have hRebuild : message.rebuild = .ok () := nullResult_rebuild
  obtain ⟨final, hSent⟩ := sendEach_known_twice (show message.validateMessage _ = _ from hRebuild) nullResult_bound 7 9
  have hReadable : message.Readable .secureDefault := ⟨hRebuild, nullResult_fits⟩
  obtain ⟨reader, hReader, hIff⟩ :=
    sent_messages_delivered_iff library nullResult_faithful versionOne .secureDefault _ rfl _
    sent final hSent
  obtain ⟨received, rest, hExec, hDelivered⟩ := hIff.2 (by simp [sent, knownFrame, hReadable])
  exact ⟨_, final, reader, received, rest, rfl, hSent, hReader, hExec, hDelivered⟩

end

/-! ## Failing transports -/

/-- The writer after sends during each of which the transport may fail, after so many bytes. -/
def sendAll (library : MessagePackLibrary) : List (Option Nat × UInt64 × ProtocolMessage) → FramedWriter → FramedWriter
  | [], writer => writer
  | (fault, requestId, message) :: rest, writer =>
    sendAll library rest (exec (send library fault requestId message) writer).2

/-- A beginning of whole frames that are numbered from one on. -/
def OfFrames (library : MessagePackLibrary) (version : ProtocolVersion) (limits : ProtocolLimits)
    (output : List UInt8) : Prop := ∃ sent bytes, Stream library version limits 1 sent bytes ∧ output <+: bytes

/-- The send fails after the transport took some of its bytes. -/
def Tears (library : MessagePackLibrary) (writer : FramedWriter) : Option Nat × UInt64 × ProtocolMessage → Prop
  | (fault, requestId, message) => ∃ error after,
    exec (send library fault requestId message) writer = (.error error, after) ∧ after.output ≠ writer.output

variable {sends front : List (Option Nat × UInt64 × ProtocolMessage)}

theorem prefix_sendAll (writer : FramedWriter) (h : ∀ front send later back, sends = front ++ send :: later :: back →
      ¬Tears library (sendAll library front writer) send) :
    ∃ sent bytes written, Stream library writer.version writer.limits writer.nextSequence sent bytes ∧
      (sendAll library sends writer).output = writer.output ++ written ∧ written <+: bytes := by
  induction sends generalizing writer with
  | nil => exact ⟨[], [], [], .nil _, (List.append_nil _).symm, List.prefix_rfl⟩
  | cons send rest ih =>
    obtain ⟨fault, requestId, message⟩ := send
    have hRest := ih (exec (FramedWriter.send library fault requestId message) writer).2
      fun front send later back hSplit =>
        h ((fault, requestId, message) :: front) send later back (congrArg (List.cons _) hSplit)
    have hSend := wp_send library writer fault requestId message
    rw [wp] at hSend
    rw [sendAll]
    split at hSend
    · next header after hExec =>
      obtain ⟨payload, next, hFramed, rfl⟩ := hSend
      rw [hExec] at hRest
      obtain ⟨sent, bytes, written, hStream, hOutput, hPrefix⟩ := hRest
      refine ⟨_, _, header.encode ++ (payload ++ written), .cons hFramed hStream, ?_, ?_⟩
      · rw [hExec, hOutput]
        simp
      · rw [List.prefix_append_right_inj, List.prefix_append_right_inj]
        exact hPrefix
    · next error after hExec =>
      rw [hExec] at hRest ⊢
      obtain rfl | ⟨n, header, payload, next, -, hFramed, rfl⟩ := hSend
      · exact hRest
      · cases rest with
        | nil =>
          refine ⟨_, _, _, .cons hFramed (.nil next), rfl, ?_⟩
          rw [List.append_nil]
          exact List.take_prefix _ _
        | cons later =>
          have hWhole : ¬_ ≠ writer.output := fun hTorn => h [] _ later _ rfl ⟨_, _, hExec, hTorn⟩
          obtain ⟨sent, bytes, written, hStream, hOutput, hPrefix⟩ := hRest
          exact ⟨sent, bytes, written, hStream, hOutput.trans (congrArg (· ++ written) (not_not.mp hWhole)), hPrefix⟩

/-- The output is a beginning of whole frames as long as nothing is sent after a torn frame. -/
theorem output_of_frames {writer : FramedWriter} (hNew : new [] version limits = .ok writer)
    (h : ∀ front send later back, sends = front ++ send :: later :: back →
      ¬Tears library (sendAll library front writer) send) (hFront : front <+: sends) :
    OfFrames library version limits (sendAll library front writer).output := by
  obtain ⟨-, rfl⟩ := new_ok hNew
  obtain ⟨unsent, rfl⟩ := hFront
  obtain ⟨sent, bytes, written, hStream, hOutput, hPrefix⟩ := prefix_sendAll ⟨[], version, limits, 1⟩
    fun first send later back (hSplit : front = _) => h first send later (back ++ unsent) (by simp [hSplit])
  exact ⟨sent, bytes, hStream, hOutput ▸ hPrefix⟩

def shortest : MessagePackLibrary := ⟨fun message => (write message.toMsgPack, true), fun _ _ => none⟩

theorem not_tears (writer : FramedWriter) (requestId : UInt64) (message : ProtocolMessage) :
    ¬Tears library writer (none, requestId, message) := by
  rintro ⟨error, after, hExec, hTorn⟩
  obtain rfl | ⟨n, _, _, _, hFault, -⟩ := of_exec_error (wp_send library writer none requestId message) hExec
  · exact hTorn rfl
  · cases hFault

theorem torn_frame_last : OfFrames shortest versionOne .secureDefault
    (sendAll shortest [(none, 7, nullResult), (some 3, 9, nullResult)] ⟨[], versionOne, .secureDefault, 1⟩).output := by
  refine output_of_frames rfl (fun front send later back hSplit => ?_) List.prefix_rfl
  cases front with
  | nil =>
    obtain ⟨rfl, -⟩ := List.cons.inj hSplit
    exact not_tears _ _ _
  | cons =>
    have hLength := congrArg List.length hSplit
    simp at hLength
    omega

theorem frame_after_torn_frame : ¬OfFrames shortest versionOne .secureDefault
    (sendAll shortest [(some 1, 7, nullResult), (none, 7, nullResult)] ⟨[], versionOne, .secureDefault, 1⟩).output := by
  rintro ⟨sent, bytes, hStream, hPrefix⟩
  have hByte : bytes[4]? = some 0 :=
    (List.prefix_iff_getElem?.mp hPrefix 4 (by decide +kernel)).trans (by decide +kernel)
  cases hStream with
  | nil => cases hByte
  | cons hFramed hRest =>
    rw [hFramed.header] at hByte
    exact absurd (show some (1 : UInt8) = some 0 from hByte) (by decide)

end Weregopher.Protocol
