import Weregopher.Lib.Checked
import Weregopher.Lib.SlashPath

/-! # The worker that reads lines

The worker keeps a partial line while it takes chunks off a buffered reader, which is the
list of the reads still to come. The receiver of the events is there until the worker
returns, and memory does not run out.
-/
namespace Weregopher.AppServer
open Lib.Checked

/-- The kind of a failed read, which the worker only passes on. -/
structure ReadErrorKind where
  code : Nat

inductive ReaderEvent
  | line (bytes : List UInt8)
  | eof
  | lineTooLarge
  | unterminatedLine
  | failed (kind : ReadErrorKind)

def newline : UInt8 := 0x0a

/-- The bytes that are buffered, and what the next reads give. -/
structure BufferedReader where
  buffer : List UInt8
  reads : List (Except ReadErrorKind (List UInt8))

/-- `fill_buf`: the buffer, which is filled when it is empty. -/
def BufferedReader.fillBuf (reader : BufferedReader) : Except ReadErrorKind (List UInt8) × BufferedReader :=
  if reader.buffer ≠ [] then (.ok reader.buffer, reader)
  else
    match reader.reads with
    | [] => (.ok [], reader)
    | .error kind :: rest => (.error kind, ⟨[], rest⟩)
    | .ok chunk :: rest => (.ok chunk, ⟨chunk, rest⟩)

def BufferedReader.consume (reader : BufferedReader) (amount : Nat) : BufferedReader :=
  { reader with buffer := reader.buffer.drop amount }

/-- One pass of the loop sends its last event, or goes on with the partial line and the reader it leaves. -/
inductive ReaderStep
  | stop (event : ReaderEvent) (counted : Nat)
  | next (sent : Option ReaderEvent) (line : List UInt8) (reader : BufferedReader) (counted : Nat)

def readerStep (maxLineBytes : UInt64) (line : List UInt8) (reader : BufferedReader) : ReaderStep :=
  match reader.fillBuf with
  | (.error kind, _) => .stop (.failed kind) 0
  | (.ok available, reader) =>
    if available = [] then .stop (if line = [] then .eof else .unterminatedLine) 0
    else
      let delimiter := available.findIdx? (· == newline)
      let consumed := match delimiter with | some position => position + 1 | none => available.length
      let content := delimiter.getD available.length
      match checkedAdd usizeMax line.length content with
      | none => .stop .lineTooLarge consumed
      | some nextLength =>
        if nextLength > maxLineBytes.toNat then .stop .lineTooLarge consumed
        else
          let line := line ++ available.take content
          if delimiter.isSome then .next (some (.line line)) [] (reader.consume consumed) consumed
          else .next none line (reader.consume consumed) consumed

def BufferedReader.size (reader : BufferedReader) : Nat :=
  reader.buffer.length + (reader.reads.map fun read => (read.toOption.getD []).length).sum

theorem BufferedReader.fillBuf_ok {reader filled : BufferedReader} {available : List UInt8}
    (h : reader.fillBuf = (.ok available, filled)) : filled.buffer = available ∧ filled.size = reader.size := by
  obtain ⟨buffer, reads⟩ := reader
  simp only [fillBuf] at h
  split at h
  · cases h
    exact ⟨rfl, rfl⟩
  · rename_i hEmpty
    have hBuffer : buffer = [] := by simpa using hEmpty
    subst hBuffer
    match reads with
    | [] =>
      cases h
      exact ⟨rfl, rfl⟩
    | .ok chunk :: rest =>
      cases h
      exact ⟨rfl, by simp [size, Except.toOption]⟩

theorem readerStep_size {maxLineBytes : UInt64} {line rest : List UInt8} {reader next : BufferedReader}
    {sent : Option ReaderEvent} {counted : Nat}
    (h : readerStep maxLineBytes line reader = .next sent rest next counted) : next.size < reader.size := by
  rw [readerStep] at h
  match hFill : reader.fillBuf with
  | (.error kind, filled) => simp [hFill] at h
  | (.ok available, filled) =>
    obtain ⟨hBuffer, hSize⟩ := BufferedReader.fillBuf_ok hFill
    rw [hFill] at h
    dsimp only at h
    split at h
    · cases h
    rename_i hAvailable
    have hPos := List.length_pos_iff.mpr hAvailable
    have hConsume : ∀ amount, 0 < amount → (filled.consume amount).size < reader.size := by
      intro amount hAmount
      rw [← hSize, BufferedReader.size, BufferedReader.size, BufferedReader.consume]
      simp only [hBuffer, List.length_drop]
      omega
    split at h
    · cases h
    split at h
    · cases h
    split at h
    all_goals
      simp only [ReaderStep.next.injEq] at h
      obtain ⟨-, -, rfl, -⟩ := h
      apply hConsume
      split
      · apply Nat.succ_pos
      · exact hPos

/-- The events the worker sends from a partial line on, and the bytes it has counted. -/
def readerWorker (maxLineBytes : UInt64) (line : List UInt8) (reader : BufferedReader) (observedBytes : Nat) :
    List ReaderEvent × Nat :=
  match _hStep : readerStep maxLineBytes line reader with
  | .stop event counted => ([event], saturatingAdd u64Max observedBytes counted)
  | .next sent line next counted =>
    let (events, observed) := readerWorker maxLineBytes line next (saturatingAdd u64Max observedBytes counted)
    (sent.toList ++ events, observed)
termination_by reader.size
decreasing_by exact readerStep_size _hStep

/-! ## Splitting the whole stream -/

/-- The events for the pieces between newlines, the last of which no newline ends. -/
def pieceEvents (limit : Nat) : List (List UInt8) → List ReaderEvent
  | [] => []
  | [tail] => [if tail.length > limit then .lineTooLarge else if tail = [] then .eof else .unterminatedLine]
  | line :: next :: rest =>
    if line.length > limit then [.lineTooLarge] else .line line :: pieceEvents limit (next :: rest)

def streamEvents (limit : Nat) (stream : List UInt8) : List ReaderEvent :=
  pieceEvents limit (stream.splitOn newline)

section
variable {limit : Nat} {line : List UInt8}

theorem streamEvents_end (hLine : newline ∉ line) (hLength : line.length ≤ limit) :
    streamEvents limit line = [if line = [] then .eof else .unterminatedLine] := by
  rw [streamEvents, List.splitOn_eq_singleton hLine, pieceEvents, if_neg (by omega)]

theorem streamEvents_split (hLine : newline ∉ line) (rest : List UInt8) :
    streamEvents limit (line ++ newline :: rest) =
      if line.length > limit then [.lineTooLarge] else .line line :: streamEvents limit rest := by
  rw [streamEvents, streamEvents, List.splitOn_append_cons_self, List.splitOn_eq_singleton hLine]
  match hRest : rest.splitOn newline with
  | [] => exact absurd hRest (List.splitOn_ne_nil _ _)
  | next :: others => rw [List.singleton_append, pieceEvents]

theorem streamEvents_tooLarge (hLine : newline ∉ line) (hLength : limit < line.length) (rest : List UInt8) :
    streamEvents limit (line ++ rest) = [.lineTooLarge] := by
  by_cases hRest : newline ∈ rest
  · obtain ⟨front, back, rfl, hFront⟩ := List.eq_append_cons_of_mem hRest
    have hWhole : newline ∉ line ++ front := by
      rw [List.mem_append]
      exact not_or.mpr ⟨hLine, hFront⟩
    rw [← List.append_assoc, streamEvents_split hWhole, if_pos]
    rw [List.length_append]
    omega
  · have hWhole : newline ∉ line ++ rest := by
      rw [List.mem_append]
      exact not_or.mpr ⟨hLine, hRest⟩
    rw [streamEvents, List.splitOn_eq_singleton hWhole, pieceEvents, if_pos]
    rw [List.length_append]
    omega

end

/-! ## The worker splits the stream -/

/-- No read of the reader fails or is empty, and together they give `stream`. -/
structure BufferedReader.Feeds (reader : BufferedReader) (stream : List UInt8) : Prop where
  reads : ∃ chunks : List (List UInt8), reader.reads = chunks.map .ok ∧ (∀ chunk ∈ chunks, chunk ≠ []) ∧
    stream = reader.buffer ++ chunks.flatten

theorem BufferedReader.Feeds.fillBuf {reader : BufferedReader} {stream : List UInt8} (h : reader.Feeds stream) :
    ∃ available filled, reader.fillBuf = (.ok available, filled) ∧ filled.buffer = available ∧
      filled.Feeds stream ∧ (available = [] → stream = []) := by
  obtain ⟨buffer, reads⟩ := reader
  obtain ⟨chunks, rfl, hNonempty, rfl⟩ := h.reads
  by_cases hBuffer : buffer = []
  · subst hBuffer
    match chunks with
    | [] => exact ⟨[], ⟨[], []⟩, rfl, rfl, h, fun _ => rfl⟩
    | chunk :: rest =>
      refine ⟨chunk, ⟨chunk, rest.map .ok⟩, rfl, rfl, ⟨rest, rfl, ?_, rfl⟩, ?_⟩
      · intro other hOther
        exact hNonempty other (List.mem_cons_of_mem _ hOther)
      · intro hChunk
        exact absurd hChunk (hNonempty chunk List.mem_cons_self)
  · refine ⟨buffer, ⟨buffer, _⟩, ?_, rfl, h, fun hEmpty => absurd hEmpty hBuffer⟩
    rw [BufferedReader.fillBuf, if_pos hBuffer]

theorem BufferedReader.Feeds.consume {reader : BufferedReader} {stream front back : List UInt8}
    (h : reader.Feeds stream) (hBuffer : reader.buffer = front ++ back) :
    ∃ rest, stream = front ++ rest ∧ (reader.consume front.length).Feeds rest := by
  obtain ⟨chunks, hReads, hNonempty, rfl⟩ := h.reads
  refine ⟨back ++ chunks.flatten, by rw [hBuffer, List.append_assoc], ⟨chunks, hReads, hNonempty, ?_⟩⟩
  rw [BufferedReader.consume, hBuffer, List.drop_left]

/-- A pass sends the first of the expected events, and what it leaves stands for the others. -/
def ReaderStep.Agrees (limit : Nat) (expected : List ReaderEvent) : ReaderStep → Prop
  | .stop event _ => expected = [event]
  | .next sent line reader _ => ∃ rest, reader.Feeds rest ∧ newline ∉ line ∧ line.length ≤ limit ∧
      expected = sent.toList ++ streamEvents limit (line ++ rest)

section
variable {maxLineBytes : UInt64} {line stream : List UInt8} {reader : BufferedReader}

theorem tooLarge_or_fits (maxLineBytes : UInt64) (length content : Nat) :
    (maxLineBytes.toNat < length + content ∧
      ∀ next, checkedAdd usizeMax length content = some next → next > maxLineBytes.toNat) ∨
    (length + content ≤ maxLineBytes.toNat ∧ checkedAdd usizeMax length content = some (length + content)) := by
  have hMax := maxLineBytes.toNat_lt
  by_cases hFits : length + content ≤ maxLineBytes.toNat
  · refine .inr ⟨hFits, checkedAdd_eq_some.mpr ⟨?_, rfl⟩⟩
    simp only [usizeMax, u64Max]
    omega
  · refine .inl ⟨by omega, fun next hNext => ?_⟩
    obtain ⟨-, rfl⟩ := checkedAdd_eq_some.mp hNext
    omega

theorem findIdx?_newline_none (h : newline ∉ line) : line.findIdx? (· == newline) = none := by
  rw [List.findIdx?_eq_none_iff]
  intro byte hByte
  rw [beq_eq_false_iff_ne]
  rintro rfl
  exact h hByte

theorem findIdx?_newline_some (h : newline ∉ line) (tail : List UInt8) :
    (line ++ newline :: tail).findIdx? (· == newline) = some line.length := by
  rw [List.findIdx?_append, findIdx?_newline_none h, List.findIdx?_cons]
  simp

theorem readerStep_agrees (hFeeds : reader.Feeds stream) (hLine : newline ∉ line)
    (hLength : line.length ≤ maxLineBytes.toNat) :
    (readerStep maxLineBytes line reader).Agrees maxLineBytes.toNat
      (streamEvents maxLineBytes.toNat (line ++ stream)) := by
  obtain ⟨available, filled, hFill, hBuffer, hFilled, hEnd⟩ := hFeeds.fillBuf
  rw [readerStep, hFill]
  dsimp only
  by_cases hAvailable : available = []
  · rw [if_pos hAvailable, hEnd hAvailable, List.append_nil]
    exact streamEvents_end hLine hLength
  rw [if_neg hAvailable]
  by_cases hNewline : newline ∈ available
  · -- the line is complete
    obtain ⟨content, tail, rfl, hContent⟩ := List.eq_append_cons_of_mem hNewline
    have hSplit : filled.buffer = (content ++ [newline]) ++ tail := by rw [hBuffer, List.append_cons]
    obtain ⟨rest, rfl, hRest⟩ := hFilled.consume hSplit
    have hWhole : newline ∉ line ++ content := by
      rw [List.mem_append]
      exact not_or.mpr ⟨hLine, hContent⟩
    have hStream : line ++ ((content ++ [newline]) ++ rest) = (line ++ content) ++ newline :: rest := by simp
    rw [List.length_append, List.length_singleton] at hRest
    rw [findIdx?_newline_some hContent, hStream, streamEvents_split hWhole, List.length_append]
    simp only [Option.getD_some, Option.isSome_some, if_true, List.take_left]
    rcases tooLarge_or_fits maxLineBytes line.length content.length with ⟨hLarge, hChecked⟩ | ⟨hFits, hChecked⟩
    · rw [if_pos hLarge]
      split
      · rfl
      · rename_i next hNext
        rw [if_pos (hChecked next hNext)]
        rfl
    · rw [hChecked, if_neg (by omega)]
      dsimp only
      rw [if_neg (by omega)]
      exact ⟨rest, hRest, List.not_mem_nil, Nat.zero_le _, rfl⟩
  · -- the line goes on in the next chunk
    have hSplit : filled.buffer = available ++ [] := by rw [hBuffer, List.append_nil]
    obtain ⟨rest, rfl, hRest⟩ := hFilled.consume hSplit
    have hWhole : newline ∉ line ++ available := by
      rw [List.mem_append]
      exact not_or.mpr ⟨hLine, hNewline⟩
    rw [findIdx?_newline_none hNewline, ← List.append_assoc]
    simp only [Option.getD_none, Option.isSome_none, Bool.false_eq_true, if_false, List.take_length]
    rcases tooLarge_or_fits maxLineBytes line.length available.length with ⟨hLarge, hChecked⟩ | ⟨hFits, hChecked⟩
    · rw [streamEvents_tooLarge hWhole (by rwa [List.length_append])]
      split
      · rfl
      · rename_i next hNext
        rw [if_pos (hChecked next hNext)]
        rfl
    · rw [hChecked]
      dsimp only
      rw [if_neg (by omega)]
      exact ⟨rest, hRest, hWhole, by rwa [List.length_append], rfl⟩

theorem readerWorker_events (hFeeds : reader.Feeds stream) (hLine : newline ∉ line)
    (hLength : line.length ≤ maxLineBytes.toNat) (observedBytes : Nat) :
    (readerWorker maxLineBytes line reader observedBytes).1 = streamEvents maxLineBytes.toNat (line ++ stream) := by
  fun_induction readerWorker maxLineBytes line reader observedBytes generalizing stream with
  | case1 line reader observedBytes event counted hStep =>
    have hAgrees := readerStep_agrees hFeeds hLine hLength
    rw [hStep] at hAgrees
    exact hAgrees.symm
  | case2 line reader observedBytes sent next nextReader counted hStep events observed hRun ih =>
    have hAgrees := readerStep_agrees hFeeds hLine hLength
    rw [hStep] at hAgrees
    obtain ⟨rest, hRest, hNext, hFits, hExpected⟩ := hAgrees
    rw [hExpected, ← ih hRest hNext hFits, hRun]

end

theorem reader_worker_splits_stream (maxLineBytes : UInt64) (stream : List UInt8) (chunks : List (List UInt8))
    (hCut : chunks.flatten = stream) (hChunks : ∀ chunk ∈ chunks, chunk ≠ []) :
    (readerWorker maxLineBytes [] ⟨[], chunks.map .ok⟩ 0).1 = streamEvents maxLineBytes.toNat stream := by
  have hFeeds : BufferedReader.Feeds ⟨[], chunks.map .ok⟩ stream := ⟨chunks, rfl, hChunks, hCut.symm⟩
  exact readerWorker_events hFeeds List.not_mem_nil (Nat.zero_le _) 0

/-- The line `ab` is cut in two, and `c` has no end. -/
theorem cut_line_is_whole : [[97], [98, 10, 99]].flatten = ([97, 98, 10, 99] : List UInt8) ∧
      (readerWorker 2 [] ⟨[], [[97], [98, 10, 99]].map .ok⟩ 0).1 = [.line [97, 98], .unterminatedLine] :=
  ⟨rfl, reader_worker_splits_stream 2 [97, 98, 10, 99] [[97], [98, 10, 99]] rfl (by decide)⟩

end Weregopher.AppServer
