import Weregopher.Transform.SourceMap

/-! # Line starts and positions of a text

The scans of the source count a CR at once and correct themselves when a LF follows. They
agree with the positions of the text at every place that is not within a CR LF.
-/
namespace Weregopher.Transform
open Lib.Checked Lib.Outcome Lib.TextPosition SourceMapError

/-- The failures of an emission that outgrows a limit or the range of a machine integer. -/
def SourceMapError.IsSize : SourceMapError → Prop
  | sourceTooLarge _ _ | transformedSourceTooLarge _ _ | segmentCountOverflow | segmentLimitExceeded _ _
  | offsetOverflow | positionOverflow | positionDeltaOutOfRange | sourceMapLengthOverflow | sourceMapTooLarge _ _ =>
    True
  | _ => False

def SourceMapError.IsOverflow : SourceMapError → Prop
  | segmentCountOverflow | offsetOverflow | positionOverflow | positionDeltaOutOfRange | sourceMapLengthOverflow => True
  | _ => False

/-- Where no number is above the bound, the failure needs a bound above every machine integer. -/
def SourceMapError.Overflows (bound : Nat) (error : SourceMapError) : Prop := error.IsOverflow ∧ i64Max < bound

theorem SourceMapError.Overflows.isSize {bound : Nat} {error : SourceMapError} (h : error.Overflows bound) :
    error.IsSize := by
  obtain ⟨hOverflow, -⟩ := h
  cases error <;> trivial

section

variable {bound : Nat}

theorem yields_checkedAdd {error : SourceMapError} (hError : error.IsOverflow) {a b : Nat} (h : a + b ≤ bound) :
    Yields (Overflows bound) (· = a + b) (okOr error (checkedAdd usizeMax a b)) := by
  have hRange : i64Max < usizeMax := by decide
  refine yields_okOr (fun hNone => ⟨hError, ?_⟩) fun c hc => ?_
  · have hOverflow := checkedAdd_eq_none.mp hNone
    omega
  · exact (checkedAdd_eq_some.mp hc).2.symm

theorem yields_add {error : SourceMapError} (hError : error.IsOverflow) {a b : Nat} (h : a + b ≤ bound)
    {next : Nat → Except SourceMapError α} (hNext : Yields (Overflows bound) Q (next (a + b))) :
    Yields (Overflows bound) Q (okOr error (checkedAdd usizeMax a b) >>= next) := by
  apply yields_bind (yields_checkedAdd hError h)
  rintro _ rfl
  exact hNext

/-! ## The characters that matter -/

def SplitsCrLf (previousWasCr : Bool) (rest : List Char) : Prop := previousWasCr = true ∧ rest.head? = some '\n'

theorem endsLine_cr (rest : List Char) : endsLine '\r' rest = true ↔ ¬SplitsCrLf true rest := by
  simp [endsLine, SplitsCrLf]

variable {c : Char}

theorem endsLine_terminator (h : c = '\n' ∨ c = '\u2028' ∨ c = '\u2029') (rest : List Char) :
    endsLine c rest = true := by
  rcases h with rfl | rfl | rfl <;> rfl

theorem endsLine_other (hCr : c ≠ '\r') (h : ¬(c = '\n' ∨ c = '\u2028' ∨ c = '\u2029')) (rest : List Char) :
    endsLine c rest = false := by
  simp only [not_or] at h
  simp [endsLine, hCr, h.1, h.2.1, h.2.2]

theorem not_splitsCrLf_false (rest : List Char) : ¬SplitsCrLf false rest := fun h => nomatch h.1

variable {previousWasCr : Bool} {rest : List Char}

theorem not_splitsCrLf_cons (h : c ≠ '\n') :
    ¬SplitsCrLf previousWasCr (c :: rest) := fun hSplits => h (Option.some.inj hSplits.2)

variable {α : Type}

/-- What a scan has found: one line more than there is within a CR LF. -/
def Found (previousWasCr : Bool) (rest : List Char) (found ahead settled : α) : Prop :=
  (SplitsCrLf previousWasCr rest → found = ahead) ∧ (¬SplitsCrLf previousWasCr rest → found = settled)

theorem Found.settled {found ahead settled : α}
    (h : Found previousWasCr rest found ahead settled) (hWhole : ¬SplitsCrLf previousWasCr rest) : found = settled :=
  h.2 hWhole

theorem found_false (rest : List Char) {found settled : α} (ahead : α) (h : found = settled) :
    Found false rest found ahead settled :=
  ⟨fun hSplit => absurd hSplit (not_splitsCrLf_false rest), fun _ => h⟩

theorem found_cr {found ahead settled : α}
    (hSplit : endsLine '\r' rest = false → found = ahead) (hWhole : endsLine '\r' rest = true → found = settled) :
    Found true rest found ahead settled := by
  refine ⟨fun h => hSplit ?_, fun h => hWhole ((endsLine_cr rest).mpr h)⟩
  rw [Bool.eq_false_iff]
  exact fun hEnds => (endsLine_cr rest).mp hEnds h

/-! ## Line starts -/

theorem yields_countStep {count lines : Nat}
    (h : Found previousWasCr (c :: rest) count (lines + 1) lines) (hBound : lines + 1 ≤ bound) :
    Yields (Overflows bound)
      (fun state => Found state.2 rest state.1 (lines + (endsLine c rest).toNat + 1) (lines + (endsLine c rest).toNat))
      (countStep (count, previousWasCr) c) := by
  rw [countStep]
  refine yields_ite ?_ fun hCr => yields_ite ?_ fun hCrLf => yields_ite ?_ fun hOther => ?_
  · rintro rfl
    have hCount := h.settled (not_splitsCrLf_cons (by decide))
    refine yields_add (by trivial) (by omega) ?_
    refine yields_pure (found_cr ?_ ?_) <;>
    · intro hEnds
      rw [hEnds, hCount]
      rfl
  · rintro ⟨rfl, hPrevious⟩
    have hCount := h.1 ⟨hPrevious, rfl⟩
    exact yields_pure (found_false rest _ hCount)
  · intro hTerminator
    have hCount := h.settled fun hSplits => hCrLf ⟨Option.some.inj hSplits.2, hSplits.1⟩
    refine yields_add (by trivial) (by omega) ?_
    refine yields_pure (found_false rest _ ?_)
    rw [endsLine_terminator hTerminator, hCount]
    rfl
  · have hCount := h.settled fun hSplits => hOther (.inl (Option.some.inj hSplits.2))
    refine yields_pure (found_false rest _ ?_)
    rw [endsLine_other hCr hOther, hCount]
    rfl

variable {text : List Char}

theorem yields_count {count lines : Nat}
    (h : Found previousWasCr text count (lines + 1) lines) (hBound : lines + byteLength text ≤ bound) (offset : Nat) :
    Yields (Overflows bound) (fun state => state.1 = lines + (lineStartsFrom offset text).length)
      (text.foldlM countStep (count, previousWasCr)) := by
  induction text generalizing previousWasCr count lines offset with
  | nil => exact h.settled fun hSplits => nomatch hSplits.2
  | cons c rest ih =>
    have hSize := c.utf8Size_pos
    have hLine := Bool.toNat_le (endsLine c rest)
    rw [byteLength_cons] at hBound
    rw [List.foldlM_cons]
    refine yields_bind (yields_countStep h (by omega)) fun state hState => ?_
    refine (ih hState (by omega) (offset + c.utf8Size)).mono fun last hLast => ?_
    rw [hLast, lineStartsFrom]
    cases endsLine c rest with
    | true =>
      simp only [Bool.toNat_true, if_true, List.length_cons]
      omega
    | false => simp

theorem yields_countLineStarts (hBound : 1 + byteLength text ≤ bound) :
    Yields (Overflows bound) (· = (lineStarts text).length) (countLineStarts text) := by
  have hStart : Found false text 1 (1 + 1) 1 := found_false text _ rfl
  refine yields_bind (yields_count hStart hBound 0) fun state hState => ?_
  apply yields_pure
  rw [hState, lineStarts, List.length_cons, Nat.add_comm]

theorem yields_collectStep {starts lines : List Nat} {offset : Nat}
    (h : Found previousWasCr (c :: rest) starts (lines ++ [offset]) lines) (hBound : offset + c.utf8Size ≤ bound) :
    Yields (Overflows bound)
      (fun state => ∃ next, next = (if endsLine c rest then lines ++ [offset + c.utf8Size] else lines) ∧
        Found state.2 rest state.1 (next ++ [offset + c.utf8Size]) next)
      (collectStep (starts, previousWasCr) (offset, c)) := by
  rw [collectStep]
  refine yields_ite ?_ fun hCr => yields_ite ?_ fun hCrLf => yields_ite ?_ fun hOther => ?_
  · rintro rfl
    have hStarts := h.settled (not_splitsCrLf_cons (by decide))
    refine yields_add (by trivial) hBound ?_
    refine yields_pure ⟨_, rfl, found_cr ?_ ?_⟩ <;>
    · intro hEnds
      rw [hEnds, hStarts]
      rfl
  · rintro ⟨rfl, hPrevious⟩
    have hStarts := h.1 ⟨hPrevious, rfl⟩
    refine yields_guard (fun hEmpty => absurd (hStarts.symm.trans hEmpty) (by simp)) fun _ => ?_
    refine yields_add (by trivial) hBound ?_
    refine yields_pure ⟨_, rfl, found_false rest _ ?_⟩
    rw [hStarts, List.dropLast_concat]
    rfl
  · intro hTerminator
    have hStarts := h.settled fun hSplits => hCrLf ⟨Option.some.inj hSplits.2, hSplits.1⟩
    refine yields_add (by trivial) hBound ?_
    refine yields_pure ⟨_, rfl, found_false rest _ ?_⟩
    rw [endsLine_terminator hTerminator, hStarts]
    rfl
  · have hStarts := h.settled fun hSplits => hOther (.inl (Option.some.inj hSplits.2))
    refine yields_pure ⟨_, rfl, found_false rest _ ?_⟩
    rw [endsLine_other hCr hOther, hStarts]
    rfl

theorem yields_collect {starts lines : List Nat} {offset : Nat}
    (h : Found previousWasCr text starts (lines ++ [offset]) lines) (hBound : offset + byteLength text ≤ bound) :
    Yields (Overflows bound) (fun state => state.1 = lines ++ lineStartsFrom offset text)
      ((charIndicesFrom offset text).foldlM collectStep (starts, previousWasCr)) := by
  induction text generalizing previousWasCr starts lines offset with
  | nil =>
    rw [lineStartsFrom, List.append_nil]
    exact h.settled fun hSplits => by cases hSplits.2
  | cons c rest ih =>
    rw [byteLength_cons] at hBound
    rw [charIndicesFrom, List.foldlM_cons]
    apply yields_bind (yields_collectStep h (by omega))
    rintro state ⟨next, hNext, hState⟩
    refine (ih hState (by omega)).mono fun last hLast => ?_
    rw [hLast, hNext, lineStartsFrom]
    cases endsLine c rest with
    | true => simp
    | false => simp

theorem yields_collectLineStarts (hBound : byteLength text ≤ bound) :
    Yields (Overflows bound) (· = lineStarts text) (collectLineStarts text (lineStarts text).length) := by
  have hStart : Found false text [0] ([0] ++ [0]) [0] := found_false text _ rfl
  refine yields_bind (yields_collect hStart (by omega)) fun state hState => ?_
  refine yields_guard (fun hLength => absurd (congrArg List.length hState) hLength) fun _ => ?_
  exact yields_pure hState

/-! ## Positions -/

variable {scan : Scan}

theorem yields_read {p : Position} (h : Found scan.previousWasCr (c :: rest) scan.position ⟨p.line + 1, 0⟩ p)
    (hLine : p.line + 1 ≤ bound) (hColumn : p.column + utf16Length c ≤ bound) (nextCursor : Nat) :
    Yields (Overflows bound)
      (fun next => next.byteCursor = nextCursor ∧ (next.previousWasCr = true → c = '\r') ∧
        Found next.previousWasCr rest next.position ⟨(p.next c rest).line + 1, 0⟩ (p.next c rest))
      (scan.read nextCursor c) := by
  rw [Scan.read, Position.next]
  refine yields_ite ?_ fun hCr => yields_ite ?_ fun hCrLf => yields_ite ?_ fun hOther => ?_
  · rintro rfl
    have hPosition : scan.position = p := h.settled (not_splitsCrLf_cons (by decide))
    rw [← hPosition] at hLine
    refine yields_add (by trivial) hLine ?_
    refine yields_pure ⟨rfl, fun _ => rfl, found_cr ?_ ?_⟩ <;>
    · intro hEnds
      rw [hEnds, ← hPosition]
      rfl
  · rintro ⟨rfl, hPrevious⟩
    have hPosition : scan.position = ⟨p.line + 1, 0⟩ := h.1 ⟨hPrevious, rfl⟩
    refine yields_pure ⟨rfl, by simp, found_false rest _ ?_⟩
    have hLine : scan.line = p.line + 1 := congrArg Position.line hPosition
    rw [Scan.position, hLine]
    rfl
  · intro hTerminator
    have hPosition : scan.position = p :=
      h.settled fun hSplits => hCrLf ⟨Option.some.inj hSplits.2, hSplits.1⟩
    rw [← hPosition] at hLine
    refine yields_add (by trivial) hLine ?_
    refine yields_pure ⟨rfl, by simp, found_false rest _ ?_⟩
    rw [endsLine_terminator hTerminator, ← hPosition]
    rfl
  · have hPosition : scan.position = p := h.settled fun hSplits => hOther (.inl (Option.some.inj hSplits.2))
    rw [← hPosition] at hColumn
    refine yields_add (by trivial) hColumn ?_
    refine yields_pure ⟨rfl, by simp, found_false rest _ ?_⟩
    rw [endsLine_other hCr hOther, ← hPosition]
    rfl

def Whole (before after : List Char) : Prop := ¬(before.getLast? = some '\r' ∧ after.head? = some '\n')

structure ScannedTo (before after : List Char) (scan : Scan) : Prop where
  cursor : scan.byteCursor = byteLength before
  cr : scan.previousWasCr = true → before.getLast? = some '\r'
  found : Found scan.previousWasCr after scan.position ⟨(position before after).line + 1, 0⟩ (position before after)

theorem ScannedTo.position_eq {before after : List Char} (h : ScannedTo before after scan)
    (hWhole : Whole before after) : scan.position = position before after :=
  h.found.settled fun hSplits => hWhole ⟨h.cr hSplits.1, hSplits.2⟩

theorem yields_scanTo {before after : List Char} (between : List Char)
    (h : ScannedTo before (between ++ after) scan) {target : Nat}
    (hTarget : target = byteLength before + byteLength between) (hBound : target ≤ bound) :
    Yields (Overflows bound)
      (fun result => result.1 = charIndicesFrom target after ∧ ScannedTo (before ++ between) after result.2)
      (scanTo target (charIndicesFrom (byteLength before) (between ++ after)) scan) := by
  induction between generalizing before scan with
  | nil =>
    have hStop : ¬scan.byteCursor < target := by
      rw [h.cursor, hTarget]
      exact Nat.lt_irrefl _
    have hHere : byteLength before = target := hTarget.symm
    rw [List.nil_append, hHere, List.append_nil]
    cases after with
    | nil =>
      rw [charIndicesFrom, scanTo, if_neg hStop]
      exact yields_pure ⟨rfl, h⟩
    | cons c rest =>
      rw [charIndicesFrom, scanTo, if_neg hStop]
      exact yields_pure ⟨rfl, h⟩
  | cons c between ih =>
    have hSize := c.utf8Size_pos
    rw [byteLength_cons] at hTarget
    rw [List.cons_append, charIndicesFrom, scanTo, if_pos (by rw [h.cursor]; omega)]
    refine yields_guard (fun hIndex => absurd h.cursor.symm hIndex) fun _ => ?_
    refine yields_add (by trivial) (by omega) ?_
    refine yields_guard (fun hBeyond => absurd hBeyond (by omega)) fun _ => ?_
    have hPlace := position_le before (c :: between ++ after)
    have hWidth := utf16Length_le c
    apply yields_bind (yields_read h.found (by omega) (by omega) _)
    rintro next ⟨hCursor, hCr, hFound⟩
    have hBefore : byteLength (before ++ [c]) = byteLength before + c.utf8Size := by simp
    have hPosition : position (before ++ [c]) (between ++ after) =
        (position before (c :: between ++ after)).next c (between ++ after) := by
      rw [position, positionFrom_append]
      rfl
    have hNext : ScannedTo (before ++ [c]) (between ++ after) next := by
      refine ⟨hCursor.trans hBefore.symm, fun hPrevious => ?_, ?_⟩
      · rw [List.getLast?_concat, hCr hPrevious]
      · rw [hPosition]
        exact hFound
    have hRest := ih hNext (by rw [hBefore]; omega)
    rw [hBefore, List.append_assoc] at hRest
    exact hRest

theorem isCharBoundary_append (before after : List Char) :
    isCharBoundary (before ++ after) (byteLength before) = true := by
  rw [isCharBoundary, Bool.or_eq_true, beq_iff_eq, List.any_eq_true]
  cases after with
  | nil => exact .inl (by rw [List.append_nil])
  | cons c after =>
    refine .inr ⟨(byteLength before, c), ?_, beq_self_eq_true _⟩
    have hMem : ∀ offset, (offset + byteLength before, c) ∈ charIndicesFrom offset (before ++ c :: after) := by
      induction before with
      | nil =>
        intro offset
        exact List.mem_cons_self
      | cons d before ih =>
        intro offset
        rw [byteLength_cons, ← Nat.add_assoc]
        exact List.mem_cons_of_mem _ (ih _)
    have hStart := hMem 0
    rwa [Nat.zero_add] at hStart

theorem exists_of_mem_charIndicesFrom {offset index : Nat}
    (h : (index, c) ∈ charIndicesFrom offset text) :
    ∃ before after, text = before ++ c :: after ∧ index = offset + byteLength before := by
  induction text generalizing offset with
  | nil => cases h
  | cons d rest ih =>
    rcases List.mem_cons.mp h with hFirst | hRest
    · cases hFirst
      exact ⟨[], rest, rfl, rfl⟩
    · obtain ⟨before, after, rfl, rfl⟩ := ih hRest
      refine ⟨d :: before, after, rfl, ?_⟩
      rw [byteLength_cons, Nat.add_assoc]

theorem exists_of_isCharBoundary {offset : Nat} (h : isCharBoundary text offset = true) :
    ∃ before after, text = before ++ after ∧ offset = byteLength before := by
  rw [isCharBoundary, Bool.or_eq_true, beq_iff_eq, List.any_eq_true] at h
  rcases h with rfl | ⟨⟨index, c⟩, hMem, hIndex⟩
  · exact ⟨text, [], (List.append_nil text).symm, rfl⟩
  · obtain ⟨before, after, rfl, hBefore⟩ := exists_of_mem_charIndicesFrom hMem
    have hOffset : index = offset := by simpa using hIndex
    exact ⟨before, c :: after, rfl, by omega⟩

structure Cut (text : List Char) where
  (before after : List Char)
  text_eq : before ++ after = text

def Cut.offset {text : List Char} (cut : Cut text) : Nat := byteLength cut.before

def Cut.position {text : List Char} (cut : Cut text) : Position := Lib.TextPosition.position cut.before cut.after

theorem Cut.offset_le (cut : Cut text) : cut.offset ≤ byteLength text := by
  obtain ⟨before, after, rfl⟩ := cut
  rw [Cut.offset, byteLength_append]
  exact Nat.le_add_right _ _

theorem Cut.isCharBoundary (cut : Cut text) : isCharBoundary text cut.offset = true := by
  obtain ⟨before, after, rfl⟩ := cut
  exact isCharBoundary_append before after

theorem yields_resolveFrom {cuts : List (Cut text)} (hWhole : ∀ cut ∈ cuts, Whole cut.before cut.after)
    (hSorted : cuts.Pairwise fun cut later => cut.offset ≤ later.offset) (reached : Cut text)
    (hReached : ∀ cut ∈ cuts, reached.offset ≤ cut.offset) (h : ScannedTo reached.before reached.after scan)
    (hBound : byteLength text ≤ bound) : Yields (Overflows bound) (· = cuts.map Cut.position)
      (resolveFrom text (cuts.map Cut.offset) reached.offset (charIndicesFrom reached.offset reached.after) scan) := by
  induction cuts generalizing reached scan with
  | nil => exact yields_pure rfl
  | cons cut cuts ih =>
    have hFirst := hReached cut List.mem_cons_self
    unfold resolveFrom
    refine yields_guard ?_ fun _ => ?_
    · have hLength := cut.offset_le
      rw [cut.isCharBoundary]
      simp only [Bool.not_true, Bool.false_eq_true, or_false]
      omega
    · obtain ⟨between, hBetween⟩ :=
        prefix_of_byteLength_le reached.text_eq.symm cut.text_eq.symm hFirst
      have hAfter : reached.after = between ++ cut.after := by
        have hText := reached.text_eq.trans cut.text_eq.symm
        rw [← hBetween, List.append_assoc] at hText
        exact List.append_cancel_left hText
      rw [hAfter] at h
      have hTarget : cut.offset = byteLength reached.before + byteLength between := by
        rw [Cut.offset, ← hBetween, byteLength_append]
      rw [hAfter]
      apply yields_bind (yields_scanTo between h hTarget (Nat.le_trans cut.offset_le hBound))
      rintro ⟨characters, next⟩ ⟨hCharacters, hNext⟩
      dsimp only at hCharacters hNext ⊢
      rw [hBetween] at hNext
      rw [hCharacters]
      have hRest := ih (fun later hLater => hWhole later (List.mem_cons_of_mem cut hLater))
        (List.Pairwise.of_cons hSorted)
        cut (fun later hLater => List.rel_of_pairwise_cons hSorted hLater) hNext
      apply yields_bind hRest
      rintro _ rfl
      exact yields_pure (congrArg (· :: _) (hNext.position_eq (hWhole cut List.mem_cons_self)))

theorem yields_resolvePositions {cuts : List (Cut text)} {anchors : List ByteAnchor}
    {offset : ByteAnchor → Nat} (hAnchors : anchors.map offset = cuts.map Cut.offset)
    (hWhole : ∀ cut ∈ cuts, Whole cut.before cut.after)
    (hSorted : cuts.Pairwise fun cut later => cut.offset ≤ later.offset) (hBound : byteLength text ≤ bound) :
    Yields (Overflows bound) (· = cuts.map Cut.position) (resolvePositions text anchors offset) := by
  rw [resolvePositions, hAnchors]
  have hStart : ScannedTo [] text ⟨0, 0, 0, false⟩ := ⟨rfl, nofun, found_false text _ rfl⟩
  exact yields_resolveFrom hWhole hSorted ⟨[], text, rfl⟩ (fun _ _ => Nat.zero_le _) hStart hBound

end

end Weregopher.Transform
