import Weregopher.Transform.Pieces

/-! # Anchors

The loop over line starts finds for each of them its place in the source. The anchors of
both kinds are marked places of both texts, and every such place has its anchor.
-/
namespace Weregopher.Transform
open Lib.Bytes Lib.Checked Lib.Outcome Lib.TextPosition ByteAnchor SourceMapError

/-! ## Original offsets -/

/-- Where an offset of the transformed text comes from, without the checks. -/
def originalOf : (edits : List TextEdit) → (sourceCursor generatedCursor generated : Nat) → Nat
  | [], sourceCursor, generatedCursor, generated => sourceCursor + (generated - generatedCursor)
  | edit :: rest, sourceCursor, generatedCursor, generated =>
    let generatedStart := generatedCursor + (edit.startByte - sourceCursor)
    let generatedEnd := generatedStart + byteLength edit.replacement
    if generated < generatedStart then sourceCursor + (generated - generatedCursor)
    else if generated < generatedEnd then edit.startByte
    else originalOf rest edit.endByte generatedEnd generated

theorem originalOf_cons (piece : Piece) (rest : List Piece) (sourceCursor generatedCursor generated : Nat) :
    originalOf (editsFrom sourceCursor (piece :: rest)) sourceCursor generatedCursor generated =
      if generated < generatedCursor + byteLength piece.unchanged then sourceCursor + (generated - generatedCursor)
      else if generated < generatedCursor + byteLength piece.unchanged + byteLength piece.replacement then
        sourceCursor + byteLength piece.unchanged
      else
        originalOf (editsFrom (sourceCursor + byteLength piece.unchanged + byteLength piece.literal) rest)
          (sourceCursor + byteLength piece.unchanged + byteLength piece.literal)
          (generatedCursor + byteLength piece.unchanged + byteLength piece.replacement) generated := by
  rw [editsFrom, originalOf]
  simp

theorem le_originalOf (pieces : List Piece) (sourceCursor generatedCursor generated : Nat) :
    sourceCursor ≤ originalOf (editsFrom sourceCursor pieces) sourceCursor generatedCursor generated := by
  induction pieces generalizing sourceCursor generatedCursor with
  | nil => exact Nat.le_add_right _ _
  | cons piece rest ih =>
    rw [originalOf_cons]
    split
    · exact Nat.le_add_right _ _
    · split
      · exact Nat.le_add_right _ _
      · exact Nat.le_trans (by omega) (ih _ _)

theorem originalOf_mono (pieces : List Piece) {sourceCursor generatedCursor generated later : Nat}
    (h : generated ≤ later) :
    originalOf (editsFrom sourceCursor pieces) sourceCursor generatedCursor generated ≤
      originalOf (editsFrom sourceCursor pieces) sourceCursor generatedCursor later := by
  induction pieces generalizing sourceCursor generatedCursor with
  | nil =>
    simp only [editsFrom, originalOf]
    omega
  | cons piece rest ih =>
    rw [originalOf_cons, originalOf_cons]
    have hNext := le_originalOf rest (sourceCursor + byteLength piece.unchanged + byteLength piece.literal)
      (generatedCursor + byteLength piece.unchanged + byteLength piece.replacement) later
    split_ifs <;> first | omega | exact ih

variable {pieces : List Piece} {tail : List Char} {α : Type} {anchor a b : ByteAnchor} {anchors : List ByteAnchor}
  {bound : Nat}

theorem originalOf_place (hPieces : PiecesValid pieces)
    (place : Place pieces tail) (sourceCursor generatedCursor : Nat) :
    originalOf (editsFrom sourceCursor pieces) sourceCursor generatedCursor
      (generatedCursor + place.generated.offset) = sourceCursor + place.source.offset := by
  obtain ⟨front, back, before, after, rfl, hRun⟩ := place
  simp only [Cut.offset, Place.generated, Place.source]
  induction front generalizing sourceCursor generatedCursor with
  | nil =>
    simp only [generatedOf_nil, sourceOf_nil, List.nil_append]
    cases back with
    | nil =>
      simp only [editsFrom, originalOf]
      omega
    | cons piece rest =>
      have hReplacement := byteLength_pos (hPieces piece (by simp)).replacement.nonempty
      have hLength : byteLength before + byteLength after = byteLength piece.unchanged := by
        rw [← byteLength_append, hRun, run]
      rw [originalOf_cons]
      split_ifs <;> omega
  | cons piece front ih =>
    simp only [generatedOf_cons, sourceOf_cons, List.cons_append, byteLength_append] at *
    rw [originalOf_cons, if_neg (by omega), if_neg (by omega)]
    have hNext := ih (sourceCursor + byteLength piece.unchanged + byteLength piece.literal)
      (generatedCursor + byteLength piece.unchanged + byteLength piece.replacement)
      (fun other hOther => hPieces other (List.mem_cons_of_mem piece hOther))
    simp only [Nat.add_assoc] at hNext ⊢
    exact hNext

/-! ## The two loops -/

section

variable {bound : Nat}

variable {sourceBytes sourceCursor generated generatedCursor : Nat} {cursor : EditCursor} {original : Nat → Nat}

theorem yields_generatedRange (piece : Piece) (generatedCursor : Nat)
    (h : sourceCursor + byteLength piece.unchanged + byteLength piece.literal ≤ sourceBytes)
    (hBound : generatedCursor + byteLength piece.unchanged + byteLength piece.replacement ≤ bound) :
    Yields (Overflows bound)
      (· = (generatedCursor + byteLength piece.unchanged,
        generatedCursor + byteLength piece.unchanged + byteLength piece.replacement))
      (generatedRange sourceBytes sourceCursor generatedCursor
        ⟨sourceCursor + byteLength piece.unchanged,
          sourceCursor + byteLength piece.unchanged + byteLength piece.literal, piece.replacement⟩) := by
  rw [generatedRange]
  refine yields_guard (fun hInvalid => absurd hInvalid (by dsimp only; omega)) fun _ => ?_
  have hLength : (charBytes piece.replacement).length = byteLength piece.replacement := length_charBytes _
  simp only [Nat.add_sub_cancel_left, hLength]
  apply yields_bind (yields_checkedAdd (by trivial) (by omega))
  rintro _ rfl
  apply yields_bind (yields_checkedAdd (by trivial) hBound)
  rintro _ rfl
  exact yields_pure rfl

/-- The cursor stands before some pieces, and from there on gives the same offsets as from the start. -/
def CursorAt (bound sourceBytes generated : Nat) (original : Nat → Nat) (cursor : EditCursor) : Prop :=
  ∃ pieces, cursor.edits = editsFrom cursor.sourceCursor pieces ∧
    cursor.sourceCursor + byteLength (sourceOf pieces) ≤ sourceBytes ∧
    cursor.generatedCursor + byteLength (generatedOf pieces) ≤ bound ∧ cursor.generatedCursor ≤ generated ∧
    ∀ later, generated ≤ later →
      originalOf cursor.edits cursor.sourceCursor cursor.generatedCursor later = original later

theorem CursorAt.later {later : Nat}
    (h : CursorAt bound sourceBytes generated original cursor) (hLater : generated ≤ later) :
    CursorAt bound sourceBytes later original cursor := by
  obtain ⟨pieces, hEdits, hSource, hGenerated, hPassed, hSame⟩ := h
  exact ⟨pieces, hEdits, hSource, hGenerated, Nat.le_trans hPassed hLater,
    fun last hLast => hSame last (Nat.le_trans hLater hLast)⟩

theorem yields_unchanged {S : Nat × EditCursor → Prop}
    {f : Nat → Except SourceMapError (Nat × EditCursor)} (hPassed : generatedCursor ≤ generated)
    (hBound : sourceCursor + (generated - generatedCursor) ≤ bound)
    (hf : Yields (Overflows bound) S (f (sourceCursor + (generated - generatedCursor)))) :
    Yields (Overflows bound) S (do
      let unchanged ← okOr .invalidEditRange (checkedSub generated generatedCursor)
      let original ← okOr .offsetOverflow (checkedAdd usizeMax sourceCursor unchanged)
      f original) := by
  rw [checkedSub, if_pos hPassed]
  refine yields_bind (Q := (· = generated - generatedCursor)) rfl ?_
  rintro _ rfl
  apply yields_bind (yields_checkedAdd (by trivial) hBound)
  rintro _ rfl
  exact hf

theorem yields_originalOfLineStart (pieces : List Piece)
    (hSource : sourceCursor + byteLength (sourceOf pieces) ≤ sourceBytes)
    (hGenerated : generatedCursor + byteLength (generatedOf pieces) ≤ bound) (hPassed : generatedCursor ≤ generated)
    (hSame : ∀ later, generated ≤ later →
      originalOf (editsFrom sourceCursor pieces) sourceCursor generatedCursor later = original later)
    (hOriginal : original generated ≤ sourceBytes) (hBound : sourceBytes ≤ bound) :
    Yields (Overflows bound)
      (fun result => result.1 = original generated ∧ CursorAt bound sourceBytes generated original result.2)
      (originalOfLineStart sourceBytes generated (editsFrom sourceCursor pieces) sourceCursor generatedCursor) := by
  induction pieces generalizing sourceCursor generatedCursor with
  | nil =>
    have hHere : sourceCursor + (generated - generatedCursor) = original generated := hSame generated (Nat.le_refl _)
    rw [editsFrom, originalOfLineStart]
    apply yields_unchanged hPassed (by omega)
    rw [hHere]
    refine yields_guard (fun hBeyond => absurd hOriginal (Nat.not_le.mpr hBeyond)) fun _ => ?_
    exact yields_pure ⟨rfl, [], rfl, hSource, hGenerated, hPassed, hSame⟩
  | cons piece rest ih =>
    have hHere := hSame generated (Nat.le_refl _)
    have hCursor : CursorAt bound sourceBytes generated original
        ⟨editsFrom sourceCursor (piece :: rest), sourceCursor, generatedCursor⟩ :=
      ⟨piece :: rest, rfl, hSource, hGenerated, hPassed, hSame⟩
    rw [originalOf_cons] at hHere
    rw [sourceOf_cons, byteLength_append, byteLength_append] at hSource
    rw [generatedOf_cons, byteLength_append, byteLength_append] at hGenerated
    rw [editsFrom, originalOfLineStart]
    apply yields_bind (yields_generatedRange piece generatedCursor (by omega) (by omega))
    rintro _ rfl
    refine yields_ite (fun hBefore => ?_) fun hBefore => yields_ite (fun hWithin => ?_) fun hWithin => ?_
    · rw [if_pos hBefore] at hHere
      apply yields_unchanged hPassed (by omega)
      exact yields_pure ⟨hHere, hCursor⟩
    · rw [if_neg hBefore, if_pos hWithin] at hHere
      exact yields_pure ⟨hHere, hCursor⟩
    · refine ih (by omega) (by omega) (by omega) fun later hLater => ?_
      rw [← hSame later hLater, originalOf_cons, if_neg (by omega), if_neg (by omega)]

theorem yields_generatedLineAnchors {starts : List Nat}
    (hSorted : starts.Pairwise (· < ·)) (hOriginal : ∀ start ∈ starts, original start ≤ sourceBytes)
    (hCursor : ∀ start ∈ starts.head?, CursorAt bound sourceBytes start original cursor)
    (hBound : sourceBytes ≤ bound) :
    Yields (Overflows bound) (· = starts.map fun start => ⟨start, original start⟩)
      (generatedLineAnchors sourceBytes starts cursor) := by
  induction starts generalizing cursor with
  | nil => exact yields_pure rfl
  | cons start starts ih =>
    obtain ⟨pieces, hEdits, hSource, hGenerated, hPassed, hSame⟩ := hCursor start rfl
    rw [generatedLineAnchors, hEdits]
    rw [hEdits] at hSame
    refine yields_bind
      (yields_originalOfLineStart pieces hSource hGenerated hPassed hSame
        (hOriginal start List.mem_cons_self) hBound) ?_
    rintro ⟨found, next⟩ ⟨hFound, hNext⟩
    have hRest : ∀ later ∈ starts.head?, CursorAt bound sourceBytes later original next := fun later hLater =>
      hNext.later (Nat.le_of_lt (List.rel_of_pairwise_cons hSorted (List.mem_of_head? hLater)))
    refine yields_bind
      (ih hSorted.of_cons (fun later hLater => hOriginal later (List.mem_cons_of_mem start hLater)) hRest) ?_
    rintro _ rfl
    apply yields_pure
    rw [show found = original start from hFound]
    rfl

def anchorsOf (sourceCursor generatedCursor : Nat) : List Piece → List ByteAnchor
  | [] => []
  | piece :: rest =>
    ⟨generatedCursor + byteLength piece.unchanged, sourceCursor + byteLength piece.unchanged⟩ ::
      ⟨generatedCursor + byteLength piece.unchanged + byteLength piece.replacement,
        sourceCursor + byteLength piece.unchanged + byteLength piece.literal⟩ ::
      anchorsOf (sourceCursor + byteLength piece.unchanged + byteLength piece.literal)
        (generatedCursor + byteLength piece.unchanged + byteLength piece.replacement) rest

theorem yields_editAnchors (pieces : List Piece) (generatedCursor : Nat)
    (h : sourceCursor + byteLength (sourceOf pieces) ≤ sourceBytes)
    (hBound : generatedCursor + byteLength (generatedOf pieces) ≤ bound) :
    Yields (Overflows bound) (· = anchorsOf sourceCursor generatedCursor pieces)
      (editAnchors sourceBytes (editsFrom sourceCursor pieces) sourceCursor generatedCursor) := by
  induction pieces generalizing sourceCursor generatedCursor with
  | nil => exact yields_pure rfl
  | cons piece rest ih =>
    rw [sourceOf_cons, byteLength_append, byteLength_append] at h
    rw [generatedOf_cons, byteLength_append, byteLength_append] at hBound
    rw [editsFrom, editAnchors]
    apply yields_bind (yields_generatedRange piece generatedCursor (by omega) (by omega))
    rintro _ rfl
    apply yields_bind (ih _ (by omega) (by omega))
    rintro _ rfl
    exact yields_pure rfl

end

/-! ## Marked places -/

section

variable {pieces : List Piece} {tail : List Char}

/-- The ends of the parts that stay, and the starts of lines. -/
def Place.Marked (place : Place pieces tail) : Prop :=
  place.before = [] ∨ (place.after = [] ∧ place.back ≠ []) ∨
    ∃ start c, place.before = start ++ [c] ∧ endsLine c place.generated.after = true

attribute [local simp] Cut.offset Place.generated Place.source

theorem mem_anchorsOf (tail : List Char) {anchor : ByteAnchor} {sourceCursor generatedCursor : Nat} :
    anchor ∈ anchorsOf sourceCursor generatedCursor pieces ↔
      ∃ place : Place pieces tail, (place.before = [] ∧ place.front ≠ [] ∨ place.after = [] ∧ place.back ≠ []) ∧
        anchor = ⟨generatedCursor + place.generated.offset, sourceCursor + place.source.offset⟩ := by
  induction pieces generalizing sourceCursor generatedCursor with
  | nil =>
    simp only [anchorsOf, List.not_mem_nil, false_iff]
    rintro ⟨place, hEnds, -⟩
    obtain ⟨hFront, hBack⟩ := List.append_eq_nil_iff.mp place.pieces_eq
    rcases hEnds with ⟨-, hNe⟩ | ⟨-, hNe⟩
    · exact hNe hFront
    · exact hNe hBack
  | cons piece rest ih =>
    rw [anchorsOf, List.mem_cons, List.mem_cons, ih]
    constructor
    · rintro (rfl | rfl | ⟨place, hEnds, rfl⟩)
      · refine ⟨Place.runEnd [] piece rest rfl, .inr ⟨rfl, List.cons_ne_nil _ _⟩, ?_⟩
        simp [Place.runEnd]
      · refine ⟨Place.runStart [piece] rest rfl, .inl ⟨rfl, List.cons_ne_nil _ _⟩, ?_⟩
        simp [Place.runStart, Nat.add_assoc]
      · refine ⟨place.shift piece, ?_, ?_⟩
        · exact hEnds.imp (fun h => ⟨h.1, List.cons_ne_nil _ _⟩) id
        · simp [-Place.generated, -Place.source, Place.generated_before_shift, Place.source_before_shift, Nat.add_assoc]
    · rintro ⟨⟨front, back, before, after, hFront, hRun⟩, hEnds, rfl⟩
      dsimp only at hEnds
      cases front with
      | nil =>
        obtain rfl : back = piece :: rest := hFront
        obtain ⟨-, hNe⟩ | ⟨rfl, -⟩ := hEnds
        · exact absurd rfl hNe
        · rw [List.append_nil, run] at hRun
          subst hRun
          exact .inl (by simp)
      | cons first front =>
        obtain ⟨rfl, rfl⟩ := List.cons.inj hFront
        by_cases hSecond : before = [] ∧ front = []
        · obtain ⟨rfl, rfl⟩ := hSecond
          exact .inr (.inl (by simp [Nat.add_assoc]))
        · refine .inr (.inr ⟨⟨front, back, before, after, rfl, hRun⟩, ?_, ?_⟩)
          · exact hEnds.imp (fun h => ⟨h.1, fun hNil => hSecond ⟨h.1, hNil⟩⟩) id
          · simp [Nat.add_assoc]

variable (hPieces : PiecesValid pieces)

include hPieces

theorem originalOf_anchor (place : Place pieces tail) :
    originalOf (editsFrom 0 pieces) 0 0 place.generated.offset = place.source.offset := by
  have h := originalOf_place hPieces place 0 0
  rwa [Nat.zero_add, Nat.zero_add] at h

theorem Place.source_le {place later : Place pieces tail}
    (h : place.generated.offset ≤ later.generated.offset) : place.source.offset ≤ later.source.offset := by
  rw [← originalOf_anchor hPieces place, ← originalOf_anchor hPieces later]
  exact originalOf_mono pieces h

theorem mem_anchors {anchor : ByteAnchor} : anchor ∈ (lineStarts (generatedOf pieces ++ tail)).map
        (fun start => ⟨start, originalOf (editsFrom 0 pieces) 0 0 start⟩) ++ anchorsOf 0 0 pieces ↔
      ∃ place : Place pieces tail, place.Marked ∧ anchor = place.anchor := by
  rw [List.mem_append, List.mem_map, mem_anchorsOf tail]
  simp only [Nat.zero_add]
  constructor
  · rintro (⟨start, hStart, rfl⟩ | ⟨place, hEnds, rfl⟩)
    · rcases mem_lineStarts.mp hStart with rfl | ⟨front, c, back, hText, hEnds, rfl⟩
      · have hFirst := originalOf_anchor hPieces (Place.runStart [] pieces rfl : Place pieces tail)
        exact ⟨Place.runStart [] pieces rfl, .inl rfl, by rw [Place.anchor, ← hFirst]; rfl⟩
      · obtain ⟨place, ⟨begin, hBegin⟩, hPlace⟩ :=
          exists_place hPieces (isLineTerminator_of_endsLine hEnds) hText
        have hOffset : place.generated.offset = byteLength (front ++ [c]) := by rw [Cut.offset, hPlace]
        have hAfter : place.generated.after = back := by
          have hCut := place.generated.text_eq.trans hText
          rw [hPlace, List.append_assoc] at hCut
          exact (List.cons.inj (List.append_cancel_left hCut)).2
        refine ⟨place, .inr (.inr ⟨begin, c, hBegin, by rw [hAfter]; exact hEnds⟩), ?_⟩
        rw [Place.anchor, ← originalOf_anchor hPieces place, hOffset]
    · refine ⟨place, ?_, rfl⟩
      rcases hEnds with hStart | hEnd
      · exact .inl hStart.1
      · exact .inr (.inl hEnd)
  · rintro ⟨place, hMarked, rfl⟩
    have hLine : place.generated.offset ∈ lineStarts (generatedOf pieces ++ tail) →
        ∃ start ∈ lineStarts (generatedOf pieces ++ tail),
          (⟨start, originalOf (editsFrom 0 pieces) 0 0 start⟩ : ByteAnchor) = place.anchor := fun h =>
      ⟨_, h, by rw [originalOf_anchor hPieces place]; rfl⟩
    rcases hMarked with hStart | hEnd | ⟨begin, c, hBegin, hEnds⟩
    · by_cases hFront : place.front = []
      · refine .inl (hLine (mem_lineStarts.mpr (.inl ?_)))
        simp [hStart, hFront]
      · exact .inr ⟨place, .inl ⟨hStart, hFront⟩, rfl⟩
    · exact .inr ⟨place, .inr hEnd, rfl⟩
    · refine .inl (hLine (mem_lineStarts.mpr (.inr ⟨generatedOf place.front ++ begin, c, _, ?_, hEnds, ?_⟩)))
      · apply place.generated.text_eq.symm.trans
        simp [hBegin]
      · simp [hBegin]

theorem Place.Marked.whole {place : Place pieces tail} (h : place.Marked) :
    Whole place.generated.before place.generated.after ∧ Whole place.source.before place.source.after := by
  have hHead := place.head_iff hPieces
  rcases h with hStart | ⟨hAfter, -⟩ | ⟨begin, c, hBegin, hEnds⟩
  · have hGenerated : place.generated.before = generatedOf place.front := by simp [generated, hStart]
    have hSource : place.source.before = sourceOf place.front := by simp [source, hStart]
    rw [hGenerated, hSource]
    rcases List.eq_nil_or_concat place.front with hNil | ⟨front, piece, hFront⟩
    · rw [hNil]
      exact ⟨by simp [Whole], by simp [Whole]⟩
    · have hPiece : piece.Valid := hPieces piece (by rw [← place.pieces_eq, hFront]; simp)
      rw [hFront, List.concat_eq_append, generatedOf_append, sourceOf_append, generatedOf_cons, sourceOf_cons,
        generatedOf_nil, sourceOf_nil, List.append_nil, List.append_nil, ← List.append_assoc, ← List.append_assoc]
      exact ⟨fun h => hPiece.replacement.enclosed.getLast_ne _ h.1, fun h => hPiece.literal.getLast_ne _ h.1⟩
  · have hBack : ∀ piece ∈ place.back, piece.Valid := fun piece hPiece =>
      hPieces piece (place.pieces_eq ▸ List.mem_append_right _ hPiece)
    obtain ⟨hGenerated, hSource⟩ := rest_head tail hBack
    refine ⟨fun h => hGenerated ?_, fun h => hSource ?_⟩
    · simpa [generated, hAfter] using h.2
    · simpa [source, hAfter] using h.2
  · have hNot : c = '\r' → place.generated.after.head? ≠ some '\n' := by
      rintro rfl hLf
      exact (endsLine_cr _).mp hEnds ⟨rfl, hLf⟩
    have hGenerated : place.generated.before.getLast? = some c := by simp [generated, hBegin]
    have hSource : place.source.before.getLast? = some c := by simp [source, hBegin]
    refine ⟨fun h => hNot ?_ h.2, fun h => hNot ?_ (hHead.mpr h.2)⟩
    · exact Option.some.inj (hGenerated.symm.trans h.1)
    · exact Option.some.inj (hSource.symm.trans h.1)

end

/-! ## The sorted anchors -/

theorem mem_destutter' [DecidableEq α] {a b : α} {items : List α} :
    b ∈ items.destutter' (· ≠ ·) a ↔ b = a ∨ b ∈ items := by
  induction items generalizing a with
  | nil => simp
  | cons c items ih =>
    rw [List.destutter'_cons]
    split
    · rw [List.mem_cons, ih, List.mem_cons]
    · rename_i hSame
      obtain rfl : a = c := not_not.mp hSame
      rw [ih, List.mem_cons]
      tauto

theorem mem_sortAnchors : anchor ∈ sortAnchors anchors ↔ anchor ∈ anchors := by
  have hSort : anchor ∈ anchors.insertionSort (fun a b => a.le b = true) ↔ anchor ∈ anchors :=
    List.mem_insertionSort _
  rw [← hSort, sortAnchors]
  cases anchors.insertionSort fun a b => a.le b = true with
  | nil => rfl
  | cons first rest => rw [List.destutter_cons', mem_destutter', List.mem_cons]

theorem ByteAnchor.le_iff :
    a.le b = true ↔ a.generated < b.generated ∨ a.generated = b.generated ∧ a.original ≤ b.original := by
  simp [le]

theorem ByteAnchor.le_antisymm (h : a.le b = true) (h' : b.le a = true) : a = b := by
  obtain ⟨generated, original⟩ := a
  obtain ⟨generated', original'⟩ := b
  simp only [le_iff, mk.injEq] at *
  omega

theorem pairwise_ne_of_chain (hLe : anchors.Pairwise fun a b => a.le b = true)
    (hNe : anchors.IsChain (· ≠ ·)) : anchors.Pairwise fun a b => a.le b = true ∧ a ≠ b := by
  induction anchors with
  | nil => exact .nil
  | cons first rest ih =>
    refine .cons (fun later hLater => ⟨List.rel_of_pairwise_cons hLe hLater, ?_⟩) (ih hLe.of_cons hNe.tail)
    cases rest with
    | nil => cases hLater
    | cons second rest =>
      have hSecond : first ≠ second := hNe.rel_head? rfl
      rcases List.mem_cons.mp hLater with rfl | hRest
      · exact hSecond
      · rintro rfl
        exact hSecond (le_antisymm (List.rel_of_pairwise_cons hLe List.mem_cons_self)
          (List.rel_of_pairwise_cons hLe.of_cons hRest))

theorem sortAnchors_sorted (anchors : List ByteAnchor) :
    (sortAnchors anchors).Pairwise fun a b => a.le b = true ∧ a ≠ b := by
  have hTotal : Std.Total fun a b : ByteAnchor => a.le b = true := by
    refine ⟨fun a b => ?_⟩
    rw [le_iff, le_iff]
    omega
  have hTrans : IsTrans ByteAnchor fun a b => a.le b = true := by
    refine ⟨fun a b c hab hbc => ?_⟩
    rw [le_iff] at *
    omega
  have hSorted := List.pairwise_insertionSort (fun a b : ByteAnchor => a.le b = true) anchors
  exact pairwise_ne_of_chain (hSorted.sublist (List.destutter_sublist (· ≠ ·) _)) (List.isChain_destutter (· ≠ ·) _)

theorem yields_checkAnchors (h : anchors.Pairwise fun a b => a.generated < b.generated) :
    Yields (Overflows bound) (fun _ => True) (checkAnchors anchors) := by
  induction anchors with
  | nil => exact yields_pure trivial
  | cons first rest ih =>
    cases rest with
    | nil => exact yields_pure trivial
    | cons second rest =>
      have hFirst : first.generated < second.generated := List.rel_of_pairwise_cons h List.mem_cons_self
      rw [checkAnchors]
      exact yields_guard (fun hSame => absurd hSame.1 (Nat.ne_of_lt hFirst)) fun _ => ih h.of_cons

theorem exists_preimages {β : Type} {f : α → β} {P : α → Prop} {items : List β}
    (h : ∀ item ∈ items, ∃ a, P a ∧ item = f a) :
    ∃ preimages : List α, items = preimages.map f ∧ ∀ a ∈ preimages, P a := by
  induction items with
  | nil => exact ⟨[], rfl, nofun⟩
  | cons item items ih =>
    obtain ⟨a, ha, rfl⟩ := h item List.mem_cons_self
    obtain ⟨preimages, rfl, hPreimages⟩ := ih fun other hOther => h other (List.mem_cons_of_mem _ hOther)
    refine ⟨a :: preimages, rfl, ?_⟩
    intro b hb
    rcases List.mem_cons.mp hb with rfl | hb
    · exact ha
    · exact hPreimages b hb

structure MarkedPlaces {pieces : List Piece} {tail : List Char} (places : List (Place pieces tail)) : Prop where
  marked : ∀ place ∈ places, place.Marked
  complete : ∀ place : Place pieces tail, place.Marked → ∃ found ∈ places, found.anchor = place.anchor
  sorted : places.Pairwise fun place later => place.generated.offset < later.generated.offset

def markedAnchors (pieces : List Piece) (tail : List Char) : List ByteAnchor :=
  sortAnchors ((lineStarts (generatedOf pieces ++ tail)).map
    (fun start => ⟨start, originalOf (editsFrom 0 pieces) 0 0 start⟩) ++ anchorsOf 0 0 pieces)

theorem mem_markedAnchors (hPieces : PiecesValid pieces) :
    anchor ∈ markedAnchors pieces tail ↔ ∃ place : Place pieces tail, place.Marked ∧ anchor = place.anchor :=
  mem_sortAnchors.trans (mem_anchors hPieces)

theorem exists_places (tail : List Char) (hPieces : PiecesValid pieces) :
    ∃ places : List (Place pieces tail), markedAnchors pieces tail = places.map Place.anchor ∧ MarkedPlaces places := by
  obtain ⟨places, hPlaces, hMarked⟩ := exists_preimages fun anchor hAnchor => (mem_markedAnchors hPieces).mp hAnchor
  have hSorted : (markedAnchors pieces tail).Pairwise _ := sortAnchors_sorted _
  refine ⟨places, hPlaces, hMarked, fun place hPlace => ?_, ?_⟩
  · have hMem := (mem_markedAnchors hPieces).mpr ⟨place, hPlace, rfl⟩
    rw [hPlaces] at hMem
    obtain ⟨found, hFound, hAnchor⟩ := List.mem_map.mp hMem
    exact ⟨found, hFound, hAnchor⟩
  · rw [hPlaces] at hSorted
    refine (List.pairwise_map.mp hSorted).imp fun {place later} h => ?_
    rcases le_iff.mp h.1 with hLess | ⟨hSame, -⟩
    · exact hLess
    · -- The offset in the source depends on that in the transformed text only.
      refine absurd ?_ h.2
      rw [Place.anchor, Place.anchor, ← originalOf_anchor hPieces place, ← originalOf_anchor hPieces later]
      exact congrArg (fun offset => (⟨offset, originalOf (editsFrom 0 pieces) 0 0 offset⟩ : ByteAnchor)) hSame

/-- How many segments are asked for: two for every edit and one for every line. -/
def requiredSegments (pieces : List Piece) (tail : List Char) : Nat :=
  (lineStarts (generatedOf pieces ++ tail)).length + pieces.length * 2

theorem length_editsFrom (offset : Nat) (pieces : List Piece) : (editsFrom offset pieces).length = pieces.length := by
  induction pieces generalizing offset with
  | nil => rfl
  | cons piece rest ih => rw [editsFrom, List.length_cons, ih, List.length_cons]

theorem yields_collectAnchors (hPieces : PiecesValid pieces)
    (limits : SourceMapLimits) (hSource : byteLength (sourceOf pieces ++ tail) ≤ bound)
    (hGenerated : 1 + byteLength (generatedOf pieces ++ tail) ≤ bound)
    (hSegments : requiredSegments pieces tail ≤ bound) :
    Yields (fun error => error.Overflows bound ∨ limits.segments < requiredSegments pieces tail ∧
        error = .segmentLimitExceeded (requiredSegments pieces tail) limits.segments)
      (fun anchors => requiredSegments pieces tail ≤ limits.segments ∧ anchors = markedAnchors pieces tail)
      (collectAnchors (generatedOf pieces ++ tail) (editsFrom 0 pieces)
        (byteLength (sourceOf pieces ++ tail)) limits) := by
  have hStart : 0 + byteLength (sourceOf pieces) ≤ byteLength (sourceOf pieces ++ tail) := by
    rw [byteLength_append, Nat.zero_add]
    exact Nat.le_add_right _ _
  have hEnd : 0 + byteLength (generatedOf pieces) ≤ bound := by
    rw [byteLength_append] at hGenerated
    omega
  have hRange : i64Max < usizeMax := by decide
  have hDouble : pieces.length * 2 ≤ bound := by
    rw [requiredSegments] at hSegments
    omega
  rw [collectAnchors, length_editsFrom]
  apply yields_bind ((yields_countLineStarts hGenerated).imp fun _ => .inl)
  rintro _ rfl
  refine yields_bind (Q := (· = pieces.length * 2)) (yields_okOr (fun hNone => .inl ⟨trivial, ?_⟩) fun _ hSome => ?_) ?_
  · rw [checkedMul, ite_eq_right_iff] at hNone
    by_contra hSmall
    cases hNone (by omega)
  · exact (checkedMul_eq_some.mp hSome).2.symm
  rintro _ rfl
  apply yields_bind ((yields_checkedAdd (by trivial) hSegments).imp fun _ => .inl)
  rintro _ rfl
  refine yields_guard (fun hMany => .inr ⟨hMany, rfl⟩) fun hFew => ?_
  apply yields_bind ((yields_collectLineStarts (by omega)).imp fun _ => .inl)
  rintro _ rfl
  have hOriginal : ∀ start ∈ lineStarts (generatedOf pieces ++ tail),
      originalOf (editsFrom 0 pieces) 0 0 start ≤ byteLength (sourceOf pieces ++ tail) := by
    intro start hStart
    obtain ⟨place, -, hPlace⟩ := (mem_anchors hPieces).mp (List.mem_append_left _ (List.mem_map_of_mem hStart))
    have hStartPlace : originalOf (editsFrom 0 pieces) 0 0 start = place.source.offset :=
      congrArg original hPlace
    rw [hStartPlace]
    exact place.source.offset_le
  refine yields_bind ((yields_generatedLineAnchors (lineStarts_sorted _) hOriginal
    (fun start _ => ⟨pieces, rfl, hStart, hEnd, Nat.zero_le _, fun _ _ => rfl⟩) hSource).imp fun _ => .inl) ?_
  rintro _ rfl
  apply yields_bind ((yields_editAnchors pieces 0 hStart hEnd).imp fun _ => .inl)
  rintro _ rfl
  obtain ⟨places, hPlaces, hMarked⟩ := exists_places tail hPieces
  have hStrict : (markedAnchors pieces tail).Pairwise fun a b => a.generated < b.generated := by
    rw [hPlaces]
    exact List.pairwise_map.mpr hMarked.sorted
  refine yields_bind ((yields_checkAnchors hStrict).imp fun _ => .inl) fun _ _ => ?_
  exact yields_pure ⟨Nat.not_lt.mp hFew, rfl⟩

end Weregopher.Transform
