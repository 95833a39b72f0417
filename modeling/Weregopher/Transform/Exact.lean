import Weregopher.Transform.Anchors
import Weregopher.Transform.Mappings
import Weregopher.Transform.Splice

/-! # Source maps lead back to the source

The last mapping at or before a place of an unchanged part is in that part, on the same
line of both texts. What stands between is the same text, so the distances agree.
-/
namespace Weregopher.Transform
open Lib.Bytes Lib.Outcome Lib.TextPosition Lib.SourceMapV3 Place SourceMapError

/-! ## The transformed text -/

def Piece.segment (piece : Piece) : Segment :=
  ⟨charBytes piece.unchanged, charBytes piece.literal, charBytes piece.replacement⟩

theorem editsOf_editsFrom (pieces : List Piece) (offset : Nat) :
    EditsOf offset (pieces.map Piece.segment) (editsFrom offset pieces) := by
  induction pieces generalizing offset with
  | nil => exact .nil
  | cons piece rest ih =>
    refine .cons ?_ ?_ rfl ?_ <;> simp only [Piece.segment, length_charBytes]
    exact ih _

theorem bytes_segments (pieces : List Piece) : originalBytes (pieces.map Piece.segment) = charBytes (sourceOf pieces) ∧
    splicedBytes (pieces.map Piece.segment) = charBytes (generatedOf pieces) := by
  induction pieces with
  | nil => exact ⟨rfl, rfl⟩
  | cons piece rest ih =>
    rw [List.map_cons, originalBytes_cons, splicedBytes_cons, ih.1, ih.2]
    simp [Piece.segment, charBytes_append]

variable {transformed : EmittedTransformedSource}

theorem emitted_text {sha256 : Sha256} {plan : TransformPlan} {pieces : List Piece}
    {tail : List Char} {limits : TransformEmissionLimits} (hEdits : plan.edits = editsFrom 0 pieces)
    (h : emitTransformedSource sha256 plan (charBytes (sourceOf pieces ++ tail)) limits = .ok transformed) :
    transformed.plan = plan ∧ transformed.transformedSource = charBytes (generatedOf pieces ++ tail) ∧
      sha256 (charBytes (sourceOf pieces ++ tail)) = plan.source.sourceDigest := by
  have hApply : applyEdits (charBytes (sourceOf pieces ++ tail)) 0 (editsFrom 0 pieces) =
      .ok (charBytes (generatedOf pieces ++ tail)) := by
    obtain ⟨hSource, hGenerated⟩ := bytes_segments pieces
    rw [charBytes_append, charBytes_append, ← hSource, ← hGenerated]
    exact applyEdits_segments [] (charBytes tail) (editsOf_editsFrom pieces 0)
  simp only [emitTransformedSource, guard_ok, bind_ok, pure_ok, hEdits, hApply, Except.ok.injEq, not_not] at h
  obtain ⟨-, hDigest, _, -, -, _, rfl, -, rfl⟩ := h
  exact ⟨rfl, rfl, hDigest⟩

/-! ## Cuts of one text -/

theorem Cut.eq_of_offset {text : List Char} {cut other : Cut text} (h : cut.offset = other.offset) : cut = other := by
  obtain ⟨before, after, rfl⟩ := cut
  obtain ⟨before', after', hText⟩ := other
  obtain ⟨rfl, rfl⟩ := eq_of_byteLength_eq rfl hText.symm h
  rfl

theorem Cut.position_before {text : List Char} {cut later : Cut text} (h : cut.offset < later.offset) :
    cut.position.Before later.position := by
  obtain ⟨before, after, rfl⟩ := cut
  obtain ⟨before', after', hText⟩ := later
  obtain ⟨between, rfl⟩ := prefix_of_byteLength_le rfl hText.symm (Nat.le_of_lt h)
  rw [List.append_assoc] at hText
  obtain rfl := List.append_cancel_left hText
  apply Lib.TextPosition.position_before before after'
  rintro rfl
  simp [Cut.offset] at h

theorem Cut.offset_lt_of_before {text : List Char} {cut later : Cut text} (h : cut.position.Before later.position) :
    cut.offset < later.offset := by
  by_contra hNot
  rcases Nat.lt_or_eq_of_le (Nat.not_lt.mp hNot) with hLess | hSame
  · exact Position.Before.irrefl _ (h.trans (Cut.position_before hLess))
  · rw [Cut.eq_of_offset hSame] at h
    exact Position.Before.irrefl _ h

/-! ## The last start of a line -/

theorem exists_last_line (text after : List Char) : ∃ front back, text = front ++ back ∧ WithinLine back after ∧
    (front = [] ∨ ∃ start c, front = start ++ [c] ∧ endsLine c (back ++ after) = true) := by
  induction text using List.reverseRecOn generalizing after with
  | nil => exact ⟨[], [], rfl, fun front c back h => absurd h.symm (by simp), .inl rfl⟩
  | append_singleton text c ih =>
    cases hEnds : endsLine c after with
    | true =>
      refine ⟨text ++ [c], [], by simp, fun front c back h => absurd h.symm (by simp), .inr ⟨text, c, rfl, hEnds⟩⟩
    | false =>
      obtain ⟨front, back, rfl, hWithin, hFront⟩ := ih (c :: after)
      refine ⟨front, back ++ [c], by simp, ?_, by simpa using hFront⟩
      intro begin d rest hBack
      rcases List.eq_nil_or_concat rest with rfl | ⟨more, last, rfl⟩
      · obtain ⟨-, hLast⟩ := List.append_inj' hBack rfl
        obtain rfl := (List.cons.inj hLast).1
        exact hEnds
      · rw [List.concat_eq_append] at hBack ⊢
        obtain ⟨rfl, hLast⟩ := List.append_inj' (hBack.trans (by simp : _ = (begin ++ d :: more) ++ [last])) rfl
        obtain rfl := (List.cons.inj hLast).1
        simpa using hWithin begin d more rfl

/-! ## Places and marks -/

section

variable {pieces : List Piece} {tail : List Char}

theorem Place.offset_lt_of_front (hPieces : PiecesValid pieces) {place later : Place pieces tail}
    {piece : Piece} {more : List Piece} (h : later.front = place.front ++ piece :: more) :
    place.generated.offset < later.generated.offset := by
  have hBack : place.back = piece :: (more ++ later.back) := by
    have hText := place.pieces_eq.trans later.pieces_eq.symm
    rw [h, List.append_assoc] at hText
    exact List.append_cancel_left hText
  have hPiece : piece.Valid := hPieces piece (by rw [← place.pieces_eq, hBack]; simp)
  have hReplacement := byteLength_pos hPiece.replacement.nonempty
  have hRun : byteLength place.before + byteLength place.after = byteLength piece.unchanged := by
    rw [← byteLength_append, place.run_eq, hBack, run]
  simp only [Cut.offset, generated, h, generatedOf_append, generatedOf_cons, byteLength_append]
  omega

theorem Place.front_eq (hPieces : PiecesValid pieces) (first : Place pieces tail)
    {place last : Place pieces tail} (hSame : first.front = last.front)
    (hFirst : first.generated.offset ≤ place.generated.offset)
    (hLast : place.generated.offset ≤ last.generated.offset) : place.front = last.front := by
  have hPlace : place.front <+: pieces := ⟨place.back, place.pieces_eq⟩
  have hRun : last.front <+: pieces := ⟨last.back, last.pieces_eq⟩
  rcases List.prefix_or_prefix_of_prefix hPlace hRun with ⟨more, hMore⟩ | ⟨more, hMore⟩
  · cases more with
    | nil => rw [← hMore, List.append_nil]
    | cons piece more =>
      have := offset_lt_of_front hPieces (hSame.trans hMore.symm)
      omega
  · cases more with
    | nil => rw [← hMore, List.append_nil]
    | cons piece more =>
      have := offset_lt_of_front hPieces hMore.symm
      omega

variable {place other : Place pieces tail}

theorem Place.back_eq (h : place.front = other.front) : place.back = other.back := by
  have hText := place.pieces_eq.trans other.pieces_eq.symm
  rw [h] at hText
  exact List.append_cancel_left hText

theorem Place.not_marked {here other : Place pieces tail} {front between : List Char} (hHere : ¬here.Marked)
    (hBefore : here.before = front ++ between) (hWithin : WithinLine between here.generated.after)
    (hFronts : other.front = here.front) (hFirst : byteLength front < byteLength other.before)
    (hLast : byteLength other.before ≤ byteLength here.before) : ¬other.Marked := by
  have hBacks : other.back = here.back := back_eq hFronts
  have hRun : run tail here.back = other.before ++ other.after := by rw [← hBacks, other.run_eq]
  have hFront : run tail here.back = front ++ (between ++ here.after) := by
    rw [← List.append_assoc, ← hBefore, here.run_eq]
  obtain ⟨middle, hMiddle⟩ := prefix_of_byteLength_le hFront hRun (Nat.le_of_lt hFirst)
  obtain ⟨rest, hRest⟩ := prefix_of_byteLength_le hRun here.run_eq.symm hLast
  have hBetween : between = middle ++ rest := by
    rw [hBefore, ← hMiddle, List.append_assoc] at hRest
    exact (List.append_cancel_left hRest).symm
  have hAfter : other.after = rest ++ here.after := by
    have hText := hRun.symm.trans here.run_eq.symm
    rw [← hRest, List.append_assoc] at hText
    exact List.append_cancel_left hText
  rintro (hStart | ⟨hEnd, hBack⟩ | ⟨start, c, hStart, hEnds⟩)
  · rw [hStart] at hFirst
    exact Nat.not_lt_zero _ hFirst
  · refine hHere (.inr (.inl ⟨?_, hBacks ▸ hBack⟩))
    rw [hEnd] at hAfter
    exact (List.append_eq_nil_iff.mp hAfter.symm).2
  · rcases List.eq_nil_or_concat middle with rfl | ⟨begin, last, rfl⟩
    · rw [← hMiddle, List.append_nil] at hFirst
      exact Nat.lt_irrefl _ hFirst
    · rw [List.concat_eq_append] at *
      obtain ⟨-, hLastChar⟩ := List.append_inj' ((List.append_assoc _ _ _).trans (hMiddle.trans hStart)) rfl
      obtain rfl := (List.cons.inj hLastChar).1
      have hNone := hWithin begin last rest (by rw [hBetween]; simp)
      have hGenerated : other.generated.after = rest ++ here.generated.after := by
        simp [generated, hAfter, hBacks]
      rw [← hGenerated, hEnds] at hNone
      cases hNone

theorem exists_last_mark (hPieces : PiecesValid pieces) (here : Place pieces tail) :
    ∃ (mark : Place pieces tail) (between : List Char), mark.Marked ∧
      here.generated.before = mark.generated.before ++ between ∧ here.source.before = mark.source.before ++ between ∧
      WithinLine between here.generated.after ∧
      ∀ other : Place pieces tail, other.Marked → mark.generated.offset < other.generated.offset →
        here.generated.offset < other.generated.offset := by
  by_cases hMarked : here.Marked
  · refine ⟨here, [], hMarked, by simp, by simp, fun front c back h => absurd h.symm (by simp), fun _ _ => id⟩
  · obtain ⟨front, between, hBefore, hWithin, hFront⟩ := exists_last_line here.before here.generated.after
    let mark : Place pieces tail := ⟨here.front, here.back, front, between ++ here.after, here.pieces_eq, by
      rw [← List.append_assoc, ← hBefore, here.run_eq]⟩
    have hAfter : mark.generated.after = between ++ here.generated.after := List.append_assoc _ _ _
    refine ⟨mark, between, ?_, ?_, ?_, hWithin, ?_⟩
    · refine hFront.imp id fun ⟨start, c, hStart, hEnds⟩ => .inr ⟨start, c, hStart, ?_⟩
      rw [hAfter]
      exact hEnds
    · simp [mark, generated, hBefore]
    · simp [mark, source, hBefore]
    · intro other hOther hMark
      by_contra hNot
      have hFronts : other.front = here.front :=
        mark.front_eq hPieces rfl (Nat.le_of_lt hMark) (Nat.not_lt.mp hNot)
      have hFirst : mark.generated.offset = byteLength (generatedOf here.front) + byteLength front :=
        mark.generated_offset
      rw [other.generated_offset, hFronts] at hMark hNot
      rw [here.generated_offset] at hNot
      exact not_marked hMarked hBefore hWithin hFronts (by omega) (by omega) hOther

/-! ## Lookups -/

def Place.mapping (place : Place pieces tail) : Mapping :=
  ⟨place.generated.position, some ⟨0, place.source.position, none⟩⟩

theorem Place.mapping_eq (h : place.anchor = other.anchor) : place.mapping = other.mapping := by
  have hGenerated : place.generated = other.generated := Cut.eq_of_offset (congrArg ByteAnchor.generated h)
  have hSource : place.source = other.source := Cut.eq_of_offset (congrArg ByteAnchor.original h)
  rw [mapping, mapping, hGenerated, hSource]

variable {places : List (Place pieces tail)}

theorem MarkedPlaces.mapping_mem (h : MarkedPlaces places)
    {place : Place pieces tail} (hMarked : place.Marked) : place.mapping ∈ places.map mapping := by
  obtain ⟨found, hFound, hAnchor⟩ := h.complete place hMarked
  rw [← mapping_eq hAnchor]
  exact List.mem_map_of_mem hFound

theorem MarkedPlaces.mappings_sorted (h : MarkedPlaces places) :
    (places.map mapping).Pairwise fun mapping later => mapping.generated.Before later.generated :=
  List.pairwise_map.mpr (h.sorted.imp fun hOffset => Cut.position_before hOffset)

theorem MarkedPlaces.originalPosition? (hPieces : PiecesValid pieces)
    (h : MarkedPlaces places) (here : Place pieces tail) :
    originalPosition? (places.map mapping) here.generated.position = some here.source.position := by
  obtain ⟨mark, between, hMarked, hGenerated, hSource, hWithin, hLast⟩ := exists_last_mark hPieces here
  have hGeneratedAfter : mark.generated.after = between ++ here.generated.after := by
    have hText := mark.generated.text_eq.trans here.generated.text_eq.symm
    rw [hGenerated, List.append_assoc] at hText
    exact List.append_cancel_left hText
  have hSourceAfter : mark.source.after = between ++ here.source.after := by
    have hText := mark.source.text_eq.trans here.source.text_eq.symm
    rw [hSource, List.append_assoc] at hText
    exact List.append_cancel_left hText
  have hGeneratedPosition : here.generated.position =
      ⟨mark.generated.position.line, mark.generated.position.column + width between⟩ := by
    rw [Cut.position, hGenerated, position_withinLine hWithin, Cut.position, hGeneratedAfter]
  have hSourcePosition : here.source.position =
      ⟨mark.source.position.line, mark.source.position.column + width between⟩ := by
    rw [Cut.position, hSource, position_withinLine (hWithin.congr (here.head_iff hPieces)), Cut.position, hSourceAfter]
  have hNext : ∀ other ∈ places.map mapping, mark.mapping.generated.Before other.generated →
      here.generated.position.Before other.generated := by
    intro other hOther hBefore
    obtain ⟨place, hPlace, rfl⟩ := List.mem_map.mp hOther
    exact Cut.position_before (hLast place (h.marked place hPlace) (Cut.offset_lt_of_before hBefore))
  have hLine : mark.mapping.generated.line = here.generated.position.line := by rw [hGeneratedPosition]; rfl
  have hColumn : mark.mapping.generated.column ≤ here.generated.position.column := by
    rw [hGeneratedPosition]
    exact Nat.le_add_right _ _
  rw [originalPosition?_eq h.mappings_sorted (h.mapping_mem hMarked) rfl hLine hColumn hNext, hSourcePosition,
    hGeneratedPosition]
  simp [mapping]

/-! ## Offsets of both texts -/

/-- What the edits up to an offset of the source remove. -/
def removedBefore (edits : List TextEdit) (offset : Nat) : Nat :=
  ((edits.filter fun edit => edit.endByte ≤ offset).map fun edit => edit.endByte - edit.startByte).sum

def addedBefore (edits : List TextEdit) (offset : Nat) : Nat :=
  ((edits.filter fun edit => edit.endByte ≤ offset).map fun edit => byteLength edit.replacement).sum

theorem editsFrom_range (hPieces : PiecesValid pieces) {offset : Nat} {edit : TextEdit}
    (h : edit ∈ editsFrom offset pieces) : offset ≤ edit.startByte ∧ edit.startByte < edit.endByte := by
  induction pieces generalizing offset with
  | nil => cases h
  | cons piece rest ih =>
    have hLiteral := byteLength_pos (hPieces piece List.mem_cons_self).literal.nonempty
    rcases List.mem_cons.mp h with rfl | h
    · dsimp only
      omega
    · have hRest := ih (fun other hOther => hPieces other (List.mem_cons_of_mem piece hOther)) h
      omega

theorem filter_editsFrom_run (hPieces : PiecesValid pieces) (offset : Nat) {place : Nat}
    (h : place ≤ byteLength (run tail pieces)) :
    (editsFrom offset pieces).filter (fun edit => decide (edit.endByte ≤ offset + place)) = [] := by
  rw [List.filter_eq_nil_iff]
  intro edit hEdit hBefore
  have hEnd := of_decide_eq_true hBefore
  cases pieces with
  | nil => cases hEdit
  | cons piece rest =>
    rw [run] at h
    have hLiteral := byteLength_pos (hPieces piece List.mem_cons_self).literal.nonempty
    rcases List.mem_cons.mp hEdit with rfl | hEdit
    · dsimp only at hEnd
      omega
    · have hRange := editsFrom_range (fun other hOther => hPieces other (List.mem_cons_of_mem piece hOther)) hEdit
      omega

theorem Place.offsets (hPieces : PiecesValid pieces) (place : Place pieces tail) (offset : Nat) :
    place.generated.offset + removedBefore (editsFrom offset pieces) (offset + place.source.offset) =
      place.source.offset + addedBefore (editsFrom offset pieces) (offset + place.source.offset) := by
  obtain ⟨front, back, before, after, rfl, hRun⟩ := place
  rw [generated_offset, source_offset]
  dsimp only
  induction front generalizing offset with
  | nil =>
    have hPlace : byteLength before ≤ byteLength (run tail back) := by
      rw [← hRun, byteLength_append]
      exact Nat.le_add_right _ _
    have hNone := filter_editsFrom_run hPieces offset hPlace
    simp only [generatedOf_nil, sourceOf_nil, byteLength_nil, Nat.zero_add, List.nil_append] at hNone ⊢
    rw [removedBefore, addedBefore, hNone]
    rfl
  | cons piece front ih =>
    have hRest := ih (offset + byteLength piece.unchanged + byteLength piece.literal)
      fun other hOther => hPieces other (List.mem_cons_of_mem piece hOther)
    have hEnd : offset + byteLength piece.unchanged + byteLength piece.literal ≤
        offset + (byteLength (sourceOf (piece :: front)) + byteLength before) := by
      rw [sourceOf_cons, byteLength_append, byteLength_append]
      omega
    have hSame : offset + byteLength piece.unchanged + byteLength piece.literal +
        (byteLength (sourceOf front) + byteLength before) =
          offset + (byteLength (sourceOf (piece :: front)) + byteLength before) := by
      rw [sourceOf_cons, byteLength_append, byteLength_append]
      omega
    rw [hSame] at hRest
    simp only [removedBefore, addedBefore, List.cons_append, editsFrom, List.filter_cons, decide_eq_true hEnd, if_true,
      List.map_cons, List.sum_cons, generatedOf_cons, byteLength_append] at hRest ⊢
    rw [sourceOf_cons, byteLength_append, byteLength_append] at hRest ⊢
    omega

theorem exists_place_of_source (hPieces : PiecesValid pieces) (offset : Nat) {before after : List Char}
    (hText : sourceOf pieces ++ tail = before ++ after) (hOutside : ∀ edit ∈ editsFrom offset pieces,
      offset + byteLength before ≤ edit.startByte ∨ edit.endByte ≤ offset + byteLength before) :
    ∃ place : Place pieces tail, place.source.before = before := by
  induction pieces generalizing before offset with
  | nil => exact ⟨⟨[], [], before, after, rfl, hText.symm⟩, rfl⟩
  | cons piece rest ih =>
    have hSplit : sourceOf (piece :: rest) ++ tail =
        piece.unchanged ++ (piece.literal ++ (sourceOf rest ++ tail)) := by simp
    rcases hOutside _ List.mem_cons_self with hBefore | hAfter
    · have hLength : byteLength before ≤ byteLength piece.unchanged := by
        dsimp only at hBefore
        omega
      obtain ⟨more, hMore⟩ := prefix_of_byteLength_le hText hSplit hLength
      exact ⟨⟨[], piece :: rest, before, more, rfl, hMore⟩, rfl⟩
    · have hLength : byteLength (piece.unchanged ++ piece.literal) ≤ byteLength before := by
        dsimp only at hAfter
        rw [byteLength_append]
        omega
      rw [← List.append_assoc] at hSplit
      obtain ⟨more, rfl⟩ := prefix_of_byteLength_le hSplit hText hLength
      have hRest : sourceOf rest ++ tail = more ++ after := by
        rw [hSplit, List.append_assoc (piece.unchanged ++ piece.literal)] at hText
        exact List.append_cancel_left hText
      obtain ⟨place, rfl⟩ := ih (fun other hOther => hPieces other (List.mem_cons_of_mem piece hOther))
        (offset + byteLength piece.unchanged + byteLength piece.literal) hRest fun edit hEdit => by
          have := hOutside edit (List.mem_cons_of_mem _ hEdit)
          rw [byteLength_append, byteLength_append] at this
          omega
      exact ⟨place.shift piece, place.source_before_shift piece⟩

theorem exists_edit_places (tail : List Char) {offset : Nat} {edit : TextEdit} (h : edit ∈ editsFrom offset pieces) :
    (∃ place : Place pieces tail, place.Marked ∧ offset + place.source.offset = edit.startByte) ∧
      ∃ place : Place pieces tail, place.Marked ∧ offset + place.source.offset = edit.endByte := by
  induction pieces generalizing offset with
  | nil => cases h
  | cons piece rest ih =>
    rcases List.mem_cons.mp h with rfl | h
    · refine ⟨⟨runEnd [] piece rest rfl, .inr (.inl ⟨rfl, nofun⟩), ?_⟩,
        ⟨runStart [piece] rest rfl, .inl rfl, ?_⟩⟩
      · rw [source_offset]
        simp [runEnd]
      · rw [source_offset]
        simp [runStart, Nat.add_assoc]
    · have hShift : ∀ place : Place rest tail, place.Marked → (place.shift piece).Marked ∧
          (place.shift piece).source.offset =
            byteLength piece.unchanged + byteLength piece.literal + place.source.offset := by
        intro place hMarked
        refine ⟨hMarked, ?_⟩
        rw [Cut.offset, source_before_shift, byteLength_append, byteLength_append]
        rfl
      obtain ⟨⟨start, hStart, hStartOffset⟩, ⟨stop, hStop, hStopOffset⟩⟩ := ih h
      refine ⟨⟨start.shift piece, (hShift start hStart).1, ?_⟩, ⟨stop.shift piece, (hShift stop hStop).1, ?_⟩⟩
      · rw [(hShift start hStart).2]
        omega
      · rw [(hShift stop hStop).2]
        omega

end

/-! ## The document -/

theorem length_digestText (digest : Sha256Digest) : (digestText digest).length = digestTextLength := by
  obtain ⟨hSize, -⟩ := Sha256Digest.encodeHex_ascii digest.bytes.toList
  have hLength : digest.bytes.toList.length = 32 := by simp
  have hPrefix : (utf8Bytes "sha256:").length = 7 := by decide +kernel
  rw [digestText, List.length_append, length_charBytes, byteLength, hSize, hLength, hPrefix]
  rfl

theorem yields_sourceMapLength {bound : Nat} {mappings : List UInt8}
    (hBound : (sourceMapBytes transformed mappings).length ≤ bound) :
    Yields (Overflows bound) (· = (sourceMapBytes transformed mappings).length)
      (sourceMapLength mappings.length (utf8Bytes transformed.plan.source.unitId.value).length
        (utf8Bytes transformed.plan.ruleId.value).length) := by
  simp only [sourceMapBytes, List.length_append, length_digestText] at hBound ⊢
  rw [sourceMapLength]
  rw [foldlM_addLength List.length (Nat.zero_le _)]
  refine yields_bind (yields_addLength ?_) ?_
  · simp only [List.map_cons, List.map_nil, List.sum_cons, List.sum_nil]
    omega
  rintro _ rfl
  refine (congrArg (Yields _ _) (foldlM_addLength id (by decide +kernel))).mpr ?_
  simp only [List.map_cons, List.map_nil, List.sum_cons, List.sum_nil, id]
  exact (yields_addLength (by omega)).mono fun total hTotal => by omega

/-! ## Sizes

Every number of an emission stays below a multiple of the two lengths. -/

theorem length_sourceMapBytes_le (transformed : EmittedTransformedSource) (mappings : List UInt8) :
    (sourceMapBytes transformed mappings).length ≤ mappings.length + 2000 := by
  have hParts : ∀ part ∈ [mapPrefix, mapMappings, mapExtension, mapRuleDigest, mapSourceDigest, mapTransformedDigest,
      mapSuffix], part.length ≤ 100 := by
    simp only [List.forall_mem_cons]
    refine ⟨?_, ?_, ?_, ?_, ?_, ?_, ?_⟩
    all_goals decide +kernel
  have hRule := transformed.plan.ruleId.bounded.1
  have hUnit := transformed.plan.source.unitId.bounded.1
  rw [← length_utf8Bytes] at hRule hUnit
  simp only [List.forall_mem_cons] at hParts
  simp only [sourceMapBytes, List.length_append, length_digestText, digestTextLength]
  omega

section

variable {pieces : List Piece} {tail : List Char}

def sizeBound (pieces : List Piece) (tail : List Char) : Nat :=
  3000 + 200 * (byteLength (sourceOf pieces ++ tail) + byteLength (generatedOf pieces ++ tail))

theorem length_lineStartsFrom_le (offset : Nat) (text : List Char) :
    (lineStartsFrom offset text).length ≤ byteLength text := by
  induction text generalizing offset with
  | nil => exact Nat.le_refl _
  | cons c rest ih =>
    have hRest := ih (offset + c.utf8Size)
    have hSize := c.utf8Size_pos
    rw [lineStartsFrom, byteLength_cons]
    split
    · rw [List.length_cons]
      omega
    · omega

theorem length_pieces_le (hPieces : PiecesValid pieces) : pieces.length ≤ byteLength (sourceOf pieces) := by
  induction pieces with
  | nil => exact Nat.le_refl _
  | cons piece rest ih =>
    obtain ⟨hPiece, hOthers⟩ := List.forall_mem_cons.mp hPieces
    have hRest := ih hOthers
    have hLiteral := byteLength_pos hPiece.literal.nonempty
    rw [sourceOf_cons, byteLength_append, byteLength_append, List.length_cons]
    omega

theorem requiredSegments_le (hPieces : PiecesValid pieces) (tail : List Char) :
    requiredSegments pieces tail ≤
      1 + byteLength (generatedOf pieces ++ tail) + 2 * byteLength (sourceOf pieces ++ tail) := by
  have hLines := length_lineStartsFrom_le 0 (generatedOf pieces ++ tail)
  have hCount := length_pieces_le hPieces
  have hSource : byteLength (sourceOf pieces ++ tail) = byteLength (sourceOf pieces) + byteLength tail :=
    byteLength_append _ _
  rw [requiredSegments, lineStarts, List.length_cons]
  omega

theorem length_anchorsOf (sourceCursor generatedCursor : Nat) (pieces : List Piece) :
    (anchorsOf sourceCursor generatedCursor pieces).length = pieces.length * 2 := by
  induction pieces generalizing sourceCursor generatedCursor with
  | nil => rfl
  | cons piece rest ih =>
    rw [anchorsOf, List.length_cons, List.length_cons, ih, List.length_cons]
    omega

theorem length_markedAnchors_le (pieces : List Piece) (tail : List Char) :
    (markedAnchors pieces tail).length ≤ requiredSegments pieces tail := by
  apply (List.destutter_sublist (· ≠ ·) _).length_le.trans
  rw [List.length_insertionSort, List.length_append, List.length_map, length_anchorsOf]
  exact Nat.le_refl _

theorem Cut.position_le {text : List Char} (cut : Cut text) :
    cut.position.line + cut.position.column ≤ byteLength text :=
  (Lib.TextPosition.position_le cut.before cut.after).trans cut.offset_le

theorem yields_placesAnchors (hPieces : PiecesValid pieces) (limits : SourceMapLimits) :
    Yields (fun error => error.Overflows (sizeBound pieces tail) ∨ limits.segments < requiredSegments pieces tail ∧
        error = .segmentLimitExceeded (requiredSegments pieces tail) limits.segments)
      (fun anchors => requiredSegments pieces tail ≤ limits.segments ∧ anchors = markedAnchors pieces tail)
      (collectAnchors (generatedOf pieces ++ tail) (editsFrom 0 pieces)
        (byteLength (sourceOf pieces ++ tail)) limits) := by
  have hRequired := requiredSegments_le hPieces tail
  refine yields_collectAnchors hPieces limits ?_ ?_ ?_
  all_goals
    rw [sizeBound]
    omega

def generatedPositions (places : List (Place pieces tail)) : List Position :=
  places.map fun place => place.generated.position

def sourcePositions (places : List (Place pieces tail)) : List Position := places.map fun place => place.source.position

variable {places : List (Place pieces tail)}

theorem yields_generatedPositions (hPieces : PiecesValid pieces) (hPlaces : MarkedPlaces places) :
    Yields (Overflows (sizeBound pieces tail)) (· = generatedPositions places)
      (resolvePositions (generatedOf pieces ++ tail) (places.map anchor) ByteAnchor.generated) := by
  have hCuts : generatedPositions places = (places.map generated).map Cut.position := by
    rw [generatedPositions, List.map_map]
    rfl
  rw [hCuts]
  refine yields_resolvePositions (by simp [anchor]) ?_ ?_ ?_
  · rw [List.forall_mem_map]
    exact fun place hPlace => ((hPlaces.marked place hPlace).whole hPieces).1
  · exact List.pairwise_map.mpr (hPlaces.sorted.imp Nat.le_of_lt)
  · rw [sizeBound]
    omega

theorem yields_sourcePositions (hPieces : PiecesValid pieces) (hPlaces : MarkedPlaces places) :
    Yields (Overflows (sizeBound pieces tail)) (· = sourcePositions places)
      (resolvePositions (sourceOf pieces ++ tail) (places.map anchor) ByteAnchor.original) := by
  have hCuts : sourcePositions places = (places.map source).map Cut.position := by
    rw [sourcePositions, List.map_map]
    rfl
  rw [hCuts]
  refine yields_resolvePositions (by simp [anchor]) ?_ ?_ ?_
  · rw [List.forall_mem_map]
    exact fun place hPlace => ((hPlaces.marked place hPlace).whole hPieces).2
  · exact List.pairwise_map.mpr (hPlaces.sorted.imp fun h => source_le hPieces (Nat.le_of_lt h))
  · rw [sizeBound]
    omega

theorem yields_placesLength (hPieces : PiecesValid pieces) (hPlaces : MarkedPlaces places)
    (hAnchors : markedAnchors pieces tail = places.map anchor) :
    Yields (Overflows (sizeBound pieces tail))
      (fun total => ∃ bytes, appendMappings (generatedPositions places) (sourcePositions places) = .ok bytes ∧
        total = bytes.length ∧ total + 2000 ≤ sizeBound pieces tail)
      (mappingsLength (generatedPositions places) (sourcePositions places)) := by
  have hCount : places.length ≤ requiredSegments pieces tail := by
    have hLength := length_markedAnchors_le pieces tail
    rwa [hAnchors, List.length_map] at hLength
  have hRequired := requiredSegments_le hPieces tail
  have hLength : (generatedPositions places).length = places.length := List.length_map _
  have hSorted : (generatedPositions places).Pairwise Position.Before :=
    List.pairwise_map.mpr (hPlaces.sorted.imp fun h => Cut.position_before h)
  have hGenerated : ∀ p ∈ generatedPositions places, p.line ≤ byteLength (generatedOf pieces ++ tail) ∧
      p.column ≤ sizeBound pieces tail := by
    intro p hp
    obtain ⟨place, -, rfl⟩ := List.mem_map.mp hp
    have hPosition := place.generated.position_le
    rw [sizeBound]
    omega
  have hSource : ∀ p ∈ sourcePositions places, p.line ≤ sizeBound pieces tail ∧ p.column ≤ sizeBound pieces tail := by
    intro p hp
    obtain ⟨place, -, rfl⟩ := List.mem_map.mp hp
    have hPosition := place.source.position_le
    rw [sizeBound]
    omega
  have hBound : byteLength (generatedOf pieces ++ tail) + 53 * (generatedPositions places).length + 2000 ≤
      sizeBound pieces tail := by
    rw [hLength, sizeBound]
    omega
  refine (yields_mappingsLength (by simp [generatedPositions, sourcePositions]) hSorted hGenerated hSource
    (by omega)).mono ?_
  rintro total ⟨bytes, hBytes, hTotal, hMost⟩
  exact ⟨bytes, hBytes, hTotal, by omega⟩

theorem yields_emitSourceMap {sha256 : Sha256} {transformed : EmittedTransformedSource}
    (hPieces : PiecesValid pieces) (hEdits : transformed.plan.edits = editsFrom 0 pieces)
    (hText : transformed.transformedSource = charBytes (generatedOf pieces ++ tail))
    (hDigest : sha256 (charBytes (sourceOf pieces ++ tail)) = transformed.plan.source.sourceDigest)
    (limits : SourceMapLimits) : Yields IsSize
      (fun map => ∃ (mappings : List UInt8) (places : List (Place pieces tail)), MarkedPlaces places ∧
        map.bytes = sourceMapBytes transformed mappings ∧ decode mappings = some (places.map mapping))
      (emitSourceMap sha256 transformed (charBytes (sourceOf pieces ++ tail)) limits) := by
  obtain ⟨places, hAnchors, hPlaces⟩ := exists_places tail hPieces
  rw [emitSourceMap]
  refine yields_guard (fun _ => trivial) fun _ => ?_
  refine yields_guard (fun _ => trivial) fun _ => ?_
  refine yields_guard (fun hMismatch => absurd hDigest hMismatch) fun _ => ?_
  rw [hText, chars?_charBytes, chars?_charBytes, hEdits, length_charBytes]
  refine yields_bind (Q := (· = sourceOf pieces ++ tail)) rfl ?_
  rintro _ rfl
  refine yields_bind (Q := (· = generatedOf pieces ++ tail)) rfl ?_
  rintro _ rfl
  have hCollected : Yields IsSize (· = places.map anchor)
      (collectAnchors (generatedOf pieces ++ tail) (editsFrom 0 pieces)
        (byteLength (sourceOf pieces ++ tail)) limits) := by
    refine ((yields_placesAnchors hPieces limits).imp ?_).mono fun anchors hFound => hFound.2.trans hAnchors
    rintro error (hOverflow | ⟨-, rfl⟩)
    · exact hOverflow.isSize
    · trivial
  apply yields_bind hCollected
  rintro _ rfl
  apply yields_bind ((yields_generatedPositions hPieces hPlaces).imp fun _ => Overflows.isSize)
  rintro _ rfl
  apply yields_bind ((yields_sourcePositions hPieces hPlaces).imp fun _ => Overflows.isSize)
  rintro _ rfl
  apply yields_bind ((yields_placesLength hPieces hPlaces hAnchors).imp fun _ => Overflows.isSize)
  rintro _ ⟨mappings, hMappings, rfl, hTotal⟩
  have hMost := length_sourceMapBytes_le transformed mappings
  refine yields_bind ((yields_sourceMapLength (hMost.trans hTotal)).imp fun _ => Overflows.isSize)
    fun mapLength hLength => ?_
  refine yields_guard (fun _ => trivial) fun _ => ?_
  rw [hMappings]
  refine yields_bind (Q := (mappings = ·)) rfl ?_
  rintro _ rfl
  refine yields_guard (fun hMismatch => absurd hLength.symm hMismatch) fun _ => ?_
  refine yields_pure ⟨mappings, places, hPlaces, rfl, ?_⟩
  rw [decode_appendMappings hMappings, generatedPositions, sourcePositions, List.zip_map', List.map_map]
  rfl

end

/-! ## Exactness -/

structure UnchangedPlace (text transformed : List Char) (edits : List TextEdit) where
  source : Cut text
  generated : Cut transformed
  outside : ∀ edit ∈ edits, source.offset ≤ edit.startByte ∨ edit.endByte ≤ source.offset
  offsets : generated.offset + removedBefore edits source.offset = source.offset + addedBefore edits source.offset

/-- The source map of the transformed text leads from every place outside of the edits to its place in the source, and
has a mapping on both sides of every edit. -/
theorem source_map_is_exact (sha256 : Sha256) (text : List Char) (plan : TransformPlan)
    (hEdits : LiteralEdits text plan.edits) (emissionLimits : TransformEmissionLimits) (limits : SourceMapLimits)
    (transformed : EmittedTransformedSource)
    (hEmitted : emitTransformedSource sha256 plan (charBytes text) emissionLimits = .ok transformed) :
    ∃ transformedText, transformed.transformedSource = charBytes transformedText ∧
      Yields IsSize
        (fun map => ∃ bytes mappings, map.bytes = sourceMapBytes transformed bytes ∧ decode bytes = some mappings ∧
          (∀ place : UnchangedPlace text transformedText plan.edits,
            originalPosition? mappings place.generated.position = some place.source.position) ∧
          ∀ edit ∈ plan.edits, ∀ place : UnchangedPlace text transformedText plan.edits,
            place.source.offset = edit.startByte ∨ place.source.offset = edit.endByte →
              ⟨place.generated.position, some ⟨0, place.source.position, none⟩⟩ ∈ mappings)
        (emitSourceMap sha256 transformed (charBytes text) limits) := by
  obtain ⟨pieces, tail, hText, hPlan, hPieces⟩ :=
    exists_pieces [] rfl hEdits.enclosed fun _ _ => Nat.zero_le _
  subst hText
  rw [byteLength_nil] at hPlan
  obtain ⟨rfl, hTransformed, hDigest⟩ := emitted_text hPlan hEmitted
  refine ⟨generatedOf pieces ++ tail, hTransformed, ?_⟩
  apply (yields_emitSourceMap hPieces hPlan hTransformed hDigest limits).mono
  rintro map ⟨bytes, places, hPlaces, hMap, hDecode⟩
  rw [hPlan]
  -- Such a place is one of a part that stays.
  have hSame : ∀ (place : UnchangedPlace (sourceOf pieces ++ tail) (generatedOf pieces ++ tail) (editsFrom 0 pieces))
      (found : Place pieces tail), found.source.offset = place.source.offset →
        place.source = found.source ∧ place.generated = found.generated := by
    intro place found hOffset
    have hOffsets := found.offsets hPieces 0
    rw [Nat.zero_add, hOffset, ← place.offsets] at hOffsets
    exact ⟨Cut.eq_of_offset hOffset.symm, Cut.eq_of_offset (by omega)⟩
  refine ⟨bytes, _, hMap, hDecode, fun place => ?_, fun edit hEdit place hSide => ?_⟩
  · obtain ⟨found, hFound⟩ := exists_place_of_source hPieces 0 place.source.text_eq.symm
      (by simpa [Cut.offset] using place.outside)
    obtain ⟨hSource, hGenerated⟩ := hSame place found (by rw [Cut.offset, hFound]; rfl)
    rw [hSource, hGenerated]
    exact hPlaces.originalPosition? hPieces found
  · obtain ⟨⟨start, hStart, hStartOffset⟩, ⟨stop, hStop, hStopOffset⟩⟩ := exists_edit_places tail hEdit
    rw [Nat.zero_add] at hStartOffset hStopOffset
    rcases hSide with hSide | hSide
    · obtain ⟨hSource, hGenerated⟩ := hSame place start (hStartOffset.trans hSide.symm)
      rw [hSource, hGenerated]
      exact hPlaces.mapping_mem hStart
    · obtain ⟨hSource, hGenerated⟩ := hSame place stop (hStopOffset.trans hSide.symm)
      rw [hSource, hGenerated]
      exact hPlaces.mapping_mem hStop

/-! ### The sample's map -/

namespace Sample

def limits : SourceMapLimits := ⟨100, 100, 10, 1000, by decide⟩

theorem literalEdits : LiteralEdits text plan.edits where
  ordered := by decide
  literal := by
    rintro _ (_ | ⟨_, _ | ⟨_, ⟨⟩⟩⟩)
    · exact ⟨[], "\"a\"".toList, ";\"long\"".toList, rfl, rfl, by decide +kernel, by decide +kernel⟩
    · exact ⟨"\"a\";".toList, "\"long\"".toList, [], rfl, rfl, by decide +kernel, by decide +kernel⟩
  replacement := by decide +kernel

def semicolon : UnchangedPlace text spliced plan.edits :=
  ⟨⟨"\"a\"".toList, ";\"long\"".toList, rfl⟩, ⟨"\"bcd\"".toList, ";\"x\"".toList, rfl⟩, by decide +kernel,
    by decide +kernel⟩

theorem sample_semicolon_found : ∃ map bytes mappings,
    emitSourceMap sha256 Sample.transformed (charBytes text) limits = .ok map ∧
    map.bytes = sourceMapBytes Sample.transformed bytes ∧ decode bytes = some mappings ∧
    originalPosition? mappings ⟨0, 5⟩ = some ⟨0, 3⟩ := by
  obtain ⟨transformedText, hText, hMap⟩ := source_map_is_exact sha256 text plan literalEdits
    emissionLimits limits Sample.transformed emitted
  have hSame : transformedText = spliced := by
    have hChars := congrArg chars? hText
    rw [chars?_charBytes] at hChars
    exact Option.some.inj (hChars.symm.trans (chars?_charBytes _))
  subst hSame
  cases hEmit : emitSourceMap sha256 Sample.transformed (charBytes text) limits with
  | error error =>
    have hSome : (emitSourceMap sha256 Sample.transformed (charBytes text)
        limits).toOption.isSome = true := by decide +kernel
    rw [hEmit] at hSome
    cases hSome
  | ok map =>
    obtain ⟨bytes, mappings, hBytes, hDecode, hExact, -⟩ := hMap.ok hEmit
    exact ⟨map, bytes, mappings, rfl, hBytes, hDecode, hExact semicolon⟩

end Sample

end Weregopher.Transform
