import Weregopher.Transform.Documents

/-! # Source maps of planned transformations

The edits of a plan replace literals, which may go over several lines, by literals on one
line, at most as many as its rule counts. So no number of an emission comes near the range
of a machine integer: only the limits of the caller can stop it.
-/
namespace Weregopher.Transform
open Lib.Bytes Lib.Checked Lib.EcmaString Lib.Outcome Lib.TextPosition

/-- What the planner expects of its parser: in a module without diagnostics the literals of imports and exports come in
the order of the text, and each span goes from the opening quote to the closing one. -/
structure LiteralSpans (parse : List Char → ParsedModule) : Prop where
  ordered : ∀ text, (parse text).diagnosticCount = 0 →
    (specifiers (parse text).body).Pairwise fun literal later => literal.endByte ≤ later.startByte
  quoted : ∀ text, (parse text).diagnosticCount = 0 → ∀ literal ∈ specifiers (parse text).body, ∀ raw,
    textRange text literal.startByte literal.endByte = some raw →
      ∃ quote body, isQuote quote = true ∧ raw = quote :: (body ++ [quote])

/-! ## The edits of a plan -/

theorem textRange_eq_some {text raw : List Char} {start stop : Nat} (h : textRange text start stop = some raw) :
    ∃ before after, text = before ++ raw ++ after ∧ start = byteLength before ∧ stop = byteLength (before ++ raw) := by
  have hOrder := textRange_le h
  rw [textRange] at h
  split at h
  · next hBoundaries =>
    rw [Bool.and_eq_true] at hBoundaries
    obtain ⟨before, rest, hFirst, rfl⟩ := exists_of_isCharBoundary hBoundaries.1
    obtain ⟨front, after, hSecond, rfl⟩ := exists_of_isCharBoundary hBoundaries.2
    obtain ⟨middle, rfl⟩ := prefix_of_byteLength_le hFirst hSecond hOrder.1
    rw [Option.bind_eq_some_iff] at h
    obtain ⟨range, hRange, hRaw⟩ := h
    have hMiddle := byteRange_middle (charBytes before) (charBytes middle) (charBytes after)
    rw [length_charBytes, length_charBytes, ← charBytes_append, ← charBytes_append, ← byteLength_append,
      ← hSecond, hRange] at hMiddle
    have hSame : middle = raw := by
      have hBytes := chars?_eq_some hRaw
      rw [Option.some.inj hMiddle] at hBytes
      exact charBytes_injective hBytes
    subst hSame
    exact ⟨before, after, hSecond, rfl, rfl⟩
  · cases h

variable {quote : Char} {bound : Nat} {α : Type} {x : Except SourceMapError α}

theorem isQuote_ne (h : isQuote quote = true) : quote ≠ '\n' ∧ quote ≠ '\r' := by
  constructor
  · rintro rfl
    exact absurd h (by decide)
  · rintro rfl
    exact absurd h (by decide)

theorem enclosed_of_quoted (h : isQuote quote = true) (body : List Char) :
    Enclosed (quote :: (body ++ [quote])) := by
  obtain ⟨hLf, hCr⟩ := isQuote_ne h
  refine ⟨nofun, fun hHead => hLf (Option.some.inj hHead), fun hLast => hCr ?_⟩
  rw [← List.cons_append, List.getLast?_concat] at hLast
  exact Option.some.inj hLast

theorem singleLine_target (rule : StaticImportRewrite) : SingleLine (quoteSpecifier rule.target) := by
  obtain ⟨-, -, hControl, -⟩ := validateSpecifier_ok.mp rule.targetValid
  exact ⟨nofun, fun c hc => not_terminator_of_mem_literal hControl hc⟩

section

variable {sha256 : Sha256} {parse : List Char → ParsedModule} {rule : StaticImportRewrite}
  {text : List Char} {plan : TransformPlan}

theorem Planned.enclosedEdits (h : Planned sha256 parse rule text plan) (hParse : LiteralSpans parse) :
    EnclosedEdits text plan.edits := by
  rw [h.edits]
  refine ⟨?_, ?_, ?_⟩
  · exact List.pairwise_map.mpr ((hParse.ordered text h.parsed).filter _)
  · intro edit hEdit
    obtain ⟨literal, hLiteral, rfl⟩ := List.mem_map.mp hEdit
    have hSpecifier := List.mem_of_mem_filter hLiteral
    obtain ⟨raw, hRaw, -⟩ := h.readable literal hSpecifier
    obtain ⟨quote, body, hQuote, rfl⟩ := hParse.quoted text h.parsed literal hSpecifier raw hRaw
    obtain ⟨before, after, hText, hStart, hStop⟩ := textRange_eq_some hRaw
    exact ⟨before, _, after, hText, hStart, hStop, enclosed_of_quoted hQuote body⟩
  · intro edit hEdit
    obtain ⟨literal, -, rfl⟩ := List.mem_map.mp hEdit
    exact singleLine_target rule

/-! ## Sizes -/

theorem exists_edit_of_piece {pieces : List Piece} {piece : Piece} (h : piece ∈ pieces) (offset : Nat) :
    ∃ edit ∈ editsFrom offset pieces, edit.replacement = piece.replacement := by
  induction pieces generalizing offset with
  | nil => cases h
  | cons first rest ih =>
    rcases List.mem_cons.mp h with rfl | hRest
    · exact ⟨_, List.mem_cons_self, rfl⟩
    · obtain ⟨edit, hEdit, hSame⟩ := ih hRest (offset + byteLength first.unchanged + byteLength first.literal)
      exact ⟨edit, List.mem_cons_of_mem _ hEdit, hSame⟩

theorem byteLength_generatedOf_le {pieces : List Piece} {most : Nat}
    (h : ∀ piece ∈ pieces, byteLength piece.replacement ≤ most) :
    byteLength (generatedOf pieces) ≤ byteLength (sourceOf pieces) + most * pieces.length := by
  induction pieces with
  | nil => exact Nat.le_refl _
  | cons piece rest ih =>
    obtain ⟨hPiece, hOthers⟩ := List.forall_mem_cons.mp h
    have hRest := ih hOthers
    rw [generatedOf_cons, sourceOf_cons, List.length_cons, Nat.mul_add, Nat.mul_one]
    simp only [byteLength_append]
    omega

theorem Planned.sizeBound_le {pieces : List Piece} {tail : List Char}
    (h : Planned sha256 parse rule (sourceOf pieces ++ tail) plan) (hEdits : plan.edits = editsFrom 0 pieces) :
    sizeBound pieces tail ≤ i64Max := by
  have hSource := h.size
  rw [length_charBytes] at hSource
  have hTarget := (validateSpecifier_ok.mp rule.targetValid).2.1
  have hReplacement : ∀ piece ∈ pieces, byteLength piece.replacement ≤ 2 + 2 * u32Max := by
    intro piece hPiece
    obtain ⟨edit, hEdit, hSame⟩ := exists_edit_of_piece hPiece 0
    rw [← hEdits, h.edits] at hEdit
    obtain ⟨literal, -, rfl⟩ := List.mem_map.mp hEdit
    rw [← hSame]
    have hQuoted := byteLength_quoteSpecifier_le rule.target
    dsimp only [StringLiteral.edit]
    omega
  have hCount : pieces.length < 2 ^ 16 := by
    rw [← length_editsFrom 0 pieces, ← hEdits, h.count]
    exact rule.counted.2
  have hGenerated := byteLength_generatedOf_le hReplacement
  have hProduct : (2 + 2 * u32Max) * pieces.length ≤ (2 + 2 * u32Max) * 2 ^ 16 :=
    Nat.mul_le_mul_left _ (Nat.le_of_lt hCount)
  have hSum : byteLength (sourceOf pieces ++ tail) + byteLength (generatedOf pieces ++ tail) ≤
      u32Max + (u32Max + (2 + 2 * u32Max) * 2 ^ 16) := by
    have hTotal : ∀ {limit most added kept written rest : Nat}, written ≤ kept + added → kept + rest ≤ limit →
        added ≤ most → kept + rest + (written + rest) ≤ limit + (limit + most) := by omega
    rw [byteLength_append] at hSource
    rw [byteLength_append, byteLength_append]
    exact hTotal hGenerated hSource hProduct
  have hBound : 3000 + 200 * (u32Max + (u32Max + (2 + 2 * u32Max) * 2 ^ 16)) ≤ i64Max := by decide
  exact (Nat.add_le_add_left (Nat.mul_le_mul_left 200 hSum) 3000).trans hBound

end

/-! ## Emission -/

theorem exists_ok_of_yields {Q : α → Prop}
    (hSmall : bound ≤ i64Max) (h : Yields (SourceMapError.Overflows bound) Q x) : ∃ a, x = .ok a ∧ Q a := by
  cases hResult : x with
  | ok a => exact ⟨a, rfl, h.ok hResult⟩
  | error e =>
    obtain ⟨-, hLarge⟩ := h.error hResult
    omega

theorem eq_ok_of_yields {value : α} (hSmall : bound ≤ i64Max)
    (h : Yields (SourceMapError.Overflows bound) (· = value) x) : x = .ok value := by
  obtain ⟨a, hx, rfl⟩ := exists_ok_of_yields hSmall h
  exact hx

/-- What an emission computes before it writes a map, each part as its function returns it. -/
structure MapParts (transformed : EmittedTransformedSource) (text transformedText : List Char) where
  required : Nat
  anchors : List ByteAnchor
  (generated original : List Position)
  mappings : List UInt8
  collected : ∀ limits, collectAnchors transformedText transformed.plan.edits (charBytes text).length limits =
    if required > limits.segments then .error (.segmentLimitExceeded required limits.segments) else .ok anchors
  generatedPositions : resolvePositions transformedText anchors ByteAnchor.generated = .ok generated
  originalPositions : resolvePositions text anchors ByteAnchor.original = .ok original
  mappingsLength : mappingsLength generated original = .ok mappings.length
  written : appendMappings generated original = .ok mappings
  mapLength : sourceMapLength mappings.length (utf8Bytes transformed.plan.source.unitId.value).length
    (utf8Bytes transformed.plan.ruleId.value).length = .ok (sourceMapBytes transformed mappings).length

theorem emitSourceMap_eq {sha256 : Sha256} {transformed : EmittedTransformedSource}
    {text transformedText : List Char} (parts : MapParts transformed text transformedText)
    (hText : transformed.transformedSource = charBytes transformedText)
    (hDigest : sha256 (charBytes text) = transformed.plan.source.sourceDigest) (limits : SourceMapLimits) :
    emitSourceMap sha256 transformed (charBytes text) limits =
      if (charBytes text).length > limits.sourceBytes then
        .error (.sourceTooLarge (charBytes text).length limits.sourceBytes)
      else if (charBytes transformedText).length > limits.transformedSourceBytes then
        .error (.transformedSourceTooLarge (charBytes transformedText).length limits.transformedSourceBytes)
      else if parts.required > limits.segments then .error (.segmentLimitExceeded parts.required limits.segments)
      else if (sourceMapBytes transformed parts.mappings).length > limits.sourceMapBytes then
        .error (.sourceMapTooLarge (sourceMapBytes transformed parts.mappings).length limits.sourceMapBytes)
      else .ok ⟨transformed, sourceMapBytes transformed parts.mappings,
        sha256 (sourceMapBytes transformed parts.mappings), parts.anchors.length⟩ := by
  unfold emitSourceMap
  rw [hText]
  by_cases hSource : (charBytes text).length > limits.sourceBytes
  · rw [if_pos hSource, if_pos hSource]
    rfl
  rw [if_neg hSource, if_neg hSource]
  by_cases hTransformed : (charBytes transformedText).length > limits.transformedSourceBytes
  · rw [if_pos hTransformed, if_pos hTransformed]
    rfl
  rw [if_neg hTransformed, if_neg hTransformed, if_neg (not_not.mpr hDigest), chars?_charBytes, chars?_charBytes]
  simp only [okOr, bind, Except.bind, parts.collected]
  by_cases hSegments : parts.required > limits.segments
  · rw [if_pos hSegments, if_pos hSegments]
  rw [if_neg hSegments, if_neg hSegments]
  simp only [parts.generatedPositions, parts.originalPositions, parts.mappingsLength, parts.mapLength, parts.written]
  split
  · rfl
  · rw [if_neg (not_not.mpr rfl)]
    rfl

section

variable {pieces : List Piece} {tail : List Char}

theorem collectAnchors_eq (hPieces : PiecesValid pieces) (hSmall : sizeBound pieces tail ≤ i64Max)
    (limits : SourceMapLimits) :
    collectAnchors (generatedOf pieces ++ tail) (editsFrom 0 pieces) (byteLength (sourceOf pieces ++ tail)) limits =
      if requiredSegments pieces tail > limits.segments then
        .error (.segmentLimitExceeded (requiredSegments pieces tail) limits.segments)
      else .ok (markedAnchors pieces tail) := by
  have hCollected := @yields_placesAnchors pieces tail hPieces limits
  cases hResult : collectAnchors (generatedOf pieces ++ tail) (editsFrom 0 pieces)
      (byteLength (sourceOf pieces ++ tail)) limits with
  | ok anchors =>
    obtain ⟨hFits, rfl⟩ := hCollected.ok hResult
    rw [if_neg (Nat.not_lt.mpr hFits)]
  | error error =>
    rcases hCollected.error hResult with ⟨-, hLarge⟩ | ⟨hMany, rfl⟩
    · omega
    · rw [if_pos hMany]

theorem exists_mapParts (hPieces : PiecesValid pieces) (hSmall : sizeBound pieces tail ≤ i64Max)
    {transformed : EmittedTransformedSource} (hEdits : transformed.plan.edits = editsFrom 0 pieces) :
    Nonempty (MapParts transformed (sourceOf pieces ++ tail) (generatedOf pieces ++ tail)) := by
  obtain ⟨places, hAnchors, hPlaces⟩ := exists_places tail hPieces
  obtain ⟨_, hLength, mappings, hMappings, rfl, hTotal⟩ :=
    exists_ok_of_yields hSmall (yields_placesLength hPieces hPlaces hAnchors)
  have hMost := (length_sourceMapBytes_le transformed mappings).trans hTotal
  exact ⟨{
    required := requiredSegments pieces tail
    anchors := places.map Place.anchor
    generated := generatedPositions places
    original := sourcePositions places
    mappings := mappings
    collected := fun limits => by
      rw [length_charBytes, hEdits, collectAnchors_eq hPieces hSmall, hAnchors]
    generatedPositions := eq_ok_of_yields hSmall (yields_generatedPositions hPieces hPlaces)
    originalPositions := eq_ok_of_yields hSmall (yields_sourcePositions hPieces hPlaces)
    mappingsLength := hLength
    written := hMappings
    mapLength := eq_ok_of_yields hSmall (yields_sourceMapLength hMost) }⟩

end

/-- For every plan of a module, an emission with large enough limits gives the map, with the lengths computed
before; any other one fails with the limit that is too small. -/
theorem planned_source_map_is_emitted (sha256 : Sha256) (parse : List Char → ParsedModule)
    (hParse : LiteralSpans parse) (authority : AdapterTransformAuthority) (ruleId : TransformRuleId)
    (rule : StaticImportRewrite) (source : SourceUnitInput) (plannerLimits : PlannerLimits) (plan : TransformPlan)
    (hPlan : planStaticImportRewrite sha256 parse authority ruleId rule source plannerLimits = .ok plan)
    (emissionLimits : TransformEmissionLimits) (transformed : EmittedTransformedSource)
    (hEmitted : emitTransformedSource sha256 plan source.bytes emissionLimits = .ok transformed) :
    ∃ text transformedText, source.bytes = charBytes text ∧ transformed.transformedSource = charBytes transformedText ∧
      ∃ parts : MapParts transformed text transformedText, ∀ limits : SourceMapLimits,
        emitSourceMap sha256 transformed source.bytes limits =
          if source.bytes.length > limits.sourceBytes then
            .error (.sourceTooLarge source.bytes.length limits.sourceBytes)
          else if transformed.transformedSource.length > limits.transformedSourceBytes then
            .error (.transformedSourceTooLarge transformed.transformedSource.length limits.transformedSourceBytes)
          else if parts.required > limits.segments then .error (.segmentLimitExceeded parts.required limits.segments)
          else if (sourceMapBytes transformed parts.mappings).length > limits.sourceMapBytes then
            .error (.sourceMapTooLarge (sourceMapBytes transformed parts.mappings).length limits.sourceMapBytes)
          else .ok ⟨transformed, sourceMapBytes transformed parts.mappings,
            sha256 (sourceMapBytes transformed parts.mappings), parts.anchors.length⟩ := by
  obtain ⟨-, -, text, hText, hPlanned⟩ := planStaticImportRewrite_ok hPlan
  obtain ⟨pieces, tail, rfl, hEdits, hPieces⟩ :=
    exists_pieces [] rfl (hPlanned.enclosedEdits hParse) fun _ _ => Nat.zero_le _
  rw [byteLength_nil] at hEdits
  rw [hText] at hEmitted ⊢
  obtain ⟨rfl, hTransformed, hDigest⟩ := emitted_text hEdits hEmitted
  obtain ⟨parts⟩ := exists_mapParts hPieces (hPlanned.sizeBound_le hEdits) hEdits
  refine ⟨_, _, rfl, hTransformed, parts, fun limits => ?_⟩
  rw [hTransformed]
  exact emitSourceMap_eq parts hTransformed hDigest limits

namespace OneImport

def parseModule (module : List Char) : ParsedModule := if module = text then parse text else ⟨0, []⟩

/-- SHA-256 of what an emission hashes; the last case is that of the map. -/
def emissionSha256 (bytes : List UInt8) : Sha256Digest :=
  if bytes = charBytes text then sourceDigest
  else if bytes = rule.canonicalDocument then ruleDigest
  else if bytes = charBytes transformedText then transformedDigest
  else mapDigest

theorem literalSpans : LiteralSpans parseModule := by
  have hSpecifiers : ∀ module, specifiers (parseModule module).body = [⟨7, 10, ['a']⟩] ∧ module = text ∨
      specifiers (parseModule module).body = [] := by
    intro module
    rw [parseModule]
    split
    · next hText => exact .inl ⟨rfl, hText⟩
    · exact .inr rfl
  constructor
  · intro module _
    rcases hSpecifiers module with ⟨hBody, -⟩ | hBody
    · rw [hBody]
      exact List.pairwise_singleton _ _
    · rw [hBody]
      exact List.Pairwise.nil
  · intro module _ literal hLiteral raw hRaw
    rcases hSpecifiers module with ⟨hBody, rfl⟩ | hBody
    · rw [hBody, List.mem_singleton] at hLiteral
      subst hLiteral
      have hText : textRange text 7 10 = some ['"', 'a', '"'] := by decide +kernel
      obtain rfl := Option.some.inj (hText.symm.trans hRaw)
      exact ⟨'"', ['a'], by decide, rfl⟩
    · rw [hBody] at hLiteral
      cases hLiteral

def emissionLimits : TransformEmissionLimits := ⟨100, 100, Sample.emissionLimits.nonzero⟩

def mapLimits : SourceMapLimits := ⟨100, 100, 10, 1000, Sample.limits.nonzero⟩

theorem one_import_map_is_emitted :
    emitSourceMap emissionSha256 transformed (charBytes text) mapLimits = .ok map ∧
      ∃ parts : MapParts transformed text transformedText,
        map.bytes = sourceMapBytes transformed parts.mappings := by
  obtain ⟨text, transformedText, hText, hTransformed, parts, hEmitted⟩ :=
    planned_source_map_is_emitted emissionSha256 parseModule literalSpans
      authority plan.ruleId rule ⟨plan.source, charBytes text⟩
      ⟨100, 1, 100, by decide, by decide⟩ plan (by decide +kernel) emissionLimits
      transformed (by decide +kernel)
  obtain rfl := charBytes_injective hText
  obtain rfl := charBytes_injective hTransformed
  have hMap : emitSourceMap emissionSha256 transformed (charBytes text)
      mapLimits = .ok map := by decide +kernel
  refine ⟨hMap, parts, ?_⟩
  have hResult := hMap.symm.trans (hEmitted mapLimits)
  split_ifs at hResult
  exact congrArg EmittedSourceMap.bytes (Except.ok.inj hResult)

end OneImport

end Weregopher.Transform
