import Weregopher.Lib.JsonReader
import Weregopher.Transform.Artifacts
import Weregopher.Transform.Exact
import Weregopher.Transform.Planned

/-! # The documents that describe a transformation

The match evidence and the audit record are put together from fixed parts. They are the
compact texts of two trees, so they are read back as these trees. Their lengths are those
that are computed before.
-/
namespace Weregopher.Transform
open Lib Lib.Bytes Lib.Checked Lib.Outcome Lib.Json

def rangeJson (edit : TextEdit) : Json :=
  .object [("start_byte", .integer edit.startByte), ("end_byte", .integer edit.endByte)]

def sourceJson (source : SourceUnitRef) : Json :=
  .object [("unit_id", .string source.unitId.value), ("source_digest", .string source.sourceDigest.toText)]

def evidenceJson (plan : TransformPlan) : Json :=
  .object [("format_version", .string "1"), ("kind", .string "static_module_specifier_matches"),
    ("rule_id", .string plan.ruleId.value), ("rule_digest", .string plan.ruleDigest.toText),
    ("source", sourceJson plan.source), ("matches", .array (plan.edits.map rangeJson))]

def auditJson (plan : TransformPlan) (matchEvidence transformedSource sourceMap : Sha256Digest) : Json :=
  .object [("format_version", .string "1"), ("operation", .string "static_import_rewrite"),
    ("rule_id", .string plan.ruleId.value), ("rule_digest", .string plan.ruleDigest.toText),
    ("source", sourceJson plan.source),
    ("artifacts", .object [("match_evidence_digest", .string matchEvidence.toText),
      ("transformed_source_digest", .string transformedSource.toText),
      ("source_map_digest", .string sourceMap.toText)]),
    ("edit_count", .integer plan.edits.length)]

/-! ## Numbers -/

theorem charBytes_digit : ∀ n < 10, charBytes [n.digitChar] = [UInt8.ofNat (48 + n)] := by decide

theorem appendDigits_ok {position value : Nat} (h : value < 10 ^ (position + 1)) :
    appendDigits (position + 1) value = .ok (charBytes (Nat.toDigits 10 value)) := by
  induction position generalizing value with
  | zero =>
    have hSmall : value < 10 := h
    rw [appendDigits, if_pos (Nat.div_eq_of_lt hSmall), Nat.toDigits_of_lt_base hSmall, charBytes_digit value hSmall,
      Nat.mod_eq_of_lt hSmall]
    rfl
  | succ position ih =>
    rw [appendDigits]
    split
    · next hZero =>
      have hSmall : value < 10 := by omega
      rw [Nat.toDigits_of_lt_base hSmall, charBytes_digit value hSmall, Nat.mod_eq_of_lt hSmall]
      rfl
    · next hLarge =>
      rw [Nat.pow_succ] at h
      rw [ih (by omega), Nat.toDigits_of_base_le (b := 10) (n := value) (by decide) (by omega), charBytes_append,
        charBytes_digit _ (Nat.mod_lt value (by decide))]
      rfl

theorem appendU32_ok {value : Nat} (h : value ≤ u32Max) : appendU32 value = .ok (charBytes (naturalText value)) := by
  rw [naturalText_eq]
  exact appendDigits_ok (Nat.lt_of_le_of_lt h (by decide))

theorem length_digits (value : Nat) : (charBytes (naturalText value)).length = decimalLength value := by
  rw [naturalText_eq]
  induction value using Nat.strongRecOn with
  | ind value ih =>
    rw [decimalLength]
    split
    · next hLarge =>
      rw [Nat.toDigits_of_base_le (by decide) hLarge, charBytes_append, List.length_append, ih (value / 10) (by omega),
        charBytes_digit _ (Nat.mod_lt value (by decide)), List.length_singleton]
    · next hSmall =>
      rw [Nat.toDigits_of_lt_base (by omega), charBytes_digit value (by omega), List.length_singleton]

theorem decimalLength_le {value width : Nat} (h : value < 10 ^ (width + 1)) : decimalLength value ≤ width + 1 := by
  induction width generalizing value with
  | zero =>
    have hSmall : value < 10 := h
    rw [decimalLength, if_neg (by omega)]
  | succ width ih =>
    rw [decimalLength]
    split
    · rw [Nat.pow_succ] at h
      have hQuotient : decimalLength (value / 10) ≤ width + 1 := ih (by omega)
      omega
    · omega

/-! ## Texts -/

theorem escapeChar_stable {c : Char} (h : isStableChar c = true) : escapeChar c = [c] := by
  simp only [isStableChar, Bool.or_eq_true, beq_iff_eq, Char.isLower, Char.isDigit, Bool.and_eq_true,
    decide_eq_true_eq] at h
  rcases h with (((⟨hLow, hHigh⟩ | ⟨hLow, hHigh⟩) | rfl) | rfl) | rfl
  · refine escapeChar_eq ?_ ?_ ?_
    · rintro rfl
      exact absurd hLow (by decide)
    · rintro rfl
      exact absurd hLow (by decide)
    · exact le_trans (by decide) (show 97 ≤ c.toNat from hLow)
  · refine escapeChar_eq ?_ ?_ ?_
    · rintro rfl
      exact absurd hLow (by decide)
    · rintro rfl
      exact absurd hHigh (by decide)
    · exact le_trans (by decide) (show 48 ≤ c.toNat from hLow)
  all_goals rfl

theorem quoted_id {kind : String} (id : StableId kind) : quoted id.value = '"' :: (id.value.toList ++ ['"']) := by
  exact quoted_eq fun c hc => escapeChar_stable (id.bounded.2 c hc)

theorem escapeChar_hexDigit : ∀ n < 16, escapeChar (Decimal.hexDigit n) = [Decimal.hexDigit n] := by decide

theorem quoted_digest (digest : Sha256Digest) : quoted digest.toText = '"' :: (digest.toText.toList ++ ['"']) := by
  refine quoted_eq fun c hc => ?_
  rw [Sha256Digest.toText, String.toList_ofList, List.mem_append] at hc
  rcases hc with hc | hc
  · have hPrefix : (Sha256Digest.textPrefix.all fun c => escapeChar c = [c]) = true := by decide
    exact of_decide_eq_true (List.all_eq_true.mp hPrefix c hc)
  · rw [Sha256Digest.encodeHex, List.mem_flatMap] at hc
    obtain ⟨byte, -, hc⟩ := hc
    have hByte := byte.toNat_lt
    simp only [List.mem_cons, List.not_mem_nil, or_false] at hc
    rcases hc with rfl | rfl
    · exact escapeChar_hexDigit _ (by omega)
    · exact escapeChar_hexDigit _ (by omega)

theorem utf8Bytes_text (text : String) : utf8Bytes text = charBytes text.toList := by
  rw [charBytes, String.ofList_toList]

theorem digestText_eq (digest : Sha256Digest) : digestText digest = charBytes digest.toText.toList := by
  rw [digestText, Sha256Digest.toText, String.toList_ofList, charBytes_append]
  rfl

/-! ## The match evidence -/

/-- The texts of the ranges with a comma before each but the first one. -/
def matchesText (first : Bool) : List TextEdit → List Char
  | [] => []
  | edit :: rest => (if first then [] else [',']) ++ compact (rangeJson edit) ++ matchesText false rest

theorem matchesText_cons (first : Bool) (edit : TextEdit) (rest : List TextEdit) :
    matchesText first (edit :: rest) = matchesText first [edit] ++ matchesText false rest := by
  simp [matchesText]

variable (edits : List TextEdit)

theorem compactItems_ranges : compactItems (edits.map rangeJson) = matchesText false edits ++ [']'] := by
  induction edits with
  | nil => rfl
  | cons edit rest ih =>
    rw [List.map_cons, compactItems, ih, matchesText]
    simp

theorem compact_ranges : compact (.array (edits.map rangeJson)) = '[' :: (matchesText true edits ++ [']']) := by
  cases edits with
  | nil => rfl
  | cons edit rest =>
    rw [List.map_cons, compact, compactItems_ranges, matchesText]
    simp

theorem charBytes_range (edit : TextEdit) :
    charBytes (compact (rangeJson edit)) = matchStart ++ charBytes (naturalText edit.startByte) ++ matchEnd ++
      charBytes (naturalText edit.endByte) ++ [0x7d] := by
  have hStart : matchStart = charBytes ('{' :: (quoted "start_byte" ++ [':'])) := by decide
  have hEnd : matchEnd = charBytes (',' :: (quoted "end_byte" ++ [':'])) := by decide
  have hClose : [0x7d] = charBytes ['}'] := by decide
  rw [hStart, hEnd, hClose]
  simp only [← charBytes_append]
  simp [rangeJson, compact, compactMembers, integerText]

theorem appendMatches_ok {edits : List TextEdit}
    (h : ∀ edit ∈ edits, edit.startByte ≤ u32Max ∧ edit.endByte ≤ u32Max) (first : Bool) :
    appendMatches first edits = .ok (charBytes (matchesText first edits)) := by
  induction edits generalizing first with
  | nil => rfl
  | cons edit rest ih =>
    obtain ⟨hEdit, hRest⟩ := List.forall_mem_cons.mp h
    have hComma : (if first then [] else [0x2c]) = charBytes (if first then [] else [',']) := by
      cases first <;> decide
    rw [appendMatches, appendU32_ok hEdit.1, appendU32_ok hEdit.2, ih hRest, hComma, matchesText, charBytes_append,
      charBytes_append, charBytes_range]
    simp [bind, Except.bind, pure, Except.pure]

theorem sum_matchLengths (first : Bool) (edit : TextEdit) :
    (matchLengths first edit).sum = (charBytes (matchesText first [edit])).length := by
  have hComma : (charBytes (if first then [] else [','])).length = if first then 0 else 1 := by
    cases first <;> decide
  rw [matchesText, matchesText, List.append_nil, charBytes_append, charBytes_range, List.length_append, hComma]
  simp only [matchLengths, List.length_append, length_digits, List.sum_append]
  cases first <;> simp <;> omega

theorem sum_matchLengths_rest :
    (edits.flatMap (matchLengths false)).sum = (charBytes (matchesText false edits)).length := by
  induction edits with
  | nil => rfl
  | cons edit rest ih =>
    rw [List.flatMap_cons, List.sum_append, ih, sum_matchLengths, matchesText_cons false edit rest, charBytes_append,
      List.length_append]

theorem sum_matchLengths_le {first : Bool} {edit : TextEdit}
    (h : edit.startByte ≤ u32Max ∧ edit.endByte ≤ u32Max) : (matchLengths first edit).sum ≤ 50 := by
  have hStart : decimalLength edit.startByte ≤ 10 := decimalLength_le (Nat.lt_of_le_of_lt h.1 (by decide))
  have hEnd : decimalLength edit.endByte ≤ 10 := decimalLength_le (Nat.lt_of_le_of_lt h.2 (by decide))
  have hFixed : matchStart.length = 14 ∧ matchEnd.length = 12 := by decide
  simp only [matchLengths, hFixed, List.sum_append, List.sum_cons, List.sum_nil]
  cases first <;> simp <;> omega

theorem length_matchesText_le {edits : List TextEdit}
    (h : ∀ edit ∈ edits, edit.startByte ≤ u32Max ∧ edit.endByte ≤ u32Max) (first : Bool) :
    (charBytes (matchesText first edits)).length ≤ 50 * edits.length := by
  induction edits generalizing first with
  | nil => exact Nat.le_refl 0
  | cons edit rest ih =>
    obtain ⟨hEdit, hRest⟩ := List.forall_mem_cons.mp h
    have hFirst := @sum_matchLengths_le first edit hEdit
    have hMore := ih hRest false
    rw [sum_matchLengths] at hFirst
    rw [matchesText_cons, charBytes_append, List.length_append, List.length_cons]
    omega

def nextText (name : String) : List Char := '"' :: ',' :: (quoted name ++ [':', '"'])

theorem compactBytes_evidence (plan : TransformPlan) :
    evidencePrefix ++ utf8Bytes plan.ruleId.value ++ evidenceRuleDigest ++ digestText plan.ruleDigest ++
      evidenceSourceUnit ++ utf8Bytes plan.source.unitId.value ++ evidenceSourceDigest ++
      digestText plan.source.sourceDigest ++ evidenceMatches ++ charBytes (matchesText true plan.edits) ++
      evidenceSuffix = compactBytes (evidenceJson plan) := by
  have hPrefix : evidencePrefix = charBytes ('{' :: (quoted "format_version" ++ ':' :: (quoted "1" ++
      ',' :: (quoted "kind" ++ ':' :: (quoted "static_module_specifier_matches" ++
      ',' :: (quoted "rule_id" ++ [':', '"'])))))) := by decide
  have hRuleDigest : evidenceRuleDigest = charBytes (nextText "rule_digest") := by decide
  have hUnit : evidenceSourceUnit = charBytes ('"' :: ',' :: (quoted "source" ++ ':' :: '{' ::
      (quoted "unit_id" ++ [':', '"']))) := by decide
  have hSourceDigest : evidenceSourceDigest = charBytes (nextText "source_digest") := by decide
  have hMatches : evidenceMatches = charBytes ('"' :: '}' :: ',' :: (quoted "matches" ++ [':', '['])) := by
    decide
  have hSuffix : evidenceSuffix = charBytes [']', '}'] := by decide
  rw [hPrefix, hRuleDigest, hUnit, hSourceDigest, hMatches, hSuffix, utf8Bytes_text, utf8Bytes_text, digestText_eq,
    digestText_eq, compactBytes]
  simp only [← charBytes_append]
  apply congrArg charBytes
  simp [nextText, evidenceJson, sourceJson, compact, compactMembers, quoted_id, quoted_digest, compact_ranges]

theorem checkedEvidenceSum {start : Nat} {lengths : List Nat} (h : start + lengths.sum ≤ usizeMax) :
    lengths.foldlM checkedEvidenceAdd start = .ok (start + lengths.sum) := foldlM_okOr_checkedAdd h

theorem matchEvidenceLength_ok {plan : TransformPlan} (h : (compactBytes (evidenceJson plan)).length ≤ usizeMax) :
    matchEvidenceLength plan = .ok (compactBytes (evidenceJson plan)).length := by
  have hLengths := congrArg List.length (compactBytes_evidence plan)
  simp only [List.length_append, length_digestText] at hLengths
  refine bind_ok.mpr ⟨_, checkedEvidenceSum ?_, bind_ok.mpr ⟨_, checkedEvidenceSum ?_, ?_⟩⟩
  · simp only [List.map, List.sum_cons, List.sum_nil]
    omega
  · simp only [List.map, List.sum_cons, List.sum_nil]
    omega
  · simp only [List.map, List.sum_cons, List.sum_nil]
    split
    · next hEdits =>
      rw [hEdits] at hLengths
      have hNone : (charBytes (matchesText true [])).length = 0 := rfl
      apply congrArg Except.ok
      omega
    · next edit rest hEdits =>
      rw [hEdits, matchesText_cons, charBytes_append, List.length_append, ← sum_matchLengths,
        ← sum_matchLengths_rest] at hLengths
      rw [checkedEvidenceSum]
      · apply congrArg Except.ok
        rw [List.sum_append]
        omega
      · rw [List.sum_append]
        omega

theorem length_evidenceParts_le : ∀ part ∈ [evidencePrefix, evidenceRuleDigest, evidenceSourceUnit,
    evidenceSourceDigest, evidenceMatches, evidenceSuffix], part.length ≤ 100 := by
  simp only [List.forall_mem_cons]
  refine ⟨?_, ?_, ?_, ?_, ?_, ?_⟩
  all_goals decide

theorem length_evidence_le {plan : TransformPlan}
    (h : ∀ edit ∈ plan.edits, edit.startByte ≤ u32Max ∧ edit.endByte ≤ u32Max) :
    (compactBytes (evidenceJson plan)).length ≤ 2000 + 50 * plan.edits.length := by
  have hLengths := congrArg List.length (compactBytes_evidence plan)
  have hMatches := length_matchesText_le h true
  have hRule := plan.ruleId.bounded.1
  have hUnit := plan.source.unitId.bounded.1
  rw [← length_utf8Bytes] at hRule hUnit
  have hParts := length_evidenceParts_le
  simp only [List.forall_mem_cons] at hParts
  simp only [List.length_append, length_digestText, digestTextLength] at hLengths
  omega

theorem emitMatchEvidence_eq (sha256 : Sha256) {plan : TransformPlan}
    (hEdits : ∀ edit ∈ plan.edits, edit.startByte ≤ u32Max ∧ edit.endByte ≤ u32Max)
    (hCount : plan.edits.length ≤ u32Max) (limits : MatchEvidenceLimits) :
    matchEvidenceLength plan = .ok (compactBytes (evidenceJson plan)).length ∧
      emitMatchEvidence sha256 plan limits =
        if (compactBytes (evidenceJson plan)).length > limits.evidenceBytes then
          .error (.evidenceTooLarge (compactBytes (evidenceJson plan)).length limits.evidenceBytes)
        else .ok ⟨plan, compactBytes (evidenceJson plan), sha256 (compactBytes (evidenceJson plan))⟩ := by
  have hBound := length_evidence_le hEdits
  have hLength : matchEvidenceLength plan = .ok (compactBytes (evidenceJson plan)).length :=
    matchEvidenceLength_ok (by simp only [usizeMax, u64Max, u32Max] at *; omega)
  refine ⟨hLength, ?_⟩
  rw [emitMatchEvidence, hLength, appendMatches_ok hEdits]
  simp only [bind, Except.bind, compactBytes_evidence]
  split
  · rfl
  · simp [pure, Except.pure]

/-! ## The audit record -/

theorem compactBytes_audit (plan : TransformPlan) (matchEvidence transformedSource sourceMap : Sha256Digest) :
    auditRecord plan matchEvidence transformedSource sourceMap =
      compactBytes (auditJson plan matchEvidence transformedSource sourceMap) := by
  have hPrefix : auditPrefix = charBytes ('{' :: (quoted "format_version" ++ ':' :: (quoted "1" ++
      ',' :: (quoted "operation" ++ ':' :: (quoted "static_import_rewrite" ++
      ',' :: (quoted "rule_id" ++ [':', '"'])))))) := by decide
  have hRuleDigest : auditRuleDigest = charBytes (nextText "rule_digest") := by decide
  have hUnit : auditSource = charBytes ('"' :: ',' :: (quoted "source" ++ ':' :: '{' ::
      (quoted "unit_id" ++ [':', '"']))) := by decide
  have hSourceDigest : auditSourceDigest = charBytes (nextText "source_digest") := by decide
  have hEvidence : auditMatchEvidence = charBytes ('"' :: '}' :: ',' :: (quoted "artifacts" ++ ':' :: '{' ::
      (quoted "match_evidence_digest" ++ [':', '"']))) := by decide
  have hTransformed : auditTransformedSource = charBytes (nextText "transformed_source_digest") := by decide
  have hMap : auditSourceMap = charBytes (nextText "source_map_digest") := by decide
  have hCount : auditEditCount = charBytes ('"' :: '}' :: ',' :: (quoted "edit_count" ++ [':'])) := by
    decide
  have hSuffix : auditSuffix = charBytes ['}'] := by decide
  have hDigits : (toString plan.edits.length).toList = naturalText plan.edits.length := by
    rw [Nat.toString_eq_repr, Nat.toList_repr, naturalText_eq]
  unfold auditRecord
  rw [hPrefix, hRuleDigest, hUnit, hSourceDigest, hEvidence, hTransformed, hMap, hCount, hSuffix,
    utf8Bytes_text, utf8Bytes_text, utf8Bytes_text, hDigits, compactBytes]
  simp only [digestText_eq, ← charBytes_append]
  apply congrArg charBytes
  simp [nextText, auditJson, sourceJson, compact, compactMembers, quoted_id, quoted_digest, integerText]

theorem length_auditParts_le : ∀ part ∈ [auditPrefix, auditRuleDigest, auditSource, auditSourceDigest,
    auditMatchEvidence, auditTransformedSource, auditSourceMap, auditEditCount, auditSuffix], part.length ≤ 100 := by
  simp only [List.forall_mem_cons]
  refine ⟨?_, ?_, ?_, ?_, ?_, ?_, ?_, ?_, ?_⟩
  all_goals decide

theorem length_editCount (count : Nat) : (utf8Bytes (toString count)).length = decimalLength count := by
  rw [utf8Bytes_text, Nat.toString_eq_repr, Nat.toList_repr, ← naturalText_eq, length_digits]

theorem length_auditRecord_le {plan : TransformPlan} (hCount : plan.edits.length ≤ u32Max)
    (matchEvidence transformedSource sourceMap : Sha256Digest) :
    (auditRecord plan matchEvidence transformedSource sourceMap).length ≤ 2000 := by
  have hRule := plan.ruleId.bounded.1
  have hUnit := plan.source.unitId.bounded.1
  rw [← length_utf8Bytes] at hRule hUnit
  have hDigits : decimalLength plan.edits.length ≤ 10 := decimalLength_le (Nat.lt_of_le_of_lt hCount (by decide))
  have hParts := length_auditParts_le
  simp only [List.forall_mem_cons] at hParts
  unfold auditRecord
  simp only [List.length_append, length_digestText, length_editCount, digestTextLength]
  omega

theorem auditLength_ok {plan : TransformPlan} (hCount : plan.edits.length ≤ u32Max)
    (matchEvidence transformedSource sourceMap : Sha256Digest) :
    auditLength (utf8Bytes plan.ruleId.value).length (utf8Bytes plan.source.unitId.value).length
      (decimalLength plan.edits.length) = .ok (auditRecord plan matchEvidence transformedSource sourceMap).length := by
  have hLength := length_auditRecord_le hCount matchEvidence transformedSource sourceMap
  have hMax : 2000 ≤ usizeMax := by decide
  unfold auditRecord at hLength ⊢
  simp only [List.length_append, length_digestText, length_editCount] at hLength ⊢
  refine bind_ok.mpr ⟨_, foldlM_okOr_checkedAdd ?_, ?_⟩
  · simp only [List.map, List.sum_cons, List.sum_nil]
    omega
  · rw [addLengths, foldlM_okOr_checkedAdd]
    · apply congrArg Except.ok
      simp only [List.map, List.sum_cons, List.sum_nil]
      omega
    · simp only [List.map, List.sum_cons, List.sum_nil]
      omega

theorem yields_addLengths {P : TransformBundleError → Prop} {overflow : TransformBundleError} (h : P overflow)
    (start : Nat) (lengths : List Nat) : Yields P (fun _ => True) (addLengths overflow start lengths) := by
  rw [addLengths, foldlM_okOr]
  exact yields_okOr (fun _ => h) fun _ _ => trivial

/-! ## What the documents determine -/

theorem plainItems_ranges : plainItems (edits.map rangeJson) = true := by
  induction edits with
  | nil => rfl
  | cons edit rest ih =>
    rw [List.map_cons, plainItems, ih]
    rfl

theorem plain_evidenceJson (plan : TransformPlan) : plain (evidenceJson plan) = true := by
  simp [evidenceJson, sourceJson, plain, plainMembers, plainItems_ranges]

theorem plain_auditJson (plan : TransformPlan) (matchEvidence transformedSource sourceMap : Sha256Digest) :
    plain (auditJson plan matchEvidence transformedSource sourceMap) = true := by
  simp [auditJson, sourceJson, plain, plainMembers]

theorem toText_injective {digest other : Sha256Digest} (h : digest.toText = other.toText) : digest = other := by
  have hRead := Sha256Digest.fromStr_toText digest
  rw [h, Sha256Digest.fromStr_toText] at hRead
  exact (Except.ok.inj hRead).symm

theorem sourceJson_injective {source other : SourceUnitRef} (h : sourceJson source = sourceJson other) :
    source = other := by
  simp only [sourceJson, Json.object.injEq, List.cons.injEq, Prod.mk.injEq, Json.string.injEq, true_and, and_true] at h
  cases source
  cases other
  cases StableId.value_injective h.1
  cases toText_injective h.2
  rfl

/-- What the plans of one rule have in common: everything but the replacements. -/
structure SameMatches (plan other : TransformPlan) : Prop where
  ruleId : plan.ruleId = other.ruleId
  ruleDigest : plan.ruleDigest = other.ruleDigest
  source : plan.source = other.source
  ranges : plan.edits.map (fun edit => (edit.startByte, edit.endByte)) =
    other.edits.map fun edit => (edit.startByte, edit.endByte)

theorem SameMatches.eq {plan other : TransformPlan} (h : SameMatches plan other) (hEdits : plan.edits = other.edits) :
    plan = other := by
  obtain ⟨hRuleId, hRuleDigest, hSource, -⟩ := h
  cases plan
  cases other
  cases hRuleId
  cases hRuleDigest
  cases hSource
  cases hEdits
  rfl

theorem ranges_of_rangeJson {edits others : List TextEdit} (h : edits.map rangeJson = others.map rangeJson) :
    edits.map (fun edit => (edit.startByte, edit.endByte)) = others.map fun edit => (edit.startByte, edit.endByte) := by
  induction edits generalizing others with
  | nil =>
    rw [List.map_nil, eq_comm, List.map_eq_nil_iff] at h
    rw [h]
  | cons edit rest ih =>
    cases others with
    | nil => cases h
    | cons other more =>
      rw [List.map_cons, List.map_cons, List.cons.injEq] at h
      simp only [rangeJson, Json.object.injEq, List.cons.injEq, Prod.mk.injEq, Json.integer.injEq, true_and, and_true,
        Int.natCast_inj] at h
      rw [List.map_cons, List.map_cons, ih h.2, h.1.1, h.1.2]

theorem sameMatches_of_evidence {plan other : TransformPlan}
    (h : compactBytes (evidenceJson plan) = compactBytes (evidenceJson other)) : SameMatches plan other := by
  have hTree := compactBytes_injective (plain_evidenceJson plan) (plain_evidenceJson other) h
  simp only [evidenceJson, Json.object.injEq, List.cons.injEq, Prod.mk.injEq, Json.string.injEq, Json.array.injEq,
    true_and, and_true] at hTree
  obtain ⟨hRule, hDigest, hSource, hEdits⟩ := hTree
  exact ⟨StableId.value_injective hRule, toText_injective hDigest, sourceJson_injective hSource,
    ranges_of_rangeJson hEdits⟩

structure SameAudit (plan other : TransformPlan) (digests others : Sha256Digest × Sha256Digest × Sha256Digest) :
    Prop where
  ruleId : plan.ruleId = other.ruleId
  ruleDigest : plan.ruleDigest = other.ruleDigest
  source : plan.source = other.source
  digests : digests = others
  count : plan.edits.length = other.edits.length

theorem sameAudit_of_record {plan other : TransformPlan} {a b c a' b' c' : Sha256Digest}
    (h : auditRecord plan a b c = auditRecord other a' b' c') : SameAudit plan other (a, b, c) (a', b', c') := by
  rw [compactBytes_audit, compactBytes_audit] at h
  have hTree := compactBytes_injective (plain_auditJson plan a b c) (plain_auditJson other a' b' c') h
  simp only [auditJson, Json.object.injEq, List.cons.injEq, Prod.mk.injEq, Json.string.injEq, Json.integer.injEq,
    true_and, and_true, Int.natCast_inj] at hTree
  obtain ⟨hRule, hDigest, hSource, ⟨hEvidence, hTransformed, hMap⟩, hCount⟩ := hTree
  refine ⟨StableId.value_injective hRule, toText_injective hDigest, sourceJson_injective hSource, ?_, hCount⟩
  rw [toText_injective hEvidence, toText_injective hTransformed, toText_injective hMap]

/-! ## Transformations -/

structure Transformation (sha256 : Sha256) (parse : List Char → ParsedModule) where
  rule : StaticImportRewrite
  plan : TransformPlan
  planned : ∃ authority ruleId source limits,
    planStaticImportRewrite sha256 parse authority ruleId rule source limits = .ok plan

section

variable {sha256 : Sha256} {parse : List Char → ParsedModule}

structure Transformation.Bundled (transformation : Transformation sha256 parse)
    (bundle : EmittedTransformArtifactBundle) : Prop where
  plan : bundle.transformedSource.plan = transformation.plan
  evidence : ∃ limits, emitMatchEvidence sha256 transformation.plan limits = .ok bundle.matchEvidence
  assembled : ∃ limits, assembleTransformArtifacts sha256 bundle.source bundle.transformedSource bundle.matchEvidence
    bundle.sourceMap limits = .ok bundle

namespace Transformation

variable (transformation other : Transformation sha256 parse)

theorem exists_planned : ∃ text, Planned sha256 parse transformation.rule text transformation.plan := by
  obtain ⟨_, _, _, _, hPlan⟩ := transformation.planned
  obtain ⟨-, -, text, -, hPlanned⟩ := planStaticImportRewrite_ok hPlan
  exact ⟨text, hPlanned⟩

theorem bounded : (∀ edit ∈ transformation.plan.edits, edit.startByte ≤ u32Max ∧ edit.endByte ≤ u32Max) ∧
    transformation.plan.edits.length ≤ u32Max := by
  obtain ⟨text, hPlanned⟩ := transformation.exists_planned
  refine ⟨fun edit => hPlanned.edit_le, ?_⟩
  rw [hPlanned.count]
  have hCount := transformation.rule.counted.2
  exact (Nat.le_of_lt hCount).trans (by decide)

theorem emitMatchEvidence_ok {limits : MatchEvidenceLimits} {evidence : EmittedMatchEvidence}
    (h : emitMatchEvidence sha256 transformation.plan limits = .ok evidence) :
    evidence = ⟨transformation.plan, compactBytes (evidenceJson transformation.plan),
      sha256 (compactBytes (evidenceJson transformation.plan))⟩ := by
  rw [(emitMatchEvidence_eq sha256 transformation.bounded.1 transformation.bounded.2 limits).2] at h
  split at h
  · cases h
  · cases h
    rfl

theorem plan_eq {transformation other : Transformation sha256 parse}
    (hSame : SameMatches transformation.plan other.plan)
    (hRules : CollisionFreeOn sha256 {transformation.rule.canonicalDocument, other.rule.canonicalDocument}) :
    transformation.rule = other.rule ∧ transformation.plan = other.plan := by
  obtain ⟨text, hPlanned⟩ := transformation.exists_planned
  obtain ⟨text', hPlanned'⟩ := other.exists_planned
  have hDigest := hSame.ruleDigest
  rw [hPlanned.ruleDigest, hPlanned'.ruleDigest] at hDigest
  have hDocument := hRules (by simp) (by simp) hDigest
  have hRule := StaticImportRewrite.canonicalDocument_injective hDocument
  have hReplacement : ∀ {rule : StaticImportRewrite} {text : List Char} {plan : TransformPlan},
      Planned sha256 parse rule text plan → plan.edits = (plan.edits.map fun edit => (edit.startByte, edit.endByte)).map
        fun range => ⟨range.1, range.2, quoteSpecifier rule.target⟩ := by
    intro rule text plan h
    rw [h.edits, List.map_map, List.map_map]
    rfl
  have hEdits : transformation.plan.edits = other.plan.edits := by
    rw [hReplacement hPlanned, hReplacement hPlanned', hSame.ranges, hRule]
  exact ⟨hRule, hSame.eq hEdits⟩

theorem yields_assemble (source : List UInt8) {transformed : EmittedTransformedSource} (evidence : EmittedMatchEvidence)
    (map : EmittedSourceMap) (limits : TransformBundleLimits) (hPlan : transformed.plan = transformation.plan) :
    Yields (fun error => error ≠ .auditLengthOverflow ∧ ∀ expected actual, error ≠ .auditLengthMismatch expected actual)
      (fun bundle => bundle.auditLog = auditRecord transformation.plan evidence.digest
        transformed.transformedSourceDigest map.digest)
      (assembleTransformArtifacts sha256 source transformed evidence map limits) := by
  have hLength := auditLength_ok transformation.bounded.2 evidence.digest transformed.transformedSourceDigest map.digest
  generalize hRecord : auditRecord transformation.plan evidence.digest transformed.transformedSourceDigest map.digest =
    record at hLength ⊢
  rw [assembleTransformArtifacts, hPlan]
  refine yields_guard (fun _ => by simp) fun _ => ?_
  refine yields_guard (fun _ => by simp) fun _ => ?_
  refine yields_guard (fun _ => by simp) fun _ => ?_
  refine yields_guard (fun _ => by simp) fun _ => ?_
  rw [hLength, hRecord]
  refine yields_bind (Q := (· = record.length)) rfl ?_
  rintro _ rfl
  refine yields_guard (fun _ => by simp) fun _ => ?_
  refine yields_bind (Q := fun _ => True) ?_ fun _ _ => ?_
  · exact yields_addLengths (by simp) _ _
  refine yields_guard (fun _ => by simp) fun _ => ?_
  refine yields_guard (fun hMismatch => absurd rfl hMismatch) fun _ => ?_
  exact yields_pure rfl

variable {bundle : EmittedTransformArtifactBundle}

theorem Bundled.matchEvidence {transformation : Transformation sha256 parse} (h : transformation.Bundled bundle) :
    bundle.matchEvidence = ⟨transformation.plan,
      compactBytes (evidenceJson transformation.plan), sha256 (compactBytes (evidenceJson transformation.plan))⟩ := by
  obtain ⟨limits, hEvidence⟩ := h.evidence
  exact transformation.emitMatchEvidence_ok hEvidence

theorem Bundled.auditLog {transformation : Transformation sha256 parse} (h : transformation.Bundled bundle) :
    bundle.auditLog = auditRecord transformation.plan bundle.matchEvidence.digest
      bundle.transformedSource.transformedSourceDigest bundle.sourceMap.digest := by
  obtain ⟨limits, hAssembled⟩ := h.assembled
  exact (transformation.yields_assemble _ _ _ limits h.plan).ok hAssembled

end Transformation

end

/-- The match evidence and the audit record are JSON documents of exactly the length computed before. The evidence
determines the rule, the source and the edits, the audit record these and the identities of the other artifacts,
as far as the digests do. -/
theorem documents_describe_transformations (sha256 : Sha256) (parse : List Char → ParsedModule) :
    (∀ transformation : Transformation sha256 parse,
      (∃ bytes, matchEvidenceLength transformation.plan = .ok bytes.length ∧
        readBytes bytes = some (evidenceJson transformation.plan) ∧
        ∀ limits, emitMatchEvidence sha256 transformation.plan limits =
          if bytes.length > limits.evidenceBytes then .error (.evidenceTooLarge bytes.length limits.evidenceBytes)
          else .ok ⟨transformation.plan, bytes, sha256 bytes⟩) ∧
      ∀ source transformed evidence map limits, transformed.plan = transformation.plan →
        Yields
          (fun error => error ≠ .auditLengthOverflow ∧ ∀ expected actual, error ≠ .auditLengthMismatch expected actual)
          (fun bundle => readBytes bundle.auditLog = some (auditJson transformation.plan evidence.digest
              transformed.transformedSourceDigest map.digest) ∧
            auditLength (utf8Bytes transformation.plan.ruleId.value).length
              (utf8Bytes transformation.plan.source.unitId.value).length
              (decimalLength transformation.plan.edits.length) = .ok bundle.auditLog.length)
          (assembleTransformArtifacts sha256 source transformed evidence map limits)) ∧
    (∀ (transformation other : Transformation sha256 parse) (limits otherLimits : MatchEvidenceLimits)
      (evidence otherEvidence : EmittedMatchEvidence),
      emitMatchEvidence sha256 transformation.plan limits = .ok evidence →
      emitMatchEvidence sha256 other.plan otherLimits = .ok otherEvidence → evidence.bytes = otherEvidence.bytes →
      SameMatches transformation.plan other.plan ∧
        (CollisionFreeOn sha256 {transformation.rule.canonicalDocument, other.rule.canonicalDocument} →
          transformation.rule = other.rule ∧ transformation.plan = other.plan)) ∧
    ∀ (transformation other : Transformation sha256 parse) (bundle otherBundle : EmittedTransformArtifactBundle),
      transformation.Bundled bundle → other.Bundled otherBundle → bundle.auditLog = otherBundle.auditLog →
      SameAudit transformation.plan other.plan
        (bundle.matchEvidence.digest, bundle.transformedSource.transformedSourceDigest, bundle.sourceMap.digest)
        (otherBundle.matchEvidence.digest, otherBundle.transformedSource.transformedSourceDigest,
          otherBundle.sourceMap.digest) ∧
        (CollisionFreeOn sha256 {transformation.rule.canonicalDocument, other.rule.canonicalDocument,
            bundle.matchEvidence.bytes, otherBundle.matchEvidence.bytes} →
          transformation.rule = other.rule ∧ transformation.plan = other.plan) := by
  refine ⟨fun transformation => ⟨?_, ?_⟩, ?_, ?_⟩
  · have hEvidence := emitMatchEvidence_eq sha256 transformation.bounded.1 transformation.bounded.2
    exact ⟨_, (hEvidence ⟨1, by decide⟩).1, readBytes_compactBytes (plain_evidenceJson transformation.plan),
      fun limits => (hEvidence limits).2⟩
  · intro source transformed evidence map limits hPlan
    apply (transformation.yields_assemble source evidence map limits hPlan).mono
    intro bundle hLog
    refine ⟨?_, ?_⟩
    · rw [hLog, compactBytes_audit]
      exact readBytes_compactBytes (plain_auditJson ..)
    · rw [hLog]
      exact auditLength_ok transformation.bounded.2 ..
  · intro transformation other limits otherLimits evidence otherEvidence hEvidence hOther hBytes
    obtain rfl := transformation.emitMatchEvidence_ok hEvidence
    obtain rfl := other.emitMatchEvidence_ok hOther
    dsimp only at hBytes
    have hSame := sameMatches_of_evidence hBytes
    exact ⟨hSame, Transformation.plan_eq hSame⟩
  · intro transformation other bundle otherBundle hBundle hOther hLog
    rw [hBundle.auditLog, hOther.auditLog] at hLog
    have hSame := sameAudit_of_record hLog
    refine ⟨hSame, fun hDocuments => ?_⟩
    have hDigests := hSame.digests
    rw [Prod.mk.injEq, hBundle.matchEvidence, hOther.matchEvidence] at hDigests
    rw [hBundle.matchEvidence, hOther.matchEvidence] at hDocuments
    have hEvidence := hDocuments (by simp) (by simp) hDigests.1
    apply Transformation.plan_eq (sameMatches_of_evidence hEvidence)
    exact hDocuments.mono (by grind)

/-! ### One import -/

namespace OneImport

def text : List Char := "import \"a\";".toList

def transformedText : List Char := "import \"bcd\";".toList

def sourceDigest : Sha256Digest := .ofNat 0xb22fd981d437f059206c32c847144bb35226bd18fb569c324cc8210de8f7397b

def transformedDigest : Sha256Digest := .ofNat 0xc4873ce0ed5c16f6becdae7f828d7cbac68783c4e6cd2106e7bbf6e158c09e07

def ruleDigest : Sha256Digest := .ofNat 0x66466d969248f5d7870250807b514058071ebf39fbb7ff42ba14be554f5f39fb

def evidenceDigest : Sha256Digest := .ofNat 0xf22d2e74796806df200fef27153b991dbe8ff658fe8001988212daed669adb9b

def mapDigest : Sha256Digest := .ofNat 0xc982b40b055413e57d70fe4825438993c4c44a793e4466d0cda92b7bb783caca

def auditDigest : Sha256Digest := .ofNat 0xaad290539a45b56929f2dd91a4684e47c0baf0d860da41342c512d0e635654ba

def rule : StaticImportRewrite where
  source := ['a']
  target := ['b', 'c', 'd']
  exactMatchCount := 1
  sourceValid := by decide
  targetValid := by decide
  distinct := by decide
  counted := by decide

def plan : TransformPlan :=
  ⟨⟨"rule", Sample.plan.ruleId.valid⟩, ruleDigest, ⟨⟨"unit", Sample.plan.source.unitId.valid⟩, sourceDigest⟩,
    [⟨7, 10, quoteSpecifier rule.target⟩]⟩

/-- SHA-256 of the documents at hand; the last case is that of the audit record. -/
def sha256 (bytes : List UInt8) : Sha256Digest :=
  if bytes = charBytes text then sourceDigest
  else if bytes = rule.canonicalDocument then ruleDigest
  else if bytes = compactBytes (evidenceJson plan) then evidenceDigest
  else auditDigest

def parse (_ : List Char) : ParsedModule := ⟨0, [.importDeclaration ⟨7, 10, ['a']⟩]⟩

def authority : AdapterTransformAuthority where
  adapterId := ⟨"adapter", by decide +kernel⟩
  family := ⟨"family", by decide +kernel⟩
  adapterContentDigest := ruleDigest
  rules := OrderedMap.empty.insert plan.ruleId ruleDigest
  nonempty := by decide +kernel
  bounded := by decide +kernel

def transformation : Transformation sha256 parse where
  rule := rule
  plan := plan
  planned := ⟨authority, plan.ruleId, ⟨plan.source, charBytes text⟩, ⟨100, 1, 100, by decide, by decide⟩,
    by decide +kernel⟩

def evidence : EmittedMatchEvidence := ⟨plan, compactBytes (evidenceJson plan), evidenceDigest⟩

def transformed : EmittedTransformedSource := ⟨plan, charBytes transformedText, transformedDigest⟩

def map : EmittedSourceMap := ⟨transformed, sourceMapBytes transformed (utf8Bytes "AAAA,OAAO,KAAG"), mapDigest, 3⟩

theorem sha256_evidence : sha256 (compactBytes (evidenceJson plan)) = evidenceDigest := by
  have hOther : compactBytes (evidenceJson plan) ≠ charBytes text ∧
      compactBytes (evidenceJson plan) ≠ rule.canonicalDocument := by
    rw [compactBytes, charBytes, utf8Bytes_ofList]
    decide +kernel
  rw [sha256, if_neg hOther.1, if_neg hOther.2, if_pos rfl]

theorem sha256_rule : sha256 rule.canonicalDocument = ruleDigest := by
  have hText : rule.canonicalDocument ≠ charBytes text := by decide +kernel
  rw [sha256, if_neg hText, if_pos rfl]

theorem collisionFree_of_ne {hash : Sha256} {document other : List UInt8}
    (h : hash document ≠ hash other) : CollisionFreeOn hash {document, document, other, other} := by
  intro a ha b hb hSame
  simp only [Set.mem_insert_iff, Set.mem_singleton_iff, or_self_left, or_self] at ha hb
  rcases ha with rfl | rfl <;> rcases hb with rfl | rfl
  · rfl
  · exact absurd hSame h
  · exact absurd hSame.symm h
  · rfl

theorem collisionFree : CollisionFreeOn sha256 {transformation.rule.canonicalDocument,
    transformation.rule.canonicalDocument, compactBytes (evidenceJson transformation.plan),
    compactBytes (evidenceJson transformation.plan)} := by
  apply collisionFree_of_ne
  change sha256 rule.canonicalDocument ≠ sha256 (compactBytes (evidenceJson plan))
  rw [sha256_rule, sha256_evidence]
  decide +kernel

def evidenceLimits : MatchEvidenceLimits := ⟨3000, by decide⟩

def bundleLimits : TransformBundleLimits := ⟨100, 2000, 10000, by decide⟩

theorem emitted : emitMatchEvidence sha256 plan evidenceLimits = .ok evidence := by
  have hEdits : ∀ edit ∈ plan.edits, edit.startByte ≤ u32Max ∧ edit.endByte ≤ u32Max := by decide
  have hBound : (compactBytes (evidenceJson plan)).length ≤ evidenceLimits.evidenceBytes :=
    (length_evidence_le hEdits).trans (by decide)
  rw [(emitMatchEvidence_eq sha256 hEdits (by decide) evidenceLimits).2, if_neg (not_lt.mpr hBound), sha256_evidence,
    evidence]

theorem bundled : ∃ bundle, transformation.Bundled bundle := by
  have hParts : (do
      let bundle ← assembleTransformArtifacts sha256 (charBytes text) transformed evidence map bundleLimits
      return (bundle.source, bundle.transformedSource, bundle.matchEvidence, bundle.sourceMap)) =
        .ok (charBytes text, transformed, evidence, map) := by
    decide +kernel
  obtain ⟨bundle, hBundle, hParts⟩ := bind_ok.mp hParts
  simp only [pure_ok, Prod.mk.injEq] at hParts
  obtain ⟨hSource, hTransformed, hEvidence, hMap⟩ := hParts
  refine ⟨bundle, ?_, ?_, ?_⟩
  · rw [hTransformed]
    rfl
  · rw [hEvidence]
    exact ⟨evidenceLimits, emitted⟩
  · rw [hSource, hTransformed, hEvidence, hMap]
    exact ⟨_, hBundle⟩

theorem one_import_is_described : (∃ bytes, matchEvidenceLength plan = .ok bytes.length ∧
      readBytes bytes = some (evidenceJson plan)) ∧
      SameMatches plan plan ∧
      ∃ bundle, transformation.Bundled bundle ∧ SameAudit plan plan
        (bundle.matchEvidence.digest, bundle.transformedSource.transformedSourceDigest, bundle.sourceMap.digest)
        (bundle.matchEvidence.digest, bundle.transformedSource.transformedSourceDigest, bundle.sourceMap.digest) ∧
        transformation.plan = plan := by
  obtain ⟨hDocuments, hEvidence, hAudit⟩ := documents_describe_transformations sha256 parse
  obtain ⟨⟨bytes, hLength, hRead, -⟩, -⟩ := hDocuments transformation
  obtain ⟨bundle, hBundled⟩ := bundled
  obtain ⟨hMatches, -⟩ := hEvidence transformation transformation _ _ _ _ emitted
    emitted rfl
  obtain ⟨hSame, hPlans⟩ := hAudit transformation transformation bundle bundle hBundled hBundled rfl
  rw [hBundled.matchEvidence] at hPlans
  dsimp only at hPlans
  exact ⟨⟨bytes, hLength, hRead⟩, hMatches, bundle, hBundled, hSame, (hPlans collisionFree).2⟩

end OneImport

end Weregopher.Transform
