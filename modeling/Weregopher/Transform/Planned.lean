import Weregopher.Transform.Quoting

/-! # What a plan consists of

The edits of a plan are the literals that match the rule, in the order of the statements,
each with the quoted target in its place.
-/
namespace Weregopher.Transform
open Lib.Bytes Lib.Checked Lib.Outcome Lib.TextPosition

def specifiers (body : List Statement) : List StringLiteral := body.filterMap staticModuleSpecifier

def matchingSpecifiers (rule : StaticImportRewrite) (body : List Statement) : List StringLiteral :=
  (specifiers body).filter fun literal => literal.value = rule.source

def StringLiteral.edit (replacement : List Char) (literal : StringLiteral) : TextEdit :=
  ⟨literal.startByte, literal.endByte, replacement⟩

def StringLiteral.Readable (text : List Char) (literal : StringLiteral) : Prop :=
  ∃ raw, textRange text literal.startByte literal.endByte = some raw ∧ containsLoneSurrogateEscape raw = false

/-! ## Rules -/

theorem byteLength_of_valid {specifier : List Char} {side : StaticImportSpecifier}
    (h : validateSpecifier specifier side = .ok (byteLength specifier)) : byteLength specifier < 256 ^ 4 :=
  Nat.lt_of_le_of_lt (validateSpecifier_ok.mp h).2.1 (by decide)

theorem StaticImportRewrite.canonicalDocument_injective {rule other : StaticImportRewrite}
    (h : rule.canonicalDocument = other.canonicalDocument) : rule = other := by
  have hSource := byteLength_of_valid rule.sourceValid
  have hSource' := byteLength_of_valid other.sourceValid
  have hTarget := byteLength_of_valid rule.targetValid
  have hTarget' := byteLength_of_valid other.targetValid
  simp only [canonicalDocument, List.append_assoc] at h
  have h := List.append_cancel_left h
  obtain ⟨hLength, h⟩ := List.append_inj h (by simp)
  have hLength := toBeBytes_injective hSource hSource' hLength
  obtain ⟨hBytes, h⟩ := List.append_inj h (by rwa [length_charBytes, length_charBytes])
  obtain ⟨hTargetLength, h⟩ := List.append_inj h (by simp)
  have hTargetLength := toBeBytes_injective hTarget hTarget' hTargetLength
  obtain ⟨hTargetBytes, hCount⟩ := List.append_inj h (by rwa [length_charBytes, length_charBytes])
  have hCount := toBeBytes_injective rule.counted.2 other.counted.2 hCount
  cases rule
  cases other
  cases charBytes_injective hBytes
  cases charBytes_injective hTargetBytes
  cases hCount
  rfl

/-! ## Statements -/

section

variable {text replacement : List Char} {rule : StaticImportRewrite}

theorem planStatement_ok {edits next : List TextEdit} {statement : Statement}
    (h : planStatement text rule replacement edits statement = .ok next) :
    next = edits ++ (matchingSpecifiers rule [statement]).map (StringLiteral.edit replacement) ∧
      ∀ literal ∈ specifiers [statement], literal.Readable text := by
  rw [planStatement] at h
  split at h
  · next hNone =>
    cases h
    simp [matchingSpecifiers, specifiers, hNone]
  · next literal hLiteral =>
    have hSpecifiers : specifiers [statement] = [literal] := by simp [specifiers, hLiteral]
    rw [bind_ok] at h
    obtain ⟨raw, hRaw, h⟩ := h
    rw [guard_ok] at h
    obtain ⟨hSurrogate, h⟩ := h
    have hReadable : literal.Readable text := ⟨raw, okOr_ok.mp hRaw, by simpa using hSurrogate⟩
    rw [matchingSpecifiers, hSpecifiers]
    refine ⟨?_, by simpa using hReadable⟩
    by_cases hValue : literal.value = rule.source
    · rw [if_neg (not_not.mpr hValue)] at h
      obtain ⟨-, hPushed⟩ := guard_ok.mp h
      rw [pure_ok] at hPushed
      simp [← hPushed, hValue, StringLiteral.edit]
    · rw [if_pos hValue] at h
      cases h
      simp [hValue]

theorem specifiers_cons (statement : Statement) (rest : List Statement) :
    specifiers (statement :: rest) = specifiers [statement] ++ specifiers rest :=
  List.filterMap_append (l := [statement]) ..

theorem matchingSpecifiers_cons (rule : StaticImportRewrite) (statement : Statement) (rest : List Statement) :
    matchingSpecifiers rule (statement :: rest) =
      matchingSpecifiers rule [statement] ++ matchingSpecifiers rule rest := by
  rw [matchingSpecifiers, specifiers_cons, List.filter_append]
  rfl

theorem planStatements_ok {edits last : List TextEdit} {body : List Statement}
    (h : body.foldlM (planStatement text rule replacement) edits = .ok last) :
    last = edits ++ (matchingSpecifiers rule body).map (StringLiteral.edit replacement) ∧
      ∀ literal ∈ specifiers body, literal.Readable text := by
  induction body generalizing edits with
  | nil =>
    cases h
    simp [matchingSpecifiers, specifiers]
  | cons statement rest ih =>
    rw [List.foldlM_cons, bind_ok] at h
    obtain ⟨next, hNext, hRest⟩ := h
    obtain ⟨rfl, hFirst⟩ := planStatement_ok hNext
    obtain ⟨rfl, hReadable⟩ := ih hRest
    rw [matchingSpecifiers_cons rule statement rest, List.map_append, List.append_assoc, specifiers_cons statement rest]
    refine ⟨rfl, ?_⟩
    intro literal hLiteral
    rcases List.mem_append.mp hLiteral with hLiteral | hLiteral
    · exact hFirst literal hLiteral
    · exact hReadable literal hLiteral

end

structure Planned (sha256 : Sha256) (parse : List Char → ParsedModule) (rule : StaticImportRewrite)
    (text : List Char) (plan : TransformPlan) : Prop where
  size : (charBytes text).length ≤ u32Max
  source : sha256 (charBytes text) = plan.source.sourceDigest
  ruleDigest : plan.ruleDigest = rule.canonicalDigest sha256
  parsed : (parse text).diagnosticCount = 0
  edits : plan.edits = (matchingSpecifiers rule (parse text).body).map (StringLiteral.edit (quoteSpecifier rule.target))
  count : plan.edits.length = rule.exactMatchCount
  readable : ∀ literal ∈ specifiers (parse text).body, literal.Readable text

section

variable {sha256 : Sha256} {parse : List Char → ParsedModule} {rule : StaticImportRewrite}

theorem planStaticImportRewrite_ok {authority : AdapterTransformAuthority} {ruleId : TransformRuleId}
    {source : SourceUnitInput} {limits : PlannerLimits} {plan : TransformPlan}
    (h : planStaticImportRewrite sha256 parse authority ruleId rule source limits = .ok plan) :
    plan.ruleId = ruleId ∧ plan.source = source.source ∧
      ∃ text, source.bytes = charBytes text ∧ Planned sha256 parse rule text plan := by
  simp only [planStaticImportRewrite, guard_ok, bind_ok, pure_ok, okOr_ok, not_not, Nat.not_lt] at h
  obtain ⟨-, -, _, -, -, hSize, _, -, -, hDigest, text, hText, hParsed, edits, hEdits, hCount, rfl⟩ := h
  have hBytes := chars?_eq_some hText
  rw [hBytes] at hSize hDigest
  obtain ⟨hAll, hReadable⟩ := planStatements_ok hEdits
  exact ⟨rfl, rfl, text, hBytes, hSize.trans limits.capacity, hDigest, rfl, hParsed, hAll, hCount, hReadable⟩

theorem textRange_le {text raw : List Char} {start stop : Nat} (h : textRange text start stop = some raw) :
    start ≤ stop ∧ stop ≤ (charBytes text).length := by
  rw [textRange] at h
  split at h
  · rw [Option.bind_eq_some_iff] at h
    obtain ⟨range, hRange, -⟩ := h
    rw [byteRange] at hRange
    split at hRange
    · next hBounds => exact hBounds
    · cases hRange
  · cases h

theorem Planned.edit_le {text : List Char} {plan : TransformPlan} (h : Planned sha256 parse rule text plan)
    {edit : TextEdit} (hEdit : edit ∈ plan.edits) : edit.startByte ≤ u32Max ∧ edit.endByte ≤ u32Max := by
  rw [h.edits, List.mem_map] at hEdit
  obtain ⟨literal, hLiteral, rfl⟩ := hEdit
  obtain ⟨raw, hRaw, -⟩ := h.readable literal (List.mem_of_mem_filter hLiteral)
  obtain ⟨hStart, hStop⟩ := textRange_le hRaw
  have hSize := h.size
  rw [StringLiteral.edit]
  dsimp only
  omega

end

end Weregopher.Transform
