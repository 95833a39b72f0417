import Weregopher.Lib.EcmaString
import Weregopher.Transform.Planning

/-! # The replacement literal evaluates to its specifier

A valid specifier has no control characters, and the other two line terminators are
escaped, so the literal stays on its line and its only free quotes are the outer ones.
-/
namespace Weregopher.Transform
open Lib Lib.Bytes Lib.Checked Lib.EcmaString Lib.Outcome Lib.TextPosition

variable {specifier back front : List Char} {c d : Char}

theorem validateSpecifier_ok {side : StaticImportSpecifier} {length : Nat} :
    validateSpecifier specifier side = .ok length ↔
      specifier ≠ [] ∧ byteLength specifier ≤ u32Max ∧ (∀ c ∈ specifier, isControl c = false) ∧
        byteLength specifier = length := by
  simp [validateSpecifier, ite_error_ok]

def quotedElement (c : Char) : Element :=
  if c = '"' then .escaped c
  else if c = '\\' then .escaped c
  else if c = '\u2028' then .unicode c.toNat
  else if c = '\u2029' then .unicode c.toNat
  else .plain c

theorem units_quotedElement (c : Char) : (quotedElement c).units = codeUnits c.toNat := by
  rw [quotedElement]
  split_ifs <;> rfl

theorem ne_terminator_of_not_control (h : isControl c = false) : c ≠ '\n' ∧ c ≠ '\r' := by
  constructor
  · rintro rfl
    cases h
  · rintro rfl
    cases h

theorem readElement_quoteChar (h : isControl c = false) (rest : List Char) :
    readElement '"' (quoteChar c ++ rest) = some (quotedElement c, rest) := by
  obtain ⟨hLf, hCr⟩ := ne_terminator_of_not_control h
  rw [quoteChar, quotedElement]
  split_ifs with hQuote hBackslash hLs hPs
  · subst hQuote
    rfl
  · subst hBackslash
    rfl
  · subst hLs
    exact @readUnicode_digits 0x2028 "2028".toList rfl rfl rest
  · subst hPs
    exact @readUnicode_digits 0x2029 "2029".toList rfl rfl rest
  · simp_all [readElement]

theorem quoteChar_ne_nil (c : Char) : quoteChar c ≠ [] ∧ (quoteChar c).head? ≠ some '"' := by
  rw [quoteChar]
  split_ifs with hQuote
  · decide
  · decide
  · decide
  · decide
  · exact ⟨List.cons_ne_nil _ _, fun h => hQuote (Option.some.inj h)⟩

theorem readBody_quoted (h : ∀ c ∈ specifier, isControl c = false) {fuel : Nat}
    (hFuel : (specifier.flatMap quoteChar).length < fuel) :
    readBody '"' fuel (specifier.flatMap quoteChar ++ ['"']) = some (specifier.map quotedElement) := by
  induction specifier generalizing fuel with
  | nil =>
    obtain ⟨fuel, rfl⟩ := Nat.exists_eq_succ_of_ne_zero (Nat.ne_of_gt hFuel)
    rfl
  | cons c rest ih =>
    rw [List.forall_mem_cons] at h
    rw [List.flatMap_cons, List.length_append] at hFuel
    obtain ⟨hNil, hHead⟩ := quoteChar_ne_nil c
    have hLength := List.length_pos_iff.mpr hNil
    obtain ⟨fuel, rfl⟩ := Nat.exists_eq_succ_of_ne_zero (by omega : fuel ≠ 0)
    have hOpen : quoteChar c ++ (rest.flatMap quoteChar ++ ['"']) ≠ ['"'] := by
      intro hClosed
      apply hHead
      rw [← List.head?_append_of_ne_nil _ hNil, hClosed]
      rfl
    rw [List.flatMap_cons, List.append_assoc, readBody, if_neg hOpen, readElement_quoteChar h.1]
    change (readBody '"' fuel _ >>= fun more => some (quotedElement c :: more)) = _
    rw [ih h.2 (by omega)]
    rfl

theorem stringValue_quoteSpecifier (h : ∀ c ∈ specifier, isControl c = false) :
    stringValue (quoteSpecifier specifier) = some (utf16 specifier) := by
  have hQuote : isQuote '"' = true := rfl
  rw [stringValue, quoteSpecifier, elements, if_pos hQuote, readBody_quoted h (by simp), Option.map_some]
  congr 1
  rw [valueOf, List.flatMap_map, utf16]
  exact congrArg (List.flatMap · specifier) (funext units_quotedElement)

/-! ## Quotes inside of the literal -/

/-- How many backslashes a text ends with: an odd number escapes what follows. -/
def trailingBackslashes (text : List Char) : Nat := (text.reverse.takeWhile (· = '\\')).length

theorem trailingBackslashes_concat (text : List Char) (c : Char) :
    trailingBackslashes (text ++ [c]) = if c = '\\' then trailingBackslashes text + 1 else 0 := by
  rw [trailingBackslashes, List.reverse_append, List.reverse_singleton, List.singleton_append, List.takeWhile_cons]
  split_ifs with hBackslash <;> simp_all [trailingBackslashes]

theorem trailingBackslashes_quoted (specifier : List Char) :
    trailingBackslashes (specifier.flatMap quoteChar) % 2 = 0 := by
  induction specifier using List.reverseRecOn with
  | nil => rfl
  | append_singleton specifier c ih =>
    have hLast (front : List Char) (last : Char) (hPlain : last ≠ '\\') :
        trailingBackslashes (front ++ [last]) % 2 = 0 := by
      rw [trailingBackslashes_concat, if_neg hPlain]
    rw [List.flatMap_append, List.flatMap_singleton, quoteChar]
    split_ifs with hQuote hBackslash hLs hPs
    · rw [List.append_cons]
      exact hLast _ _ (by decide)
    · rw [List.append_cons, trailingBackslashes_concat, trailingBackslashes_concat, if_pos rfl, if_pos rfl]
      omega
    · rw [show "\\u2028".toList = "\\u202".toList ++ ['8'] from rfl, ← List.append_assoc]
      exact hLast _ _ (by decide)
    · rw [show "\\u2029".toList = "\\u202".toList ++ ['9'] from rfl, ← List.append_assoc]
      exact hLast _ _ (by decide)
    · exact hLast _ _ hBackslash

theorem quoteChar_split (h : quoteChar c = front ++ '"' :: back) : front = ['\\'] := by
  have hMem : '"' ∈ quoteChar c := by
    rw [h]
    exact List.mem_append_right _ List.mem_cons_self
  rw [quoteChar] at h hMem
  split_ifs at h hMem with hQuote hBackslash hLs hPs
  · rcases front with _ | ⟨a, _ | ⟨b, front⟩⟩
    · cases h
    · cases h
      rfl
    · cases front <;> cases h
  · exact absurd hMem (by decide)
  · exact absurd hMem (by decide)
  · exact absurd hMem (by decide)
  · exact absurd (List.mem_singleton.mp hMem).symm hQuote

theorem mem_quoteChar (h : d ∈ quoteChar c) : d = c ∨ d ∈ "\\\"u2089".toList := by
  have hEscapes : ∀ escape ∈ [['\\', '"'], ['\\', '\\'], "\\u2028".toList, "\\u2029".toList],
      escape ⊆ "\\\"u2089".toList := by decide
  rw [quoteChar] at h
  split_ifs at h with hQuote hBackslash hLs hPs
  · exact Or.inr (hEscapes _ (by simp) h)
  · exact Or.inr (hEscapes _ (by simp) h)
  · exact Or.inr (hEscapes _ (by simp) h)
  · exact Or.inr (hEscapes _ (by simp) h)
  · exact Or.inl (List.mem_singleton.mp h)

theorem quote_escaped
    (h : specifier.flatMap quoteChar = front ++ '"' :: back) : trailingBackslashes front % 2 = 1 := by
  -- The quote is the second character of what one quote of the specifier is written as.
  have hQuote : ∃ done : List Char, front = done.flatMap quoteChar ++ ['\\'] := by
    induction specifier generalizing front with
    | nil => cases front <;> cases h
    | cons c rest ih =>
      rw [List.flatMap_cons, List.append_eq_append_iff] at h
      rcases h with ⟨more, rfl, hRest⟩ | ⟨more, hChar, hRest⟩
      · obtain ⟨done, rfl⟩ := ih hRest
        exact ⟨c :: done, by rw [List.flatMap_cons, List.append_assoc]⟩
      · cases more with
        | nil =>
          obtain ⟨done, hDone⟩ := @ih [] hRest.symm
          exact absurd hDone.symm (List.append_ne_nil_of_right_ne_nil _ (List.cons_ne_nil _ _))
        | cons d more =>
          obtain ⟨rfl, -⟩ := List.cons.inj hRest
          exact ⟨[], quoteChar_split hChar⟩
  obtain ⟨done, rfl⟩ := hQuote
  have hDone := trailingBackslashes_quoted done
  rw [trailingBackslashes_concat, if_pos rfl]
  omega

/-! ## The length of the literal -/

theorem length_quoteChar (c : Char) : encodedLength c = byteLength (quoteChar c) := by
  rw [encodedLength, quoteChar]
  split_ifs with hEscaped hQuote hBackslash hLs hPs <;> simp_all <;> rfl

theorem encodedLength_le (c : Char) : encodedLength c ≤ 2 * c.utf8Size := by
  have hPositive := c.utf8Size_pos
  rw [encodedLength]
  split_ifs with hEscaped hTerminator
  · omega
  · rcases hTerminator with rfl | rfl <;> decide
  · omega

theorem sum_encodedLength (specifier : List Char) :
    (specifier.map encodedLength).sum = byteLength (specifier.flatMap quoteChar) ∧
      (specifier.map encodedLength).sum ≤ 2 * byteLength specifier := by
  induction specifier with
  | nil => exact ⟨rfl, Nat.le_refl _⟩
  | cons c rest ih =>
    have hBound := encodedLength_le c
    rw [List.map_cons, List.sum_cons, List.flatMap_cons, byteLength_append, byteLength_cons, ← length_quoteChar]
    omega

theorem byteLength_quoteSpecifier (specifier : List Char) :
    byteLength (quoteSpecifier specifier) = 2 + byteLength (specifier.flatMap quoteChar) := by
  rw [quoteSpecifier, byteLength_cons, byteLength_append]
  change 1 + (byteLength (specifier.flatMap quoteChar) + 1) = _
  omega

theorem byteLength_quoteSpecifier_le (specifier : List Char) :
    byteLength (quoteSpecifier specifier) ≤ 2 + 2 * byteLength specifier := by
  obtain ⟨hSum, hBound⟩ := sum_encodedLength specifier
  have hQuotes := byteLength_quoteSpecifier specifier
  omega

theorem canonicalReplacementByteLength_eq (h : byteLength specifier ≤ u32Max) :
    canonicalReplacementByteLength specifier = some (byteLength (quoteSpecifier specifier)) := by
  obtain ⟨hSum, hBound⟩ := sum_encodedLength specifier
  have hQuotes := byteLength_quoteSpecifier specifier
  have hUsize : 2 + 2 * u32Max ≤ usizeMax := by decide
  rw [canonicalReplacementByteLength, foldlM_checkedAdd (by decide), checkedAdd_eq_some]
  omega

/-! ## The literal of a valid specifier -/

theorem not_terminator_of_mem_quoted (h : ∀ c ∈ specifier, isControl c = false)
    (hMem : d ∈ specifier.flatMap quoteChar) : EcmaString.isLineTerminator d = false := by
  obtain ⟨c, hChar, hQuoted⟩ := List.mem_flatMap.mp hMem
  rcases mem_quoteChar hQuoted with rfl | hEscape
  · obtain ⟨hLf, hCr⟩ := ne_terminator_of_not_control (h d hChar)
    -- A separator is written as an escape, in which it does not stand.
    have hLs : d ≠ '\u2028' := by
      rintro rfl
      exact absurd hQuoted (by decide)
    have hPs : d ≠ '\u2029' := by
      rintro rfl
      exact absurd hQuoted (by decide)
    simp [EcmaString.isLineTerminator, hLf, hCr, hLs, hPs]
  · have hAll : ("\\\"u2089".toList.all fun e => !EcmaString.isLineTerminator e) = true := by decide
    exact Bool.not_eq_true' _ |>.mp (List.all_eq_true.mp hAll d hEscape)

theorem not_terminator_of_mem_literal (h : ∀ c ∈ specifier, isControl c = false)
    (hMem : c ∈ quoteSpecifier specifier) : EcmaString.isLineTerminator c = false := by
  rcases List.mem_cons.mp hMem with rfl | hMem
  · rfl
  · rcases List.mem_append.mp hMem with hMem | hMem
    · exact not_terminator_of_mem_quoted h hMem
    · rw [List.mem_singleton.mp hMem]
      rfl

/-- The literal written for a specifier evaluates to it, is on one line, has no quote that is not escaped between its
own and is as long as was computed. -/
theorem quoted_specifier_evaluates {specifier : List Char} {side : StaticImportSpecifier} {length : Nat}
    (hValid : validateSpecifier specifier side = .ok length) :
    stringValue (quoteSpecifier specifier) = some (utf16 specifier) ∧
      (∀ c ∈ quoteSpecifier specifier, EcmaString.isLineTerminator c = false) ∧
      (∀ front back, quoteSpecifier specifier = '"' :: front ++ '"' :: back → back = [] ∨
        trailingBackslashes front % 2 = 1) ∧
      canonicalReplacementByteLength specifier = some (charBytes (quoteSpecifier specifier)).length := by
  obtain ⟨-, hLength, hControl, -⟩ := validateSpecifier_ok.mp hValid
  refine ⟨stringValue_quoteSpecifier hControl, ?_, ?_, ?_⟩
  · exact fun c hMem => not_terminator_of_mem_literal hControl hMem
  · intro front back hSplit
    rw [quoteSpecifier, List.cons_append, List.cons.injEq] at hSplit
    cases back using List.reverseRecOn with
    | nil => exact Or.inl rfl
    | append_singleton back last =>
      right
      have hFront : specifier.flatMap quoteChar ++ ['"'] = (front ++ '"' :: back) ++ [last] := by
        rw [hSplit.2, List.append_assoc, List.cons_append]
      exact quote_escaped (List.append_inj_left' hFront rfl)
  · rw [canonicalReplacementByteLength_eq hLength, length_charBytes, byteLength]

theorem sample_specifier_evaluates : stringValue (quoteSpecifier "a\"\\".toList) = some [97, 34, 92] ∧
      canonicalReplacementByteLength "a\"\\".toList = some 7 := by
  have hValid : validateSpecifier "a\"\\".toList .to = .ok 3 := by decide +kernel
  obtain ⟨hValue, -, -, hLength⟩ := quoted_specifier_evaluates hValid
  refine ⟨hValue.trans (by decide +kernel), hLength.trans (by decide +kernel)⟩

end Weregopher.Transform
