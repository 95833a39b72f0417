import Weregopher.Lib.JsonSyntax

/-! # Reading compact JSON text back

Every tree without fractional numbers is read back from its compact text.
-/
namespace Lib.Json
open Lib.Bytes Lib.Decimal

theorem readString_escapeChar (c : Char) (rest : List Char) :
    readString (escapeChar c ++ rest) = (readString rest).map fun (text, rest) => (c :: text, rest) := by
  have hNat {n : Nat} (h : c.toNat = n) : c = Char.ofNat n := by rw [← h, Char.ofNat_toNat]
  unfold escapeChar
  split
  · next h => subst h; rfl
  split
  · next h => subst h; rfl
  split
  · next h => rw [hNat h]; rfl
  split
  · next h => rw [hNat h]; rfl
  split
  · next h => rw [hNat h]; rfl
  split
  · next h => rw [hNat h]; rfl
  split
  · next h => rw [hNat h]; rfl
  split
  · next h =>
    obtain ⟨hHigh, -⟩ := hexDigit_spec (c.toNat / 16) (by omega)
    obtain ⟨hLow, -⟩ := hexDigit_spec (c.toNat % 16) (by omega)
    have hZero : hexValue '0' = some 0 := rfl
    have hJoin : ((16 * 0 + 0) * 16 + c.toNat / 16) * 16 + c.toNat % 16 = c.toNat := by omega
    have hUnit : codeUnit '0' '0' (hexDigit (c.toNat / 16)) (hexDigit (c.toNat % 16)) = some c.toNat := by
      simp only [codeUnit, hHigh, hLow, hZero, Option.bind_eq_bind, Option.bind_some, hJoin]
      rfl
    have hTrailing : isTrailing c.toNat = false := by simp [isTrailing]; omega
    have hLeading : isLeading c.toNat = false := by simp [isLeading]; omega
    simp [readString, hUnit, hTrailing, hLeading]
  · next hQuote hSlash _ _ _ _ _ hControl =>
    rw [List.singleton_append, readString.eq_def]
    split
    · next h => cases h
    · next h => exact absurd (List.cons.inj h).1 hQuote
    · next h => exact absurd (List.cons.inj h).1 hSlash
    · next h => exact absurd (List.cons.inj h).1 hSlash
    · next h =>
      obtain ⟨rfl, rfl⟩ := List.cons.inj h
      rw [if_neg (not_or.mpr ⟨hControl, hSlash⟩)]

theorem readString_quoted (text : String) (rest : List Char) :
    readString (text.toList.flatMap escapeChar ++ '"' :: rest) = some (text.toList, rest) := by
  induction text.toList with
  | nil => rfl
  | cons c chars ih =>
    rw [List.flatMap_cons, List.append_assoc, readString_escapeChar, ih]
    rfl

theorem digits_spec {fuel n : Nat} (h : n < 10 ^ fuel) :
    value (digits fuel n) = n ∧ (∀ c ∈ digits fuel n, c.isDigit = true) ∧
      (0 < n → ∃ c front, digits fuel n = c :: front ∧ c ≠ '0') := by
  induction fuel generalizing n with
  | zero =>
    rw [Nat.pow_zero, Nat.lt_one_iff] at h
    exact ⟨h.symm, by simp [digits], by omega⟩
  | succ fuel ih =>
    rw [digits]
    split
    · next hSmall =>
      obtain ⟨hDigit, hIsDigit, -⟩ := digit_spec n hSmall
      refine ⟨?_, by simpa using hIsDigit, fun hPos => ⟨_, _, rfl, ?_⟩⟩
      · change 10 * 0 + ((digit n).toNat - 48) = n
        omega
      · intro hZero
        rw [hZero] at hDigit
        change 48 = 48 + n at hDigit
        omega
    · have hFront : n / 10 < 10 ^ fuel := by
        rw [Nat.pow_succ] at h
        omega
      obtain ⟨hValue, hDigits, hHead⟩ := ih hFront
      obtain ⟨hDigit, hIsDigit, -⟩ := digit_spec (n % 10) (Nat.mod_lt n (by decide))
      refine ⟨?_, ?_, fun _ => ?_⟩
      · rw [value_append_digit, hValue, hDigit]
        omega
      · intro c hc
        rcases List.mem_append.1 hc with hFront | hLast
        · exact hDigits c hFront
        · obtain rfl := List.mem_singleton.1 hLast
          exact hIsDigit
      · obtain ⟨c, front, hText, hZero⟩ := hHead (by omega)
        exact ⟨c, front ++ [digit (n % 10)], by rw [hText]; rfl, hZero⟩

/-- No numeral begins with a zero that could be left out. -/
theorem naturalText_spec (n : Nat) : value (naturalText n) = n ∧ (∀ c ∈ naturalText n, c.isDigit = true) ∧
    ∃ c front, naturalText n = c :: front ∧ (c = '0' → front = []) := by
  obtain ⟨hValue, hDigits, hHead⟩ : _ ∧ _ ∧ _ :=
    digits_spec (Nat.lt_of_lt_of_le Nat.lt_log2_self (Nat.pow_le_pow_left (by decide) _))
  refine ⟨hValue, hDigits, ?_⟩
  cases n with
  | zero => exact ⟨'0', [], rfl, fun _ => rfl⟩
  | succ n =>
    obtain ⟨c, front, hText, hZero⟩ := hHead n.succ_pos
    exact ⟨c, front, hText, fun h => absurd h hZero⟩

/-- Any of these characters would be read as part of the number before it. -/
def StopsNumber (rest : List Char) : Prop := ∀ c ∈ rest.head?, c.isDigit = false ∧ c ≠ '.' ∧ c ≠ 'e' ∧ c ≠ 'E'

variable {rest : List Char} {json : Json}

theorem readMagnitude_naturalText (negative : Bool) (n : Nat) (hRest : StopsNumber rest) :
    readMagnitude negative (naturalText n ++ rest) =
      some (.integer (if negative then -(n : Int) else n), rest) := by
  obtain ⟨hValue, hDigits, c, front, hText, hZero⟩ := naturalText_spec n
  have hStop : rest.takeWhile Char.isDigit = [] ∧ rest.dropWhile Char.isDigit = rest ∧
      readFraction rest = some ([], rest) ∧ readExponent rest = some ([], rest) := by
    cases rest with
    | nil => exact ⟨rfl, rfl, rfl, rfl⟩
    | cons c rest =>
      obtain ⟨hDigit, hDot, hSmall, hLarge⟩ := hRest c rfl
      simp [hDigit, readFraction, readExponent, hDot, hSmall, hLarge]
  obtain ⟨hTake, hDrop, hFraction, hExponent⟩ := hStop
  have hRead : readDigits (naturalText n ++ rest) = some (naturalText n, rest) := by
    rw [readDigits, List.takeWhile_append_of_pos hDigits, List.dropWhile_append_of_pos hDigits, hTake, hDrop,
      List.append_nil, if_neg (by simp [hText])]
  have hLeading : ¬(1 < (naturalText n).length ∧ (naturalText n).head? = some '0') := by
    rintro ⟨hLength, hHead⟩
    rw [hText] at hLength hHead
    rw [hZero (Option.some.inj hHead)] at hLength
    exact Nat.lt_irrefl 1 hLength
  simp [readMagnitude, hRead, hLeading, hFraction, hExponent, hValue]

theorem ne_of_isDigit {c other : Char} (h : c.isDigit = true) (hOther : other.isDigit = false) : c ≠ other := by
  rintro rfl
  rw [h] at hOther
  cases hOther

theorem isBlank_of_isDigit {c : Char} (h : c.isDigit = true) : isBlank c = false := by
  simp only [isBlank, Bool.or_eq_false_iff, decide_eq_false_iff_not]
  exact ⟨⟨⟨ne_of_isDigit h rfl, ne_of_isDigit h rfl⟩, ne_of_isDigit h rfl⟩, ne_of_isDigit h rfl⟩

theorem skipBlanks_cons {c : Char} (h : isBlank c = false) : skipBlanks (c :: rest) = c :: rest := by
  rw [skipBlanks, List.dropWhile_cons_of_neg (by simp [h])]

theorem readValue_integer (fuel : Nat) (number : Int) (hRest : StopsNumber rest) :
    readValue (fuel + 1) (integerText number ++ rest) = some (.integer number, rest) := by
  cases number with
  | negSucc n => exact readMagnitude_naturalText true (n + 1) hRest
  | ofNat n =>
    have hRead := readMagnitude_naturalText false n hRest
    obtain ⟨-, hDigits, c, front, hText, -⟩ := naturalText_spec n
    have hDigit : c.isDigit = true := hDigits c (hText ▸ List.mem_cons_self)
    rw [hText, List.cons_append] at hRead
    rw [integerText, hText, List.cons_append, readValue, skipBlanks_cons (isBlank_of_isDigit hDigit)]
    split
    case h_7 =>
      rw [readNumber, hRead]
      · rfl
      · exact fun _ h => ne_of_isDigit hDigit rfl (List.cons.inj h).1
    all_goals
      next h => exact absurd (List.cons.inj h).1 (ne_of_isDigit hDigit rfl)

theorem compact_head (h : plain json = true) :
    ∃ c front, compact json = c :: front ∧ c ≠ ']' ∧ isBlank c = false := by
  cases json with
  | decimal literal => cases h
  | integer number =>
    cases number with
    | negSucc n => exact ⟨'-', _, rfl, by decide⟩
    | ofNat n =>
      obtain ⟨-, hDigits, c, front, hText, -⟩ := naturalText_spec n
      have hDigit : c.isDigit = true := hDigits c (hText ▸ List.mem_cons_self)
      exact ⟨c, front, hText, ne_of_isDigit hDigit rfl, isBlank_of_isDigit hDigit⟩
  | null => exact ⟨_, _, rfl, by decide⟩
  | bool value => cases value <;> exact ⟨_, _, rfl, by decide⟩
  | string value => exact ⟨_, _, rfl, by decide⟩
  | array items => cases items <;> exact ⟨_, _, rfl, by decide⟩
  | object members => cases members <;> exact ⟨_, _, rfl, by decide⟩

theorem stopsNumber_items (items : List Json) (rest : List Char) : StopsNumber (compactItems items ++ rest) := by
  cases items <;> (rintro c ⟨⟩; decide)

theorem stopsNumber_members (members : List (String × Json)) (rest : List Char) :
    StopsNumber (compactMembers members ++ rest) := by
  cases members <;> (rintro c ⟨⟩; decide)

theorem readName_quoted (name : String) (rest : List Char) :
    readName (quoted name ++ ':' :: rest) = some (name, rest) := by
  rw [quoted, List.cons_append, readName, skipBlanks_cons rfl, List.append_assoc, List.singleton_append]
  have hColon : skipBlanks (':' :: rest) = _ := skipBlanks_cons rfl
  simp [readString_quoted, hColon]

mutual

/-- The induction follows the writer; the fuel covers the text that is left. -/
theorem readValue_compact : ∀ (json : Json) {fuel : Nat} {rest : List Char}, plain json = true →
    StopsNumber rest → (compact json).length ≤ fuel → readValue fuel (compact json ++ rest) = some (json, rest)
  | .null, fuel + 1, rest, _, _, _ => rfl
  | .bool true, fuel + 1, rest, _, _, _ => rfl
  | .bool false, fuel + 1, rest, _, _, _ => rfl
  | .integer number, fuel + 1, rest, _, hRest, _ => readValue_integer fuel number hRest
  | .string text, fuel + 1, rest, _, _, _ => by
    rw [compact, quoted, List.cons_append, List.append_assoc, readValue, skipBlanks_cons rfl, List.singleton_append]
    simp [readString_quoted]
  | .array [], fuel + 1, rest, _, _, _ => rfl
  | .array (first :: items), fuel + 1, rest, hPlain, _, hFuel => by
    rw [plain, plainItems, Bool.and_eq_true] at hPlain
    rw [compact, List.length_cons, List.length_append] at hFuel
    have hFirst := readValue_compact first hPlain.1 (stopsNumber_items items rest) (show _ ≤ fuel by omega)
    have hItems : readItems fuel (compactItems items ++ rest) = _ := readItems_compact items hPlain.2 (by omega)
    obtain ⟨c, front, hHead, hClose, hBlank⟩ := compact_head hPlain.1
    rw [compact, List.cons_append, List.append_assoc, readValue, skipBlanks_cons rfl]
    rw [hHead, List.cons_append] at hFirst ⊢
    simp only [skipBlanks_cons hBlank]
    split
    · next h => exact absurd (List.cons.inj h).1 hClose
    · simp [hFirst, hItems]
  | .object [], fuel + 1, rest, _, _, _ => rfl
  | .object ((name, member) :: members), fuel + 1, rest, hPlain, _, hFuel => by
    rw [plain, plainMembers, Bool.and_eq_true] at hPlain
    rw [compact, List.length_cons, List.length_append, List.length_cons, List.length_append] at hFuel
    have hMember := readValue_compact member hPlain.1 (stopsNumber_members members rest) (show _ ≤ fuel by omega)
    have hMembers : readMembers fuel (compactMembers members ++ rest) = _ :=
      readMembers_compact members hPlain.2 (by omega)
    have hName := readName_quoted name (compact member ++ (compactMembers members ++ rest))
    have hQuote (rest : List Char) : skipBlanks ('"' :: rest) = _ := skipBlanks_cons rfl
    rw [compact, List.cons_append, List.append_assoc, List.cons_append, List.append_assoc, readValue,
      skipBlanks_cons rfl]
    rw [quoted, List.cons_append] at hName ⊢
    simp only [hQuote, hName]
    simp [hMember, hMembers]
  | .decimal _, _ + 1, _, hPlain, _, _ => nomatch hPlain
  | json, 0, _, hPlain, _, hFuel => by
    obtain ⟨c, front, hHead, -⟩ := compact_head hPlain
    rw [hHead] at hFuel
    cases hFuel

theorem readItems_compact : ∀ (items : List Json) {fuel : Nat} {rest : List Char}, plainItems items = true →
    (compactItems items).length ≤ fuel → readItems fuel (compactItems items ++ rest) = some (items, rest)
  | [], fuel + 1, rest, _, _ => rfl
  | item :: items, fuel + 1, rest, hPlain, hFuel => by
    rw [plainItems, Bool.and_eq_true] at hPlain
    rw [compactItems, List.length_cons, List.length_append] at hFuel
    have hItem := readValue_compact item hPlain.1 (stopsNumber_items items rest) (show _ ≤ fuel by omega)
    have hItems : readItems fuel (compactItems items ++ rest) = _ := readItems_compact items hPlain.2 (by omega)
    rw [compactItems, List.cons_append, List.append_assoc, readItems, skipBlanks_cons rfl]
    simp [hItem, hItems]
  | [], 0, _, _, hFuel => nomatch hFuel
  | _ :: _, 0, _, _, hFuel => nomatch hFuel

theorem readMembers_compact : ∀ (members : List (String × Json)) {fuel : Nat} {rest : List Char},
    plainMembers members = true → (compactMembers members).length ≤ fuel →
      readMembers fuel (compactMembers members ++ rest) = some (members, rest)
  | [], fuel + 1, rest, _, _ => rfl
  | (name, member) :: members, fuel + 1, rest, hPlain, hFuel => by
    rw [plainMembers, Bool.and_eq_true] at hPlain
    rw [compactMembers, List.length_cons, List.length_append, List.length_cons, List.length_append] at hFuel
    have hMember := readValue_compact member hPlain.1 (stopsNumber_members members rest) (show _ ≤ fuel by omega)
    have hMembers : readMembers fuel (compactMembers members ++ rest) = _ :=
      readMembers_compact members hPlain.2 (by omega)
    rw [compactMembers, List.cons_append, List.append_assoc, List.cons_append, List.append_assoc, readMembers,
      skipBlanks_cons rfl]
    simp [readName_quoted, hMember, hMembers]
  | [], 0, _, _, hFuel => nomatch hFuel
  | (_, _) :: _, 0, _, _, hFuel => nomatch hFuel

end

theorem readText_compact (h : plain json = true) : readText (compact json) = some json := by
  have hEmpty : StopsNumber [] := nofun
  have hValue := readValue_compact json h hEmpty (Nat.le_succ _)
  rw [List.append_nil] at hValue
  rw [readText, hValue]
  rfl

def compactBytes (json : Json) : List UInt8 := charBytes (compact json)

theorem readBytes_compactBytes (h : plain json = true) : readBytes (compactBytes json) = some json := by
  rw [readBytes, compactBytes, chars?_charBytes, Option.bind_some, readText_compact h]

theorem compactBytes_injective {other : Json} (h : plain json = true) (hOther : plain other = true)
    (hBytes : compactBytes json = compactBytes other) : json = other := by
  have hParse := readBytes_compactBytes h
  rw [hBytes, readBytes_compactBytes hOther] at hParse
  exact (Option.some.inj hParse).symm

theorem length_charBytes_le (chars : List Char) : (charBytes chars).length ≤ 4 * chars.length := by
  rw [charBytes, utf8Bytes_ofList]
  induction chars with
  | nil => simp
  | cons c rest ih =>
    have hChar := c.utf8Size_le_four
    rw [List.flatMap_cons, List.length_append, String.length_utf8EncodeChar, List.length_cons]
    omega

theorem length_compactBytes_le (json : Json) : (compactBytes json).length ≤ 4 * textBound json :=
  (length_charBytes_le _).trans (Nat.mul_le_mul_left 4 (length_compact_le json))

end Lib.Json
