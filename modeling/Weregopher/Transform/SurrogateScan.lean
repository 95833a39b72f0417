import Weregopher.Transform.Quoting

/-! # The scan for lone surrogates

The scan walks over the bytes of a literal. What it does at a place depends on the bytes
from there on only, so it is followed element by element.
-/
namespace Weregopher.Transform
open Lib Lib.Bytes Lib.Checked Lib.EcmaString Lib.TextPosition

theorem loneSurrogateFrom_eq (bytes : List UInt8) (literalEnd cursor : Nat) :
    loneSurrogateFrom bytes literalEnd cursor =
      if cursor < literalEnd then
        match surrogateStep bytes literalEnd cursor with
        | none => true
        | some next => loneSurrogateFrom bytes literalEnd next
      else false := by
  rw [loneSurrogateFrom]
  split_ifs
  · split <;> simp_all
  · rfl

/-! ## Only what follows the cursor matters -/

section

variable (front rest : List UInt8)

theorem getElem?_shift (index : Nat) : (front ++ rest)[front.length + index]? = rest[index]? := by
  rw [List.getElem?_append_right (Nat.le_add_right _ _), Nat.add_sub_cancel_left]

theorem byteRange_shift (start stop : Nat) :
    byteRange (front ++ rest) (front.length + start) (front.length + stop) = byteRange rest start stop := by
  have hRange : front.length + start ≤ front.length + stop ∧ front.length + stop ≤ (front ++ rest).length ↔
      start ≤ stop ∧ stop ≤ rest.length := by
    rw [List.length_append]
    omega
  simp only [byteRange, hRange, List.take_length_add_append, List.drop_length_add_append]

theorem unicodeEscapeAt_shift (slash literalEnd : Nat) :
    unicodeEscapeAt (front ++ rest) (front.length + slash) (front.length + literalEnd) =
      (unicodeEscapeAt rest slash literalEnd).map fun escape => (escape.1, front.length + escape.2) := by
  rw [unicodeEscapeAt, unicodeEscapeAt]
  simp only [Nat.add_assoc, getElem?_shift, byteRange_shift, gt_iff_lt, Nat.add_lt_add_iff_left]
  split_ifs
  · rfl
  · cases byteRange rest (slash + 3) literalEnd with
    | none => rfl
    | some range =>
      cases hClose : range.findIdx? (· = 0x7d) with
      | none => simp [hClose]
      | some offset =>
        simp only [Option.bind_eq_bind, Option.bind_some, hClose]
        cases byteRange rest (slash + 3) (slash + (3 + offset)) with
        | none => rfl
        | some digits => cases hDigits : parseHexDigits digits <;> simp [hDigits]
  · rfl
  · cases byteRange rest (slash + 2) (slash + 6) with
    | none => rfl
    | some digits => cases hDigits : parseHexDigits digits <;> simp [hDigits]

theorem surrogateStep_shift (literalEnd cursor : Nat) :
    surrogateStep (front ++ rest) (front.length + literalEnd) (front.length + cursor) =
      (surrogateStep rest literalEnd cursor).map (front.length + ·) := by
  rw [surrogateStep, surrogateStep, getElem?_shift, unicodeEscapeAt_shift]
  split_ifs
  · rfl
  · cases unicodeEscapeAt rest cursor literalEnd with
    | none => rfl
    | some escape =>
      simp only [Option.map_some, unicodeEscapeAt_shift]
      split_ifs
      · cases unicodeEscapeAt rest escape.2 literalEnd with
        | none => rfl
        | some low =>
          simp only [Option.map_some]
          split_ifs <;> rfl
      · rfl
      · rfl

theorem loneSurrogateFrom_shift (literalEnd cursor : Nat) :
    loneSurrogateFrom (front ++ rest) (front.length + literalEnd) (front.length + cursor) =
      loneSurrogateFrom rest literalEnd cursor := by
  induction hSize : literalEnd - cursor using Nat.strong_induction_on generalizing cursor with
  | _ size ih =>
    rw [loneSurrogateFrom_eq, loneSurrogateFrom_eq rest, surrogateStep_shift]
    by_cases hCursor : cursor < literalEnd
    · rw [if_pos hCursor, if_pos (by omega)]
      cases hStep : surrogateStep rest literalEnd cursor with
      | none => rfl
      | some next =>
        have hNext := surrogateStep_lt hStep
        exact ih _ (by omega) next rfl
    · rw [if_neg hCursor, if_neg (by omega)]

end

/-- The scan of bytes whose last one is the closing quote. -/
def scan (bytes : List UInt8) : Bool := loneSurrogateFrom bytes (bytes.length - 1) 0

variable {tail : List UInt8}

theorem loneSurrogateFrom_append (front : List UInt8) (hTail : tail ≠ []) :
    loneSurrogateFrom (front ++ tail) ((front ++ tail).length - 1) front.length = scan tail := by
  have hEnd : (front ++ tail).length - 1 = front.length + (tail.length - 1) := by
    have hLength := List.length_pos_iff.mpr hTail
    rw [List.length_append]
    omega
  rw [hEnd]
  exact loneSurrogateFrom_shift front tail (tail.length - 1) 0

theorem scan_of_step {front tail : List UInt8} (hFront : front ≠ []) (hTail : tail ≠ [])
    (hStep : surrogateStep (front ++ tail) ((front ++ tail).length - 1) 0 = some front.length) :
    scan (front ++ tail) = scan tail := by
  have hFrontLength := List.length_pos_iff.mpr hFront
  have hTailLength := List.length_pos_iff.mpr hTail
  have hCursor : 0 < (front ++ tail).length - 1 := by
    rw [List.length_append]
    omega
  rw [scan, loneSurrogateFrom_eq, if_pos hCursor, hStep]
  exact loneSurrogateFrom_append front hTail

theorem scan_of_found {front tail : List UInt8} (hFront : front ≠ []) (hTail : tail ≠ [])
    (hStep : surrogateStep (front ++ tail) ((front ++ tail).length - 1) 0 = none) : scan (front ++ tail) = true := by
  have hFrontLength := List.length_pos_iff.mpr hFront
  have hTailLength := List.length_pos_iff.mpr hTail
  have hCursor : 0 < (front ++ tail).length - 1 := by
    rw [List.length_append]
    omega
  rw [scan, loneSurrogateFrom_eq, if_pos hCursor, hStep]

/-! ## Bytes of characters -/

theorem charBytes_cons (c : Char) (rest : List Char) :
    charBytes (c :: rest) = String.utf8EncodeChar c ++ charBytes rest := by
  rw [charBytes, charBytes, utf8Bytes_ofList, utf8Bytes_ofList, List.flatMap_cons]

theorem ascii_bytes : ∀ n < 128, String.utf8EncodeChar (Char.ofNat n) = [UInt8.ofNat n] ∧
    Decimal.hexValue (Char.ofNat n) = hexDigit? (UInt8.ofNat n) := by decide +kernel

variable {text digits spelled : List Char} {first quote : Char} {value high : Nat} {items : List Element}
  {element : Element}

theorem backslash_notMem_charBytes (h : '\\' ∉ text) : 0x5c ∉ charBytes text := by
  intro hMem
  rw [charBytes, mem_utf8Bytes_ascii (by decide), String.toList_ofList] at hMem
  obtain ⟨c, hChar, hValue⟩ := hMem
  apply h
  rwa [← Char.toNat_inj.mp (hValue.trans (by decide : (0x5c : UInt8).toNat = '\\'.toNat))]

theorem encode_escaped (hFirst : first ≠ 'u') :
    ∃ byte more, String.utf8EncodeChar first = byte :: more ∧ byte ≠ 0x75 ∧ 0x5c ∉ more := by
  have hLength : 0 < (String.utf8EncodeChar first).length := by
    rw [String.length_utf8EncodeChar]
    exact first.utf8Size_pos
  obtain ⟨byte, more, hBytes⟩ := List.exists_cons_of_length_pos hLength
  refine ⟨byte, more, hBytes, ?_, ?_⟩
  · rintro rfl
    have hMem : (0x75 : UInt8) ∈ String.utf8EncodeChar first := hBytes ▸ List.mem_cons_self
    rw [mem_utf8EncodeChar (by decide)] at hMem
    exact hFirst (Char.toNat_inj.mp (hMem.trans (by decide : (0x75 : UInt8).toNat = 'u'.toNat)))
  · intro hMore
    have hMem : (0x5c : UInt8) ∈ String.utf8EncodeChar first := hBytes ▸ List.mem_cons_of_mem _ hMore
    rw [mem_utf8EncodeChar (by decide)] at hMem
    have hBackslash : first = '\\' := Char.toNat_inj.mp (hMem.trans (by decide : (0x5c : UInt8).toNat = '\\'.toNat))
    rw [hBackslash] at hBytes
    cases hBytes
    cases hMore

/-! ## Numbers -/

theorem charBytes_digits (h : hexNumber digits = some value) :
    charBytes digits = digits.map (fun c => UInt8.ofNat c.toNat) ∧
      ∀ c ∈ digits, Decimal.hexValue c = hexDigit? (UInt8.ofNat c.toNat) := by
  have hAscii (c : Char) (hMem : c ∈ digits) : String.utf8EncodeChar c = [UInt8.ofNat c.toNat] ∧
      Decimal.hexValue c = hexDigit? (UInt8.ofNat c.toNat) := by
    obtain ⟨_, hDigit⟩ := hexDigit_of_hexNumber h c hMem
    have hByte := ascii_bytes c.toNat (toNat_lt_of_hexDigit hDigit)
    rwa [Char.ofNat_toNat] at hByte
  refine ⟨?_, fun c hMem => (hAscii c hMem).2⟩
  rw [charBytes, utf8Bytes_ofList, List.map_eq_flatMap]
  exact List.flatMap_congr fun c hMem => (hAscii c hMem).1

theorem foldlM_digits (h : hexNumber digits = some value) (hMax : value ≤ u32Max) :
    (digits.map fun c => UInt8.ofNat c.toNat).foldlM (fun value digit => do
      let shifted ← checkedMul u32Max value 16
      checkedAdd u32Max shifted (← hexDigit? digit)) 0 = some value := by
  induction digits using List.reverseRecOn generalizing value with
  | nil =>
    cases h
    rfl
  | append_singleton digits c ih =>
    have hByte := (charBytes_digits h).2 c (List.mem_append_right _ List.mem_cons_self)
    rw [hexNumber_concat, Option.bind_eq_some_iff] at h
    obtain ⟨front, hFront, h⟩ := h
    obtain ⟨digit, hDigit, rfl⟩ := Option.map_eq_some_iff.mp h
    have hShifted : checkedMul u32Max front 16 = some (front * 16) := checkedMul_eq_some.mpr ⟨by omega, rfl⟩
    have hAdded : checkedAdd u32Max (front * 16) digit = some (front * 16 + digit) :=
      checkedAdd_eq_some.mpr ⟨hMax, rfl⟩
    rw [List.map_append, List.foldlM_append, ih hFront (by omega)]
    simp [hShifted, ← hByte, hDigit, hAdded]

theorem parseHexDigits_charBytes (hDigits : digits ≠ [])
    (h : hexNumber digits = some value) (hMax : value ≤ u32Max) : parseHexDigits (charBytes digits) = some value := by
  have hBytes : charBytes digits ≠ [] := by
    rw [(charBytes_digits h).1]
    exact fun hNil => hDigits (List.map_eq_nil_iff.mp hNil)
  rw [parseHexDigits, if_neg hBytes, (charBytes_digits h).1]
  exact foldlM_digits h hMax

theorem hexNumber_lt (h : hexNumber digits = some value) : value < 16 ^ digits.length := by
  induction digits using List.reverseRecOn generalizing value with
  | nil =>
    cases h
    decide
  | append_singleton digits c ih =>
    rw [hexNumber_concat, Option.bind_eq_some_iff] at h
    obtain ⟨front, hFront, h⟩ := h
    obtain ⟨digit, hDigit, rfl⟩ := Option.map_eq_some_iff.mp h
    have hSmall := hexDigit_lt hDigit
    have hRest := ih hFront
    rw [List.length_append, List.length_singleton, Nat.pow_succ]
    omega

/-! ## Escapes -/

theorem byteRange_front (front back : List UInt8) : byteRange (front ++ back) 0 front.length = some front := by
  simp [byteRange]

variable {byte : UInt8}

theorem notMem_charBytes_digits (h : hexNumber digits = some value) (hByte : hexDigit? byte = none) :
    byte ∉ charBytes digits := by
  obtain ⟨hBytes, hDigits⟩ := charBytes_digits h
  rw [hBytes]
  intro hMem
  obtain ⟨c, hChar, rfl⟩ := List.mem_map.mp hMem
  obtain ⟨digit, hDigit⟩ := hexDigit_of_hexNumber h c hChar
  rw [← hDigits c hChar, hDigit] at hByte
  cases hByte

theorem unicodeEscapeAt_four {digits : List UInt8} (hLength : digits.length = 4) (hBrace : 0x7b ∉ digits)
    (hValue : parseHexDigits digits = some value) (hTail : tail ≠ []) :
    unicodeEscapeAt ([0x5c, 0x75] ++ digits ++ tail) 0 (([0x5c, 0x75] ++ digits ++ tail).length - 1) =
      some (value, 6) := by
  have hTailLength := List.length_pos_iff.mpr hTail
  have hEnd : ¬0 + 6 > ([0x5c, 0x75] ++ digits ++ tail).length - 1 := by
    simp only [List.length_append, List.length_cons, List.length_nil, hLength]
    omega
  have hRange : byteRange ([0x5c, 0x75] ++ digits ++ tail) 2 6 = some digits := by
    have hShift := byteRange_shift [0x5c, 0x75] (digits ++ tail) 0 digits.length
    rw [byteRange_front, hLength, ← List.append_assoc] at hShift
    exact hShift
  have hFirst : ([0x5c, 0x75] ++ digits ++ tail)[2]? ≠ some 0x7b := by
    obtain ⟨first, more, rfl⟩ := List.exists_cons_of_length_eq_add_one hLength
    intro hFirst
    obtain rfl : first = 0x7b := Option.some.inj hFirst
    exact hBrace List.mem_cons_self
  rw [unicodeEscapeAt, if_neg (by simp), if_neg hFirst, if_neg hEnd, Nat.zero_add, Nat.zero_add, hRange]
  simp [hValue]

theorem unicodeEscapeAt_braces {digits : List UInt8} (hClose : 0x7d ∉ digits)
    (hValue : parseHexDigits digits = some value) (hTail : tail ≠ []) :
    unicodeEscapeAt ([0x5c, 0x75, 0x7b] ++ (digits ++ [0x7d]) ++ tail) 0
      (([0x5c, 0x75, 0x7b] ++ (digits ++ [0x7d]) ++ tail).length - 1) = some (value, 3 + digits.length + 1) := by
  obtain ⟨front, last, rfl⟩ := (List.eq_nil_or_concat' tail).resolve_left hTail
  have hBytes : [0x5c, 0x75, 0x7b] ++ (digits ++ [0x7d]) ++ (front ++ [last]) =
      [0x5c, 0x75, 0x7b] ++ (digits ++ 0x7d :: front ++ [last]) := by simp
  have hRange : byteRange ([0x5c, 0x75, 0x7b] ++ (digits ++ 0x7d :: front ++ [last])) 3
      (([0x5c, 0x75, 0x7b] ++ (digits ++ 0x7d :: front ++ [last])).length - 1) = some (digits ++ 0x7d :: front) := by
    have hShift := byteRange_shift [0x5c, 0x75, 0x7b] (digits ++ 0x7d :: front ++ [last]) 0
      (digits ++ 0x7d :: front).length
    have hEnd : ([0x5c, 0x75, 0x7b] ++ (digits ++ 0x7d :: front ++ [last])).length - 1 =
        3 + (digits ++ 0x7d :: front).length := by
      simp only [List.length_append, List.length_cons, List.length_nil]
      omega
    rw [byteRange_front] at hShift
    rw [hEnd]
    exact hShift
  have hIndex : (digits ++ 0x7d :: front).findIdx? (· = 0x7d) = some digits.length := by
    have hNone : digits.findIdx? (· = 0x7d) = none := by
      rw [List.findIdx?_eq_none_iff]
      intro byte hByte
      rw [decide_eq_false_iff_not]
      rintro rfl
      exact hClose hByte
    rw [List.findIdx?_append, hNone, List.findIdx?_cons]
    simp
  have hDigits : byteRange ([0x5c, 0x75, 0x7b] ++ (digits ++ 0x7d :: front ++ [last])) 3 (3 + digits.length) =
      some digits := by
    have hShift := byteRange_shift [0x5c, 0x75, 0x7b] (digits ++ (0x7d :: front ++ [last])) 0 digits.length
    rwa [byteRange_front, ← List.append_assoc digits] at hShift
  rw [hBytes, unicodeEscapeAt, if_neg (by simp), if_pos (by simp)]
  simp only [Nat.zero_add, hRange, Option.bind_eq_bind, Option.bind_some, hIndex, hDigits, hValue]
  rfl

theorem unicodeEscapeAt_unicode (h : Spells (.unicode value) spelled) (hTail : tail ≠ []) :
    unicodeEscapeAt (charBytes spelled ++ tail) 0 ((charBytes spelled ++ tail).length - 1) =
      some (value, (charBytes spelled).length) := by
  cases h with
  | @unicode digits _ hLength hValue =>
    have hBytes : charBytes ('\\' :: 'u' :: digits) = [0x5c, 0x75] ++ charBytes digits := by
      rw [charBytes_cons, charBytes_cons]
      rfl
    have hFour : (charBytes digits).length = 4 := by rw [(charBytes_digits hValue).1, List.length_map, hLength]
    have hSmall := hexNumber_lt hValue
    have hDigits : digits ≠ [] := List.ne_nil_of_length_eq_add_one hLength
    have hNumber : parseHexDigits (charBytes digits) = some value := by
      refine parseHexDigits_charBytes hDigits hValue (Nat.le_of_lt (Nat.lt_of_lt_of_le hSmall ?_))
      rw [hLength]
      decide
    rw [hBytes, unicodeEscapeAt_four hFour (notMem_charBytes_digits hValue (by decide)) hNumber hTail,
      List.length_append, hFour]
    rfl
  | @codePoint digits _ hDigits hValue hMax =>
    have hBytes : charBytes ('\\' :: 'u' :: '\x7b' :: (digits ++ ['\x7d'])) =
        [0x5c, 0x75, 0x7b] ++ (charBytes digits ++ [0x7d]) := by
      rw [charBytes_cons, charBytes_cons, charBytes_cons, charBytes_append]
      rfl
    have hNumber : parseHexDigits (charBytes digits) = some value :=
      parseHexDigits_charBytes hDigits hValue (hMax.trans (by decide))
    rw [hBytes, unicodeEscapeAt_braces (notMem_charBytes_digits hValue (by decide)) hNumber hTail, List.length_append,
      List.length_append, Nat.add_assoc]
    rfl

/-! ## Elements -/

def scanElements : List Element → Bool
  | [] => false
  | .unicode value :: rest =>
    if isHighSurrogate value then
      match rest with
      | .unicode low :: more => if isLowSurrogate low then scanElements more else true
      | _ => true
    else if isLowSurrogate value then true
    else scanElements rest
  | _ :: rest => scanElements rest

theorem charBytes_ne_nil (h : text ≠ []) : charBytes text ≠ [] := by
  have hLength := byteLength_pos h
  rw [← length_charBytes] at hLength
  exact List.length_pos_iff.mp hLength

theorem Body.ne_nil (h : Body quote items text) : text ≠ [] := by
  induction h with
  | closed => exact List.cons_ne_nil _ _
  | more _ _ ih => exact List.append_ne_nil_of_right_ne_nil _ ih

theorem charBytes_escaped {more : List Char} (hFirst : first ≠ 'u') (hMore : '\\' ∉ more) :
    ∃ byte skipped, charBytes ('\\' :: first :: more) = 0x5c :: byte :: skipped ∧ byte ≠ 0x75 ∧ 0x5c ∉ skipped := by
  obtain ⟨byte, rest, hBytes, hByte, hRest⟩ := encode_escaped hFirst
  refine ⟨byte, rest ++ charBytes more, ?_, hByte, ?_⟩
  · rw [charBytes_cons, charBytes_cons, hBytes]
    rfl
  · rw [List.mem_append, not_or]
    exact ⟨hRest, backslash_notMem_charBytes hMore⟩

theorem charBytes_plain {c : Char} (h : c ≠ '\\') : 0x5c ∉ charBytes [c] :=
  backslash_notMem_charBytes fun hMem => h (List.mem_singleton.mp hMem).symm

theorem unicodeEscapeAt_plain {front : List UInt8} (hFront : front ≠ []) (h : 0x5c ∉ front) (tail : List UInt8)
    (literalEnd : Nat) : unicodeEscapeAt (front ++ tail) 0 literalEnd = none := by
  rw [unicodeEscapeAt, if_pos]
  left
  obtain ⟨byte, more, rfl⟩ := List.exists_cons_of_ne_nil hFront
  intro hByte
  obtain rfl : byte = 0x5c := Option.some.inj hByte
  exact h List.mem_cons_self

theorem unicodeEscapeAt_escaped (h : byte ≠ 0x75) (tail : List UInt8) (literalEnd : Nat) :
    unicodeEscapeAt (0x5c :: byte :: tail) 0 literalEnd = none := by
  rw [unicodeEscapeAt, if_pos]
  right
  intro hSecond
  exact h (Option.some.inj hSecond)

theorem unicodeEscapeAt_other (hQuote : isQuote quote = true)
    (h : Body quote items text) (hOther : ∀ value, items.head? ≠ some (.unicode value)) (literalEnd : Nat) :
    unicodeEscapeAt (charBytes text) 0 literalEnd = none := by
  cases h with
  | closed =>
    have hPlain : quote ≠ '\\' := by
      rintro rfl
      cases hQuote
    rw [← List.append_nil (charBytes [quote])]
    exact unicodeEscapeAt_plain (charBytes_ne_nil (List.cons_ne_nil _ _)) (charBytes_plain hPlain) _ _
  | more hElement hRest =>
    rw [charBytes_append]
    cases hElement with
    | plain hPlain => exact unicodeEscapeAt_plain (charBytes_ne_nil (List.cons_ne_nil _ _)) (charBytes_plain hPlain) _ _
    | escaped hFirst hMore | continuation hFirst hMore =>
      obtain ⟨byte, skipped, hBytes, hByte, -⟩ := charBytes_escaped hFirst hMore
      rw [hBytes]
      exact unicodeEscapeAt_escaped hByte _ _
    | unicode hLength hValue => exact absurd rfl (hOther _)
    | codePoint hDigits hValue hMax => exact absurd rfl (hOther _)

theorem scan_skip {skipped tail : List UInt8} (h : 0x5c ∉ skipped) (hTail : tail ≠ []) :
    scan (skipped ++ tail) = scan tail := by
  induction skipped with
  | nil => rfl
  | cons byte rest ih =>
    rw [List.mem_cons, not_or] at h
    rw [← ih h.2]
    apply @scan_of_step [byte] _ (List.cons_ne_nil _ _) (List.append_ne_nil_of_right_ne_nil _ hTail)
    rw [surrogateStep, if_pos]
    · rfl
    · exact fun hByte => h.1 (Option.some.inj hByte).symm

theorem scan_escape (hByte : byte ≠ 0x75) (hTail : tail ≠ []) : scan (0x5c :: byte :: tail) = scan tail := by
  apply @scan_of_step [0x5c, byte] _ (List.cons_ne_nil _ _) hTail
  rw [surrogateStep, if_neg (by simp), List.cons_append, List.cons_append, unicodeEscapeAt_escaped hByte]
  rfl

theorem getElem?_slash {bytes : List UInt8} {literalEnd : Nat} {escape : Nat × Nat}
    (h : unicodeEscapeAt bytes 0 literalEnd = some escape) : bytes[0]? = some 0x5c := by
  rw [unicodeEscapeAt] at h
  split_ifs at h with hSlash <;> exact not_not.mp (not_or.mp hSlash).1

theorem surrogateStep_unicode (h : Spells (.unicode value) spelled) (hTail : tail ≠ []) :
    surrogateStep (charBytes spelled ++ tail) ((charBytes spelled ++ tail).length - 1) 0 =
      if isHighSurrogate value then
        (unicodeEscapeAt tail 0 (tail.length - 1)).bind fun low =>
          if isLowSurrogate low.1 then some ((charBytes spelled).length + low.2) else none
      else if isLowSurrogate value then none
      else some (charBytes spelled).length := by
  have hEscape := unicodeEscapeAt_unicode h hTail
  have hEnd : (charBytes spelled ++ tail).length - 1 = (charBytes spelled).length + (tail.length - 1) := by
    have hLength := List.length_pos_iff.mpr hTail
    rw [List.length_append]
    omega
  have hNext : unicodeEscapeAt (charBytes spelled ++ tail) (charBytes spelled).length
      ((charBytes spelled ++ tail).length - 1) =
        (unicodeEscapeAt tail 0 (tail.length - 1)).map fun escape =>
          (escape.1, (charBytes spelled).length + escape.2) := by
    rw [hEnd]
    exact unicodeEscapeAt_shift (charBytes spelled) tail 0 (tail.length - 1)
  rw [surrogateStep, if_neg (not_not.mpr (getElem?_slash hEscape)), hEscape]
  simp only [hNext, isHighSurrogate, isLowSurrogate, Bool.and_eq_true, decide_eq_true_eq]
  cases unicodeEscapeAt tail 0 (tail.length - 1) with
  | none => rfl
  | some low =>
    simp only [Option.map_some, Option.bind_some, ite_not]

theorem scan_other (h : Spells element spelled)
    (hOther : ∀ value, element ≠ .unicode value) (hTail : tail ≠ []) :
    scan (charBytes spelled ++ tail) = scan tail := by
  cases h with
  | plain hPlain => exact scan_skip (charBytes_plain hPlain) hTail
  | escaped hFirst hMore | continuation hFirst hMore =>
    obtain ⟨byte, skipped, hBytes, hByte, hSkipped⟩ := charBytes_escaped hFirst hMore
    rw [hBytes, List.cons_append, List.cons_append, scan_escape hByte (List.append_ne_nil_of_right_ne_nil _ hTail),
      scan_skip hSkipped hTail]
  | unicode hLength hValue => exact absurd rfl (hOther _)
  | codePoint hDigits hValue hMax => exact absurd rfl (hOther _)

theorem charBytes_spelled_ne_nil (h : Spells element spelled) : charBytes spelled ≠ [] := by
  apply charBytes_ne_nil
  cases h <;> exact List.cons_ne_nil _ _

theorem scan_body (hQuote : isQuote quote = true)
    (h : Body quote items text) : scan (charBytes text) = scanElements items := by
  fun_induction scanElements items generalizing text with
  | case1 =>
    cases h
    have hByte : (charBytes [quote]).length = 1 := by
      rw [isQuote, Bool.or_eq_true, beq_iff_eq, beq_iff_eq] at hQuote
      rcases hQuote with rfl | rfl <;> rfl
    rw [scan, hByte, loneSurrogateFrom_eq, if_neg (Nat.lt_irrefl 0)]
  | case2 value hHigh low more hLow ih =>
    cases h with
    | more hFirst hRest =>
      cases hRest with
      | @more _ _ second rest hSecond hMore =>
        have hTail := charBytes_ne_nil (Body.ne_nil hMore)
        rw [charBytes_append, charBytes_append, ← ih hMore, ← List.append_assoc]
        apply scan_of_step (List.append_ne_nil_of_left_ne_nil (charBytes_spelled_ne_nil hFirst) _) hTail
        rw [List.append_assoc, surrogateStep_unicode hFirst (List.append_ne_nil_of_right_ne_nil _ hTail), if_pos hHigh,
          unicodeEscapeAt_unicode hSecond hTail, List.length_append]
        exact if_pos hLow
  | case3 value hHigh low more hLow =>
    cases h with
    | more hFirst hRest =>
      cases hRest with
      | @more _ _ second rest hSecond hMore =>
        have hTail := charBytes_ne_nil (Body.ne_nil hMore)
        have hRestTail := List.append_ne_nil_of_right_ne_nil (charBytes second) hTail
        rw [charBytes_append, charBytes_append]
        apply scan_of_found (charBytes_spelled_ne_nil hFirst) hRestTail
        rw [surrogateStep_unicode hFirst hRestTail, if_pos hHigh, unicodeEscapeAt_unicode hSecond hTail]
        exact if_neg hLow
  | case4 value rest hHigh hOther =>
    cases h with
    | more hFirst hRest =>
      have hTail := charBytes_ne_nil (Body.ne_nil hRest)
      have hNext : ∀ low, rest.head? ≠ some (.unicode low) := by
        intro low hHead
        cases rest with
        | nil => cases hHead
        | cons element more =>
          obtain rfl := Option.some.inj hHead
          exact hOther low more rfl
      rw [charBytes_append]
      apply scan_of_found (charBytes_spelled_ne_nil hFirst) hTail
      rw [surrogateStep_unicode hFirst hTail, if_pos hHigh, unicodeEscapeAt_other hQuote hRest hNext]
      rfl
  | case5 value rest hHigh hLow =>
    cases h with
    | more hFirst hRest =>
      have hTail := charBytes_ne_nil (Body.ne_nil hRest)
      rw [charBytes_append]
      apply scan_of_found (charBytes_spelled_ne_nil hFirst) hTail
      rw [surrogateStep_unicode hFirst hTail, if_neg hHigh, if_pos hLow]
  | case6 value rest hHigh hLow ih =>
    cases h with
    | more hFirst hRest =>
      have hTail := charBytes_ne_nil (Body.ne_nil hRest)
      rw [charBytes_append, ← ih hRest]
      apply scan_of_step (charBytes_spelled_ne_nil hFirst) hTail
      rw [surrogateStep_unicode hFirst hTail, if_neg hHigh, if_neg hLow]
  | case7 element rest hElement ih =>
    cases h with
    | more hFirst hRest =>
      rw [charBytes_append, scan_other hFirst hElement (charBytes_ne_nil (Body.ne_nil hRest)), ih hRest]

theorem containsLoneSurrogateEscape_eq {literal : List Char}
    (h : elements literal = some items) : containsLoneSurrogateEscape literal = scanElements items := by
  obtain ⟨quote, rest, rfl, hQuote, hBody⟩ := body_of_elements h
  have hByte : (String.utf8EncodeChar quote).length = 1 := by
    rw [isQuote, Bool.or_eq_true, beq_iff_eq, beq_iff_eq] at hQuote
    rcases hQuote with rfl | rfl <;> rfl
  have hAppend := loneSurrogateFrom_append (String.utf8EncodeChar quote) (charBytes_ne_nil (Body.ne_nil hBody))
  rw [hByte] at hAppend
  rw [containsLoneSurrogateEscape, ← scan_body hQuote hBody, charBytes_cons]
  exact hAppend

/-! ## Elements and values -/

def Interrupted (items : List Element) : Prop :=
  ∃ front high between low back, items = front ++ .unicode high :: between ++ .unicode low :: back ∧
    isHighSurrogate high = true ∧ isLowSurrogate low = true ∧ between ≠ [] ∧
      ∀ element ∈ between, element = .continuation

theorem not_interrupted_nil : ¬Interrupted [] := by
  rintro ⟨front, high, between, low, back, hItems, -⟩
  cases front <;> cases hItems

theorem interrupted_cons {rest : List Element}
    (h : ∀ value, element = .unicode value → isHighSurrogate value = false) :
    Interrupted (element :: rest) ↔ Interrupted rest := by
  constructor
  · rintro ⟨front, high, between, low, back, hItems, hHigh, hRest⟩
    cases front with
    | nil =>
      obtain ⟨rfl, -⟩ := List.cons.inj hItems
      rw [h high rfl] at hHigh
      cases hHigh
    | cons first front => exact ⟨front, high, between, low, back, (List.cons.inj hItems).2, hHigh, hRest⟩
  · rintro ⟨front, high, between, low, back, rfl, hRest⟩
    exact ⟨element :: front, high, between, low, back, rfl, hRest⟩

theorem codeUnits_surrogate (h : isHighSurrogate value = true ∨ isLowSurrogate value = true) :
    codeUnits value = [value] := by
  simp only [isHighSurrogate, isLowSurrogate, Bool.and_eq_true, decide_eq_true_eq] at h
  rw [codeUnits, if_pos (by omega)]

theorem head_codeUnits (hLow : isLowSurrogate value = false) (hMax : value ≤ 0x10ffff) (rest : List Nat) :
    ∀ next ∈ (codeUnits value ++ rest).head?, isLowSurrogate next = false := by
  intro next hNext
  rw [codeUnits] at hNext
  split_ifs at hNext with hBmp
  · obtain rfl := Option.some.inj hNext
    exact hLow
  · obtain rfl := Option.some.inj hNext
    simp only [isLowSurrogate, Bool.and_eq_false_iff, decide_eq_false_iff_not]
    omega

theorem valueOf_cons (element : Element) (rest : List Element) :
    valueOf (element :: rest) = element.units ++ valueOf rest :=
  List.flatMap_cons

theorem toNat_le (c : Char) : c.toNat ≤ 0x10ffff := by
  have hChar := toNat_cases c
  omega

theorem unpaired_or_interrupted (hHigh : isHighSurrogate high = true) {rest : List Element}
    (hMax : ∀ value, .unicode value ∈ rest → value ≤ 0x10ffff) (done : List Element)
    (hDone : ∀ element ∈ done, element = .continuation)
    (hNext : done = [] → ∀ value, rest.head? ≠ some (.unicode value)) :
    hasUnpaired (high :: valueOf rest) = true ∨ Interrupted (.unicode high :: (done ++ rest)) := by
  induction rest generalizing done with
  | nil => exact Or.inl (hasUnpaired_high hHigh nofun)
  | cons element rest ih =>
    rw [valueOf_cons]
    cases element with
    | plain c | escaped c =>
      exact Or.inl (hasUnpaired_high hHigh (head_codeUnits (not_surrogate c).2 (toNat_le c) _))
    | continuation =>
      have hMore := ih (fun value hMem => hMax value (List.mem_cons_of_mem _ hMem)) (done ++ [.continuation])
        (by
          intro element hMem
          rcases List.mem_append.mp hMem with hMem | hMem
          · exact hDone element hMem
          · exact List.mem_singleton.mp hMem)
        fun hNil => absurd hNil (List.append_ne_nil_of_right_ne_nil _ (List.cons_ne_nil _ _))
      rwa [List.append_assoc] at hMore
    | unicode value =>
      have hBefore : done ≠ [] := fun hNil => hNext hNil value rfl
      cases hLow : isLowSurrogate value with
      | true => exact Or.inr ⟨[], high, done, value, rest, rfl, hHigh, hLow, hBefore, hDone⟩
      | false => exact Or.inl (hasUnpaired_high hHigh (head_codeUnits hLow (hMax value List.mem_cons_self) _))

theorem isHighSurrogate_of_low {unit : Nat} (h : isLowSurrogate unit = true) : isHighSurrogate unit = false := by
  simp only [isHighSurrogate, isLowSurrogate, Bool.and_eq_true, decide_eq_true_eq, Bool.and_eq_false_iff,
    decide_eq_false_iff_not] at *
  omega

theorem interrupted_pair {low : Nat} (hLow : isLowSurrogate low = true) {rest : List Element} :
    Interrupted (.unicode high :: .unicode low :: rest) ↔ Interrupted rest := by
  have hRest : Interrupted (.unicode low :: rest) ↔ Interrupted rest := by
    refine interrupted_cons fun value hValue => ?_
    cases hValue
    exact isHighSurrogate_of_low hLow
  rw [← hRest]
  constructor
  · rintro ⟨front, other, between, last, back, hItems, hHigh, hLast, hBetween, hOnly⟩
    cases front with
    | nil =>
      obtain ⟨next, more, rfl⟩ := List.exists_cons_of_ne_nil hBetween
      cases (List.cons.inj (List.cons.inj hItems).2).1.trans (hOnly next List.mem_cons_self)
    | cons first front =>
      exact ⟨front, other, between, last, back, (List.cons.inj hItems).2, hHigh, hLast, hBetween, hOnly⟩
  · rintro ⟨front, other, between, last, back, hItems, hOther⟩
    exact ⟨.unicode high :: front, other, between, last, back, congrArg (.unicode high :: ·) hItems, hOther⟩

theorem scanElements_iff (hMax : ∀ value, .unicode value ∈ items → value ≤ 0x10ffff) :
    scanElements items = true ↔ hasUnpaired (valueOf items) = true ∨ Interrupted items := by
  fun_induction scanElements items with
  | case1 => simp [valueOf, hasUnpaired, not_interrupted_nil]
  | case2 high hHigh low more hLow ih =>
    rw [ih fun value hMem => hMax value (List.mem_cons_of_mem _ (List.mem_cons_of_mem _ hMem)), interrupted_pair hLow,
      valueOf_cons, valueOf_cons, Element.units, Element.units, codeUnits_surrogate (Or.inl hHigh),
      codeUnits_surrogate (Or.inr hLow), List.singleton_append, List.singleton_append, hasUnpaired_pair hHigh hLow]
  | case3 high hHigh next more hLow =>
    have hNext := hMax next (List.mem_cons_of_mem _ List.mem_cons_self)
    rw [valueOf_cons, Element.units, codeUnits_surrogate (Or.inl hHigh), List.singleton_append, valueOf_cons]
    exact iff_of_true rfl (Or.inl (hasUnpaired_high hHigh (head_codeUnits (Bool.not_eq_true _ |>.mp hLow) hNext _)))
  | case4 high rest hHigh hOther =>
    have hNext : ∀ value, rest.head? ≠ some (.unicode value) := by
      intro low hHead
      cases rest with
      | nil => cases hHead
      | cons element more =>
        obtain rfl := Option.some.inj hHead
        exact hOther low more rfl
    rw [valueOf_cons, Element.units, codeUnits_surrogate (Or.inl hHigh), List.singleton_append]
    exact iff_of_true rfl (unpaired_or_interrupted hHigh (fun value hMem => hMax value (List.mem_cons_of_mem _ hMem)) []
      (by simp) fun _ => hNext)
  | case5 value rest hHigh hLow =>
    rw [valueOf_cons, Element.units, codeUnits_surrogate (Or.inr hLow), List.singleton_append]
    exact iff_of_true rfl (Or.inl (hasUnpaired_low hLow _))
  | case6 value rest hHigh hLow ih =>
    rw [Bool.not_eq_true] at hHigh hLow
    have hFirst : ∀ other, Element.unicode value = .unicode other → isHighSurrogate other = false := by
      rintro _ ⟨⟩
      exact hHigh
    rw [ih fun other hMem => hMax other (List.mem_cons_of_mem _ hMem), interrupted_cons hFirst, valueOf_cons,
      Element.units, hasUnpaired_codeUnits hHigh hLow (hMax value List.mem_cons_self)]
  | case7 element rest hElement ih =>
    rw [ih fun other hMem => hMax other (List.mem_cons_of_mem _ hMem),
      interrupted_cons fun value hValue => absurd hValue (hElement value), valueOf_cons]
    cases element with
    | plain c | escaped c => rw [Element.units, hasUnpaired_char]
    | unicode value => exact absurd rfl (hElement value)
    | continuation => rfl

theorem Body.unicode_le (h : Body quote items text) : ∀ value, .unicode value ∈ items → value ≤ 0x10ffff := by
  induction h with
  | closed => exact nofun
  | more hElement _ ih =>
    intro value hMem
    rcases List.mem_cons.mp hMem with rfl | hMem
    · cases hElement with
      | unicode hLength hValue =>
        have hSmall := hexNumber_lt hValue
        rw [hLength] at hSmall
        omega
      | codePoint hDigits hValue hMax => exact hMax
    · exact ih value hMem

/-! ## The scan and the value of a literal -/

/-- The scan agrees with the value of a literal unless all surrogates are paired and a pair is interrupted by a line
continuation. -/
theorem surrogate_scan_agrees_iff {literal : List Char} {items : List Element} (h : elements literal = some items) :
    containsLoneSurrogateEscape literal = hasUnpaired (valueOf items) ↔
      hasUnpaired (valueOf items) = true ∨ ¬Interrupted items := by
  obtain ⟨quote, rest, -, -, hBody⟩ := body_of_elements h
  have hScan := scanElements_iff (Body.unicode_le hBody)
  rw [containsLoneSurrogateEscape_eq h, Bool.eq_iff_iff, hScan]
  tauto

theorem interrupted_pair_is_reported :
    elements "\"\\ud83d\\\n\\ude00\"".toList = some [.unicode 0xd83d, .continuation, .unicode 0xde00] ∧
      hasUnpaired (valueOf [.unicode 0xd83d, .continuation, .unicode 0xde00]) = false ∧
      containsLoneSurrogateEscape "\"\\ud83d\\\n\\ude00\"".toList = true := by decide +kernel

theorem high_half_alone_agrees :
    containsLoneSurrogateEscape "\"\\ud83d-\"".toList = hasUnpaired (valueOf [.unicode 0xd83d, .plain '-']) := by
  have hElements : elements "\"\\ud83d-\"".toList = some [.unicode 0xd83d, .plain '-'] := by decide +kernel
  exact (surrogate_scan_agrees_iff hElements).mpr (Or.inl (by decide))

end Weregopher.Transform
