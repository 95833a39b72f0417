import Weregopher.Lib.Decimal
import Weregopher.Lib.Json

/-! # Compact JSON text

The text of a tree without blanks, in the shortest escapes.
-/
namespace Lib.Json
open Lib.Decimal

def escapeChar (c : Char) : List Char :=
  if c = '"' then ['\\', '"']
  else if c = '\\' then ['\\', '\\']
  else if c.toNat = 8 then ['\\', 'b']
  else if c.toNat = 9 then ['\\', 't']
  else if c.toNat = 10 then ['\\', 'n']
  else if c.toNat = 12 then ['\\', 'f']
  else if c.toNat = 13 then ['\\', 'r']
  else if c.toNat < 32 then ['\\', 'u', '0', '0', hexDigit (c.toNat / 16), hexDigit (c.toNat % 16)]
  else [c]

def quoted (text : String) : List Char := '"' :: (text.toList.flatMap escapeChar ++ ['"'])

def digits : Nat → Nat → List Char
  | 0, _ => []
  | fuel + 1, n => if n < 10 then [digit n] else digits fuel (n / 10) ++ [digit (n % 10)]

def naturalText (n : Nat) : List Char := digits (n.log2 + 1) n

def integerText : Int → List Char
  | .ofNat n => naturalText n
  | .negSucc n => '-' :: naturalText (n + 1)

mutual

def compact : Json → List Char
  | .null => ['n', 'u', 'l', 'l']
  | .bool true => ['t', 'r', 'u', 'e']
  | .bool false => ['f', 'a', 'l', 's', 'e']
  | .integer value => integerText value
  | .decimal literal => literal.toList
  | .string value => quoted value
  | .array [] => ['[', ']']
  | .array (first :: rest) => '[' :: (compact first ++ compactItems rest)
  | .object [] => ['{', '}']
  | .object ((name, value) :: rest) => '{' :: (quoted name ++ ':' :: (compact value ++ compactMembers rest))

def compactItems : List Json → List Char
  | [] => [']']
  | item :: rest => ',' :: (compact item ++ compactItems rest)

def compactMembers : List (String × Json) → List Char
  | [] => ['}']
  | (name, value) :: rest => ',' :: (quoted name ++ ':' :: (compact value ++ compactMembers rest))

end

mutual

def plain : Json → Bool
  | .decimal _ => false
  | .array items => plainItems items
  | .object members => plainMembers members
  | _ => true

def plainItems : List Json → Bool
  | [] => true
  | item :: rest => plain item && plainItems rest

def plainMembers : List (String × Json) → Bool
  | [] => true
  | (_, value) :: rest => plain value && plainMembers rest

end

mutual

/-- No text is longer than this: every character takes at most six. -/
def textBound : Json → Nat
  | .null => 4
  | .bool _ => 5
  | .integer value => value.natAbs.log2 + 2
  | .decimal literal => literal.length
  | .string value => 6 * value.length + 2
  | .array items => itemsBound items + 2
  | .object members => membersBound members + 2

def itemsBound : List Json → Nat
  | [] => 0
  | item :: rest => textBound item + itemsBound rest + 1

def membersBound : List (String × Json) → Nat
  | [] => 0
  | (name, value) :: rest => 6 * name.length + textBound value + membersBound rest + 4

end

/-- Equations to rewrite with where evaluation would decode every text. -/
theorem textBound_object (members : List (String × Json)) : textBound (.object members) = membersBound members + 2 := by
  rw [textBound]

theorem membersBound_cons (name : String) (value : Json) (rest : List (String × Json)) :
    membersBound ((name, value) :: rest) = 6 * name.length + textBound value + membersBound rest + 4 := by
  rw [membersBound]

theorem length_escapeChar_le (c : Char) : (escapeChar c).length ≤ 6 := by
  rw [escapeChar]
  split_ifs <;> simp

theorem length_quoted_le (text : String) : (quoted text).length ≤ 6 * text.length + 2 := by
  have hChars : ∀ chars : List Char, (chars.flatMap escapeChar).length ≤ 6 * chars.length := by
    intro chars
    induction chars with
    | nil => simp
    | cons c rest ih =>
      have hChar := length_escapeChar_le c
      rw [List.flatMap_cons, List.length_append, List.length_cons]
      omega
  have hText := hChars text.toList
  rw [String.length_toList] at hText
  simp only [quoted, List.length_cons, List.length_append, List.length_nil]
  omega

theorem length_digits_le (fuel n : Nat) : (digits fuel n).length ≤ fuel := by
  induction fuel generalizing n with
  | zero => simp [digits]
  | succ fuel ih =>
    rw [digits]
    split
    · simp
    · have hRest := ih (n / 10)
      rw [List.length_append, List.length_singleton]
      omega

theorem digitChar_eq : ∀ n < 10, digit n = n.digitChar := by decide

theorem digits_eq_toDigits {fuel n : Nat} (h : n < 10 ^ (fuel + 1)) : digits (fuel + 1) n = Nat.toDigits 10 n := by
  induction fuel generalizing n with
  | zero =>
    have hSmall : n < 10 := h
    rw [digits, if_pos hSmall, Nat.toDigits_of_lt_base hSmall, digitChar_eq n hSmall]
  | succ fuel ih =>
    rw [digits]
    split
    · next hSmall => rw [Nat.toDigits_of_lt_base hSmall, digitChar_eq n hSmall]
    · next hLarge =>
      rw [Nat.pow_succ] at h
      rw [ih (by omega), Nat.toDigits_of_base_le (by decide) (Nat.not_lt.mp hLarge),
        digitChar_eq _ (Nat.mod_lt n (by decide))]

theorem naturalText_eq (n : Nat) : naturalText n = Nat.toDigits 10 n :=
  digits_eq_toDigits (Nat.lt_of_lt_of_le Nat.lt_log2_self (Nat.pow_le_pow_left (by decide) _))

theorem escapeChar_eq {c : Char} (hQuote : c ≠ '"') (hSlash : c ≠ '\\') (hControl : 32 ≤ c.toNat) :
    escapeChar c = [c] := by
  rw [escapeChar, if_neg hQuote, if_neg hSlash]
  repeat rw [if_neg (by omega)]

theorem quoted_eq {text : String} (h : ∀ c ∈ text.toList, escapeChar c = [c]) :
    quoted text = '"' :: (text.toList ++ ['"']) := by
  rw [quoted, List.flatMap_congr h, List.flatMap_singleton']

theorem length_integerText_le (value : Int) : (integerText value).length ≤ value.natAbs.log2 + 2 := by
  cases value with
  | ofNat n =>
    have hDigits := length_digits_le (n.log2 + 1) n
    simp only [integerText, naturalText, Int.ofNat_eq_natCast, Int.natAbs_natCast]
    omega
  | negSucc n =>
    have hDigits := length_digits_le ((n + 1).log2 + 1) (n + 1)
    simp only [integerText, naturalText, List.length_cons, Int.natAbs_negSucc, Nat.succ_eq_add_one]
    omega

mutual

theorem length_compact_le : ∀ json : Json, (compact json).length ≤ textBound json
  | .null => by simp [compact, textBound]
  | .bool true => by simp [compact, textBound]
  | .bool false => by simp [compact, textBound]
  | .integer value => length_integerText_le value
  | .decimal literal => by simp [compact, textBound, String.length_toList]
  | .string value => length_quoted_le value
  | .array [] => by simp [compact, textBound]
  | .array (first :: rest) => by
    have hFirst := length_compact_le first
    have hRest := length_compactItems_le rest
    simp only [compact, textBound, itemsBound, List.length_cons, List.length_append]
    omega
  | .object [] => by simp [compact, textBound]
  | .object ((name, value) :: rest) => by
    have hName := length_quoted_le name
    have hValue := length_compact_le value
    have hRest := length_compactMembers_le rest
    simp only [compact, textBound, membersBound, List.length_cons, List.length_append]
    omega

theorem length_compactItems_le : ∀ items : List Json, (compactItems items).length ≤ itemsBound items + 1
  | [] => by simp [compactItems, itemsBound]
  | item :: rest => by
    have hItem := length_compact_le item
    have hRest := length_compactItems_le rest
    simp only [compactItems, itemsBound, List.length_cons, List.length_append]
    omega

theorem length_compactMembers_le : ∀ members : List (String × Json),
    (compactMembers members).length ≤ membersBound members + 1
  | [] => by simp [compactMembers, membersBound]
  | (name, value) :: rest => by
    have hName := length_quoted_le name
    have hValue := length_compact_le value
    have hRest := length_compactMembers_le rest
    simp only [compactMembers, membersBound, List.length_cons, List.length_append]
    omega

end

end Lib.Json
