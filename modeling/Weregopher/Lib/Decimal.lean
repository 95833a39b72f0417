import Mathlib

/-! # Decimal numerals and hexadecimal digits -/
namespace Lib.Decimal

def digit (n : Nat) : Char := Char.ofNat (48 + n)

def value (digits : List Char) : Nat := digits.foldl (fun n c => 10 * n + (c.toNat - 48)) 0

def padded : Nat → Nat → List Char
  | 0, _ => []
  | width + 1, n => padded width (n / 10) ++ [digit (n % 10)]

def hexDigit (n : Nat) : Char := if n < 10 then Char.ofNat (48 + n) else Char.ofNat (87 + n)

def hexValue (c : Char) : Option Nat :=
  if '0' ≤ c ∧ c ≤ '9' then some (c.toNat - 48)
  else if 'a' ≤ c ∧ c ≤ 'f' then some (c.toNat - 87)
  else if 'A' ≤ c ∧ c ≤ 'F' then some (c.toNat - 55)
  else none

theorem hexDigit_spec : ∀ n < 16,
    hexValue (hexDigit n) = some n ∧ (hexDigit n).utf8Size = 1 ∧ (hexDigit n).isUpper = false := by decide

theorem digit_spec : ∀ n < 10, (digit n).toNat = 48 + n ∧ (digit n).isDigit = true ∧ (digit n).utf8Size = 1 := by
  decide

theorem length_padded (width n : Nat) : (padded width n).length = width := by
  induction width generalizing n with
  | zero => rfl
  | succ width ih => rw [padded, List.length_append, ih, List.length_singleton]

theorem isDigit_padded {width n : Nat} {c : Char} (h : c ∈ padded width n) : c.isDigit = true ∧ c.utf8Size = 1 := by
  induction width generalizing n with
  | zero => cases h
  | succ width ih =>
    rcases List.mem_append.1 h with hFront | hLast
    · exact ih hFront
    · obtain rfl := List.mem_singleton.1 hLast
      exact (digit_spec (n % 10) (Nat.mod_lt n (by decide))).2

theorem value_append_digit (digits : List Char) (c : Char) :
    value (digits ++ [c]) = 10 * value digits + (c.toNat - 48) := by
  rw [value, List.foldl_append]
  rfl

theorem value_padded {width n : Nat} (h : n < 10 ^ width) : value (padded width n) = n := by
  induction width generalizing n with
  | zero =>
    rw [Nat.pow_zero, Nat.lt_one_iff] at h
    exact h.symm
  | succ width ih =>
    have hFront : n / 10 < 10 ^ width := by
      rw [Nat.pow_succ] at h
      omega
    obtain ⟨hDigit, -⟩ := digit_spec (n % 10) (Nat.mod_lt n (by decide))
    rw [padded, value_append_digit, ih hFront, hDigit]
    omega

end Lib.Decimal
