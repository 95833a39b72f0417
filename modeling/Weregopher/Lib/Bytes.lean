import Mathlib

/-! # Fixed-width integers as byte strings

A number below `256 ^ width` is written as exactly `width` bytes in either byte
order, and reading the bytes back gives the number.
-/
namespace Lib.Bytes

def toLeBytes : Nat → Nat → List UInt8
  | 0, _ => []
  | width + 1, n => UInt8.ofNat (n % 256) :: toLeBytes width (n / 256)

def fromLeBytes : List UInt8 → Nat
  | [] => 0
  | byte :: rest => byte.toNat + 256 * fromLeBytes rest

def toBeBytes (width n : Nat) : List UInt8 := (toLeBytes width n).reverse

variable (bytes : List UInt8)

def fromBeBytes : Nat := fromLeBytes bytes.reverse

@[simp] theorem toLeBytes_length (width n : Nat) : (toLeBytes width n).length = width := by
  induction width generalizing n with
  | zero => rfl
  | succ width ih => simp [toLeBytes, ih]

@[simp] theorem toBeBytes_length (width n : Nat) : (toBeBytes width n).length = width := by
  simp [toBeBytes]

variable {n width m : Nat}

theorem fromLeBytes_toLeBytes (h : n < 256 ^ width) : fromLeBytes (toLeBytes width n) = n := by
  induction width generalizing n with
  | zero => simp at h; simp [toLeBytes, fromLeBytes, h]
  | succ width ih =>
    have hDiv : n / 256 < 256 ^ width := by
      rw [Nat.div_lt_iff_lt_mul (by decide), ← pow_succ]
      exact h
    have hByte : (UInt8.ofNat (n % 256)).toNat = n % 256 := by
      simp
    rw [toLeBytes, fromLeBytes, ih hDiv, hByte, Nat.mod_add_div]

theorem fromBeBytes_toBeBytes (h : n < 256 ^ width) : fromBeBytes (toBeBytes width n) = n := by
  rw [fromBeBytes, toBeBytes, List.reverse_reverse, fromLeBytes_toLeBytes h]

theorem fromLeBytes_lt : fromLeBytes bytes < 256 ^ bytes.length := by
  induction bytes with
  | nil => decide
  | cons byte rest ih =>
    have hByte : byte.toNat < 256 := byte.toNat_lt
    have hRest : fromLeBytes rest + 1 ≤ 256 ^ rest.length := ih
    calc
      fromLeBytes (byte :: rest) < 256 * (fromLeBytes rest + 1) := by rw [fromLeBytes]; omega
      _ ≤ 256 * 256 ^ rest.length := Nat.mul_le_mul_left _ hRest
      _ = 256 ^ (byte :: rest).length := by rw [List.length_cons, pow_succ, mul_comm]

theorem fromBeBytes_lt : fromBeBytes bytes < 256 ^ bytes.length := by
  simpa [fromBeBytes] using fromLeBytes_lt bytes.reverse

theorem toLeBytes_fromLeBytes : toLeBytes bytes.length (fromLeBytes bytes) = bytes := by
  induction bytes with
  | nil => rfl
  | cons byte rest ih =>
    have hByte : byte.toNat < 256 := byte.toNat_lt
    have hMod : (byte.toNat + 256 * fromLeBytes rest) % 256 = byte.toNat := by omega
    have hDiv : (byte.toNat + 256 * fromLeBytes rest) / 256 = fromLeBytes rest := by omega
    rw [List.length_cons, fromLeBytes, toLeBytes, hMod, hDiv, ih, UInt8.ofNat_toNat]

theorem toBeBytes_fromBeBytes : toBeBytes bytes.length (fromBeBytes bytes) = bytes := by
  have h := toLeBytes_fromLeBytes bytes.reverse
  rw [List.length_reverse] at h
  rw [fromBeBytes, toBeBytes, h, List.reverse_reverse]

theorem fromBeBytes_injective {bytes others : List UInt8} (hLength : bytes.length = others.length)
    (h : fromBeBytes bytes = fromBeBytes others) : bytes = others := by
  rw [← toBeBytes_fromBeBytes bytes, ← toBeBytes_fromBeBytes others, hLength, h]

theorem toLeBytes_injective (hm : m < 256 ^ width) (hn : n < 256 ^ width)
    (h : toLeBytes width m = toLeBytes width n) : m = n := by
  rw [← fromLeBytes_toLeBytes hm, h, fromLeBytes_toLeBytes hn]

theorem toBeBytes_injective (hm : m < 256 ^ width) (hn : n < 256 ^ width)
    (h : toBeBytes width m = toBeBytes width n) : m = n := by
  rw [← fromBeBytes_toBeBytes hm, h, fromBeBytes_toBeBytes hn]

theorem fromBeBytes_cons (byte : UInt8) (bytes : List UInt8) :
    fromBeBytes (byte :: bytes) = fromBeBytes bytes + 256 ^ bytes.length * byte.toNat := by
  rw [fromBeBytes, List.reverse_cons, ← List.length_reverse, fromBeBytes]
  induction bytes.reverse with
  | nil => simp [fromLeBytes]
  | cons first rest ih =>
    rw [List.cons_append, fromLeBytes, fromLeBytes, ih, List.length_cons, pow_succ]
    ring

/-- A number has one encoding without a leading zero, the shortest; zero has none. -/
theorem fromBeBytes_eq_iff {bytes : List UInt8} {n : Nat} :
    bytes ≠ [] ∧ bytes.head? ≠ some 0 ∧ fromBeBytes bytes = n ↔ n ≠ 0 ∧ bytes = toBeBytes (Nat.log 256 n + 1) n := by
  constructor
  · rintro ⟨hEmpty, hHead, rfl⟩
    obtain ⟨byte, rest, rfl⟩ := List.exists_cons_of_ne_nil hEmpty
    have hByte : byte.toNat ≠ 0 := fun h => hHead (congrArg some (UInt8.toNat_inj.mp h))
    have hAbove : 256 ^ rest.length ≤ fromBeBytes (byte :: rest) := by
      rw [fromBeBytes_cons]
      exact Nat.le_add_left_of_le (Nat.le_mul_of_pos_right _ (Nat.pos_of_ne_zero hByte))
    refine ⟨(Nat.lt_of_lt_of_le (Nat.pow_pos (by decide)) hAbove).ne', ?_⟩
    rw [Nat.log_eq_of_pow_le_of_lt_pow hAbove (fromBeBytes_lt (byte :: rest))]
    exact (toBeBytes_fromBeBytes (byte :: rest)).symm
  · rintro ⟨hn, rfl⟩
    have hSame := fromBeBytes_toBeBytes (Nat.lt_pow_succ_log_self (b := 256) (by decide) n)
    have hLength := toBeBytes_length (Nat.log 256 n + 1) n
    refine ⟨List.ne_nil_of_length_eq_add_one hLength, fun hHead => ?_, hSame⟩
    obtain ⟨rest, hRest⟩ := List.head?_eq_some_iff.mp hHead
    rw [hRest, List.length_cons, Nat.succ.injEq] at hLength
    rw [hRest, fromBeBytes_cons, UInt8.toNat_zero, Nat.mul_zero, Nat.add_zero] at hSame
    have hLess := fromBeBytes_lt rest
    rw [hSame, hLength] at hLess
    exact absurd (Nat.pow_log_le_self 256 hn) (Nat.not_le.mpr hLess)

def utf8Bytes (text : String) : List UInt8 := text.toByteArray.data.toList

theorem utf8Bytes_injective : Function.Injective utf8Bytes := by
  intro s t h
  apply String.toByteArray_inj.mp
  exact ByteArray.ext (Array.toList_inj.mp h)

end Lib.Bytes
