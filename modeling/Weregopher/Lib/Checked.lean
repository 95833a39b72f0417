import Mathlib

/-! # Checked arithmetic on unsigned machine integers

Lengths and counters are natural numbers; where a program checks an operation
for overflow, the check is made against the largest value of its type.
-/
namespace Lib.Checked

def u16Max : Nat := 2 ^ 16 - 1

def u32Max : Nat := 2 ^ 32 - 1

def u64Max : Nat := 2 ^ 64 - 1

/-- Addresses have 64 bits. -/
def usizeMax : Nat := u64Max

def checkedAdd (maximum a b : Nat) : Option Nat := if a + b ≤ maximum then some (a + b) else none

def checkedMul (maximum a b : Nat) : Option Nat := if a * b ≤ maximum then some (a * b) else none

def checkedSub (a b : Nat) : Option Nat := if b ≤ a then some (a - b) else none

variable {a b c maximum : Nat}

theorem checkedSub_eq_some : checkedSub a b = some c ↔ b ≤ a ∧ a - b = c := by
  simp [checkedSub]

theorem checkedAdd_eq_some : checkedAdd maximum a b = some c ↔ a + b ≤ maximum ∧ a + b = c := by
  simp [checkedAdd]

theorem checkedAdd_eq_none : checkedAdd maximum a b = none ↔ maximum < a + b := by
  simp [checkedAdd]

theorem checkedMul_eq_some : checkedMul maximum a b = some c ↔ a * b ≤ maximum ∧ a * b = c := by
  simp [checkedMul]

theorem foldlM_checkedAdd {ι : Type} {start : Nat} (hStart : start ≤ maximum) (weight : ι → Nat) (items : List ι) :
    items.foldlM (fun total item => checkedAdd maximum total (weight item)) start =
      checkedAdd maximum start (items.map weight).sum := by
  induction items generalizing start with
  | nil => simp [checkedAdd, hStart]
  | cons item rest ih =>
    rw [List.foldlM_cons, List.map_cons, List.sum_cons]
    by_cases hNext : start + weight item ≤ maximum
    · simp only [checkedAdd, hNext, if_true, Option.bind_eq_bind, Option.bind_some]
      rw [← Nat.add_assoc]
      exact ih hNext
    · have hAll : ¬start + (weight item + (rest.map weight).sum) ≤ maximum := by omega
      simp [checkedAdd, hNext, hAll]

def checkedSucc (n : UInt64) : Option UInt64 := if n.toNat < u64Max then some (n + 1) else none

theorem checkedSucc_toNat {n next : UInt64} (h : checkedSucc n = some next) : next.toNat = n.toNat + 1 := by
  rw [checkedSucc] at h
  split at h
  · cases h
    rw [UInt64.toNat_add, UInt64.toNat_one]
    simp only [u64Max] at *
    omega
  · cases h

def saturatingAdd (maximum a b : Nat) : Nat := min (a + b) maximum

end Lib.Checked
