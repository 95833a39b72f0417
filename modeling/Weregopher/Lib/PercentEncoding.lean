import Mathlib

/-! # Percent-encoded bytes

Every byte of a text stands for itself or is written as a percent sign and two
hexadecimal digits; the separator is never written so.
-/
namespace Lib.PercentEncoding

def percent : UInt8 := 0x25

def separator : UInt8 := 0x2f

def hexValue (byte : UInt8) : Option Nat :=
  if 0x30 ≤ byte ∧ byte ≤ 0x39 then some (byte.toNat - 0x30)
  else if 0x61 ≤ byte ∧ byte ≤ 0x66 then some (byte.toNat - 0x61 + 10)
  else if 0x41 ≤ byte ∧ byte ≤ 0x46 then some (byte.toNat - 0x41 + 10)
  else none

/-- The first bytes encode the second ones. -/
inductive Encodes : List UInt8 → List UInt8 → Prop
  | nil : Encodes [] []
  | raw {byte : UInt8} {encoded bytes : List UInt8} (hByte : byte ≠ percent) (hRest : Encodes encoded bytes) :
    Encodes (byte :: encoded) (byte :: bytes)
  | escaped {high low byte : UInt8} {h l : Nat} {encoded bytes : List UInt8} (hHigh : hexValue high = some h)
    (hLow : hexValue low = some l) (hValue : byte.toNat = h * 16 + l) (hByte : byte ≠ separator)
    (hRest : Encodes encoded bytes) : Encodes (percent :: high :: low :: encoded) (byte :: bytes)

variable {byte : UInt8} {bytes encoded : List UInt8}

theorem encodes_percent {rest : List UInt8} (h : Encodes (percent :: rest) bytes) :
    ∃ high low byte encoded tail h l, rest = high :: low :: encoded ∧ bytes = byte :: tail ∧
      hexValue high = some h ∧ hexValue low = some l ∧ byte.toNat = h * 16 + l ∧ byte ≠ separator ∧
      Encodes encoded tail := by
  cases h with
  | raw hByte hRest => exact absurd rfl hByte
  | escaped hHigh hLow hValue hByte hRest => exact ⟨_, _, _, _, _, _, _, rfl, rfl, hHigh, hLow, hValue, hByte, hRest⟩

theorem encodes_raw (hByte : byte ≠ percent)
    (h : Encodes (byte :: encoded) bytes) : ∃ tail, bytes = byte :: tail ∧ Encodes encoded tail := by
  cases h with
  | raw _ hRest => exact ⟨_, rfl, hRest⟩
  | escaped => exact absurd rfl hByte

theorem Encodes.mem_of_not_hex (h : Encodes encoded bytes)
    (hByte : byte ∈ encoded) (hPercent : byte ≠ percent) (hHex : hexValue byte = none) : byte ∈ bytes := by
  induction h with
  | nil => cases hByte
  | raw _ _ ih =>
    rcases List.mem_cons.mp hByte with rfl | hByte
    · exact List.mem_cons_self
    · exact List.mem_cons_of_mem _ (ih hByte)
  | escaped hHigh hLow _ _ _ ih =>
    simp only [List.mem_cons] at hByte
    rcases hByte with rfl | rfl | rfl | hByte
    · exact absurd rfl hPercent
    · rw [hHex] at hHigh
      cases hHigh
    · rw [hHex] at hLow
      cases hLow
    · exact List.mem_cons_of_mem _ (ih hByte)

theorem Encodes.eq_nil (h : Encodes [] bytes) : bytes = [] := by
  cases h
  rfl

theorem Encodes.unique {others : List UInt8} (h : Encodes encoded bytes) (hOthers : Encodes encoded others) :
    bytes = others := by
  induction h generalizing others with
  | nil => exact hOthers.eq_nil.symm
  | raw hByte _ ih =>
    obtain ⟨tail, rfl, hRest⟩ := encodes_raw hByte hOthers
    rw [ih hRest]
  | escaped hHigh hLow hValue _ _ ih =>
    obtain ⟨_, _, _, _, _, _, _, hRest, rfl, hHigh', hLow', hValue', -, hTail⟩ := encodes_percent hOthers
    cases hRest
    cases hHigh.symm.trans hHigh'
    cases hLow.symm.trans hLow'
    rw [ih hTail, UInt8.toNat_inj.mp (hValue.trans hValue'.symm)]

theorem encodes_self (h : ∀ byte ∈ bytes, byte ≠ percent) : Encodes bytes bytes := by
  induction bytes with
  | nil => exact .nil
  | cons byte rest ih =>
    rw [List.forall_mem_cons] at h
    exact .raw h.1 (ih h.2)

end Lib.PercentEncoding
