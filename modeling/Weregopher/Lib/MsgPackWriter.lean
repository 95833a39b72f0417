import Weregopher.Lib.MsgPack

/-! # Writing MessagePack

The writer takes the shortest format of every head. A value whose heads fit
their formats and have the children they announce is encoded by what is written.
-/
namespace Lib.MsgPack
open Lib.Bytes

def LengthFamily.shortest (family : LengthFamily) (n : Nat) : List UInt8 :=
  if n < family.shortCount then [UInt8.ofNat (family.shortBase + n)]
  else
    match family.byte with
    | some marker =>
      if n < 256 ^ 1 then marker :: toBeBytes 1 n
      else if n < 256 ^ 2 then family.word :: toBeBytes 2 n
      else family.long :: toBeBytes 4 n
    | none => if n < 256 ^ 2 then family.word :: toBeBytes 2 n else family.long :: toBeBytes 4 n

theorem LengthFamily.header_shortest {family : LengthFamily} {n : Nat} (h : n < 256 ^ 4) :
    family.Header n (family.shortest n) := by
  unfold shortest
  split
  · exact .short ‹_›
  · split
    · split
      · exact .byte ‹_› ‹_›
      · split
        · exact .word ‹_›
        · exact .long h
    · split
      · exact .word ‹_›
      · exact .long h

/-- The exponent of the smallest operand width that holds a number. -/
def operandExponent (n : Nat) : Nat :=
  if n < 256 then 0 else if n < 256 ^ 2 then 1 else if n < 256 ^ 4 then 2 else 3

theorem operandExponent_spec {n : Nat} (h : n < 256 ^ 8) : operandExponent n < 4 ∧ n < 256 ^ 2 ^ operandExponent n := by
  unfold operandExponent
  split
  · exact ⟨by decide, ‹_›⟩
  · split
    · exact ⟨by decide, ‹_›⟩
    · split
      · exact ⟨by decide, ‹_›⟩
      · exact ⟨by decide, h⟩

def writeNatural (n : Nat) : List UInt8 :=
  if n < 128 then [UInt8.ofNat n]
  else UInt8.ofNat (0xcc + operandExponent n) :: toBeBytes (2 ^ operandExponent n) n

/-- The number `-(n + 1)`: the exponent leaves room for the sign. -/
def writeNegative (n : Nat) : List UInt8 :=
  if n < 32 then [UInt8.ofNat (0xe0 + (31 - n))]
  else
    let width := 2 ^ operandExponent (2 * n)
    UInt8.ofNat (0xd0 + operandExponent (2 * n)) :: toBeBytes width (256 ^ width - (n + 1))

namespace Head

def write : Head → List UInt8
  | nil => [0xc0]
  | bool value => [if value then 0xc3 else 0xc2]
  | int (.ofNat n) => writeNatural n
  | int (.negSucc n) => writeNegative n
  | float bits => (if bits.length = 4 then 0xca else 0xcb) :: bits
  | str body => LengthFamily.str.shortest body.length ++ body
  | bin body => LengthFamily.bin.shortest body.length ++ body
  | ext type body => LengthFamily.ext.shortest body.length ++ type :: body
  | array length => LengthFamily.array.shortest length
  | map entries => LengthFamily.map.shortest entries

def fits : Head → Bool
  | nil | bool _ => true
  | int (.ofNat n) => n < 256 ^ 8
  | int (.negSucc n) => 2 * n < 256 ^ 8
  | float bits => bits.length = 4 || bits.length = 8
  | str body | bin body | ext _ body => body.length < 256 ^ 4
  | array length => length < 256 ^ 4
  | map entries => entries < 256 ^ 4

theorem encodes_writeNatural {n : Nat} (h : n < 256 ^ 8) : Encodes (.int n) (writeNatural n) := by
  obtain ⟨hExponent, hFits⟩ := operandExponent_spec h
  unfold writeNatural
  split
  · exact .positiveFixint n ‹_›
  · exact .uint _ n hExponent hFits

theorem encodes_writeNegative {n : Nat} (h : 2 * n < 256 ^ 8) : Encodes (.int (.negSucc n)) (writeNegative n) := by
  obtain ⟨hExponent, hFits⟩ := operandExponent_spec h
  unfold writeNegative
  split
  · have hFix := Encodes.negativeFixint (31 - n) (by omega)
    have hValue : ((31 - n : Nat) : Int) - 32 = .negSucc n := by omega
    rwa [hValue] at hFix
  · have hInt := Encodes.int (operandExponent (2 * n)) (256 ^ 2 ^ operandExponent (2 * n) - (n + 1)) hExponent
      (by omega)
    have hValue : twosComplement (2 ^ operandExponent (2 * n))
        (256 ^ 2 ^ operandExponent (2 * n) - (n + 1)) = .negSucc n := by
      obtain ⟨half, hHalf⟩ : 2 ∣ 256 ^ 2 ^ operandExponent (2 * n) :=
        dvd_pow (by decide) (Nat.two_pow_pos _).ne'
      have hCast : (256 : Int) ^ 2 ^ operandExponent (2 * n) = 2 * half := by exact_mod_cast hHalf
      rw [twosComplement, if_neg (by omega), hCast]
      omega
    rwa [hValue] at hInt

theorem encodes_write {head : Head} (h : head.fits = true) : head.Encodes head.write := by
  cases head with
  | nil => exact .nil
  | bool value =>
    cases value
    · exact .false
    · exact .true
  | int value =>
    cases value with
    | ofNat n => exact encodes_writeNatural (of_decide_eq_true h)
    | negSucc n => exact encodes_writeNegative (of_decide_eq_true h)
  | float bits =>
    rcases Bool.or_eq_true_iff.1 h with hSingle | hDouble
    · have hLength := of_decide_eq_true hSingle
      have hEncodes := Encodes.float 0 bits (by decide) hLength
      rwa [write, if_pos hLength]
    · have hLength := of_decide_eq_true hDouble
      have hEncodes := Encodes.float 1 bits (by decide) hLength
      rwa [write, if_neg (by omega)]
  | str body => exact .str (LengthFamily.header_shortest (of_decide_eq_true h))
  | bin body => exact .bin (LengthFamily.header_shortest (of_decide_eq_true h))
  | ext type body => exact .ext type (LengthFamily.header_shortest (of_decide_eq_true h))
  | array length => exact .array (LengthFamily.header_shortest (of_decide_eq_true h))
  | map entries => exact .map (LengthFamily.header_shortest (of_decide_eq_true h))

end Head

mutual

def write : Value → List UInt8
  | .node head children => head.write ++ writeAll children

def writeAll : List Value → List UInt8
  | [] => []
  | value :: rest => write value ++ writeAll rest

end

mutual

/-- Every head has an encoding and the children it announces. -/
def wellFormed : Value → Bool
  | .node head children => head.fits && children.length == head.arity && wellFormedAll children

def wellFormedAll : List Value → Bool
  | [] => true
  | value :: rest => wellFormed value && wellFormedAll rest

end

mutual

theorem encodes_write {value : Value} (h : wellFormed value = true) : Encodes value (write value) := by
  match value, h with
  | .node head children, h =>
    rw [wellFormed, Bool.and_eq_true, Bool.and_eq_true, beq_iff_eq] at h
    obtain ⟨⟨hFits, hArity⟩, hChildren⟩ := h
    exact .node (Head.encodes_write hFits) hArity (encodesAll_writeAll hChildren)

theorem encodesAll_writeAll {values : List Value} (h : wellFormedAll values = true) :
    EncodesAll values (writeAll values) := by
  match values, h with
  | [], _ => exact .nil
  | value :: rest, h =>
    rw [wellFormedAll, Bool.and_eq_true] at h
    exact .cons (encodes_write h.1) (encodesAll_writeAll h.2)

end

end Lib.MsgPack
