import Weregopher.Lib.TextPosition

/-! # Mappings of source maps, version 3

Mappings of a line are separated by commas, lines by semicolons. A mapping is one, four or
five numbers: the generated column, then the source, the line and the column in it, then a
name. Each is relative to its last value; the generated column starts over with every line.
Numbers are in base 32, lowest digit first, with the sign in the lowest bit.
-/
namespace Lib.SourceMapV3
open Lib.TextPosition

structure Original where
  source : Nat
  position : Position
  name : Option Nat

structure Mapping where
  generated : Position
  original : Option Original

structure Decoder where
  line : Nat
  (column source originalLine originalColumn name : Int)
  /-- The numbers of the mapping that is being read. -/
  fields : List Int
  /-- The number that is being read and the weight of its next digit. -/
  digits : Option (Nat × Nat)
  mappings : List Mapping

def Decoder.start : Decoder := ⟨0, 0, 0, 0, 0, 0, [], none, []⟩

def sextet? (byte : UInt8) : Option Nat :=
  let n := byte.toNat
  if 65 ≤ n ∧ n ≤ 90 then some (n - 65)
  else if 97 ≤ n ∧ n ≤ 122 then some (n - 71)
  else if 48 ≤ n ∧ n ≤ 57 then some (n + 4)
  else if n = 43 then some 62
  else if n = 47 then some 63
  else none

def signed (value : Nat) : Int := if value % 2 = 1 then -(value / 2 : Nat) else (value / 2 : Nat)

namespace Decoder

variable (decoder : Decoder)

def unfinished : Nat × Nat := decoder.digits.getD (0, 1)

def digit (sextet : Nat) : Decoder :=
  let value := decoder.unfinished.1 + sextet % 32 * decoder.unfinished.2
  if sextet < 32 then { decoder with fields := decoder.fields ++ [signed value], digits := none }
  else { decoder with digits := some (value, decoder.unfinished.2 * 32) }

def addOriginal (column source line originalColumn : Int) (name : Option Int) : Option Decoder := do
  let column := decoder.column + column
  let source := decoder.source + source
  let line := decoder.originalLine + line
  let originalColumn := decoder.originalColumn + originalColumn
  let lastName := decoder.name + name.getD 0
  let original : Original :=
    ⟨← source.toNat?, ⟨← line.toNat?, ← originalColumn.toNat?⟩, ← name.mapM fun _ => lastName.toNat?⟩
  let mapping : Mapping := ⟨⟨decoder.line, ← column.toNat?⟩, some original⟩
  return ⟨decoder.line, column, source, line, originalColumn, lastName, [], none, decoder.mappings ++ [mapping]⟩

def endMapping : Option Decoder :=
  if decoder.digits.isSome then none
  else
    match decoder.fields with
    | [] => some decoder
    | [column] => do
      let column := decoder.column + column
      let mapping : Mapping := ⟨⟨decoder.line, ← column.toNat?⟩, none⟩
      return { decoder with column := column, fields := [], mappings := decoder.mappings ++ [mapping] }
    | [column, source, line, originalColumn] => decoder.addOriginal column source line originalColumn none
    | [column, source, line, originalColumn, name] => decoder.addOriginal column source line originalColumn (some name)
    | _ => none

def read (byte : UInt8) : Option Decoder :=
  if byte = 0x2c then decoder.endMapping
  else if byte = 0x3b then decoder.endMapping.map fun decoder => { decoder with line := decoder.line + 1, column := 0 }
  else (sextet? byte).map decoder.digit

end Decoder

def decode (bytes : List UInt8) : Option (List Mapping) := do
  let decoder ← bytes.foldlM Decoder.read .start
  let decoder ← decoder.endMapping
  return decoder.mappings

/-- The original position of a generated one: that of the last mapping at or before it on its line, with the distance
from there. -/
def originalPosition? (mappings : List Mapping) (p : Position) : Option Position := do
  let mapping ←
    (mappings.filter fun mapping => mapping.generated.line = p.line ∧ mapping.generated.column ≤ p.column).getLast?
  let original ← mapping.original
  return ⟨original.position.line, original.position.column + (p.column - mapping.generated.column)⟩

/-! ## Digits -/

theorem Decoder.digit_last (decoder : Decoder) {sextet : Nat} (h : sextet < 32) : decoder.digit sextet =
    { decoder with
      fields := decoder.fields ++ [signed (decoder.unfinished.1 + sextet * decoder.unfinished.2)]
      digits := none } := by
  rw [digit, if_pos h, Nat.mod_eq_of_lt h]

theorem Decoder.digit_more (decoder : Decoder) {low : Nat} (h : low < 32) : decoder.digit (low + 32) =
    { decoder with
      digits := some (decoder.unfinished.1 + low * decoder.unfinished.2, decoder.unfinished.2 * 32) } := by
  have hLow : (low + 32) % 32 = low := by omega
  rw [digit, if_neg (by omega), hLow]

/-! ## The last mapping -/

theorem getLast?_eq_of_sorted {α : Type} {R : α → α → Prop} {items : List α} (hSorted : items.Pairwise R) {last : α}
    (hLast : last ∈ items) (hNone : ∀ item ∈ items, ¬R last item) : items.getLast? = some last := by
  obtain ⟨front, back, rfl⟩ := List.append_of_mem hLast
  cases back with
  | nil => simp
  | cons item back =>
    have hAfter := (List.pairwise_append.mp hSorted).2.1
    exact absurd (List.rel_of_pairwise_cons hAfter List.mem_cons_self) (hNone item (by simp))

theorem originalPosition?_eq {mappings : List Mapping}
    (hSorted : mappings.Pairwise fun m n => m.generated.Before n.generated)
    {mapping : Mapping} {original : Original} {p : Position} (hMem : mapping ∈ mappings)
    (hOriginal : mapping.original = some original) (hLine : mapping.generated.line = p.line)
    (hColumn : mapping.generated.column ≤ p.column)
    (hLast : ∀ other ∈ mappings, mapping.generated.Before other.generated → p.Before other.generated) :
    originalPosition? mappings p =
      some ⟨original.position.line, original.position.column + (p.column - mapping.generated.column)⟩ := by
  have hFilter : (mappings.filter fun mapping => decide (mapping.generated.line = p.line ∧
      mapping.generated.column ≤ p.column)).getLast? = some mapping := by
    refine getLast?_eq_of_sorted (hSorted.filter _) ?_ ?_
    · rw [List.mem_filter]
      exact ⟨hMem, decide_eq_true ⟨hLine, hColumn⟩⟩
    · intro other hOther hBefore
      rw [List.mem_filter] at hOther
      obtain ⟨hSameLine, hBeforeColumn⟩ := of_decide_eq_true hOther.2
      have hAfter := hLast other hOther.1 hBefore
      unfold Position.Before at hAfter
      omega
  rw [originalPosition?, hFilter]
  simp [hOriginal]

end Lib.SourceMapV3
