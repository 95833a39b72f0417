import Weregopher.Lib.Bytes

/-! # Encodings that show where they end

A self-delimiting encoding can be cut off the front of a text in one way only.
So can a sequence of them, and a list of them can be read to the end.
-/
namespace Lib
open Bytes

universe u v

variable {α : Type u} {β : Type v}

/-- On the items that meet `P`. -/
def SelfDelimiting (P : α → Prop) (encode : α → List β) : Prop :=
  ∀ a b, P a → P b → ∀ rest others, encode a ++ rest = encode b ++ others → a = b ∧ rest = others

namespace SelfDelimiting

variable {P : α → Prop} {encode : α → List β}

theorem of_length {length : Nat} (hLength : ∀ a, P a → (encode a).length = length)
    (hInjective : ∀ a b, P a → P b → encode a = encode b → a = b) : SelfDelimiting P encode := by
  intro a b ha hb rest others h
  obtain ⟨hEncode, hRest⟩ := List.append_inj h ((hLength a ha).trans (hLength b hb).symm)
  exact ⟨hInjective a b ha hb hEncode, hRest⟩

theorem flatMap_injective (h : SelfDelimiting P encode) (hNonempty : ∀ a, P a → encode a ≠ []) {items others : List α}
    (hItems : ∀ a ∈ items, P a) (hOthers : ∀ a ∈ others, P a) (hSame : items.flatMap encode = others.flatMap encode) :
    items = others := by
  induction items generalizing others with
  | nil =>
    cases others with
    | nil => rfl
    | cons b more =>
      rw [List.flatMap_nil, List.flatMap_cons, eq_comm, List.append_eq_nil_iff] at hSame
      exact absurd hSame.1 (hNonempty b (hOthers b List.mem_cons_self))
  | cons a rest ih =>
    cases others with
    | nil =>
      rw [List.flatMap_nil, List.flatMap_cons, List.append_eq_nil_iff] at hSame
      exact absurd hSame.1 (hNonempty a (hItems a List.mem_cons_self))
    | cons b more =>
      rw [List.forall_mem_cons] at hItems hOthers
      rw [List.flatMap_cons, List.flatMap_cons] at hSame
      obtain ⟨rfl, hRest⟩ := h a b hItems.1 hOthers.1 _ _ hSame
      rw [ih hItems.2 hOthers.2 hRest]

end SelfDelimiting

/-- The bytes after their length. -/
def lengthPrefixed (width : Nat) (bytes : List UInt8) : List UInt8 := toLeBytes width bytes.length ++ bytes

theorem selfDelimiting_lengthPrefixed (width : Nat) :
    SelfDelimiting (fun bytes : List UInt8 => bytes.length < 256 ^ width) (lengthPrefixed width) := by
  intro bytes others hBytes hOthers rest more h
  simp only [lengthPrefixed, List.append_assoc] at h
  obtain ⟨hLength, hRest⟩ := List.append_inj h (by simp)
  have hSame : bytes.length = others.length := by
    rw [← fromLeBytes_toLeBytes hBytes, hLength, fromLeBytes_toLeBytes hOthers]
  exact List.append_inj hRest hSame

end Lib
