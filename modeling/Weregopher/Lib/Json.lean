import Mathlib

/-! # JSON trees and the shapes a derived reader accepts

An object keeps its members in the order of the text, repeated names included.
The readers follow a derived deserializer that denies unknown members: a
structure is an object with exactly its members, or an array of them in order.
-/
namespace Lib

inductive Json
  | null
  | bool (value : Bool)
  | integer (value : Int)
  /-- A number with a fraction or an exponent, or too large for an integer. -/
  | decimal (literal : String)
  | string (value : String)
  | array (items : List Json)
  | object (members : List (String × Json))

namespace Json

/-- The members of a structure, in the order of their names. -/
def structMembers (names : List String) : Json → Option (List Json)
  | .array items => if items.length = names.length then some items else none
  | .object members =>
    if (∀ member ∈ members, member.1 ∈ names) ∧ (members.map Prod.fst).Nodup then
      names.mapM fun name => members.lookup name
    else none
  | _ => none

/-- The fields of a structure that may leave some out: any of an object, the last ones of an array. -/
def structFields (names : List String) : Json → Option (List (Option Json))
  | .array items =>
    if items.length ≤ names.length then
      some (items.map some ++ List.replicate (names.length - items.length) none)
    else none
  | .object members =>
    if (∀ member ∈ members, member.1 ∈ names) ∧ (members.map Prod.fst).Nodup then
      some (names.map fun name => members.lookup name)
    else none
  | _ => none

variable {α : Type}

/-- A variant without content is its name, or an object from its name to null. -/
def unitVariant (variants : List (String × α)) : Json → Option α
  | .string name => variants.lookup name
  | .object [(name, .null)] => variants.lookup name
  | _ => none

def variantToJson [DecidableEq α] (variants : List (String × α)) (value : α) : Json :=
  match variants.find? fun variant => variant.2 = value with
  | some variant => .string variant.1
  | none => .null

def text : Json → Option String
  | .string value => some value
  | _ => none

def boolean : Json → Option Bool
  | .bool value => some value
  | _ => none

def sequence (read : Json → Option α) : Json → Option (List α)
  | .array items => items.mapM read
  | _ => none

/-- An unsigned integer below the bound. -/
def natural (bound : Nat) : Json → Option Nat
  | .integer (.ofNat value) => if value < bound then some value else none
  | _ => none

def nullable (read : Json → Option α) : Json → Option (Option α)
  | .null => some none
  | json => (read json).map some

mutual

/-- The number of arrays and objects around the deepest value, a container itself included. -/
def depth : Json → Nat
  | .array items => 1 + itemsDepth items
  | .object members => 1 + membersDepth members
  | _ => 0

def itemsDepth : List Json → Nat
  | [] => 0
  | item :: rest => max (depth item) (itemsDepth rest)

def membersDepth : List (String × Json) → Nat
  | [] => 0
  | member :: rest => max (memberDepth member) (membersDepth rest)

def memberDepth : String × Json → Nat
  | (_, value) => depth value

end

theorem memberDepth_eq (member : String × Json) : memberDepth member = member.2.depth := by
  obtain ⟨name, value⟩ := member
  rw [memberDepth]

theorem depth_le_itemsDepth {item : Json} {items : List Json} (h : item ∈ items) :
    item.depth ≤ itemsDepth items := by
  induction items with
  | nil => cases h
  | cons first rest ih =>
    rw [itemsDepth]
    rcases List.mem_cons.1 h with rfl | h
    · exact Nat.le_max_left _ _
    · exact Nat.le_trans (ih h) (Nat.le_max_right _ _)

variable {member : String × Json} {members : List (String × Json)} {bound : Nat} {names : List String}
  {json part : Json}

theorem depth_le_membersDepth (h : member ∈ members) : member.2.depth ≤ membersDepth members := by
  induction members with
  | nil => cases h
  | cons first rest ih =>
    rw [membersDepth, memberDepth_eq]
    rcases List.mem_cons.1 h with rfl | h
    · exact Nat.le_max_left _ _
    · exact Nat.le_trans (ih h) (Nat.le_max_right _ _)

theorem lookup_of_mem (hNodup : (members.map Prod.fst).Nodup) (hMember : member ∈ members) :
    members.lookup member.1 = some member.2 := by
  induction members with
  | nil => cases hMember
  | cons first rest ih =>
    rw [List.map_cons, List.nodup_cons] at hNodup
    rcases List.mem_cons.1 hMember with rfl | hRest
    · exact List.lookup_cons_self
    · have hOther : member.1 ≠ first.1 := by
        intro hSame
        exact hNodup.1 (hSame ▸ List.mem_map_of_mem hRest)
      rw [List.lookup_cons, beq_false_of_ne hOther]
      exact ih hNodup.2 hRest

theorem mapM_lookup {part : List (String × Json)} (hNodup : (members.map Prod.fst).Nodup) (hPart : part ⊆ members) :
    (part.map Prod.fst).mapM (fun name => members.lookup name) = some (part.map Prod.snd) := by
  induction part with
  | nil => rfl
  | cons first rest ih =>
    have hFirst := lookup_of_mem hNodup (hPart List.mem_cons_self)
    have hRest := ih fun member hMember => hPart (List.mem_cons_of_mem first hMember)
    rw [List.map_cons, List.mapM_cons, hFirst, hRest]
    rfl

theorem structMembers_object (hNames : members.map Prod.fst = names) (hNodup : names.Nodup) :
    structMembers names (.object members) = some (members.map Prod.snd) := by
  subst hNames
  have hKnown : ∀ member ∈ members, member.1 ∈ members.map Prod.fst := fun member hMember =>
    List.mem_map_of_mem hMember
  rw [structMembers, if_pos ⟨hKnown, hNodup⟩]
  exact mapM_lookup hNodup (List.Subset.refl members)

theorem structFields_object (hNames : members.map Prod.fst = names) (hNodup : names.Nodup) :
    structFields names (.object members) = some (members.map fun member => some member.2) := by
  subst hNames
  have hKnown : ∀ member ∈ members, member.1 ∈ members.map Prod.fst := fun member hMember =>
    List.mem_map_of_mem hMember
  rw [structFields, if_pos ⟨hKnown, hNodup⟩, List.map_map]
  exact congrArg some (List.map_congr_left fun member hMember => lookup_of_mem hNodup hMember)

theorem mem_of_lookup {name : String} {value : Json}
    (h : members.lookup name = some value) : (name, value) ∈ members := by
  obtain ⟨before, after, rfl, -⟩ := List.lookup_eq_some_iff.1 h
  exact List.mem_append_right before List.mem_cons_self

theorem exists_of_mem_mapM {α β : Type} {f : α → Option β} {list : List α} {results : List β} {result : β}
    (h : list.mapM f = some results) (hResult : result ∈ results) : ∃ a, f a = some result := by
  induction list generalizing results with
  | nil =>
    cases h
    cases hResult
  | cons a rest ih =>
    rw [List.mapM_cons] at h
    obtain ⟨first, hFirst, h⟩ := Option.bind_eq_some_iff.1 h
    obtain ⟨others, hOthers, h⟩ := Option.bind_eq_some_iff.1 h
    cases h
    rcases List.mem_cons.1 hResult with rfl | hMem
    · exact ⟨a, hFirst⟩
    · exact ih hOthers hMem

theorem depth_structMembers {parts : List Json}
    (h : structMembers names json = some parts) (hPart : part ∈ parts) : 1 + part.depth ≤ json.depth := by
  cases json with
  | array items =>
    rw [structMembers, Option.ite_none_right_eq_some] at h
    obtain ⟨-, rfl⟩ : _ ∧ items = parts := ⟨h.1, Option.some.inj h.2⟩
    rw [depth]
    exact Nat.add_le_add_left (depth_le_itemsDepth hPart) 1
  | object members =>
    rw [structMembers, Option.ite_none_right_eq_some] at h
    obtain ⟨name, hName⟩ := exists_of_mem_mapM h.2 hPart
    rw [depth]
    exact Nat.add_le_add_left (depth_le_membersDepth (mem_of_lookup hName)) 1
  | _ => cases h

theorem depth_structFields {fields : List (Option Json)}
    (h : structFields names json = some fields) (hPart : some part ∈ fields) : 1 + part.depth ≤ json.depth := by
  cases json with
  | array items =>
    rw [structFields, Option.ite_none_right_eq_some] at h
    have hItem : part ∈ items := by
      rw [← Option.some.inj h.2] at hPart
      simpa using hPart
    rw [depth]
    exact Nat.add_le_add_left (depth_le_itemsDepth hItem) 1
  | object members =>
    rw [structFields, Option.ite_none_right_eq_some] at h
    rw [← Option.some.inj h.2] at hPart
    obtain ⟨name, -, hName⟩ := List.mem_map.1 hPart
    rw [depth]
    exact Nat.add_le_add_left (depth_le_membersDepth (mem_of_lookup hName)) 1
  | _ => cases h

theorem natural_integer {value : Nat} (h : value < bound) :
    natural bound (.integer value) = some value := if_pos h

end Json

end Lib
