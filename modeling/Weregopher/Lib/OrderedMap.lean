import Mathlib

/-! # Maps as association lists in key order

What a program can see of a search-tree map: its entries, every key once, in the
order of the keys.
-/
namespace Lib

universe u v

variable {κ : Type u} {α β : Type v} [LinearOrder κ]

def InOrder (entries : List (κ × α)) : Prop := entries.Pairwise fun a b => a.1 < b.1

/-- The value of an existing key is replaced. -/
def insertEntry (key : κ) (value : α) : List (κ × α) → List (κ × α)
  | [] => [(key, value)]
  | entry :: rest =>
    if key < entry.1 then (key, value) :: entry :: rest
    else if key = entry.1 then (key, value) :: rest
    else entry :: insertEntry key value rest

def lookupEntry (key : κ) (entries : List (κ × α)) : Option α := (entries.find? (·.1 = key)).map Prod.snd

variable {entries : List (κ × α)} {key : κ} {value : α}

theorem InOrder.nodup_keys (h : InOrder entries) : (entries.map Prod.fst).Nodup :=
  List.pairwise_map.mpr (h.imp ne_of_lt)

theorem lookupEntry_eq_none : lookupEntry key entries = none ↔ ∀ entry ∈ entries, entry.1 ≠ key := by
  simp [lookupEntry]

theorem lookupEntry_map (f : α → β) (key : κ) (entries : List (κ × α)) :
    lookupEntry key (entries.map fun entry => (entry.1, f entry.2)) = (lookupEntry key entries).map f := by
  rw [lookupEntry, lookupEntry, List.find?_map, Option.map_map, Option.map_map]
  rfl

theorem InOrder.lookupEntry_eq_some (h : InOrder entries) :
    lookupEntry key entries = some value ↔ (key, value) ∈ entries := by
  induction entries with
  | nil => simp [lookupEntry]
  | cons entry rest ih =>
    obtain ⟨hFirst, hRest⟩ := List.pairwise_cons.mp h
    rw [lookupEntry, List.find?_cons]
    by_cases hKey : entry.1 = key
    · have hLater : (key, value) ∉ rest := fun hMem => (hFirst _ hMem).ne hKey
      simp only [hKey, decide_true, Option.map_some, Option.some.injEq, List.mem_cons, hLater, or_false]
      constructor
      · rintro rfl
        rw [← hKey]
      · intro hEntry
        rw [← hEntry]
    · simp only [hKey, decide_false, List.mem_cons]
      rw [← lookupEntry, ih hRest]
      constructor
      · exact Or.inr
      · rintro (rfl | hMem)
        · exact absurd rfl hKey
        · exact hMem

theorem mem_insertEntry {entry : κ × α} (h : InOrder entries) :
    entry ∈ insertEntry key value entries ↔ entry = (key, value) ∨ entry ∈ entries ∧ entry.1 ≠ key := by
  induction entries with
  | nil => simp [insertEntry]
  | cons first rest ih =>
    obtain ⟨hFirst, hRest⟩ := List.pairwise_cons.mp h
    rw [insertEntry]
    split_ifs with hLess hEqual
    · have hOther : ∀ other ∈ first :: rest, other.1 ≠ key := by
        intro other hMem
        rcases List.mem_cons.mp hMem with rfl | hMem
        · exact hLess.ne'
        · exact (hLess.trans (hFirst other hMem)).ne'
      rw [List.mem_cons]
      exact or_congr_right ⟨fun hMem => ⟨hMem, hOther _ hMem⟩, And.left⟩
    · have hOther : ∀ other ∈ rest, other.1 ≠ key := fun other hMem => hEqual ▸ (hFirst other hMem).ne'
      rw [List.mem_cons, List.mem_cons]
      refine or_congr_right ⟨fun hMem => ⟨Or.inr hMem, hOther _ hMem⟩, ?_⟩
      rintro ⟨rfl | hMem, hNe⟩
      · exact absurd hEqual.symm hNe
      · exact hMem
    · rw [List.mem_cons, ih hRest, List.mem_cons]
      constructor
      · rintro (rfl | rfl | ⟨hMem, hNe⟩)
        · exact Or.inr ⟨Or.inl rfl, Ne.symm hEqual⟩
        · exact Or.inl rfl
        · exact Or.inr ⟨Or.inr hMem, hNe⟩
      · rintro (rfl | ⟨rfl | hMem, hNe⟩)
        · exact Or.inr (Or.inl rfl)
        · exact Or.inl rfl
        · exact Or.inr (Or.inr ⟨hMem, hNe⟩)

theorem InOrder.insertEntry (h : InOrder entries) : InOrder (insertEntry key value entries) := by
  induction entries with
  | nil => exact List.pairwise_singleton _ _
  | cons first rest ih =>
    obtain ⟨hFirst, hRest⟩ := List.pairwise_cons.mp h
    rw [Lib.insertEntry]
    split_ifs with hLess hEqual
    · refine List.pairwise_cons.mpr ⟨?_, h⟩
      intro other hMem
      rcases List.mem_cons.mp hMem with rfl | hMem
      · exact hLess
      · exact hLess.trans (hFirst other hMem)
    · exact List.pairwise_cons.mpr ⟨fun other hMem => hEqual ▸ hFirst other hMem, hRest⟩
    · refine List.pairwise_cons.mpr ⟨?_, ih hRest⟩
      intro other hMem
      rcases (mem_insertEntry hRest).mp hMem with rfl | ⟨hMem, -⟩
      · exact lt_of_le_of_ne (not_lt.mp hLess) (Ne.symm hEqual)
      · exact hFirst other hMem

theorem insertEntry_perm (h : ∀ entry ∈ entries, entry.1 ≠ key) :
    (insertEntry key value entries).Perm ((key, value) :: entries) := by
  induction entries with
  | nil => exact List.Perm.refl _
  | cons first rest ih =>
    rw [List.forall_mem_cons] at h
    rw [insertEntry, if_neg h.1.symm]
    split_ifs
    · exact List.Perm.refl _
    · exact ((ih h.2).cons first).trans (List.Perm.swap _ _ _)

theorem insertEntry_last (h : ∀ entry ∈ entries, entry.1 < key) :
    insertEntry key value entries = entries ++ [(key, value)] := by
  induction entries with
  | nil => rfl
  | cons first rest ih =>
    rw [List.forall_mem_cons] at h
    rw [insertEntry, if_neg h.1.not_gt, if_neg h.1.ne', ih h.2, List.cons_append]

theorem keys_insertEntry (h : key ∈ entries.map Prod.fst)
    (hOrder : InOrder entries) : (insertEntry key value entries).map Prod.fst = entries.map Prod.fst := by
  induction entries with
  | nil => cases h
  | cons first rest ih =>
    obtain ⟨hFirst, hRest⟩ := List.pairwise_cons.mp hOrder
    rw [insertEntry]
    split_ifs with hLess hEqual
    · exfalso
      rcases List.mem_cons.mp h with rfl | hMem
      · exact lt_irrefl _ hLess
      · obtain ⟨entry, hEntry, rfl⟩ := List.mem_map.mp hMem
        exact lt_asymm hLess (hFirst entry hEntry)
    · rw [List.map_cons, List.map_cons, hEqual]
    · have hMem : key ∈ rest.map Prod.fst := (List.mem_cons.mp h).resolve_left hEqual
      rw [List.map_cons, List.map_cons, ih hMem hRest]

theorem sum_insertEntry {old : α} (weight : α → Nat) (h : (key, old) ∈ entries) (hOrder : InOrder entries) :
    ((insertEntry key value entries).map fun entry => weight entry.2).sum + weight old =
      (entries.map fun entry => weight entry.2).sum + weight value := by
  induction entries with
  | nil => cases h
  | cons first rest ih =>
    obtain ⟨hFirst, hRest⟩ := List.pairwise_cons.mp hOrder
    rw [insertEntry]
    split_ifs with hLess hEqual
    · exfalso
      rcases List.mem_cons.mp h with rfl | hMem
      · exact lt_irrefl _ hLess
      · exact lt_asymm hLess (hFirst _ hMem)
    · have hOld : first.2 = old := by
        rcases List.mem_cons.mp h with rfl | hMem
        · rfl
        · exact absurd hEqual (hFirst _ hMem).ne'
      simp only [List.map_cons, List.sum_cons, hOld]
      omega
    · have hMem : (key, old) ∈ rest := (List.mem_cons.mp h).resolve_left fun hSame => hEqual (hSame ▸ rfl)
      have hTail := ih hMem hRest
      simp only [List.map_cons, List.sum_cons]
      omega

theorem InOrder.eq_of_mem_iff {others : List (κ × α)} (h : InOrder entries) (hOthers : InOrder others)
    (hMem : ∀ entry, entry ∈ entries ↔ entry ∈ others) : entries = others := by
  have hPerm : entries.Perm others :=
    (List.perm_ext_iff_of_nodup h.nodup_keys.of_map hOthers.nodup_keys.of_map).mpr hMem
  refine hPerm.eq_of_pairwise ?_ h hOthers
  intro a b _ _ hab hba
  exact absurd hab hba.asymm

structure OrderedMap (κ : Type u) (α : Type v) [LinearOrder κ] where
  entries : List (κ × α)
  inOrder : InOrder entries

namespace OrderedMap

def empty : OrderedMap κ α := ⟨[], List.Pairwise.nil⟩

def insert (map : OrderedMap κ α) (key : κ) (value : α) : OrderedMap κ α :=
  ⟨insertEntry key value map.entries, map.inOrder.insertEntry⟩

def map (f : α → β) (map : OrderedMap κ α) : OrderedMap κ β :=
  ⟨map.entries.map fun entry => (entry.1, f entry.2), List.pairwise_map.mpr (map.inOrder.imp fun h => h)⟩

def find? (map : OrderedMap κ α) (key : κ) : Option α := lookupEntry key map.entries

def keys (map : OrderedMap κ α) : List κ := map.entries.map Prod.fst

def erase (map : OrderedMap κ α) (key : κ) : OrderedMap κ α :=
  ⟨map.entries.filter (·.1 ≠ key), map.inOrder.filter _⟩

variable (p : κ × α → Bool)

def filter (map : OrderedMap κ α) : OrderedMap κ α := ⟨map.entries.filter p, map.inOrder.filter _⟩

theorem keys_map (f : α → β) (map : OrderedMap κ α) : (map.map f).keys = map.keys := by
  rw [keys, OrderedMap.map, List.map_map]
  rfl

variable {key other : κ} {map : OrderedMap κ α}

theorem find?_eq_some {value : α} :
    map.find? key = some value ↔ (key, value) ∈ map.entries := map.inOrder.lookupEntry_eq_some

theorem mem_keys : key ∈ map.keys ↔ (map.find? key).isSome = true := by
  rw [Option.isSome_iff_exists, keys, List.mem_map]
  constructor
  · rintro ⟨entry, hEntry, rfl⟩
    exact ⟨entry.2, find?_eq_some.mpr hEntry⟩
  · rintro ⟨value, hValue⟩
    exact ⟨_, find?_eq_some.mp hValue, rfl⟩

theorem find?_insert_self (map : OrderedMap κ α) (key : κ) (value : α) :
    (map.insert key value).find? key = some value := by
  rw [find?_eq_some]
  exact (mem_insertEntry map.inOrder).mpr (Or.inl rfl)

theorem find?_insert_of_ne (map : OrderedMap κ α) (value : α) (h : other ≠ key) :
    (map.insert key value).find? other = map.find? other := by
  apply Option.ext
  intro found
  rw [find?_eq_some, find?_eq_some]
  refine (mem_insertEntry map.inOrder).trans ⟨?_, fun hMem => Or.inr ⟨hMem, h⟩⟩
  rintro (hSame | ⟨hMem, -⟩)
  · exact absurd (congrArg Prod.fst hSame) h
  · exact hMem

theorem find?_erase_self (map : OrderedMap κ α) (key : κ) : (map.erase key).find? key = none := by
  rw [find?, lookupEntry_eq_none]
  intro entry hEntry
  simpa using (List.mem_filter.mp hEntry).2

theorem find?_erase_of_ne (map : OrderedMap κ α) (h : other ≠ key) :
    (map.erase key).find? other = map.find? other := by
  apply Option.ext
  intro found
  rw [find?_eq_some, find?_eq_some, erase, List.mem_filter]
  simp [h]

theorem length_erase_le (map : OrderedMap κ α) (key : κ) : (map.erase key).entries.length ≤ map.entries.length :=
  List.length_filter_le _ _

theorem length_insert_le (map : OrderedMap κ α) (key : κ) (value : α) :
    (map.insert key value).entries.length ≤ map.entries.length + 1 := by
  rw [insert]
  dsimp only
  induction map.entries with
  | nil => exact le_rfl
  | cons first rest ih =>
    rw [insertEntry]
    split_ifs <;> simp only [List.length_cons] <;> omega

theorem length_insert_of_find? {old : α} (value : α) (h : map.find? key = some old) :
    (map.insert key value).entries.length = map.entries.length := by
  have hKey : key ∈ map.entries.map Prod.fst := List.mem_map.mpr ⟨_, find?_eq_some.mp h, rfl⟩
  have hKeys : (map.insert key value).entries.map Prod.fst = map.entries.map Prod.fst :=
    keys_insertEntry hKey map.inOrder
  simpa using congrArg List.length hKeys

theorem ext_mem {other : OrderedMap κ α} (h : ∀ entry, entry ∈ map.entries ↔ entry ∈ other.entries) :
    map = other := by
  obtain ⟨entries, hOrder⟩ := map
  obtain ⟨others, hOthers⟩ := other
  obtain rfl := hOrder.eq_of_mem_iff hOthers h
  rfl

theorem mem_filter {p : κ × α → Bool} {entry : κ × α} :
    entry ∈ (map.filter p).entries ↔ entry ∈ map.entries ∧ p entry = true := List.mem_filter

theorem filter_filter (p q : κ × α → Bool) (map : OrderedMap κ α) :
    (map.filter p).filter q = map.filter fun entry => p entry && q entry := by
  refine ext_mem fun entry => ?_
  simp only [mem_filter, Bool.and_eq_true, and_assoc]

theorem foldl_erase_filter (map : OrderedMap κ α) :
    ((map.filter p).keys).foldl erase map = map.filter fun entry => !p entry := by
  have hErased (keys : List κ) (start : OrderedMap κ α) :
      (keys.foldl erase start).entries = start.entries.filter fun entry => entry.1 ∉ keys := by
    induction keys generalizing start with
    | nil => simp
    | cons key rest ih =>
      rw [List.foldl_cons, ih, erase, List.filter_filter]
      refine List.filter_congr fun entry _ => ?_
      simp [Bool.and_comm]
  refine ext_mem fun entry => ?_
  rw [hErased, List.mem_filter, mem_filter]
  refine and_congr_right fun hEntry => ?_
  have hKey : entry.1 ∈ (map.filter p).keys ↔ p entry = true := by
    rw [keys, List.mem_map]
    constructor
    · rintro ⟨other, hOther, hSame⟩
      obtain ⟨hMember, hp⟩ := mem_filter.mp hOther
      have hValue : some other.2 = some entry.2 := by
        rw [← find?_eq_some.mpr hMember, ← find?_eq_some.mpr hEntry, hSame]
      rwa [← Prod.ext hSame (Option.some.inj hValue)]
    · exact fun hp => ⟨entry, mem_filter.mpr ⟨hEntry, hp⟩, rfl⟩
  simp [hKey]

theorem find?_filter (map : OrderedMap κ α) (key : κ) :
    (map.filter p).find? key = (map.find? key).filter fun value => p (key, value) := by
  apply Option.ext
  intro value
  rw [find?_eq_some, mem_filter, Option.filter_eq_some_iff, find?_eq_some]

theorem filterMap_find?_keys (map : OrderedMap κ α) :
    (map.filter p).keys.filterMap map.find? = (map.filter p).entries.map Prod.snd := by
  rw [keys, List.filterMap_map, ← List.filterMap_eq_map]
  refine List.filterMap_congr fun entry hEntry => ?_
  exact find?_eq_some.mpr (mem_filter.mp hEntry).1

theorem nodup_keys (map : OrderedMap κ α) : map.keys.Nodup := map.inOrder.nodup_keys

theorem empty_eq_filter (map : OrderedMap κ α) : empty = map.filter fun _ => false :=
  ext_mem fun _ => by simp [empty, filter]

end OrderedMap

end Lib
