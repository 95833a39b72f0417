import Mathlib

/-! # Paths written with slashes

A path is split at its slashes, and the names on the way to it are joined by
slashes. Names without slashes that are not empty survive both ways.
-/
namespace Lib.SlashPath

variable {α : Type} {name path : String} {names : List String}

/-- Induction on a list by the first place where it is split. -/
theorem splitInduct [DecidableEq α] (separator : α) {P : List α → Prop} (hOne : ∀ chars, separator ∉ chars → P chars)
    (hSplit : ∀ front back, separator ∉ front → P back → P (front ++ separator :: back)) (chars : List α) :
    P chars := by
  induction chars using (measure List.length).wf.induction with
  | h chars ih =>
    by_cases hMem : separator ∈ chars
    · obtain ⟨front, back, rfl, hFront⟩ := List.eq_append_cons_of_mem hMem
      refine hSplit front back hFront (ih back ?_)
      change back.length < (front ++ separator :: back).length
      simp only [List.length_append, List.length_cons]
      omega
    · exact hOne chars hMem

theorem separator_notMem_of_mem_splitOn [DecidableEq α] {separator : α} {chars part : List α}
    (h : part ∈ chars.splitOn separator) : separator ∉ part := by
  induction chars using splitInduct separator with
  | hOne chars hNone =>
    rw [List.splitOn_eq_singleton hNone, List.mem_singleton] at h
    rwa [h]
  | hSplit front back hFront ih =>
    rw [List.splitOn_append_cons_self, List.splitOn_eq_singleton hFront] at h
    rcases List.mem_cons.mp h with rfl | hBack
    · exact hFront
    · exact ih hBack

def split (path : String) : List String := (path.toList.splitOn '/').map String.ofList

def child (parent name : String) : String := if parent = "" then name else parent ++ "/" ++ name

def join (names : List String) : String := names.foldl child ""

theorem split_append (front back : String) : split (front ++ "/" ++ back) = split front ++ split back := by
  have hText : (front ++ "/" ++ back).toList = front.toList ++ '/' :: back.toList := by simp
  rw [split, hText, List.splitOn_append_cons_self, List.map_append]
  rfl

theorem split_name (h : '/' ∉ name.toList) : split name = [name] := by
  rw [split, List.splitOn_eq_singleton h, List.map_singleton, String.ofList_toList]

theorem split_ne_nil (path : String) : split path ≠ [] := by
  rw [split, ne_eq, List.map_eq_nil_iff]
  exact List.splitOn_ne_nil _ _

theorem split_injective : Function.Injective split := by
  intro path other h
  have hParts := (List.map_injective_iff.mpr fun _ _ hSame => String.ofList_injective hSame) h
  rw [← String.toList_inj, ← @List.intercalate_splitOn _ path.toList _ _ '/', hParts, List.intercalate_splitOn]

theorem slash_notMem_of_mem_split (h : name ∈ split path) : '/' ∉ name.toList := by
  obtain ⟨part, hPart, rfl⟩ := List.mem_map.mp h
  rw [String.toList_ofList]
  exact separator_notMem_of_mem_splitOn hPart

theorem utf8ByteSize_le_of_mem_split (h : name ∈ split path) : name.utf8ByteSize ≤ path.utf8ByteSize := by
  obtain ⟨part, hPart, rfl⟩ := List.mem_map.mp h
  rw [← @String.ofList_toList path]
  generalize path.toList = chars at hPart
  induction chars using splitInduct '/' with
  | hOne chars hNone =>
    rw [List.splitOn_eq_singleton hNone, List.mem_singleton] at hPart
    rw [hPart]
  | hSplit front back hFront ih =>
    rw [List.splitOn_append_cons_self, List.splitOn_eq_singleton hFront] at hPart
    rw [String.ofList_append, String.utf8ByteSize_append, String.ofList_cons, String.utf8ByteSize_append]
    rcases List.mem_cons.mp hPart with rfl | hBack
    · exact Nat.le_add_right _ _
    · exact (ih hBack).trans (Nat.le_add_left _ _ |>.trans (Nat.le_add_left _ _))

theorem exists_split (hNil : names ≠ []) (h : ∀ name ∈ names, '/' ∉ name.toList) : ∃ path, split path = names := by
  refine ⟨String.ofList (['/'].intercalate (names.map String.toList)), ?_⟩
  have hParts : ∀ part ∈ names.map String.toList, '/' ∉ part := by
    intro part hPart
    obtain ⟨name, hName, rfl⟩ := List.mem_map.mp hPart
    exact h name hName
  rw [split, String.toList_ofList, List.splitOn_intercalate '/' hParts (by simpa using hNil), List.map_map]
  simp [Function.comp_def]

def Above (path other : String) : Prop := ∃ rest, other = path ++ "/" ++ rest

theorem split_prefix_iff {other : String} : split path <+: split other ↔ path = other ∨ Above path other := by
  constructor
  · rintro ⟨more, hMore⟩
    by_cases hNil : more = []
    · rw [hNil, List.append_nil] at hMore
      exact Or.inl (split_injective hMore)
    · have hNames : ∀ name ∈ more, '/' ∉ name.toList := by
        intro name hName
        have hOther : name ∈ split other := hMore ▸ List.mem_append_right _ hName
        exact slash_notMem_of_mem_split hOther
      obtain ⟨rest, rfl⟩ := exists_split hNil hNames
      exact Or.inr ⟨rest, split_injective (by rw [split_append, hMore])⟩
  · rintro (rfl | ⟨rest, rfl⟩)
    · exact List.prefix_refl _
    · rw [split_append]
      exact List.prefix_append _ _

theorem join_concat (names : List String) (name : String) : join (names ++ [name]) = child (join names) name := by
  rw [join, List.foldl_append]
  rfl

theorem child_ne_empty (parent : String) (h : name ≠ "") : child parent name ≠ "" := by
  rw [child]
  split
  · exact h
  · intro hEmpty
    have hList := congrArg String.toList hEmpty
    simp at hList

theorem join_ne_empty (hNil : names ≠ []) (h : ∀ name ∈ names, name ≠ "") : join names ≠ "" := by
  obtain ⟨front, name, rfl⟩ := (List.eq_nil_or_concat' names).resolve_left hNil
  rw [join_concat]
  exact child_ne_empty _ (h name (List.mem_append_right _ (List.mem_singleton_self _)))

theorem split_join (hNil : names ≠ []) (h : ∀ name ∈ names, name ≠ "" ∧ '/' ∉ name.toList) :
    split (join names) = names := by
  induction names using List.reverseRecOn with
  | nil => exact absurd rfl hNil
  | append_singleton front name ih =>
    have hName := (h name (List.mem_append_right _ (List.mem_singleton_self _))).2
    have hFront : ∀ other ∈ front, other ≠ "" ∧ '/' ∉ other.toList :=
      fun other hOther => h other (List.mem_append_left _ hOther)
    rw [join_concat, child]
    by_cases hEmpty : front = []
    · subst hEmpty
      have hRoot : join [] = "" := rfl
      rw [if_pos hRoot, split_name hName, List.nil_append]
    · rw [if_neg (join_ne_empty hEmpty fun other hOther => (hFront other hOther).1), split_append,
        ih hEmpty hFront, split_name hName]

end Lib.SlashPath
