import Weregopher.Lib.RunSystem

/-! # Chains linked by digests

Every item of a chain names the digest of the item before it. If digests tell
the items at hand apart, the last digest determines the whole chain.
-/
namespace Lib.HashChain

universe u v

variable {α : Type u} {δ : Type v} {digest : α → δ} {link : α → Option δ}

def head (digest : α → δ) (chain : List α) : Option δ := chain.getLast?.map digest

def Linked (digest : α → δ) (link : α → Option δ) (chain : List α) : Prop :=
  EachAfter (fun front item => link item = head digest front) chain

@[simp] theorem head_concat (front : List α) (item : α) : head digest (front ++ [item]) = some (digest item) := by
  rw [head, List.getLast?_append, List.getLast?_singleton]
  rfl

theorem linked_concat {front : List α} {item : α} :
    Linked digest link (front ++ [item]) ↔ Linked digest link front ∧ link item = head digest front :=
  EachAfter.concat_iff

/-- The induction goes backwards: equal heads give equal last items, whose links are the heads of
what is left. -/
theorem eq_of_head_eq {chain other : List α} (hDigest : Set.InjOn digest {item | item ∈ chain ∨ item ∈ other})
    (hChain : Linked digest link chain) (hOther : Linked digest link other)
    (hHead : head digest chain = head digest other) : chain = other := by
  induction chain using List.reverseRecOn generalizing other with
  | nil =>
    rcases List.eq_nil_or_concat other with rfl | ⟨front, last, rfl⟩
    · rfl
    · rw [List.concat_eq_append, head_concat] at hHead
      cases hHead
  | append_singleton front item ih =>
    rcases List.eq_nil_or_concat other with rfl | ⟨front', last, rfl⟩
    · rw [head_concat] at hHead
      cases hHead
    · rw [List.concat_eq_append] at *
      rw [head_concat, head_concat, Option.some.injEq] at hHead
      obtain rfl : item = last := hDigest (by simp) (by simp) hHead
      obtain ⟨hFront, hLink⟩ := linked_concat.1 hChain
      obtain ⟨hFront', hLink'⟩ := linked_concat.1 hOther
      have hRest : Set.InjOn digest {other | other ∈ front ∨ other ∈ front'} := by
        apply hDigest.mono
        rintro other (hMember | hMember)
        · exact .inl (List.mem_append_left _ hMember)
        · exact .inr (List.mem_append_left _ hMember)
      rw [ih hRest hFront hFront' (hLink.symm.trans hLink')]

end Lib.HashChain
