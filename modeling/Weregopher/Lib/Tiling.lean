import Mathlib

/-! # Intervals laid end to end

An item stands for the positions from its offset on, as many as its size. A list of items
tiles an interval when each item starts where the one before it ends.
-/
namespace Lib.Tiling

variable {ι : Type} (offset size : ι → Nat)

def Tiles : Nat → List ι → Nat → Prop
  | start, [], stop => start = stop
  | start, item :: rest, stop => offset item = start ∧ Tiles (start + size item) rest stop

/-- The first item ends where the second one starts, or before. -/
def EndsBefore (a b : ι) : Prop := offset a + size a ≤ offset b

def Within (start stop : Nat) (item : ι) : Prop := start ≤ offset item ∧ offset item + size item ≤ stop

variable {offset size} {start stop : Nat} {items order : List ι}

theorem pairwise_either {R : ι → ι → Prop} (h : items.Pairwise R) {a b : ι} (ha : a ∈ items) (hb : b ∈ items)
    (hNe : a ≠ b) : R a b ∨ R b a := by
  have hSymm : Std.Symm fun a b => R a b ∨ R b a := ⟨fun _ _ => Or.symm⟩
  have hEither : items.Pairwise fun a b => R a b ∨ R b a := h.imp Or.inl
  exact hEither.forall ha hb hNe

theorem sum_le (hOrder : items.Pairwise (EndsBefore offset size)) (hStart : start ≤ stop)
    (hInside : ∀ item ∈ items, Within offset size start stop item) : start + (items.map size).sum ≤ stop := by
  induction items generalizing start with
  | nil => simpa using hStart
  | cons item rest ih =>
    rw [List.pairwise_cons] at hOrder
    rw [List.forall_mem_cons] at hInside
    have hRest := ih hOrder.2 hInside.1.2 fun other hOther => ⟨hOrder.1 other hOther, (hInside.2 other hOther).2⟩
    have hFirst := hInside.1.1
    rw [List.map_cons, List.sum_cons]
    omega

/-- Only the first of the three conditions depends on the order of the items. -/
theorem tiles_iff : Tiles offset size start items stop ↔
    items.Pairwise (EndsBefore offset size) ∧ (∀ item ∈ items, Within offset size start stop item) ∧
      start + (items.map size).sum = stop := by
  induction items generalizing start with
  | nil => simp [Tiles]
  | cons item rest ih =>
    rw [Tiles, ih, List.pairwise_cons, List.forall_mem_cons, List.map_cons, List.sum_cons]
    constructor
    · rintro ⟨rfl, hPairwise, hInside, hSum⟩
      refine ⟨⟨fun other hOther => (hInside other hOther).1, hPairwise⟩, ⟨⟨Nat.le_refl _, by omega⟩, ?_⟩, by omega⟩
      intro other hOther
      exact ⟨Nat.le_trans (Nat.le_add_right _ _) (hInside other hOther).1, (hInside other hOther).2⟩
    · rintro ⟨⟨hFirst, hPairwise⟩, ⟨hItem, hInside⟩, hSum⟩
      -- A gap before the first item would leave too little room for the others.
      have hRest := sum_le hPairwise hItem.2 fun other hOther => ⟨hFirst other hOther, (hInside other hOther).2⟩
      have hStart : offset item = start := Nat.le_antisymm (by omega) hItem.1
      refine ⟨hStart, hPairwise, fun other hOther => ⟨?_, (hInside other hOther).2⟩, by omega⟩
      rw [← hStart]
      exact hFirst other hOther

theorem Tiles.le (h : Tiles offset size start items stop) : start ≤ stop := by
  obtain ⟨-, -, hSum⟩ := tiles_iff.mp h
  omega

theorem Tiles.of_perm (h : Tiles offset size start order stop) (hPerm : items.Perm order)
    (hOrder : items.Pairwise fun a b => EndsBefore offset size b a → EndsBefore offset size a b) :
    Tiles offset size start items stop := by
  obtain ⟨hPairwise, hInside, hSum⟩ := tiles_iff.mp h
  have hEither : items.Pairwise fun a b => EndsBefore offset size a b ∨ EndsBefore offset size b a :=
    hPerm.symm.pairwise (hPairwise.imp Or.inl) Or.symm
  refine tiles_iff.mpr ⟨?_, fun item hItem => hInside item (hPerm.mem_iff.mp hItem), ?_⟩
  · exact hEither.imp₂ (fun a b hEither hTurn => hEither.elim id hTurn) hOrder
  · rw [(hPerm.map size).sum_nat, hSum]

theorem Tiles.covers (h : Tiles offset size start items stop) {position : Nat} (hStart : start ≤ position)
    (hStop : position < stop) : ∃ item ∈ items, offset item ≤ position ∧ position < offset item + size item := by
  induction items generalizing start with
  | nil =>
    have hEmpty : start = stop := h
    omega
  | cons item rest ih =>
    obtain ⟨hFirst, hRest⟩ := h
    by_cases hInside : position < start + size item
    · exact ⟨item, List.mem_cons_self, by omega, by omega⟩
    · obtain ⟨other, hOther, hCovers⟩ := ih hRest (by omega)
      exact ⟨other, List.mem_cons_of_mem _ hOther, hCovers⟩

end Lib.Tiling
