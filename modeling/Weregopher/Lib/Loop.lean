import Weregopher.Lib.Checked
import Weregopher.Lib.Outcome
import Weregopher.Lib.RunSystem

/-! # Loops that stop at the first failure

A loop over a list succeeds when every item fits what came before it. What
holds after one more item holds after the loop.
-/
namespace Lib.Outcome

universe u v

variable {ε : Type u} {σ ι : Type v} {f : σ → ι → Except ε σ}

theorem foldlM_spec (Inv : List ι → σ → Prop) (Fits : List ι → ι → Prop) {first : σ} (hFirst : Inv [] first)
    (hFits : ∀ front item state, Inv front state → ((∃ next, f state item = .ok next) ↔ Fits front item))
    (hStep : ∀ front item state next, Inv front state → f state item = .ok next → Inv (front ++ [item]) next)
    (items : List ι) : ((∃ last, items.foldlM f first = .ok last) ↔ EachAfter Fits items) ∧
      ∀ last, items.foldlM f first = .ok last → Inv items last := by
  induction items using List.reverseRecOn with
  | nil =>
    refine ⟨⟨fun _ => .nil, fun _ => ⟨first, rfl⟩⟩, fun last hLast => ?_⟩
    cases hLast
    exact hFirst
  | append_singleton front item ih =>
    obtain ⟨hFront, hInv⟩ := ih
    have hConcat (last : σ) : (front ++ [item]).foldlM f first = .ok last ↔
        ∃ state, front.foldlM f first = .ok state ∧ f state item = .ok last := by
      rw [List.foldlM_append, bind_ok]
      simp
    constructor
    · rw [EachAfter.concat_iff, ← hFront]
      constructor
      · rintro ⟨last, hLast⟩
        obtain ⟨state, hState, hItem⟩ := (hConcat last).mp hLast
        exact ⟨⟨state, hState⟩, (hFits front item state (hInv state hState)).mp ⟨last, hItem⟩⟩
      · rintro ⟨⟨state, hState⟩, hItem⟩
        obtain ⟨last, hLast⟩ := (hFits front item state (hInv state hState)).mpr hItem
        exact ⟨last, (hConcat last).mpr ⟨state, hState, hLast⟩⟩
    · intro last hLast
      obtain ⟨state, hState, hItem⟩ := (hConcat last).mp hLast
      exact hStep front item state last (hInv state hState) hItem

theorem foldlM_add_ok {ι : Type} {f : Nat → ι → Except ε Nat} {maximum : Nat} {P : ι → Prop} {weight : ι → Nat}
    (hStep : ∀ total item next, total ≤ maximum →
      (f total item = .ok next ↔ P item ∧ total + weight item ≤ maximum ∧ next = total + weight item))
    (items : List ι) {start last : Nat} (hStart : start ≤ maximum) :
    items.foldlM f start = .ok last ↔ (∀ item ∈ items, P item) ∧ start + (items.map weight).sum ≤ maximum ∧
      last = start + (items.map weight).sum := by
  induction items generalizing start with
  | nil =>
    rw [List.foldlM_nil, pure_ok]
    simp [hStart, eq_comm]
  | cons item rest ih =>
    rw [List.foldlM_cons, bind_ok, List.forall_mem_cons, List.map_cons, List.sum_cons]
    constructor
    · rintro ⟨next, hNext, hRest⟩
      obtain ⟨hItem, hFits, rfl⟩ := (hStep start item next hStart).mp hNext
      obtain ⟨hAll, hTotal, rfl⟩ := (ih hFits).mp hRest
      exact ⟨⟨hItem, hAll⟩, by omega, by omega⟩
    · rintro ⟨⟨hItem, hAll⟩, hTotal, rfl⟩
      have hFits : start + weight item ≤ maximum := by omega
      exact ⟨_, (hStep start item _ hStart).mpr ⟨hItem, hFits, rfl⟩, (ih hFits).mpr ⟨hAll, by omega, by omega⟩⟩

theorem foldlM_okOr {e : ε} {g : σ → ι → Option σ} (items : List ι) (start : σ) :
    items.foldlM (fun state item => okOr e (g state item)) start = okOr e (items.foldlM g start) := by
  induction items generalizing start with
  | nil => rfl
  | cons item rest ih =>
    rw [List.foldlM_cons, List.foldlM_cons]
    cases hItem : g start item with
    | none => rfl
    | some next => exact ih next

theorem foldlM_okOr_checkedAdd {e : ε} {maximum start : Nat} {lengths : List Nat} (h : start + lengths.sum ≤ maximum) :
    lengths.foldlM (fun total more => okOr e (Checked.checkedAdd maximum total more)) start =
      .ok (start + lengths.sum) := by
  have hStart : start ≤ maximum := by omega
  have hSum := Checked.foldlM_checkedAdd hStart id lengths
  rw [List.map_id, Checked.checkedAdd, if_pos h] at hSum
  exact (foldlM_okOr lengths start).trans (congrArg _ hSum)

theorem foldlM_record {ρ : Type v} (record : ι → ρ) (items : List ι) (records : List ρ) (state : σ) :
    items.foldlM (fun (acc : List ρ × σ) item => do
      let next ← f acc.2 item
      return (acc.1 ++ [record item], next)) (records, state) =
    (records ++ items.map record, ·) <$> items.foldlM f state := by
  induction items generalizing records state with
  | nil => simp
  | cons item rest ih =>
    rw [List.foldlM_cons, List.foldlM_cons]
    cases hItem : f state item with
    | error e => rfl
    | ok next =>
      apply (ih _ _).trans
      rw [List.append_assoc]
      rfl

end Lib.Outcome
