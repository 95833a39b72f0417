import Weregopher.Lib.RunSystem

/-! # Items taken into custody and given back

A log is legal when an item is taken only under a free key and only the held item
is returned. In a legal log each taken item is still held or was returned once, by
the next event of its key.
-/
namespace Lib.Custody

universe u v

inductive Event (α : Type u)
  | taken (item : α)
  | returned (item : α)

def Event.item {α : Type u} : Event α → α
  | taken a | returned a => a

variable {α : Type u} {κ : Type v} [DecidableEq κ] (key : α → κ)

def advance (held : κ → Option α) : Event α → κ → Option α
  | .taken a => Function.update held (key a) (some a)
  | .returned a => Function.update held (key a) none

def heldAfter (log : List (Event α)) : κ → Option α := log.foldl (advance key) fun _ => none

/-- What the key of an event must hold for the event to be possible. -/
def Event.before : Event α → Option α
  | taken _ => none
  | returned a => some a

def Legal (log : List (Event α)) : Prop :=
  EachAfter (fun front event => heldAfter key front (key event.item) = event.before) log

variable {event : Event α} {log : List (Event α)} {k : κ}

theorem legal_concat :
    Legal key (log ++ [event]) ↔ Legal key log ∧ heldAfter key log (key event.item) = event.before :=
  EachAfter.concat_iff

theorem heldAfter_concat (log : List (Event α)) (event : Event α) :
    heldAfter key (log ++ [event]) = advance key (heldAfter key log) event := List.foldl_append

theorem advance_of_ne {held : κ → Option α} (h : key event.item ≠ k) : advance key held event k = held k := by
  cases event <;> exact Function.update_of_ne (Ne.symm h) _ _

theorem heldAfter_append_of_ne {front back : List (Event α)} (h : ∀ event ∈ back, key event.item ≠ k) :
    heldAfter key (front ++ back) k = heldAfter key front k := by
  induction back using List.reverseRecOn with
  | nil => rw [List.append_nil]
  | append_singleton more event ih =>
    rw [← List.append_assoc, heldAfter_concat, advance_of_ne key (h event (by simp))]
    exact ih fun other hOther => h other (List.mem_append_left _ hOther)

theorem exists_first_of_key (k : κ) (log : List (Event α)) : (∀ event ∈ log, key event.item ≠ k) ∨
      ∃ front event back, log = front ++ event :: back ∧ key event.item = k ∧ ∀ other ∈ front, key other.item ≠ k := by
  induction log with
  | nil => exact Or.inl (by simp)
  | cons first rest ih =>
    by_cases hFirst : key first.item = k
    · exact Or.inr ⟨[], first, rest, rfl, hFirst, by simp⟩
    · rcases ih with hNone | ⟨front, event, back, rfl, hEvent, hFront⟩
      · exact Or.inl (List.forall_mem_cons.mpr ⟨hFirst, hNone⟩)
      · exact Or.inr ⟨first :: front, event, back, rfl, hEvent, List.forall_mem_cons.mpr ⟨hFirst, hFront⟩⟩

/-- A taken item is held, or the next event of its key returns it. A returned or held item was taken by the
event of its key before. -/
structure Conserved (held : κ → Option α) (log : List (Event α)) : Prop where
  settled : ∀ front a back, log = front ++ .taken a :: back →
    (held (key a) = some a ∧ ∀ event ∈ back, key event.item ≠ key a) ∨
      ∃ between after, back = between ++ .returned a :: after ∧ ∀ event ∈ between, key event.item ≠ key a
  returned : ∀ front a back, log = front ++ .returned a :: back →
    ∃ before between, front = before ++ .taken a :: between ∧ ∀ event ∈ between, key event.item ≠ key a
  kept : ∀ k a, held k = some a →
    key a = k ∧ ∃ before between, log = before ++ .taken a :: between ∧ ∀ event ∈ between, key event.item ≠ k

theorem Legal.kept (h : Legal key log) {a : α} (hHeld : heldAfter key log k = some a) :
    key a = k ∧ ∃ before between, log = before ++ .taken a :: between ∧ ∀ event ∈ between, key event.item ≠ k := by
  induction log using List.reverseRecOn with
  | nil => cases hHeld
  | append_singleton front event ih =>
    obtain ⟨hFront, -⟩ := (legal_concat key).mp h
    rw [heldAfter_concat] at hHeld
    by_cases hKey : key event.item = k
    · subst hKey
      cases event with
      | taken b =>
        rw [Event.item, advance, Function.update_self] at hHeld
        cases hHeld
        exact ⟨rfl, front, [], rfl, by simp⟩
      | returned b =>
        rw [Event.item, advance, Function.update_self] at hHeld
        cases hHeld
    · rw [advance_of_ne key hKey] at hHeld
      obtain ⟨hItem, before, between, rfl, hBetween⟩ := ih hFront hHeld
      refine ⟨hItem, before, between ++ [event], by simp, ?_⟩
      intro other hOther
      rcases List.mem_append.mp hOther with hOld | hNew
      · exact hBetween other hOld
      · rwa [List.mem_singleton.mp hNew]

theorem Legal.conserved (h : Legal key log) : Conserved key (heldAfter key log) log where
  settled front a back hLog := by
    have hTaken : heldAfter key (front ++ [.taken a]) (key a) = some a := by
      rw [heldAfter_concat, advance, Function.update_self]
    have hSplit : log = (front ++ [.taken a]) ++ back := by simp [hLog]
    rcases exists_first_of_key key (key a) back with hNone | ⟨between, event, after, rfl, hEvent, hBetween⟩
    · refine Or.inl ⟨?_, hNone⟩
      rw [hSplit, heldAfter_append_of_ne key hNone, hTaken]
    · -- The first event of the key can only return the item that was taken.
      have hBefore : heldAfter key ((front ++ [.taken a]) ++ between) (key event.item) = event.before :=
        h _ event after (hSplit.trans (List.append_assoc ..).symm)
      rw [hEvent, heldAfter_append_of_ne key hBetween, hTaken] at hBefore
      cases event with
      | taken b => cases hBefore
      | returned b =>
        cases hBefore
        exact Or.inr ⟨between, after, rfl, hBetween⟩
  returned front a back hLog := by
    have hBefore : heldAfter key front (key a) = some a := h front (.returned a) back hLog
    have hFront : Legal key front := (hLog ▸ h).left
    exact (hFront.kept key hBefore).2
  kept k a hHeld := h.kept key hHeld

theorem Legal.returned_all (h : Legal key log) {items : List α}
    (hNodup : (items.map key).Nodup) (hHeld : ∀ a ∈ items, heldAfter key log (key a) = some a) :
    Legal key (log ++ items.map .returned) ∧
      ∀ k, heldAfter key (log ++ items.map .returned) k = if k ∈ items.map key then none else heldAfter key log k := by
  induction items using List.reverseRecOn with
  | nil =>
    rw [List.map_nil, List.append_nil]
    exact ⟨h, fun k => by simp⟩
  | append_singleton front a ih =>
    rw [List.map_append, List.map_singleton, List.nodup_append] at hNodup
    obtain ⟨hFront, -, hApart⟩ := hNodup
    obtain ⟨hLegal, hAfter⟩ := ih hFront fun b hb => hHeld b (List.mem_append_left _ hb)
    have hKey : key a ∉ front.map key := fun hMem => hApart _ hMem _ List.mem_cons_self rfl
    have hItem : heldAfter key (log ++ front.map .returned) (key a) = some a := by
      rw [hAfter, if_neg hKey]
      exact hHeld a (by simp)
    rw [List.map_append, List.map_singleton, ← List.append_assoc]
    refine ⟨(legal_concat key).mpr ⟨hLegal, hItem⟩, fun k => ?_⟩
    rw [heldAfter_concat, advance, List.map_append, List.map_singleton]
    by_cases hk : k = key a
    · subst hk
      rw [Function.update_self, if_pos (by simp)]
    · rw [Function.update_of_ne hk, hAfter]
      simp [hk]

end Lib.Custody
