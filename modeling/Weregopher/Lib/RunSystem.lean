import Mathlib

/-! # Runs of a deterministic system and the log they leave

A system answers every input with a next state and the entries it appends to a
log. Properties of whole runs are proved for the state and the log together,
by one step at the end of the run.
-/
namespace Lib

universe u v w

structure RunSystem (σ : Type u) (ι : Type v) (ε : Type w) where
  next : σ → ι → σ
  emit : σ → ι → List ε

namespace RunSystem

variable {σ : Type u} {ι : Type v} {ε : Type w} (M : RunSystem σ ι ε)

def reach (s : σ) (inputs : List ι) : σ := inputs.foldl M.next s

def log : σ → List ι → List ε
  | _, [] => []
  | s, i :: rest => M.emit s i ++ log (M.next s i) rest

theorem log_append (s : σ) (front back : List ι) :
    M.log s (front ++ back) = M.log s front ++ M.log (M.reach s front) back := by
  induction front generalizing s with
  | nil => rfl
  | cons i rest ih => simp [log, reach, ih (M.next s i)]

@[simp] theorem reach_concat (s : σ) (front : List ι) (i : ι) :
    M.reach s (front ++ [i]) = M.next (M.reach s front) i := List.foldl_append

@[simp] theorem log_concat (s : σ) (front : List ι) (i : ι) :
    M.log s (front ++ [i]) = M.log s front ++ M.emit (M.reach s front) i := by
  rw [log_append]
  simp [log]

theorem history_invariant {P : List ε → σ → Prop} {A : ι → Prop} {s : σ} (hInit : P [] s)
    (hStep : ∀ entries t i, A i → P entries t → P (entries ++ M.emit t i) (M.next t i))
    (inputs : List ι) (hOk : ∀ i ∈ inputs, A i) : P (M.log s inputs) (M.reach s inputs) := by
  induction inputs using List.reverseRecOn with
  | nil => exact hInit
  | append_singleton front i ih =>
    rw [log_concat, reach_concat]
    refine hStep _ _ i (hOk i (by simp)) (ih ?_)
    intro j hj
    exact hOk j (List.mem_append_left _ hj)

theorem reach_invariant {P : σ → Prop} {A : ι → Prop} {s : σ} (hInit : P s)
    (hStep : ∀ t i, A i → P t → P (M.next t i)) (inputs : List ι) (hOk : ∀ i ∈ inputs, A i) :
    P (M.reach s inputs) :=
  M.history_invariant (P := fun _ t => P t) hInit (fun _ t i => hStep t i) inputs hOk

end RunSystem

/-- Every entry of the log stands in the relation `P` to the entries before it. -/
def EachAfter {ε : Type w} (P : List ε → ε → Prop) (log : List ε) : Prop :=
  ∀ front entry back, log = front ++ entry :: back → P front entry

namespace EachAfter

variable {ε : Type w} {P : List ε → ε → Prop}

theorem nil : EachAfter P [] := by
  intro front entry back h
  simp at h

variable {entry : ε} {log : List ε} {Q : List ε → ε → Prop}

theorem concat_iff : EachAfter P (log ++ [entry]) ↔ EachAfter P log ∧ P log entry := by
  constructor
  · intro h
    refine ⟨fun front e back hSplit => ?_, h log entry [] rfl⟩
    exact h front e (back ++ [entry]) (by simp [hSplit])
  · rintro ⟨hLog, hLast⟩ front e back hSplit
    rcases List.eq_nil_or_concat back with rfl | ⟨rest, last, rfl⟩
    · obtain ⟨rfl, hEntry⟩ := List.append_inj' hSplit rfl
      obtain rfl := List.head_eq_of_cons_eq hEntry
      exact hLast
    · have hInit : log ++ [entry] = (front ++ e :: rest) ++ [last] := by simpa using hSplit
      exact hLog front e rest (List.append_inj' hInit rfl).1

theorem left {front back : List ε} (h : EachAfter P (front ++ back)) : EachAfter P front := by
  intro first entry rest hSplit
  exact h first entry (rest ++ back) (by rw [hSplit, List.append_assoc, List.cons_append])

theorem of_mem (h : EachAfter P log) (hEntry : entry ∈ log) :
    ∃ front back, log = front ++ entry :: back ∧ P front entry := by
  obtain ⟨front, back, rfl⟩ := List.append_of_mem hEntry
  exact ⟨front, back, rfl, h front entry back rfl⟩

/-- Two entries on the two sides of a third, with what stands before each. -/
theorem of_mem_around {middle later : ε} {front back : List ε} (h : EachAfter P (front ++ middle :: back))
    (hEntry : entry ∈ front) (hLater : later ∈ back) :
    ∃ before first second, P before entry ∧ EachAfter P (before ++ (entry :: first ++ middle :: second)) ∧
      P (before ++ (entry :: first ++ middle :: second)) later := by
  obtain ⟨before, first, rfl, hBefore⟩ := of_mem h.left hEntry
  obtain ⟨second, rest, rfl⟩ := List.append_of_mem hLater
  have hSplit : before ++ entry :: first ++ middle :: (second ++ later :: rest) =
      (before ++ (entry :: first ++ middle :: second)) ++ later :: rest := by simp
  rw [hSplit] at h
  exact ⟨before, first, second, hBefore, h.left, h _ later rest rfl⟩

theorem mono (h : EachAfter P log) (hMono : ∀ front entry, P front entry → Q front entry) : EachAfter Q log :=
  fun front entry back hSplit => hMono front entry (h front entry back hSplit)

theorem and_iff :
    EachAfter (fun front entry => P front entry ∧ Q front entry) log ↔ EachAfter P log ∧ EachAfter Q log := by
  constructor
  · exact fun h => ⟨h.mono fun _ _ => And.left, h.mono fun _ _ => And.right⟩
  · exact fun h front entry back hSplit => ⟨h.1 front entry back hSplit, h.2 front entry back hSplit⟩

theorem forall_mem_iff {Q : ε → Prop} : EachAfter (fun _ entry => Q entry) log ↔ ∀ entry ∈ log, Q entry := by
  constructor
  · intro h entry hEntry
    obtain ⟨-, -, -, hQ⟩ := h.of_mem hEntry
    exact hQ
  · intro h front entry back hSplit
    exact h entry (hSplit ▸ List.mem_append_right _ List.mem_cons_self)

theorem pairwise_iff {R : ε → ε → Prop} :
    EachAfter (fun front entry => ∀ earlier ∈ front, R earlier entry) log ↔ log.Pairwise R := by
  induction log using List.reverseRecOn with
  | nil => exact ⟨fun _ => List.Pairwise.nil, fun _ => nil⟩
  | append_singleton front entry ih =>
    rw [concat_iff, ih, List.pairwise_append]
    simp

theorem whole_iff {Q : List ε → Prop} (hNil : Q []) (hFront : ∀ front entry, Q (front ++ [entry]) → Q front) :
    EachAfter (fun front entry => Q (front ++ [entry])) log ↔ Q log := by
  induction log using List.reverseRecOn with
  | nil => exact ⟨fun _ => hNil, fun _ => nil⟩
  | append_singleton front entry ih =>
    rw [concat_iff, ih]
    exact ⟨And.right, fun hQ => ⟨hFront front entry hQ, hQ⟩⟩

theorem nodup_filterMap {κ : Type w} {key : ε → Option κ}
    (h : EachAfter (fun front entry => ∀ k, key entry = some k → k ∉ front.filterMap key) log) :
    (log.filterMap key).Nodup := by
  induction log using List.reverseRecOn with
  | nil => simp
  | append_singleton front entry ih =>
    obtain ⟨hFront, hFresh⟩ := concat_iff.mp h
    rw [List.filterMap_append]
    refine List.Nodup.append (ih hFront) ?_ ?_
    · cases hKey : key entry <;> simp [hKey]
    · cases hKey : key entry with
      | none => simp [hKey]
      | some k => simpa [hKey] using hFresh k hKey

end EachAfter

end Lib
