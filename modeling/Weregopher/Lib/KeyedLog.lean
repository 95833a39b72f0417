import Weregopher.Lib.RunSystem

/-! # Logs in which every key runs through one automaton

Each entry of a log belongs to a key. A log is legal when every entry is a possible
step of the automaton of its key. What one step of the automaton preserves holds of the
part of the log that belongs to any one key.
-/
namespace Lib

universe u

structure KeyedAutomaton (ε φ κ : Type u) where
  key : ε → κ
  start : φ
  step : φ → ε → Option φ

namespace KeyedAutomaton

variable {ε φ κ : Type u} [DecidableEq κ] (A : KeyedAutomaton ε φ κ)

/-- An impossible step leaves the phase. -/
def advance (phase : κ → φ) (entry : ε) : κ → φ :=
  Function.update phase (A.key entry) ((A.step (phase (A.key entry)) entry).getD (phase (A.key entry)))

def phaseAfter (log : List ε) : κ → φ := log.foldl A.advance fun _ => A.start

@[simp] theorem phaseAfter_nil (k : κ) : A.phaseAfter [] k = A.start := rfl

@[simp] theorem phaseAfter_concat (log : List ε) (entry : ε) :
    A.phaseAfter (log ++ [entry]) = A.advance (A.phaseAfter log) entry := List.foldl_append

variable {entry : ε} {k : κ} {phase : κ → φ} {log : List ε} {mark : ε → Option κ}

theorem advance_of_ne (h : k ≠ A.key entry) :
    A.advance phase entry k = phase k := Function.update_of_ne h _ _

theorem advance_key {next : φ} (h : A.step (phase (A.key entry)) entry = some next) :
    A.advance phase entry (A.key entry) = next := by
  rw [advance, Function.update_self, h, Option.getD_some]

/-- Every entry is a step its key can make. -/
def Legal (log : List ε) : Prop :=
  EachAfter (fun front entry => (A.step (A.phaseAfter front (A.key entry)) entry).isSome = true) log

theorem legal_concat :
    A.Legal (log ++ [entry]) ↔ A.Legal log ∧ (A.step (A.phaseAfter log (A.key entry)) entry).isSome = true :=
  EachAfter.concat_iff

def ofKey (k : κ) (log : List ε) : List ε := log.filter (A.key · = k)

theorem mem_ofKey : entry ∈ A.ofKey k log ↔ entry ∈ log ∧ A.key entry = k := by
  simp [ofKey]

/-- The induction rule of the module. -/
theorem Legal.word_invariant {A : KeyedAutomaton ε φ κ} {P : List ε → φ → Prop} (h : A.Legal log)
    (hStart : P [] A.start)
    (hStep : ∀ word phase entry next, P word phase → A.step phase entry = some next → P (word ++ [entry]) next)
    (k : κ) : P (A.ofKey k log) (A.phaseAfter log k) := by
  induction log using List.reverseRecOn with
  | nil => exact hStart
  | append_singleton front entry ih =>
    obtain ⟨hFront, hEntry⟩ := A.legal_concat.mp h
    obtain ⟨next, hNext⟩ := Option.isSome_iff_exists.mp hEntry
    have hBefore := ih hFront
    rw [phaseAfter_concat, ofKey, List.filter_append]
    by_cases hKey : k = A.key entry
    · subst hKey
      rw [A.advance_key hNext, List.filter_cons_of_pos (by simp), List.filter_nil]
      exact hStep _ _ _ _ hBefore hNext
    · rw [A.advance_of_ne hKey, List.filter_cons_of_neg (by simpa using Ne.symm hKey), List.filter_nil,
        List.append_nil]
      exact hBefore

theorem filterMap_ofKey (hMark : ∀ entry k, mark entry = some k → A.key entry = k)
    (k : κ) (log : List ε) : (A.ofKey k log).filterMap mark = (log.filterMap mark).filter (· = k) := by
  induction log with
  | nil => rfl
  | cons entry rest ih =>
    rw [ofKey] at ih ⊢
    cases hEntry : mark entry with
    | none =>
      rw [List.filterMap_cons_none hEntry, ← ih, List.filter_cons]
      split
      · rw [List.filterMap_cons_none hEntry]
      · rfl
    | some mine =>
      have hKey := hMark entry mine hEntry
      rw [List.filterMap_cons_some hEntry, List.filter_cons, List.filter_cons, hKey]
      split
      · rw [List.filterMap_cons_some hEntry, ih]
      · exact ih

theorem nodup_filterMap (hMark : ∀ entry k, mark entry = some k → A.key entry = k)
    (h : ∀ k, ((A.ofKey k log).filterMap mark).length ≤ 1) : (log.filterMap mark).Nodup := by
  apply List.nodup_iff_count_le_one.mpr
  intro k
  have hOnce := h k
  rw [A.filterMap_ofKey hMark, ← List.countP_eq_length_filter] at hOnce
  rw [List.count]
  simpa only [beq_eq_decide] using hOnce

end KeyedAutomaton

end Lib
