import Weregopher.Lib.RunSystem

/-! # Items that are admitted, started and finished once

The abstract life of an item has four phases. A log of events is legal when
every event finds its item in the phase the event starts from. Counting and
ordering facts about whole logs follow from legality alone.
-/
namespace Lib.Lifecycle

universe u

inductive Phase
  | unseen
  | queued
  | started
  | finished

inductive Event (κ : Type u)
  | accept (item : κ)
  | start (item : κ)
  | finish (item : κ)

variable {κ : Type u}

namespace Event

def item : Event κ → κ
  | accept k | start k | finish k => k

def source : Event κ → Phase
  | accept _ => .unseen
  | start _ => .queued
  | finish _ => .started

def target : Event κ → Phase
  | accept _ => .queued
  | start _ => .started
  | finish _ => .finished

def admitted : Event κ → Option κ
  | accept k => some k
  | _ => none

def starting : Event κ → Option κ
  | start k => some k
  | _ => none

def finishing : Event κ → Option κ
  | finish k => some k
  | _ => none

end Event

variable [DecidableEq κ]

def advance (phase : κ → Phase) (event : Event κ) : κ → Phase := Function.update phase event.item event.target

def phaseAfter (log : List (Event κ)) : κ → Phase := log.foldl advance fun _ => .unseen

@[simp] theorem phaseAfter_nil : phaseAfter ([] : List (Event κ)) = fun _ => .unseen := rfl

@[simp] theorem phaseAfter_concat (log : List (Event κ)) (event : Event κ) :
    phaseAfter (log ++ [event]) = advance (phaseAfter log) event := List.foldl_append

/-- Every event finds its item in the phase it starts from. -/
def Legal (log : List (Event κ)) : Prop :=
  EachAfter (fun front event => phaseAfter front event.item = event.source) log

theorem legal_concat {log : List (Event κ)} {event : Event κ} :
    Legal (log ++ [event]) ↔ Legal log ∧ phaseAfter log event.item = event.source :=
  EachAfter.concat_iff

namespace Legal

variable {log : List (Event κ)}

theorem of_append {front back : List (Event κ)} (h : Legal log) (hSplit : log = front ++ back) : Legal front := by
  intro first event rest hFirst
  exact h first event (rest ++ back) (by simp [hSplit, hFirst])

theorem unseen_iff (h : Legal log) (k : κ) : phaseAfter log k = .unseen ↔ k ∉ log.filterMap Event.admitted := by
  induction log using List.reverseRecOn with
  | nil => simp
  | append_singleton front event ih =>
    obtain ⟨hFront, hSource⟩ := legal_concat.mp h
    have hBefore := ih hFront
    rw [phaseAfter_concat, advance]
    by_cases hItem : k = event.item
    · subst hItem
      cases event <;> simp_all [Event.item, Event.source, Event.target, Event.admitted]
    · rw [Function.update_of_ne hItem, hBefore]
      cases event <;> simp_all [Event.item, Event.admitted]

theorem finished_iff (h : Legal log) (k : κ) :
    phaseAfter log k = .finished ↔ k ∈ log.filterMap Event.finishing := by
  induction log using List.reverseRecOn with
  | nil => simp
  | append_singleton front event ih =>
    obtain ⟨hFront, hSource⟩ := legal_concat.mp h
    have hBefore := ih hFront
    rw [phaseAfter_concat, advance]
    by_cases hItem : k = event.item
    · subst hItem
      cases event <;> simp_all [Event.item, Event.source, Event.target, Event.finishing]
    · rw [Function.update_of_ne hItem, hBefore]
      cases event <;> simp_all [Event.item, Event.finishing]

theorem starting_of_started (h : Legal log) {k : κ} (hPhase : phaseAfter log k = .started) :
    k ∈ log.filterMap Event.starting := by
  induction log using List.reverseRecOn with
  | nil => simp at hPhase
  | append_singleton front event ih =>
    obtain ⟨hFront, -⟩ := legal_concat.mp h
    rw [phaseAfter_concat, advance] at hPhase
    by_cases hItem : k = event.item
    · subst hItem
      cases event <;> simp_all [Event.item, Event.target, Event.starting]
    · rw [Function.update_of_ne hItem] at hPhase
      rw [List.filterMap_append]
      exact List.mem_append_left _ (ih hFront hPhase)

theorem admitted_nodup (h : Legal log) : (log.filterMap Event.admitted).Nodup := by
  refine EachAfter.nodup_filterMap fun front event back hSplit k hKey => ?_
  have hFront := h.of_append hSplit
  have hSource := h front event back hSplit
  cases event with
  | accept =>
    cases hKey
    exact (hFront.unseen_iff k).mp hSource
  | start | finish => cases hKey

theorem finishing_nodup (h : Legal log) : (log.filterMap Event.finishing).Nodup := by
  refine EachAfter.nodup_filterMap fun front event back hSplit k hKey => ?_
  have hFront := h.of_append hSplit
  have hSource := h front event back hSplit
  cases event with
  | finish =>
    cases hKey
    intro hFinished
    have hPhase := (hFront.finished_iff k).mpr hFinished
    exact absurd (hPhase.symm.trans hSource) (by simp [Event.source])
  | accept | start => cases hKey

end Legal

end Lib.Lifecycle
