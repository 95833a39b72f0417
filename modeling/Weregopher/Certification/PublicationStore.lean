import Weregopher.Certification.Publication

/-! # The bounded stores of publications

Both stores keep what was committed to them, each publication once. A commit of what is there
already succeeds even if the store is full.
-/
namespace Weregopher.Certification

open Lib.Stateful

section

variable {α ε : Type} [DecidableEq α] (storePoisoned storeFull : ε) (maxPublications : Nat)

/-- `commit` of either store. The first argument of a call says whether the lock is found poisoned. -/
def commitOnce (call : Bool × α) : Transition (List α) ε α := do
  if call.1 then throw storePoisoned
  let publications ← get
  if call.2 ∈ publications then return call.2
  if publications.length ≥ maxPublications then throw storeFull
  modify (· ++ [call.2])
  return call.2

def afterCommits (commit : Bool × α → Transition (List α) ε α) (calls : List (Bool × α)) : List α × List α :=
  calls.foldl (fun state call =>
    let result := exec (commit call) state.1
    (result.2, state.2 ++ result.1.toOption.toList)) ([], [])

/-- A capacity is kept, nothing is held twice, and exactly the returned publications are held. -/
structure Holds (maxPublications : Nat) (state : List α × List α) : Prop where
  nodup : state.1.Nodup
  bounded : state.1.length ≤ maxPublications
  returned : ∀ publication, publication ∈ state.1 ↔ publication ∈ state.2

structure Converges (maxPublications : Nat) (commit : Bool × α → Transition (List α) ε α) : Prop where
  holds : ∀ calls, Holds maxPublications (afterCommits commit calls)
  grows : ∀ calls more, (afterCommits commit calls).1 <+: (afterCommits commit (calls ++ more)).1
  again : ∀ calls publication, publication ∈ (afterCommits commit calls).1 →
    exec (commit (false, publication)) (afterCommits commit calls).1 = (.ok publication, (afterCommits commit calls).1)
  failed : ∀ calls call error next, exec (commit call) (afterCommits commit calls).1 = (.error error, next) →
    next = (afterCommits commit calls).1
  agrees : ∀ calls others,
    (∀ publication, publication ∈ (afterCommits commit calls).2 ↔ publication ∈ (afterCommits commit others).2) →
      (afterCommits commit calls).1.Perm (afterCommits commit others).1

theorem exec_commitOnce (call : Bool × α) (publications : List α) :
    exec (commitOnce storePoisoned storeFull maxPublications call) publications =
      if call.1 then (.error storePoisoned, publications)
      else if call.2 ∈ publications then (.ok call.2, publications)
      else if publications.length ≥ maxPublications then (.error storeFull, publications)
      else (.ok call.2, publications ++ [call.2]) := by
  rw [commitOnce]
  split_ifs with hPoisoned hMem hFull
  · rfl
  · simp only [exec_bind, exec_get, if_pos hMem, exec_pure]
  · simp only [exec_bind, exec_get, if_neg hMem, if_pos hFull, exec_throw]
  · simp only [exec_bind, exec_get, if_neg hMem, if_neg hFull, exec_modify, exec_pure]

omit [DecidableEq α] in
theorem afterCommits_concat (commit : Bool × α → Transition (List α) ε α) (calls : List (Bool × α)) (call : Bool × α) :
    afterCommits commit (calls ++ [call]) =
      ((exec (commit call) (afterCommits commit calls).1).2,
        (afterCommits commit calls).2 ++ (exec (commit call) (afterCommits commit calls).1).1.toOption.toList) := by
  rw [afterCommits, List.foldl_append]
  rfl

theorem holds_afterCommits (calls : List (Bool × α)) :
    Holds maxPublications (afterCommits (commitOnce storePoisoned storeFull maxPublications) calls) := by
  induction calls using List.reverseRecOn with
  | nil => exact ⟨List.nodup_nil, Nat.zero_le _, fun _ => Iff.rfl⟩
  | append_singleton calls call ih =>
    rw [afterCommits_concat]
    rw [exec_commitOnce]
    split_ifs with hPoisoned hMem hFull
    · simpa [Except.toOption] using ih
    · refine ⟨ih.nodup, ih.bounded, fun publication => ?_⟩
      rw [ih.returned] at hMem
      simp only [Except.toOption, Option.toList, List.mem_append, List.mem_singleton, ih.returned]
      exact ⟨Or.inl, Or.rec id fun hSame => hSame ▸ hMem⟩
    · simpa [Except.toOption] using ih
    · refine ⟨?_, ?_, fun publication => ?_⟩
      · exact List.nodup_append.mpr ⟨ih.nodup, List.nodup_singleton _,
          by simpa using fun _ hOther => ne_of_mem_of_not_mem hOther hMem⟩
      · rw [List.length_append]
        exact Nat.lt_of_not_le hFull
      · simp only [Except.toOption, Option.toList, List.mem_append, List.mem_singleton, ih.returned]

theorem converges_commitOnce :
    Converges maxPublications (commitOnce (α := α) storePoisoned storeFull maxPublications) where
  holds calls := holds_afterCommits ..
  grows calls more := by
    induction more using List.reverseRecOn with
    | nil => simp
    | append_singleton more call ih =>
      rw [← List.append_assoc, afterCommits_concat, exec_commitOnce]
      split_ifs
      · exact ih
      · exact ih
      · exact ih
      · exact ih.trans (List.prefix_append _ _)
  again calls publication hMem := by rw [exec_commitOnce, if_neg Bool.false_ne_true, if_pos hMem]
  failed calls call error next hExec := by
    rw [exec_commitOnce] at hExec
    split_ifs at hExec <;> cases hExec <;> rfl
  agrees calls others hSame := by
    have hCalls := holds_afterCommits storePoisoned storeFull maxPublications calls
    have hOthers := holds_afterCommits storePoisoned storeFull maxPublications others
    rw [List.perm_ext_iff_of_nodup hCalls.nodup hOthers.nodup]
    intro publication
    rw [hCalls.returned, hSame, hOthers.returned]

end

inductive PublicationStoreError
  | storePoisoned
  | storeFull

def LocalCertificationPublicationStore.commit (maxPublications : Nat) :
    Bool × LocalCertificationPublicationReceipt → Transition (List LocalCertificationPublicationReceipt)
      PublicationStoreError LocalCertificationPublicationReceipt :=
  commitOnce .storePoisoned .storeFull maxPublications

def LocalAttestedCertificationPublicationStore.commit (maxPublications : Nat) :
    Bool × AttestedLocalCertificationPublication → Transition (List AttestedLocalCertificationPublication)
      AttestedCertificationPublicationError AttestedLocalCertificationPublication :=
  commitOnce .storePoisoned .storeFull maxPublications

/-- It is what the threads call once they have the lock. -/
theorem attested_commit_eq (maxPublications : Nat) (publication : AttestedLocalCertificationPublication) :
    LocalAttestedCertificationPublicationStore.commit maxPublications (false, publication) =
      storePublication maxPublications publication := rfl

theorem publication_stores_converge (maxPublications : Nat) :
    Converges maxPublications (LocalCertificationPublicationStore.commit maxPublications) ∧
      Converges maxPublications (LocalAttestedCertificationPublicationStore.commit maxPublications) :=
  ⟨converges_commitOnce .., converges_commitOnce ..⟩

namespace Sample

def receipt (policyGeneration : UInt64) : LocalCertificationPublicationReceipt :=
  { prepared.receipt with policyGeneration }

/-- The lock is poisoned once, a receipt comes twice, and there is no room for the third. -/
def commits : List (Bool × LocalCertificationPublicationReceipt) :=
  [(false, receipt 1), (true, receipt 2), (false, receipt 2), (false, receipt 1), (false, receipt 3)]

def reordered : List (Bool × LocalCertificationPublicationReceipt) := [(false, receipt 2), (false, receipt 1)]

def after (attempts : List (Bool × LocalCertificationPublicationReceipt)) :
    List LocalCertificationPublicationReceipt × List LocalCertificationPublicationReceipt :=
  afterCommits (LocalCertificationPublicationStore.commit 2) attempts

theorem receipts_stored_in_either_order :
    (after commits).2 = [receipt 1, receipt 2, receipt 1] ∧ (after reordered).2 = [receipt 2, receipt 1] ∧
      (after commits).1.Perm (after reordered).1 := by
  have hCommits : (after commits).2 = [receipt 1, receipt 2, receipt 1] := rfl
  have hReordered : (after reordered).2 = [receipt 2, receipt 1] := rfl
  refine ⟨hCommits, hReordered, (publication_stores_converge 2).1.agrees commits reordered fun publication => ?_⟩
  rw [← after, ← after, hCommits, hReordered]
  simp only [List.mem_cons, List.not_mem_nil, or_false]
  tauto

end Sample

end Weregopher.Certification
