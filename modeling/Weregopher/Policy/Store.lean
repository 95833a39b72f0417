import Weregopher.Lib.Checked
import Weregopher.Lib.LockedCells
import Weregopher.Lib.Outcome

/-! # Policy stores and their generations

The local policy stores hold a policy, evidence of its revocation and a generation that
every replacement and revocation advances. Decisions remember their generation.
-/
namespace Weregopher.Policy
open Lib Lib.Checked Lib.Interleaving Lib.LockedCells Lib.Outcome Lib.Stateful

variable {π ρ ε : Type}

inductive PolicyStoreError
  | policyStorePoisoned
  | policyGenerationExhausted
  | policyStoreUnavailable
  | policyRevoked
  | policyChanged

structure PolicyState (π ρ : Type) where
  generation : UInt64
  policy : π
  revocationEvidenceDigest : Option ρ

inductive PolicyChange (π ρ : Type)
  | replaced (policy : π)
  | revoked (evidence : ρ)
  deriving DecidableEq

namespace PolicyState

def new (policy : π) : PolicyState π ρ := ⟨1, policy, none⟩

def replacePolicy (policy : π) : Transition (PolicyState π ρ) PolicyStoreError Unit := do
  let state ← get
  let generation ← liftM (okOr PolicyStoreError.policyGenerationExhausted (checkedSucc state.generation))
  modify fun _ => ⟨generation, policy, none⟩

def revoke (evidence : ρ) : Transition (PolicyState π ρ) PolicyStoreError Unit := do
  let state ← get
  let generation ← liftM (okOr PolicyStoreError.policyGenerationExhausted (checkedSucc state.generation))
  modify fun state => { state with generation := generation, revocationEvidenceDigest := some evidence }

def make : PolicyChange π ρ → Transition (PolicyState π ρ) PolicyStoreError Unit
  | .replaced policy => replacePolicy policy
  | .revoked evidence => revoke evidence

def apply (state : PolicyState π ρ) : PolicyChange π ρ → PolicyState π ρ
  | .replaced policy => ⟨state.generation + 1, policy, none⟩
  | .revoked evidence => { state with generation := state.generation + 1, revocationEvidenceDigest := some evidence }

def verifyState [DecidableEq π] (state : PolicyState π ρ) (policy : π) (generation : UInt64) :
    Except PolicyStoreError Unit :=
  if state.revocationEvidenceDigest.isSome then .error .policyRevoked
  else if state.generation ≠ generation ∨ state.policy ≠ policy then .error .policyChanged
  else .ok ()

def verifyGeneration (state : PolicyState π ρ) (generation : UInt64) : Except PolicyStoreError Unit :=
  if state.revocationEvidenceDigest.isSome then .error .policyRevoked
  else if state.generation ≠ generation then .error .policyChanged
  else .ok ()

/-- A decision under the policy and the generation is valid now. -/
structure Current (state : PolicyState π ρ) (policy : π) (generation : UInt64) : Prop where
  generation_eq : state.generation = generation
  policy_eq : state.policy = policy
  not_revoked : state.revocationEvidenceDigest = none

variable {generation : UInt64} {state next : PolicyState π ρ} {change : PolicyChange π ρ}

theorem verifyState_ok [DecidableEq π] {policy : π} :
    verifyState state policy generation = .ok () ↔ state.Current policy generation := by
  rw [verifyState, ite_error_ok, ite_error_ok, not_or, not_not, not_not, Bool.not_eq_true, Option.isSome_eq_false_iff,
    Option.isNone_iff_eq_none]
  constructor
  · rintro ⟨hRevoked, hSame, -⟩
    exact ⟨hSame.1, hSame.2, hRevoked⟩
  · intro h
    exact ⟨h.not_revoked, ⟨h.generation_eq, h.policy_eq⟩, rfl⟩

theorem verifyGeneration_ok : verifyGeneration state generation = .ok () ↔
      state.generation = generation ∧ state.revocationEvidenceDigest = none := by
  rw [verifyGeneration, ite_error_ok, ite_error_ok, not_not, Bool.not_eq_true, Option.isSome_eq_false_iff,
    Option.isNone_iff_eq_none, and_iff_left rfl, and_comm]

theorem checkedSucc_eq {n next : UInt64} : checkedSucc n = some next ↔ n.toNat < u64Max ∧ next = n + 1 := by
  rw [checkedSucc]
  split <;> simp_all [eq_comm, Nat.not_lt.mpr]

theorem make_spec (change : PolicyChange π ρ) (state : PolicyState π ρ) :
    wp (make change) state (fun _ next => state.generation.toNat < u64Max ∧ next = state.apply change)
      (fun error next => error = .policyGenerationExhausted ∧ u64Max ≤ state.generation.toNat ∧ next = state) := by
  have hExhausted : ∀ error, okOr PolicyStoreError.policyGenerationExhausted (checkedSucc state.generation) =
      .error error → error = .policyGenerationExhausted ∧ u64Max ≤ state.generation.toNat := by
    intro error hError
    rw [checkedSucc] at hError
    split at hError
    · cases hError
    · cases hError
      exact ⟨rfl, Nat.not_lt.mp ‹_›⟩
  cases change with
  | replaced policy =>
    simp only [make, replacePolicy, wp_bind, wp_get, wp_lift, wp_modify, okOr_ok, checkedSucc_eq, and_true]
    refine ⟨?_, hExhausted⟩
    rintro generation ⟨hRoom, rfl⟩
    exact ⟨hRoom, rfl⟩
  | revoked evidence =>
    simp only [make, revoke, wp_bind, wp_get, wp_lift, wp_modify, okOr_ok, checkedSucc_eq, and_true]
    refine ⟨?_, hExhausted⟩
    rintro generation ⟨hRoom, rfl⟩
    exact ⟨hRoom, rfl⟩

theorem make_ok (h : exec (make change) state = (.ok (), next)) :
    state.generation.toNat < u64Max ∧ next = state.apply change := by
  have hSpec := of_exec_ok (make_spec change state) h
  exact hSpec

theorem make_error {error : PolicyStoreError} (h : exec (make change) state = (.error error, next)) :
    error = .policyGenerationExhausted ∧ u64Max ≤ state.generation.toNat ∧ next = state := by
  have hSpec := of_exec_error (make_spec change state) h
  exact hSpec

theorem make_exhausted (h : u64Max ≤ state.generation.toNat) (change : PolicyChange π ρ) :
    exec (make change) state = (.error .policyGenerationExhausted, state) := by
  cases hExec : exec (make change) state with
  | mk outcome next =>
    cases outcome with
    | ok => exact absurd (make_ok hExec).1 (Nat.not_lt.mpr h)
    | error error =>
      obtain ⟨rfl, -, rfl⟩ := make_error hExec
      rfl

theorem apply_generation (h : state.generation.toNat < u64Max) (change : PolicyChange π ρ) :
    (state.apply change).generation.toNat = state.generation.toNat + 1 := by
  have hNext : checkedSucc state.generation = some (state.apply change).generation := by
    rw [checkedSucc_eq]
    cases change <;> exact ⟨h, rfl⟩
  exact checkedSucc_toNat hNext

/-! ## The changes in a log -/

section

variable (change? : ε → Option (PolicyChange π ρ))

def replay (state : PolicyState π ρ) (event : ε) : PolicyState π ρ :=
  match change? event with
  | none => state
  | some change => state.apply change

def afterLog (initial : PolicyState π ρ) (log : List ε) : PolicyState π ρ := log.foldl (replay change?) initial

/-- Nothing changed the store at the last of its generations. -/
def Advancing (initial : PolicyState π ρ) (log : List ε) : Prop :=
  EachAfter (fun front event => change? event ≠ none → (afterLog change? initial front).generation.toNat < u64Max) log

variable {change?} {initial : PolicyState π ρ}

variable {back front : List ε}

theorem generation_afterLog (h : Advancing change? initial (front ++ back)) :
    (afterLog change? initial (front ++ back)).generation.toNat =
      (afterLog change? initial front).generation.toNat + (back.filter fun event => (change? event).isSome).length := by
  induction back using List.reverseRecOn with
  | nil => simp
  | append_singleton back event ih =>
    rw [← List.append_assoc, Advancing, EachAfter.concat_iff] at h
    have hStep : afterLog change? initial (front ++ (back ++ [event])) =
        replay change? (afterLog change? initial (front ++ back)) event := by
      rw [← List.append_assoc, afterLog, List.foldl_append]
      rfl
    rw [hStep, replay, List.filter_append, List.length_append, ← Nat.add_assoc, ← ih h.1]
    cases hChange : change? event with
    | none => simp [hChange]
    | some change =>
      have hRoom := h.2 (by rw [hChange]; exact Option.some_ne_none change)
      simp [hChange, apply_generation hRoom]

theorem unchanged_of_generation_eq (h : Advancing change? initial (front ++ back))
    (hSame : (afterLog change? initial front).generation = (afterLog change? initial (front ++ back)).generation) :
    ∀ event ∈ back, change? event = none := by
  have hCount := generation_afterLog h
  rw [← hSame, Nat.left_eq_add, List.length_eq_zero_iff, List.filter_eq_nil_iff] at hCount
  intro event hEvent
  simpa using hCount event hEvent

theorem afterLog_append_unchanged (front : List ε) (h : ∀ event ∈ back, change? event = none) :
    afterLog change? initial (front ++ back) = afterLog change? initial front := by
  rw [afterLog, List.foldl_append]
  induction back with
  | nil => rfl
  | cons event back ih =>
    obtain ⟨hEvent, hBack⟩ := List.forall_mem_cons.mp h
    rw [List.foldl_cons, replay, hEvent]
    exact ih hBack

theorem afterLog_eq_of_generation_eq {log : List ε} (h : Advancing change? initial log) (hPrefix : front <+: log)
    (hSame : (afterLog change? initial front).generation = (afterLog change? initial log).generation) :
    afterLog change? initial log = afterLog change? initial front := by
  obtain ⟨back, rfl⟩ := hPrefix
  exact afterLog_append_unchanged front (unchanged_of_generation_eq h hSame)

theorem Current.not_after_change {middle : List ε} {event : ε} {policy : π} {generation : UInt64}
    (h : Advancing change? initial (front ++ (middle ++ event :: back))) (hChange : change? event ≠ none)
    (hBefore : (afterLog change? initial front).Current policy generation) :
    ¬(afterLog change? initial (front ++ (middle ++ event :: back))).Current policy generation := by
  intro hAfter
  have hUnchanged := unchanged_of_generation_eq h (hBefore.generation_eq.trans hAfter.generation_eq.symm)
  exact hChange (hUnchanged event (by simp))

end

end PolicyState

/-! ## Decisions under a guard -/

section

variable {τ ι α δ : Type} {V : ι → Type} [DecidableEq τ] [DecidableEq ι] (thread : τ) (i : ι)
  (wrap : PolicyStoreError → δ)

/-- `commit_if_policy_current`: the guard is held until the commit has returned. The store may be gone. -/
def commitIfPolicyCurrent (verify : V i → Except PolicyStoreError Unit) (commit : Program τ V ε α) :
    Program τ V ε (Except δ α) := do
  if ← available then
    reading thread i (.error (wrap .policyStorePoisoned)) fun state =>
      match verify state with
      | .error reason => return .error (wrap reason)
      | .ok () => do
        let result ← commit
        return .ok result
  else return .error (wrap .policyStoreUnavailable)

def snapshot : Program τ V ε (Except δ (V i)) :=
  reading thread i (.error (wrap .policyStorePoisoned)) fun state => return .ok state

/-- A decision on a snapshot, which is issued under the guard of its last check. -/
def decideOnPolicy (decide : V i → Except δ α) (verify : α → V i → Except PolicyStoreError Unit) (event : α → ε) :
    Program τ V ε (Except δ α) := do
  match ← snapshot thread i wrap with
  | .error error => return .error error
  | .ok snapshot =>
    match decide snapshot with
    | .error error => return .error error
    | .ok decision =>
      match ← commitIfPolicyCurrent thread i wrap (verify decision) (record (event decision)) with
      | .error error => return .error error
      | .ok () => return .ok decision

variable {thread i wrap} {meaning : Meaning V ε} {P : World τ V ε → Prop}

theorem spec_commitIfPolicyCurrent {verify : V i → Except PolicyStoreError Unit} {commit : Program τ V ε α}
    {Q : Except δ α → World τ V ε → Prop} (hP : Persists meaning thread i P)
    (hQ : ∀ outcome, Persists meaning thread i (Q outcome)) (hError : ∀ error s, P s → Q (.error error) s)
    (hCommit : ∀ state, verify state = .ok () →
      Spec meaning thread (fun s => P s ∧ Reading thread i state s) commit (fun result => Q (.ok result))) :
    Spec meaning thread P (commitIfPolicyCurrent thread i wrap verify commit) Q := by
  apply spec_bind (spec_available hP.steady)
  intro found
  cases found with
  | false => exact spec_pure (hQ _).steady (hError _)
  | true =>
    apply spec_reading hP hQ (hError _)
    intro state
    cases hVerify : verify state with
    | error reason => exact spec_pure (hQ _).steady fun s hs => hError _ s hs.1
    | ok => exact spec_bind (hCommit state hVerify) fun result => spec_pure (hQ _).steady fun _ => id

theorem spec_checkPolicyCurrent {verify : V i → Except PolicyStoreError Unit} (value : α)
    (hP : Persists meaning thread i P) :
    Spec meaning thread P (commitIfPolicyCurrent thread i wrap verify (pure value)) (fun _ => P) :=
  spec_commitIfPolicyCurrent hP (fun _ => hP) (fun _ _ => id) fun _ _ => spec_pure hP.steady fun _ => And.left

theorem spec_snapshot (hP : Persists meaning thread i P) :
    Spec meaning thread P (snapshot thread i wrap) (fun _ => P) :=
  spec_reading hP (fun _ => hP) (fun _ => id) fun _ => spec_pure hP.steady fun _ => And.left

theorem spec_decideOnPolicy {decide : V i → Except δ α} {verify : α → V i → Except PolicyStoreError Unit}
    {event : α → ε} (hLawful : ∀ (s : World τ V ε) decision, verify decision (s.cells i).value = .ok () →
      meaning.lawful (fun j => (s.cells j).value) s.log (event decision))
    (hReplay : ∀ decision j value, meaning.replay j value (event decision) = value) :
    Spec meaning thread (fun _ => True) (decideOnPolicy thread i wrap decide verify event) (fun _ _ => True) := by
  apply spec_bind (spec_snapshot (persists_const True))
  rintro (error | snapshot)
  · exact spec_done
  · dsimp only
    cases decide snapshot with
    | error error => exact spec_done
    | ok decision =>
      have hIssue : Spec meaning thread (fun _ => True)
          (commitIfPolicyCurrent thread i wrap (verify decision) (record (event decision))) (fun _ _ => True) := by
        apply spec_commitIfPolicyCurrent (persists_const True) (fun _ => persists_const True) (fun _ _ => id)
        intro state hVerify
        refine spec_mono (spec_record ((steady_const True).and (steady_reading i state)) ?_ (hReplay decision))
          (fun _ => id) fun _ _ _ => trivial
        rintro s ⟨-, -, rfl⟩
        exact hLawful s decision hVerify
      apply spec_bind hIssue
      rintro (error | _) <;> exact spec_done

theorem spec_snapshot_seen (hP : Persists meaning thread i P) :
    Spec meaning thread P (snapshot thread i wrap)
      (fun outcome s => P s ∧ ∀ state, outcome = .ok state → Seen meaning i state s) := by
  have hDone : ∀ outcome : Except δ (V i),
      Persists meaning thread i (fun s => P s ∧ ∀ state, outcome = .ok state → Seen meaning i state s) := fun _ =>
    hP.and (persists_forall fun state => persists_imp (persists_seen state))
  refine spec_reading hP hDone (fun s hs => ⟨hs, ?_⟩) ?_
  · intro state hState
    cases hState
  · intro value
    apply spec_of_invariant (spec_pure (hDone (.ok value)).steady fun _ => id)
    rintro s hCoherent ⟨hs, -, rfl⟩
    refine ⟨hs, ?_⟩
    rintro _ ⟨⟩
    exact hCoherent.seen i

end

end Weregopher.Policy
