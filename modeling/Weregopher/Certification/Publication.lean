import Weregopher.Certification.Policies

/-! # Publications are committed under current policies

The log alone says what the stores hold and which decisions are valid. Every
interleaving is coherent with it: guards keep a decision valid until it is used.
-/
namespace Weregopher.Certification
open Lib Lib.Checked Lib.Interleaving Lib.LockedCells Lib.Stateful Policy PolicyState EachAfter

def Event.runnerChange? : Event → Option RunnerChange
  | .runnerChanged change => some change
  | _ => none

def Event.certificationChange? : Event → Option CertificationChange
  | .certificationChanged change => some change
  | _ => none

def Event.store? : Event → Option Store
  | .runnerChanged _ => some .runner
  | .certificationChanged _ => some .certification
  | .committed _ _ => some .destination
  | .approved _ | .verified _ | .began _ | .assigned _ | .prepared _ => none

def runnerAfter (policy : LocalCertificationRunnerPolicy) (log : List Event) : RunnerState :=
  afterLog Event.runnerChange? (.new policy) log

def certificationAfter (policy : LocalCertificationPolicy) (log : List Event) : CertificationState :=
  afterLog Event.certificationChange? (.new policy) log

def publicationsReplay (publications : List AttestedLocalCertificationPublication) :
    Event → List AttestedLocalCertificationPublication
  | .committed _ publication => if publication ∈ publications then publications else publications ++ [publication]
  | _ => publications

/-- When an event may happen, given what the stores hold. -/
def Lawful (runner : RunnerState) (certification : CertificationState) (log : List Event) : Event → Prop
  | .runnerChanged _ => runner.generation.toNat < u64Max
  | .certificationChanged _ => certification.generation.toNat < u64Max
  | .approved approved => runner.Current approved.policy approved.policyGeneration
  | .verified verified => .approved verified.approved ∈ log
  | .began pending => .verified pending.runner ∈ log
  | .assigned certified => certification.Current certified.policy certified.policyGeneration
  | .prepared prepared => .began prepared.pending ∈ log ∧ .assigned prepared.certified ∈ log
  | .committed prepared _ =>
    .prepared prepared ∈ log ∧
      runner.Current prepared.pending.runner.approved.policy prepared.pending.runner.approved.policyGeneration ∧
      certification.Current prepared.certified.policy prepared.certified.policyGeneration

def meaning (runnerPolicy : LocalCertificationRunnerPolicy) (policy : LocalCertificationPolicy) :
    Meaning Content Event where
  initial
    | .runner => .new runnerPolicy
    | .certification => .new policy
    | .destination => []
  replay
    | .runner => replay Event.runnerChange?
    | .certification => replay Event.certificationChange?
    | .destination => publicationsReplay
  lawful values log event := Lawful (values .runner) (values .certification) log event

section

variable {τ : Type} {thread : τ} {runnerPolicy : LocalCertificationRunnerPolicy}
  {policy : LocalCertificationPolicy} {sha256 : Sha256} {maxPublications : Nat}
  {P : World τ Content Event → Prop}

abbrev AboutLog (runnerPolicy : LocalCertificationRunnerPolicy) (policy : LocalCertificationPolicy) (thread : τ)
    (P : World τ Content Event → Prop) : Prop :=
  ∀ i, Persists (meaning runnerPolicy policy) thread i P

theorem replay_quiet {event : Event} (h : event.store? = none) (i : Store) (value : Content i) :
    (meaning runnerPolicy policy).replay i value event = value := by
  cases event <;> cases h <;> cases i <;> rfl

theorem replay_other {event : Event} {changed i : Store} (h : event.store? = some changed) (hOther : i ≠ changed)
    (value : Content i) : (meaning runnerPolicy policy).replay i value event = value := by
  cases event <;> cases h <;> cases i <;> first | rfl | exact absurd rfl hOther

variable [DecidableEq τ]

theorem spec_changeRunnerPolicy (change : RunnerChange) :
    Spec (meaning runnerPolicy policy) thread (fun _ => True) (changeRunnerPolicy thread change)
      (fun _ _ => True) :=
  spec_updating_event (fun _ _ _ h => (make_error h).2.2) fun _ _ _ h =>
    ⟨⟨(make_ok h).1, fun _ hOther => replay_other rfl hOther _⟩, (make_ok h).2⟩

theorem spec_changeCertificationPolicy (change : CertificationChange) :
    Spec (meaning runnerPolicy policy) thread (fun _ => True) (changeCertificationPolicy thread change)
      (fun _ _ => True) :=
  spec_updating_event (fun _ _ _ h => (make_error h).2.2) fun _ _ _ h =>
    ⟨⟨(make_ok h).1, fun _ hOther => replay_other rfl hOther _⟩, (make_ok h).2⟩

theorem spec_verifyComponents (approved : LocallyApprovedCertificationRunner)
    (inputs : CertificationRunnerIdentity → Option CertificationRunnerDescriptorSetDigest) :
    Spec (meaning runnerPolicy policy) thread (fun s => .approved approved ∈ s.log)
      (verifyCertificationRunnerComponents thread approved inputs) (fun _ _ => True) := by
  have hLog : AboutLog runnerPolicy policy thread (fun s => Event.approved approved ∈ s.log) :=
    fun _ => persists_logged _
  apply spec_bind (spec_checkPolicyCurrent (inputs approved.identity) (hLog _))
  rintro (error | _ | descriptorSetDigest)
  · exact spec_done
  · exact spec_done
  · apply spec_bind (spec_record (hLog .runner).steady (fun _ => id) (replay_quiet rfl))
    exact fun _ => spec_done

theorem spec_begin (runner : VerifiedCertificationRunnerComponents) (semanticReport : CertificationArtifactRef)
    (maximumElapsed : Nat) (challenge : Uuid) :
    Spec (meaning runnerPolicy policy) thread (fun s => .verified runner ∈ s.log)
      (beginLocalCertificationRun thread runner semanticReport maximumElapsed challenge) (fun _ _ => True) := by
  have hLog : AboutLog runnerPolicy policy thread (fun s => Event.verified runner ∈ s.log) :=
    fun _ => persists_logged _
  rw [beginLocalCertificationRun]
  cases freshnessWindow maximumElapsed with
  | error error => exact spec_done
  | ok millis =>
    apply spec_bind (spec_checkPolicyCurrent () (hLog _))
    rintro (error | _)
    · exact spec_done
    · apply spec_bind (spec_instrument (hLog .runner).steady)
      intro startedAt
      apply spec_bind (spec_record (hLog .runner).steady (fun _ => id) (replay_quiet rfl))
      exact fun _ => spec_done

theorem spec_prepare (pending : PendingLocalCertificationRun) (certified : LocallyCertifiedArtifacts) :
    Spec (meaning runnerPolicy policy) thread (fun s => .began pending ∈ s.log ∧ .assigned certified ∈ s.log)
      (prepareAttestedLocalCertificationPublication sha256 thread pending certified) (fun _ _ => True) := by
  have hLog : AboutLog runnerPolicy policy thread
      (fun s => Event.began pending ∈ s.log ∧ Event.assigned certified ∈ s.log) :=
    fun _ => (persists_logged _).and (persists_logged _)
  apply spec_bind (spec_checkPolicyCurrent () (hLog _))
  rintro (error | _)
  · exact spec_done
  · dsimp only
    split
    · exact spec_done
    · have hReceipt : Spec (meaning runnerPolicy policy) thread
          (fun s => Event.began pending ∈ s.log ∧ Event.assigned certified ∈ s.log)
          (localCertificationReceipt sha256 thread certified)
          (fun _ s => Event.began pending ∈ s.log ∧ Event.assigned certified ∈ s.log) := by
        apply spec_bind (spec_checkPolicyCurrent () (hLog _))
        rintro (error | _) <;> exact spec_pure (hLog .runner).steady fun _ => id
      apply spec_bind hReceipt
      rintro (error | receipt)
      · exact spec_done
      · apply spec_bind (spec_record (hLog .runner).steady (fun _ => id) (replay_quiet rfl))
        exact fun _ => spec_done

theorem storePublication_spec (publication : AttestedLocalCertificationPublication)
    (publications : List AttestedLocalCertificationPublication) :
    wp (storePublication maxPublications publication) publications
      (fun stored next => stored = publication ∧
        next = if publication ∈ publications then publications else publications ++ [publication])
      (fun _ next => next = publications) := by
  simp only [storePublication, wp_bind, wp_get, wp_ite, wp_throw, wp_modify, wp_pure, true_and, implies_true]
  exact ⟨fun hMem => by rw [if_pos hMem], fun hMem _ => by rw [if_neg hMem]⟩

theorem spec_publish (prepared : PreparedAttestedLocalCertificationPublication) :
    Spec (meaning runnerPolicy policy) thread (fun s => .prepared prepared ∈ s.log)
      (publishAttestedLocalCertification thread maxPublications prepared) (fun _ _ => True) := by
  have hGuarded : ∀ (runner : RunnerState) (certification : CertificationState),
      Persists (meaning runnerPolicy policy) thread Store.destination
        (fun s => (Event.prepared prepared ∈ s.log ∧ Reading thread Store.runner runner s) ∧
          Reading thread Store.certification certification s) := by
    intro runner certification
    refine Persists.and (Persists.and (persists_logged _) ?_) ?_
    · exact persists_reading (by decide)
    · exact persists_reading (by decide)
  have hCommit : ∀ (runner : RunnerState) (certification : CertificationState)
      (publication : AttestedLocalCertificationPublication),
      runner.Current prepared.pending.runner.approved.policy prepared.pending.runner.approved.policyGeneration →
      certification.Current prepared.certified.policy prepared.certified.policyGeneration →
      Spec (meaning runnerPolicy policy) thread
        (fun s => (Event.prepared prepared ∈ s.log ∧ Reading thread Store.runner runner s) ∧
          Reading thread Store.certification certification s)
        (updating thread Store.destination AttestedCertificationPublicationError.storePoisoned
          (storePublication maxPublications publication) fun publication => some (.committed prepared publication))
        (fun _ _ => True) := by
    intro runner certification publication hRunner hCertification
    refine spec_mono (spec_updating (hGuarded runner certification) ?_ ?_) (fun _ => id) fun _ _ _ => trivial
    · intro value error next h
      have hUnchanged := of_exec_error (storePublication_spec publication value) h
      exact hUnchanged
    · rintro s stored next ⟨⟨hPrepared, -, rfl⟩, -, rfl⟩ h
      obtain ⟨rfl, rfl⟩ := of_exec_ok (storePublication_spec publication _) h
      refine ⟨nofun, ?_⟩
      rintro _ ⟨⟩
      exact ⟨⟨⟨hPrepared, hRunner, hCertification⟩, fun _ hOther => replay_other rfl hOther _⟩, rfl⟩
  refine spec_bind (S := fun _ _ => True) ?_ ?_
  · apply spec_commitIfPolicyCurrent (persists_logged _) (fun _ => persists_const True) (fun _ _ _ => trivial)
    intro runner hRunner
    have hOuter : Persists (meaning runnerPolicy policy) thread Store.certification
        (fun s => Event.prepared prepared ∈ s.log ∧ Reading thread Store.runner runner s) :=
      (persists_logged _).and (persists_reading (by decide))
    apply spec_commitIfPolicyCurrent hOuter (fun _ => persists_const True) (fun _ _ _ => trivial)
    intro certification hCertification
    apply spec_bind (spec_instrument (hGuarded runner certification).steady)
    intro now
    cases publicationAt prepared now with
    | error error => exact spec_done
    | ok publication =>
      exact hCommit runner certification publication (verifyState_ok.mp hRunner)
        (verifyState_ok.mp hCertification)
  · rintro (error | error | outcome) <;> exact spec_done

theorem spec_program (call : Call) :
    Spec (meaning runnerPolicy policy) thread (fun _ => True) (call.program sha256 maxPublications thread)
      (fun _ _ => True) := by
  have hReturned : ∀ event, Spec (meaning runnerPolicy policy) thread (fun _ => True) (returned event)
      (fun _ s => event ∈ s.log) := fun event =>
    spec_mono (spec_await (steady_const True)) (fun _ => id) fun _ _ => And.right
  cases call with
  | changeRunnerPolicy change => exact spec_bind (spec_changeRunnerPolicy change) fun _ => spec_done
  | changeCertificationPolicy change => exact spec_bind (spec_changeCertificationPolicy change) fun _ => spec_done
  | approve identity =>
    refine spec_bind (spec_decideOnPolicy ?_ fun _ => replay_quiet rfl) fun _ => spec_done
    exact fun _ _ => verifyState_ok.mp
  | verifyComponents approved inputs =>
    exact spec_bind (hReturned _) fun _ => spec_bind (spec_verifyComponents approved inputs) fun _ => spec_done
  | begin runner semanticReport maximumElapsed challenge =>
    exact spec_bind (hReturned _) fun _ =>
      spec_bind (spec_begin runner semanticReport maximumElapsed challenge) fun _ => spec_done
  | assign verified =>
    refine spec_bind (spec_decideOnPolicy ?_ fun _ => replay_quiet rfl) fun _ => spec_done
    exact fun _ _ => verifyState_ok.mp
  | prepare pending certified =>
    apply spec_bind (hReturned _)
    intro _
    exact spec_bind (spec_await (steady_logged _)) fun _ =>
      spec_bind (spec_prepare pending certified) fun _ => spec_done
  | publish prepared => exact spec_bind (hReturned _) fun _ => spec_bind (spec_publish prepared) fun _ => spec_done

end

/-! ## What coherent logs say -/

section

variable {runnerPolicy : LocalCertificationRunnerPolicy} {policy : LocalCertificationPolicy} {log : List Event}

def LawfulLog (runnerPolicy : LocalCertificationRunnerPolicy) (policy : LocalCertificationPolicy)
    (log : List Event) : Prop :=
  EachAfter (fun front event =>
    Lawful (runnerAfter runnerPolicy front) (certificationAfter policy front) front event) log

theorem LawfulLog.runner_advancing (h : LawfulLog runnerPolicy policy log) :
    Advancing Event.runnerChange? (.new runnerPolicy) log := by
  refine mono h ?_
  intro front event hLawful hChange
  cases event <;> first | exact hLawful | exact absurd rfl hChange

theorem LawfulLog.certification_advancing (h : LawfulLog runnerPolicy policy log) :
    Advancing Event.certificationChange? (.new policy) log := by
  refine mono h ?_
  intro front event hLawful hChange
  cases event <;> first | exact hLawful | exact absurd rfl hChange

variable {prepared : PreparedAttestedLocalCertificationPublication} {back front : List Event}
  {publication : AttestedLocalCertificationPublication}

theorem LawfulLog.issued (h : LawfulLog runnerPolicy policy log) (hPrepared : .prepared prepared ∈ log) :
    .approved prepared.pending.runner.approved ∈ log ∧ .assigned prepared.certified ∈ log := by
  obtain ⟨beforePrepared, _, rfl, hBegan, hAssigned⟩ := of_mem h hPrepared
  obtain ⟨beforeBegan, _, rfl, hVerified⟩ := of_mem (left h) hBegan
  obtain ⟨beforeVerified, _, rfl, hApproved⟩ := of_mem (left (left h)) hVerified
  have hFirst : .approved prepared.pending.runner.approved ∈ beforeVerified := hApproved
  exact ⟨by simp [hFirst], List.mem_append_left _ hAssigned⟩

theorem LawfulLog.committed
    (h : LawfulLog runnerPolicy policy (front ++ .committed prepared publication :: back)) :
    Lawful (runnerAfter runnerPolicy front) (certificationAfter policy front) front (.committed prepared publication) :=
  h front _ back rfl

theorem LawfulLog.approval_spent {change : RunnerChange}
    (h : LawfulLog runnerPolicy policy (front ++ .runnerChanged change :: back))
    {approved : LocallyApprovedCertificationRunner} (hApproved : .approved approved ∈ front)
    (hCommitted : .committed prepared publication ∈ back) : prepared.pending.runner.approved ≠ approved := by
  rintro rfl
  obtain ⟨before, _, _, hBefore, hFront, hLater⟩ := of_mem_around h hApproved hCommitted
  have hSpent := Current.not_after_change (LawfulLog.runner_advancing hFront)
    (Option.some_ne_none change) hBefore
  exact hSpent hLater.2.1

theorem LawfulLog.decision_spent {change : CertificationChange}
    (h : LawfulLog runnerPolicy policy (front ++ .certificationChanged change :: back))
    {certified : LocallyCertifiedArtifacts} (hAssigned : .assigned certified ∈ front)
    (hCommitted : .committed prepared publication ∈ back) : prepared.certified ≠ certified := by
  rintro rfl
  obtain ⟨before, _, _, hBefore, hFront, hLater⟩ := of_mem_around h hAssigned hCommitted
  have hSpent := Current.not_after_change (LawfulLog.certification_advancing hFront)
    (Option.some_ne_none change) hBefore
  exact hSpent hLater.2.2

end

section

variable {τ : Type} [DecidableEq τ] (sha256 : Sha256)
  (runnerPolicy : LocalCertificationRunnerPolicy) (policy : LocalCertificationPolicy) (maxPublications : Nat)

def initially (calls : τ → Call) : Config τ Choice (World τ Content Event) :=
  ⟨fun thread => (calls thread).program sha256 maxPublications thread, World.start (meaning runnerPolicy policy)⟩

theorem publications_commit_under_current_policies (calls : τ → Call) (schedule : List (τ × Choice)) :
    let world := ((initially sha256 runnerPolicy policy maxPublications calls).run schedule).state
    ((world.cells .runner).value = runnerAfter runnerPolicy world.log ∧
      (world.cells .certification).value = certificationAfter policy world.log ∧
      (world.cells .destination).value = world.log.foldl publicationsReplay []) ∧
    (∀ front prepared publication back, world.log = front ++ .committed prepared publication :: back →
      .approved prepared.pending.runner.approved ∈ front ∧ .assigned prepared.certified ∈ front ∧
      (runnerAfter runnerPolicy front).Current prepared.pending.runner.approved.policy
        prepared.pending.runner.approved.policyGeneration ∧
      (certificationAfter policy front).Current prepared.certified.policy prepared.certified.policyGeneration) ∧
    (∀ front change back, world.log = front ++ .runnerChanged change :: back →
      ∀ approved, .approved approved ∈ front → ∀ prepared publication, .committed prepared publication ∈ back →
        prepared.pending.runner.approved ≠ approved) ∧
    (∀ front change back, world.log = front ++ .certificationChanged change :: back →
      ∀ certified, .assigned certified ∈ front → ∀ prepared publication, .committed prepared publication ∈ back →
        prepared.certified ≠ certified) ∧
    (∀ (state : RunnerState) change, u64Max ≤ state.generation.toNat →
      exec (make change) state = (.error .policyGenerationExhausted, state)) ∧
    ∀ (state : CertificationState) change, u64Max ≤ state.generation.toNat →
      exec (make change) state = (.error .policyGenerationExhausted, state) := by
  intro world
  have hCoherent : Coherent (meaning runnerPolicy policy) world :=
    coherent_run (fun thread => spec_program (calls thread)) schedule
  have hLawful : LawfulLog runnerPolicy policy world.log := hCoherent.lawful
  refine ⟨⟨hCoherent.values .runner, hCoherent.values .certification, hCoherent.values .destination⟩,
    ?_, ?_, ?_, ?_, ?_⟩
  · intro front prepared publication back hLog
    rw [hLog] at hLawful
    obtain ⟨hPrepared, hRunner, hCertification⟩ := hLawful.committed
    obtain ⟨hApproved, hAssigned⟩ := LawfulLog.issued (left hLawful) hPrepared
    exact ⟨hApproved, hAssigned, hRunner, hCertification⟩
  · intro front change back hLog approved hApproved prepared publication hCommitted
    rw [hLog] at hLawful
    exact hLawful.approval_spent hApproved hCommitted
  · intro front change back hLog certified hAssigned prepared publication hCommitted
    rw [hLog] at hLawful
    exact hLawful.decision_spent hAssigned hCommitted
  · exact fun state change hLast => make_exhausted hLast change
  · exact fun state change hLast => make_exhausted hLast change

end

namespace Sample

def digest (byte : UInt8) : Sha256Digest := ⟨Vector.replicate 32 byte⟩

def setDigest : Sha256Digest := .ofNat 0x0675be4ed4f6ce5196ab292590e7cc11f19d57f6ff43d412961974638f3628cc

def runnerPolicy : LocalCertificationRunnerPolicy := ⟨digest 1, digest 2⟩

def target : CertificationTarget := ⟨digest 3, digest 3, digest 3, digest 3, digest 3⟩

theorem assignable :
    ¬(CertificationClass.exactCertified = .blocked ∨ CertificationClass.exactCertified = .provisional) := by
  decide

theorem one_ne : (1 : UInt64) ≠ 0 := by decide

theorem fresh : ¬((60000 : UInt64) = 0 ∨ (60000 : UInt64) > maxLocalCertificationRunFreshnessMillis) := by
  decide

def policy : LocalCertificationPolicy := ⟨target, digest 4, digest 5, .exactCertified, digest 6, assignable⟩

def report : CertificationArtifactRef := ⟨.staticAnalysis, digest 7⟩

def approved : LocallyApprovedCertificationRunner := ⟨⟨some (digest 1)⟩, digest 1, runnerPolicy, 1⟩

def verified : VerifiedCertificationRunnerComponents := ⟨approved, digest 8⟩

def pending : PendingLocalCertificationRun := ⟨verified, report, 9, 1000, 60000000000, 60000⟩

def certified : LocallyCertifiedArtifacts :=
  ⟨⟨⟨.exactCertified, some (digest 4)⟩, ⟨.complete, digest 4, target, some (digest 5)⟩, [report], 16⟩, policy, 1⟩

def prepared : PreparedAttestedLocalCertificationPublication :=
  ⟨pending, certified, ⟨target, digest 4, digest 5, setDigest, .exactCertified, digest 6, 1, 1, 16⟩⟩

def calls : Nat → Call
  | 0 => .approve approved.identity
  | 1 => .verifyComponents approved fun _ => some (digest 8)
  | 2 => .begin verified report 60000000000 9
  | 3 => .assign certified.verifiedArtifacts
  | 4 => .prepare pending certified
  | 6 => .changeRunnerPolicy (.replaced runnerPolicy)
  | _ => .publish prepared

def schedule : List (Nat × Choice) := (List.range 8).flatMap fun thread => List.replicate 12 (thread, ⟨false, 1000⟩)

def world : World Nat Content Event :=
  ((initially (fun _ => setDigest) runnerPolicy policy 4 calls).run schedule).state

def front : List Event :=
  [.approved approved, .verified verified, .began pending, .assigned certified, .prepared prepared]

def publication : AttestedLocalCertificationPublication :=
  ⟨⟨⟨9, 60000, 0, fresh, by decide⟩, ⟨digest 1, digest 8, digest 2, 1, one_ne⟩,
    ⟨report, target, digest 4, digest 5, setDigest, .exactCertified, digest 6, 1, 1, 16, assignable, one_ne, by decide,
      by decide⟩⟩, prepared.receipt⟩

theorem sample_publication_current : world.log = front ++ [.committed prepared publication,
          .runnerChanged (.replaced runnerPolicy)] ∧
      (runnerAfter runnerPolicy front).Current runnerPolicy 1 ∧
      (certificationAfter policy front).Current policy 1 := by
  have hLog : world.log = front ++ [.committed prepared publication, .runnerChanged (.replaced runnerPolicy)] := by
    decide +kernel
  obtain ⟨-, hCommitted, -⟩ := publications_commit_under_current_policies (fun _ => setDigest)
    runnerPolicy policy 4 calls schedule
  rw [← world] at hCommitted
  obtain ⟨-, -, hRunner, hCertification⟩ := hCommitted front prepared publication _ hLog
  exact ⟨hLog, hRunner, hCertification⟩

end Sample

end Weregopher.Certification
