import Weregopher.Execution.Authorization

/-! # Processes are started under the policy that pins them

The log alone says what the store holds. An authorisation is decided on a state that
the store has held, and a generation stands for one state, so the check of the
generation under the guard of the launch brings back every pin of that state.
-/
namespace Weregopher.Execution
open Lib Lib.Checked Lib.Interleaving Lib.LockedCells Lib.Outcome Policy Windows PolicyState

variable {sha256 : Sha256}

namespace ExecutionAuthorizationRequest

def authorityPins (request : ExecutionAuthorizationRequest sha256) : ExecutionAuthorityPins :=
  let authority := request.structuralOverlay.authority
  ⟨authority.adapterId, authority.family, authority.adapterContentDigest, authority.canonicalDocumentDigest sha256⟩

def contextPins (request : ExecutionAuthorizationRequest sha256) : ExecutionContextPins :=
  let binding := request.structuralOverlay.overlay.binding
  ⟨binding.sourceBuildFingerprintDigest, binding.packageTreeMerkle, binding.executionEnvironmentDigest,
    binding.buildDescriptorDigest⟩

end ExecutionAuthorizationRequest

/-- Every document and every piece of evidence behind a request is the one that the policy names. -/
structure Pinned (policy : LocalExecutionPolicy) (request : ExecutionAuthorizationRequest sha256) : Prop where
  authority : request.authorityPins = policy.authority
  context : request.contextPins = policy.context
  targetId : request.targetContract.targetId = policy.target.targetId
  targetContract : request.targetContract.canonicalDocumentDigest = some policy.target.targetContractDigest
  resolutionEvidence : request.resolutionEvidence.canonicalDocumentDigest = some policy.target.resolutionEvidenceDigest
  compatibility : request.compatibilityAnalysis.canonicalDigest = some policy.target.compatibilityAnalysisDigest
  artifactTrust : sha256 request.policyEvidence.artifactTrust = policy.target.artifactTrustEvidenceDigest
  provenance : sha256 request.policyEvidence.provenance = policy.target.provenanceEvidenceDigest
  capabilityPolicy : sha256 request.policyEvidence.capabilityPolicy = policy.target.capabilityPolicyDigest
  statePolicy : sha256 request.policyEvidence.statePolicy = policy.target.statePolicyDigest
  userPolicy : sha256 request.policyEvidence.userPolicy = policy.target.userPolicyDigest

def Authorizes (request : ExecutionAuthorizationRequest sha256) (state : ExecutionPolicyState)
    (authorization : AuthorizedExecution) : Prop :=
  ∃ validated, validateOn sha256 request state = .ok validated ∧
    issue sha256 request state validated = .ok authorization

section

variable {request : ExecutionAuthorizationRequest sha256} {policy : LocalExecutionPolicy}
  {state : ExecutionPolicyState} {authorization : AuthorizedExecution}

theorem validateExecutionBindings_ok {bindings : ValidatedExecutionBindings}
    (h : validateExecutionBindings sha256 policy request.structuralOverlay request.targetContract
      request.resolutionEvidence = .ok bindings) :
    request.authorityPins = policy.authority ∧ request.contextPins = policy.context ∧
      request.targetContract.targetId = policy.target.targetId ∧
      request.targetContract.canonicalDocumentDigest = some policy.target.targetContractDigest ∧
      request.resolutionEvidence.canonicalDocumentDigest = some policy.target.resolutionEvidenceDigest ∧
      bindings.executableDigest = request.resolutionEvidence.digests.executableDigest := by
  simp only [validateExecutionBindings, guard_ok, bind_ok, okOr_ok, pure_ok, not_or, not_not] at h
  obtain ⟨⟨hAdapter, hFamily, hContent⟩, hDocument, hSource, hPackage, hEnvironment, hBuild, hTarget, _, -, _, -,
    contractDigest, hContract, ⟨rfl, -⟩, -, -, resolutionDigest, hResolution, ⟨rfl, -⟩, -, -, -, -, -, rfl⟩ := h
  refine ⟨?_, ?_, hTarget, hContract, hResolution, rfl⟩
  · rw [ExecutionAuthorizationRequest.authorityPins, hAdapter, hFamily, hContent, hDocument]
  · rw [ExecutionAuthorizationRequest.contextPins, hSource, hPackage, hEnvironment, hBuild]

variable {evidence : ExecutionPolicyEvidence} {limits : ExecutionAuthorizationLimits} {validated : ValidatedExecution}

theorem hashPolicyEvidence_ok
    {digests : PolicyEvidenceDigests} (h : hashPolicyEvidence sha256 evidence limits = .ok digests) :
    digests = ⟨sha256 evidence.artifactTrust, sha256 evidence.provenance, sha256 evidence.capabilityPolicy,
      sha256 evidence.statePolicy, sha256 evidence.userPolicy⟩ := by
  rw [hashPolicyEvidence, bind_ok] at h
  obtain ⟨total, -, hDigests⟩ := h
  exact (pure_ok.mp hDigests).symm

theorem validatePolicyEvidence_ok {overlay : GeneratedExecutionOverlay} {resolution : ExecutionResolutionEvidence}
    {compatibility : CompatibilityAnalysis} {launchPolicy : ExecutionLaunchPolicy}
    {result : PolicyEvidenceDigests × CompatibilityAnalysisDigest}
    (h : validatePolicyEvidence sha256 policy overlay resolution compatibility launchPolicy evidence limits =
      .ok result) :
    compatibility.canonicalDigest = some policy.target.compatibilityAnalysisDigest ∧
      sha256 evidence.artifactTrust = policy.target.artifactTrustEvidenceDigest ∧
      sha256 evidence.provenance = policy.target.provenanceEvidenceDigest ∧
      sha256 evidence.capabilityPolicy = policy.target.capabilityPolicyDigest ∧
      sha256 evidence.statePolicy = policy.target.statePolicyDigest ∧
      sha256 evidence.userPolicy = policy.target.userPolicyDigest := by
  simp only [validatePolicyEvidence, guard_ok, bind_ok, okOr_ok, pure_ok, not_or, not_not] at h
  obtain ⟨digests, hDigests, ⟨-, hTrust⟩, ⟨-, hProvenance⟩, compatibilityDigest, hCompatibility, rfl, -, -, -,
    ⟨-, hCapability⟩, ⟨-, hState⟩, hUser, -⟩ := h
  obtain rfl := hashPolicyEvidence_ok hDigests
  exact ⟨hCompatibility, hTrust, hProvenance, hCapability, hState, hUser⟩

theorem validateOn_ok (h : validateOn sha256 request state = .ok validated) :
    Pinned state.policy request ∧
      request.retainedArtifact.executableDigest = request.resolutionEvidence.digests.executableDigest := by
  simp only [validateOn, guard_ok, bind_ok, pure_ok, not_not] at h
  obtain ⟨-, bindings, hBindings, evidence, hEvidence, -, -, -, hExecutable, -⟩ := h
  obtain ⟨hAuthority, hContext, hTarget, hContract, hResolution, hNamed⟩ := validateExecutionBindings_ok hBindings
  obtain ⟨hCompatibility, hTrust, hProvenance, hCapability, hState, hUser⟩ := validatePolicyEvidence_ok hEvidence
  exact ⟨⟨hAuthority, hContext, hTarget, hContract, hResolution, hCompatibility, hTrust, hProvenance, hCapability,
    hState, hUser⟩, hExecutable.trans hNamed⟩

theorem issue_ok (h : issue sha256 request state validated = .ok authorization) :
    authorization.policyGeneration = state.generation ∧ authorization.retainedArtifact = request.retainedArtifact := by
  simp only [issue, bind_ok, pure_ok] at h
  obtain ⟨contextDigest, -, rfl⟩ := h
  exact ⟨rfl, rfl⟩

end

def Event.change? : Event sha256 → Option (PolicyChange LocalExecutionPolicy Sha256Digest)
  | .changed change => some change
  | _ => none

def policyAfter (policy : LocalExecutionPolicy) (log : List (Event sha256)) : ExecutionPolicyState :=
  afterLog Event.change? (.new policy) log

/-- The process is what the authorisation says, under an identifier that Windows chose. -/
def StartedFrom (authorization : AuthorizedExecution) (execution : SupervisedExecution) : Prop :=
  ∃ processId, execution = superviseProcess authorization
    ⟨authorization.preparedLaunch.jobLimits, processId, authorization.retainedArtifact.locked⟩

/-- When an event may happen, given what the store holds. -/
def Lawful (policy : LocalExecutionPolicy) (state : ExecutionPolicyState) (log : List (Event sha256)) :
    Event sha256 → Prop
  | .changed _ => state.generation.toNat < u64Max
  | .authorized request authorization =>
    ∃ earlier, earlier <+: log ∧ Authorizes request (policyAfter policy earlier) authorization
  | .started authorization execution =>
    (∃ request, .authorized request authorization ∈ log) ∧
      state.verifyGeneration authorization.policyGeneration = .ok () ∧ StartedFrom authorization execution

def meaning (sha256 : Sha256) (policy : LocalExecutionPolicy) : Meaning Content (Event sha256) where
  initial _ := .new policy
  replay _ := replay Event.change?
  lawful values := Lawful policy (values ())

section

variable {τ : Type} {thread : τ} {policy : LocalExecutionPolicy}

theorem spec_launchPrepared {request : ExecutionAuthorizationRequest sha256} {authorization : AuthorizedExecution}
    {state : ExecutionPolicyState} (hVerify : state.verifyGeneration authorization.policyGeneration = .ok ()) :
    Spec (meaning sha256 policy) thread
      (fun s => .authorized request authorization ∈ s.log ∧ Reading thread () state s) (launchPrepared authorization)
      (fun _ _ => True) := by
  have hGuarded : Steady (meaning sha256 policy) thread
      (fun s => Event.authorized request authorization ∈ s.log ∧ Reading thread () state s) :=
    (steady_logged _).and (steady_reading (V := Content) () state)
  dsimp only [launchPrepared]
  split
  · exact spec_done
  · apply spec_bind (spec_available hGuarded)
    rintro (_ | _)
    · exact spec_done
    · apply spec_bind (spec_instrument hGuarded)
      intro processId
      refine spec_bind (spec_record hGuarded ?_ fun _ _ => rfl) fun _ => spec_done
      rintro s ⟨hAuthorized, -, rfl⟩
      exact ⟨⟨request, hAuthorized⟩, hVerify, UInt32.ofNat processId, rfl⟩

variable [DecidableEq τ]

theorem spec_changePolicy (change : PolicyChange LocalExecutionPolicy Sha256Digest) :
    Spec (meaning sha256 policy) thread (fun _ => True) (changePolicy thread change) (fun _ _ => True) := by
  apply spec_updating_event fun _ _ _ h => (make_error h).2.2
  intro s _ next h
  obtain ⟨hRoom, rfl⟩ := make_ok h
  exact ⟨⟨hRoom, fun _ hOther => absurd rfl hOther⟩, rfl⟩

theorem spec_authorizeExecution (request : ExecutionAuthorizationRequest sha256) :
    Spec (meaning sha256 policy) thread (fun _ => True) (authorizeExecution thread request) (fun _ _ => True) := by
  apply spec_bind (spec_snapshot_seen (persists_const True))
  rintro (error | snapshot)
  · exact spec_done
  · dsimp only
    cases hValidate : validateOn sha256 request snapshot with
    | error error => exact spec_done
    | ok validated =>
      -- what the snapshot showed is all that has to be carried to the end of the call
      refine spec_mono (P := Seen (meaning sha256 policy) () snapshot) (Q := fun _ _ => True) ?_
        (fun s hs => hs.2 snapshot rfl) fun _ _ => id
      have hSeen : Persists (meaning sha256 policy) thread () (Seen (meaning sha256 policy) () snapshot) :=
        persists_seen snapshot
      apply spec_bind (spec_available hSeen.steady)
      intro current
      cases current with
      | false => exact spec_done
      | true =>
        have hVerify : Spec (meaning sha256 policy) thread (Seen (meaning sha256 policy) () snapshot)
            (verifyPolicyGeneration thread snapshot.generation) (fun _ => Seen (meaning sha256 policy) () snapshot) :=
          spec_reading hSeen (fun _ => hSeen) (fun _ => id) fun _ => spec_pure hSeen.steady fun _ => And.left
        apply spec_bind hVerify
        rintro (error | _)
        · exact spec_done
        · dsimp only
          cases hIssue : issue sha256 request snapshot validated with
          | error error => exact spec_done
          | ok authorization =>
            refine spec_bind (spec_record hSeen.steady ?_ ?_) fun _ => spec_done
            · rintro s ⟨earlier, hEarlier, hState⟩
              have hState : policyAfter policy earlier = snapshot := hState
              exact ⟨earlier, hEarlier, validated, hState.symm ▸ hValidate, hState.symm ▸ hIssue⟩
            · exact fun _ _ => rfl

theorem spec_launchAuthorizedExecution (request : ExecutionAuthorizationRequest sha256)
    (authorization : AuthorizedExecution) :
    Spec (meaning sha256 policy) thread (fun s => .authorized request authorization ∈ s.log)
      (launchAuthorizedExecution thread authorization) (fun _ _ => True) := by
  refine spec_bind (S := fun _ _ => True) ?_ fun outcome => ?_
  · apply spec_commitIfPolicyCurrent (persists_logged _) (fun _ => persists_const True) (fun _ _ _ => trivial)
    intro state hVerify
    have hGuarded : Steady (meaning sha256 policy) thread
        (fun s => Event.authorized request authorization ∈ s.log ∧ Reading thread () state s) :=
      (steady_logged _).and (steady_reading () state)
    apply spec_bind (spec_available hGuarded)
    rintro (_ | _)
    · exact spec_done
    · apply spec_bind (spec_available hGuarded)
      rintro (_ | _)
      · exact spec_done
      · exact spec_launchPrepared hVerify
  · cases outcome <;> exact spec_done

theorem spec_program (call : Call sha256) :
    Spec (meaning sha256 policy) thread (fun _ => True) (call.program thread) (fun _ _ => True) := by
  cases call with
  | changePolicy change => exact spec_bind (spec_changePolicy change) fun _ => spec_done
  | authorize request => exact spec_bind (spec_authorizeExecution request) fun _ => spec_done
  | launch request authorization =>
    apply spec_bind (spec_await (steady_const True))
    intro _
    refine spec_bind (spec_mono (spec_launchAuthorizedExecution request authorization) (fun _ => And.right)
      fun _ _ => id) fun _ => spec_done

end

/-! ## What coherent logs say -/

section

variable {policy : LocalExecutionPolicy} {log front back : List (Event sha256)}
  {request : ExecutionAuthorizationRequest sha256} {authorization : AuthorizedExecution}
  {execution : SupervisedExecution}

def LawfulLog (policy : LocalExecutionPolicy) (log : List (Event sha256)) : Prop :=
  EachAfter (fun front event => Lawful policy (policyAfter policy front) front event) log

theorem LawfulLog.advancing (h : LawfulLog policy log) : Advancing Event.change? (.new policy) log := by
  refine EachAfter.mono h ?_
  intro front event hLawful hChange
  cases event <;> first | exact hLawful | exact absurd rfl hChange

theorem LawfulLog.started (h : LawfulLog policy (front ++ .started authorization execution :: back)) :
    Lawful policy (policyAfter policy front) front (.started authorization execution) :=
  h front _ back rfl

theorem LawfulLog.authorized (h : LawfulLog policy log) (hMem : .authorized request authorization ∈ log) :
    ∃ earlier, earlier <+: log ∧ Authorizes request (policyAfter policy earlier) authorization := by
  obtain ⟨before, after, rfl, earlier, hEarlier, hDecided⟩ := EachAfter.of_mem h hMem
  exact ⟨earlier, hEarlier.trans (List.prefix_append _ _), hDecided⟩

theorem LawfulLog.pinned (h : LawfulLog policy log) (hMem : .authorized request authorization ∈ log)
    (hGeneration : (policyAfter policy log).generation = authorization.policyGeneration) :
    Pinned (policyAfter policy log).policy request ∧ authorization.retainedArtifact = request.retainedArtifact ∧
      authorization.retainedArtifact.executableDigest = request.resolutionEvidence.digests.executableDigest := by
  obtain ⟨earlier, hEarlier, validated, hValidate, hIssue⟩ := h.authorized hMem
  obtain ⟨hIssued, hArtifact⟩ := issue_ok hIssue
  have hSame : policyAfter policy log = policyAfter policy earlier :=
    afterLog_eq_of_generation_eq h.advancing hEarlier (hIssued.symm.trans hGeneration.symm)
  obtain ⟨hPinned, hExecutable⟩ := validateOn_ok hValidate
  rw [hSame]
  exact ⟨hPinned, hArtifact, hArtifact.symm ▸ hExecutable⟩

theorem LawfulLog.spent {change : PolicyChange LocalExecutionPolicy Sha256Digest}
    (h : LawfulLog policy (front ++ .changed change :: back)) (hMem : .authorized request authorization ∈ front) :
    .started authorization execution ∉ back := by
  intro hStarted
  obtain ⟨between, rest, rfl⟩ := List.append_of_mem hStarted
  obtain ⟨earlier, ⟨later, rfl⟩, validated, -, hIssue⟩ := LawfulLog.authorized (EachAfter.left h) hMem
  have hSplit : earlier ++ later ++ .changed change :: (between ++ .started authorization execution :: rest) =
      (earlier ++ (later ++ .changed change :: between)) ++ .started authorization execution :: rest := by simp
  rw [hSplit] at h
  obtain ⟨hGeneration, -⟩ := verifyGeneration_ok.mp h.started.2.1
  have hUnchanged := unchanged_of_generation_eq (LawfulLog.advancing (EachAfter.left h))
    ((issue_ok hIssue).1.symm.trans hGeneration.symm)
  exact Option.some_ne_none change (hUnchanged (.changed change) (by simp))

end

section

variable {τ : Type} [DecidableEq τ] (policy : LocalExecutionPolicy)

def initially (calls : τ → Call sha256) : Config τ Choice (World τ Content (Event sha256)) :=
  ⟨fun thread => (calls thread).program thread, World.start (meaning sha256 policy)⟩

theorem processes_start_under_their_policy (calls : τ → Call sha256) (schedule : List (τ × Choice)) :
    let world := ((initially policy calls).run schedule).state
    (world.cells ()).value = policyAfter policy world.log ∧
    (∀ front authorization execution back, world.log = front ++ .started authorization execution :: back →
      (policyAfter policy front).generation = authorization.policyGeneration ∧
      (policyAfter policy front).revocationEvidenceDigest = none ∧
      StartedFrom authorization execution ∧
      (∃ request, .authorized request authorization ∈ front) ∧
      ∀ request, .authorized request authorization ∈ front →
        Pinned (policyAfter policy front).policy request ∧
        authorization.retainedArtifact = request.retainedArtifact ∧
        authorization.retainedArtifact.executableDigest = request.resolutionEvidence.digests.executableDigest) ∧
    ∀ front change back, world.log = front ++ .changed change :: back →
      ∀ request authorization, .authorized request authorization ∈ front →
        ∀ execution, .started authorization execution ∉ back := by
  intro world
  have hCoherent : Coherent (meaning sha256 policy) world :=
    coherent_run (fun thread => spec_program (calls thread)) schedule
  have hLawful : LawfulLog policy world.log := hCoherent.lawful
  refine ⟨hCoherent.values (), ?_, ?_⟩
  · intro front authorization execution back hLog
    rw [hLog] at hLawful
    obtain ⟨hAuthorized, hVerify, hStarted⟩ := hLawful.started
    obtain ⟨hGeneration, hRevoked⟩ := verifyGeneration_ok.mp hVerify
    refine ⟨hGeneration, hRevoked, hStarted, hAuthorized, ?_⟩
    exact fun request hMem => LawfulLog.pinned (EachAfter.left hLawful) hMem hGeneration
  · intro front change back hLog request authorization hMem execution
    rw [hLog] at hLawful
    exact hLawful.spent hMem

end

namespace Sample

def digest (byte : UInt8) : Sha256Digest := ⟨Vector.replicate 32 byte⟩

def emptyDigest : Sha256Digest :=
  ⟨⟨#[227, 176, 196, 66, 152, 252, 28, 20, 154, 251, 244, 200, 153, 111, 185, 36,
    39, 174, 65, 228, 100, 155, 147, 76, 164, 149, 153, 27, 120, 82, 184, 85], rfl⟩⟩

def authorityDigest : Sha256Digest :=
  ⟨⟨#[12, 188, 135, 199, 32, 79, 212, 67, 61, 16, 87, 139, 12, 179, 5, 158,
    244, 5, 54, 129, 98, 121, 224, 29, 149, 82, 148, 175, 150, 191, 200, 81], rfl⟩⟩

def contextDigest : Sha256Digest :=
  ⟨⟨#[229, 81, 210, 26, 244, 103, 103, 70, 181, 2, 251, 12, 77, 47, 13, 144,
    83, 26, 171, 70, 189, 60, 176, 186, 51, 153, 255, 131, 233, 111, 131, 237], rfl⟩⟩

/-- SHA-256 where the sample uses it: on no bytes, on the authority document and on the authorisation context. -/
def hash (bytes : List UInt8) : Sha256Digest :=
  if bytes = [] then emptyDigest else if bytes.head? = some 123 then authorityDigest else contextDigest

def adapterId : AdapterId := ⟨"openai", by decide⟩

def family : ApplicationFamilyId := ⟨"openai.chatgpt", by decide⟩

def targetId : ExecutionTargetId := ⟨"codex", by decide⟩

def authority : AdapterExecutionAuthority :=
  ⟨adapterId, family, digest 1, [(targetId, ⟨.vendorHelper, .managedArtifact, digest 2⟩)]⟩

def overlay : GeneratedExecutionOverlay :=
  ⟨⟨digest 3, digest 4, digest 5, ⟨family, adapterId, digest 1, authorityDigest⟩, digest 6⟩,
    [(targetId, ⟨digest 2, digest 7, digest 8, digest 9⟩)]⟩

def launchPolicy : ExecutionLaunchPolicy :=
  ⟨["app-server"], .empty, .none, .none, .executableParent, .vendorDefaultAmbient, .vendorEquivalentFullTrust,
    .vendorDefault, ⟨1, 4096, 4096, by decide, by decide⟩, ⟨emptyDigest, emptyDigest⟩⟩

def executable : LockedExecutable := ⟨encodeWide "C:\\codex.exe", some (encodeWide "C:\\"), ⟨1, 2⟩, 3⟩

def request : ExecutionAuthorizationRequest hash where
  structuralOverlay := ⟨overlay, authority, ⟨digest 3, digest 4, digest 5, digest 6⟩, by decide +kernel⟩
  targetContract := ⟨targetId, .vendorHelper, .managedArtifact (digest 8), launchPolicy, some (digest 2)⟩
  resolutionEvidence := ⟨targetId, .managedArtifact (digest 8),
    ⟨digest 2, digest 7, digest 8, emptyDigest, emptyDigest⟩, some (digest 9), by decide⟩
  compatibilityAnalysis := ⟨.complete, digest 3, digest 5, some (digest 10)⟩
  policyEvidence := ⟨[], [], [], [], []⟩
  retainedArtifact := .managedArtifact (digest 7) (digest 8) executable
  limits := ⟨1, 1, by decide, by decide⟩

def policy : LocalExecutionPolicy :=
  ⟨.locallyTrusted, ⟨adapterId, family, digest 1, authorityDigest⟩, ⟨digest 3, digest 4, digest 5, digest 6⟩,
    ⟨targetId, digest 2, digest 9, emptyDigest, emptyDigest, digest 10, emptyDigest, emptyDigest, emptyDigest,
      .vendorEquivalentFullTrust, .vendorDefault⟩, digest 11, rfl, .inl rfl⟩

def authorization : AuthorizedExecution :=
  ⟨targetId, .locallyTrusted, .vendorEquivalentFullTrust, launchPolicy, contextDigest, 1,
    ⟨⟨1, 4096, 4096⟩, ⟨executable.path, ⟨1, 2⟩, 3, executable.path ++ [0], encodeWide "C:\\" ++ [0],
      encodeWide "C:\\codex.exe app-server" ++ [0], [0, 0]⟩⟩, request.retainedArtifact⟩

def execution : SupervisedExecution := superviseProcess authorization ⟨⟨1, 4096, 4096⟩, 4321, executable⟩

def calls : Nat → Call hash
  | 0 => .authorize request
  | 2 => .changePolicy (.replaced policy)
  | _ => .launch request authorization

def schedule : List (Nat × Choice) := (List.range 4).flatMap fun thread => List.replicate 10 (thread, ⟨false, 4321⟩)

def world : World Nat Content (Event hash) := ((initially policy calls).run schedule).state

theorem sample_process_pinned : world.log = [.authorized request authorization,
        .started authorization execution, .changed (.replaced policy)] ∧
      Pinned (policyAfter policy [.authorized request authorization]).policy request := by
  have hLog : world.log = [.authorized request authorization] ++
      .started authorization execution :: [.changed (.replaced policy)] := by
    decide +kernel
  obtain ⟨-, hStarted, -⟩ := processes_start_under_their_policy policy calls schedule
  rw [← world] at hStarted
  obtain ⟨-, -, -, -, hPinned⟩ := hStarted _ authorization execution _ hLog
  exact ⟨hLog, (hPinned request List.mem_cons_self).1⟩

end Sample

end Weregopher.Execution
