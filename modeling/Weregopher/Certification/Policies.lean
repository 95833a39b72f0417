import Weregopher.Certification.Attestation
import Weregopher.Policy.Store

/-! # Local approval, assignment and attested publication

Each call is the program of one thread. What it returns is an event of the log, and a
call that consumes a value waits for it; a value may be consumed more often than the
source allows. Of a document only what the calls read is kept. Instants and durations
are in nanoseconds. Reserving memory is assumed to succeed.
-/
namespace Weregopher.Certification
open Lib.Bytes Lib.Checked Lib.Outcome Lib.Stateful Lib.LockedCells Policy

structure CertificationRunnerIdentity where
  canonicalDocumentDigest : Option CertificationRunnerIdentityDigest
  deriving DecidableEq

structure LocalCertificationRunnerPolicy where
  identityDigest : CertificationRunnerIdentityDigest
  revisionDigest : CertificationRunnerPolicyRevisionDigest
  deriving DecidableEq

inductive CertificationRunnerPolicyError
  | store (reason : PolicyStoreError)
  | identityDigestUnavailable
  | identityDigestMismatch

structure LocallyApprovedCertificationRunner where
  identity : CertificationRunnerIdentity
  identityDigest : CertificationRunnerIdentityDigest
  policy : LocalCertificationRunnerPolicy
  policyGeneration : UInt64
  deriving DecidableEq

structure VerifiedCertificationRunnerComponents where
  approved : LocallyApprovedCertificationRunner
  descriptorSetDigest : CertificationRunnerDescriptorSetDigest
  deriving DecidableEq

inductive CertificationProfileClass
  | structuralVerified
  | smokeVerified
  | contractVerified
  | exactCertified
  deriving DecidableEq

def trustedClassForProfile : CertificationProfileClass → CertificationClass
  | .structuralVerified => .structuralVerified
  | .smokeVerified => .smokeVerified
  | .contractVerified => .contractVerified
  | .exactCertified => .exactCertified

inductive CertificationEvidenceDisposition
  | incomplete
  | blocked
  | complete
  deriving DecidableEq

structure CertificationProfile where
  certificationClass : CertificationProfileClass
  canonicalDocumentDigest : Option CertificationProfileDigest
  deriving DecidableEq

structure CertificationEvidence where
  disposition : CertificationEvidenceDisposition
  profileDigest : CertificationProfileDigest
  target : CertificationTarget
  canonicalDocumentDigest : Option CertificationEvidenceDigest
  deriving DecidableEq

structure VerifiedCertificationArtifacts where
  profile : CertificationProfile
  evidence : CertificationEvidence
  artifacts : List CertificationArtifactRef
  totalBytes : Nat
  deriving DecidableEq

@[ext]
structure LocalCertificationPolicy where
  target : CertificationTarget
  profileDigest : CertificationProfileDigest
  evidenceDigest : CertificationEvidenceDigest
  approvedClass : CertificationClass
  revisionDigest : CertificationPolicyRevisionDigest
  assignable : ¬(approvedClass = .blocked ∨ approvedClass = .provisional)

instance : DecidableEq LocalCertificationPolicy := fun _ _ => decidable_of_iff _ LocalCertificationPolicy.ext_iff.symm

inductive CertificationPolicyError
  | unassignableClass
  | store (reason : PolicyStoreError)
  | evidenceNotComplete
  | profileDigestUnavailable
  | evidenceDigestUnavailable
  | targetMismatch
  | profileDigestMismatch
  | evidenceDigestMismatch
  | classMismatch

def LocalCertificationPolicy.new (target : CertificationTarget) (profileDigest : CertificationProfileDigest)
    (evidenceDigest : CertificationEvidenceDigest) (approvedClass : CertificationClass)
    (revisionDigest : CertificationPolicyRevisionDigest) : Except CertificationPolicyError LocalCertificationPolicy :=
  if h : approvedClass = .blocked ∨ approvedClass = .provisional then .error .unassignableClass
  else .ok ⟨target, profileDigest, evidenceDigest, approvedClass, revisionDigest, h⟩

structure LocallyCertifiedArtifacts where
  verifiedArtifacts : VerifiedCertificationArtifacts
  policy : LocalCertificationPolicy
  policyGeneration : UInt64
  deriving DecidableEq

structure LocalCertificationPublicationReceipt where
  target : CertificationTarget
  profileDigest : CertificationProfileDigest
  evidenceDigest : CertificationEvidenceDigest
  artifactSetDigest : CertificationArtifactSetDigest
  certificationClass : CertificationClass
  policyRevisionDigest : CertificationPolicyRevisionDigest
  policyGeneration : UInt64
  artifactCount : Nat
  totalArtifactBytes : Nat
  deriving DecidableEq

structure PendingLocalCertificationRun where
  runner : VerifiedCertificationRunnerComponents
  semanticReport : CertificationArtifactRef
  challenge : Uuid
  startedAt : Nat
  maximumElapsed : Nat
  maximumElapsedMillis : UInt64
  deriving DecidableEq

structure PreparedAttestedLocalCertificationPublication where
  pending : PendingLocalCertificationRun
  certified : LocallyCertifiedArtifacts
  receipt : LocalCertificationPublicationReceipt
  deriving DecidableEq

structure AttestedLocalCertificationPublication where
  attestation : LocalCertificationRunAttestation
  receipt : LocalCertificationPublicationReceipt
  deriving DecidableEq

inductive CertificationPublicationError
  | artifactCountUnrepresentable
  | policy (source : CertificationPolicyError)

inductive AttestedCertificationPublicationError
  | invalidFreshnessLimit
  | freshnessExpired
  | elapsedDurationUnrepresentable
  | semanticReportMissing
  | artifactCountUnrepresentable
  | artifactBytesUnrepresentable
  | runnerPolicy (source : CertificationRunnerPolicyError)
  | certificationPolicy (source : CertificationPolicyError)
  | publication (source : CertificationPublicationError)
  | attestation (source : CertificationRunAttestationError)
  | storePoisoned
  | storeFull

inductive Store
  | runner
  | certification
  | destination
  deriving DecidableEq

abbrev RunnerState := PolicyState LocalCertificationRunnerPolicy CertificationRunnerPolicyRevocationDigest

abbrev CertificationState := PolicyState LocalCertificationPolicy CertificationPolicyRevocationDigest

abbrev RunnerChange := PolicyChange LocalCertificationRunnerPolicy CertificationRunnerPolicyRevocationDigest

abbrev CertificationChange := PolicyChange LocalCertificationPolicy CertificationPolicyRevocationDigest

abbrev Content : Store → Type
  | .runner => RunnerState
  | .certification => CertificationState
  | .destination => List AttestedLocalCertificationPublication

inductive Event
  | runnerChanged (change : RunnerChange)
  | certificationChanged (change : CertificationChange)
  | approved (runner : LocallyApprovedCertificationRunner)
  | verified (runner : VerifiedCertificationRunnerComponents)
  | began (pending : PendingLocalCertificationRun)
  | assigned (certified : LocallyCertifiedArtifacts)
  | prepared (prepared : PreparedAttestedLocalCertificationPublication)
  | committed (prepared : PreparedAttestedLocalCertificationPublication)
      (publication : AttestedLocalCertificationPublication)
  deriving DecidableEq

variable {τ α : Type} [DecidableEq τ]

abbrev Calls (τ α : Type) := Program τ Content Event α

section

variable (thread : τ)

def changeRunnerPolicy (change : RunnerChange) : Calls τ (Except PolicyStoreError Unit) :=
  updating thread Store.runner .policyStorePoisoned (PolicyState.make change) fun _ => some (.runnerChanged change)

def LocallyApprovedCertificationRunner.commitWhilePolicyCurrent (approved : LocallyApprovedCertificationRunner)
    (commit : Calls τ α) : Calls τ (Except CertificationRunnerPolicyError α) :=
  commitIfPolicyCurrent thread Store.runner .store
    (PolicyState.verifyState · approved.policy approved.policyGeneration) commit

def approveOn (identity : CertificationRunnerIdentity) (snapshot : RunnerState) :
    Except CertificationRunnerPolicyError LocallyApprovedCertificationRunner := do
  if snapshot.revocationEvidenceDigest.isSome then throw (.store .policyRevoked)
  let identityDigest ← okOr .identityDigestUnavailable identity.canonicalDocumentDigest
  if identityDigest ≠ snapshot.policy.identityDigest then throw .identityDigestMismatch
  return ⟨identity, identityDigest, snapshot.policy, snapshot.generation⟩

def approveLocalCertificationRunner (identity : CertificationRunnerIdentity) :
    Calls τ (Except CertificationRunnerPolicyError LocallyApprovedCertificationRunner) :=
  decideOnPolicy thread Store.runner .store (approveOn identity)
    (fun approved state => state.verifyState approved.policy approved.policyGeneration) .approved

/-- The descriptors and artifacts are given by what verifying them yields for an identity. -/
def verifyCertificationRunnerComponents (approved : LocallyApprovedCertificationRunner)
    (verifyComponentInputs : CertificationRunnerIdentity → Option CertificationRunnerDescriptorSetDigest) :
    Calls τ (Option VerifiedCertificationRunnerComponents) := do
  match ← approved.commitWhilePolicyCurrent thread (pure (verifyComponentInputs approved.identity)) with
  | .ok (some descriptorSetDigest) =>
    record (.verified ⟨approved, descriptorSetDigest⟩)
    return some ⟨approved, descriptorSetDigest⟩
  | _ => return none

def freshnessWindow (maximumElapsed : Nat) : Except AttestedCertificationPublicationError UInt64 := do
  let millis := maximumElapsed / 1000000
  if millis > u64Max then throw .invalidFreshnessLimit
  if maximumElapsed = 0 ∨ millis = 0 ∨ maximumElapsed ≠ millis * 1000000 ∨
      maximumElapsed > maxLocalCertificationRunFreshnessMillis.toNat * 1000000 then
    throw .invalidFreshnessLimit
  return UInt64.ofNat millis

def beginLocalCertificationRun (runner : VerifiedCertificationRunnerComponents)
    (semanticReport : CertificationArtifactRef) (maximumElapsed : Nat) (challenge : Uuid) :
    Calls τ (Except AttestedCertificationPublicationError PendingLocalCertificationRun) := do
  match freshnessWindow maximumElapsed with
  | .error error => return .error error
  | .ok maximumElapsedMillis =>
    match ← runner.approved.commitWhilePolicyCurrent thread (pure ()) with
    | .error error => return .error (.runnerPolicy error)
    | .ok () =>
      let startedAt ← instrument
      let pending : PendingLocalCertificationRun :=
        ⟨runner, semanticReport, challenge, startedAt, maximumElapsed, maximumElapsedMillis⟩
      record (.began pending)
      return .ok pending

end

section

variable (thread : τ)

def changeCertificationPolicy (change : CertificationChange) : Calls τ (Except PolicyStoreError Unit) :=
  updating thread Store.certification .policyStorePoisoned (PolicyState.make change) fun _ =>
    some (.certificationChanged change)

def LocallyCertifiedArtifacts.commitWhilePolicyCurrent (certified : LocallyCertifiedArtifacts)
    (commit : Calls τ α) : Calls τ (Except CertificationPolicyError α) :=
  commitIfPolicyCurrent thread Store.certification .store
    (PolicyState.verifyState · certified.policy certified.policyGeneration) commit

def assignOn (verified : VerifiedCertificationArtifacts) (snapshot : CertificationState) :
    Except CertificationPolicyError LocallyCertifiedArtifacts := do
  if snapshot.revocationEvidenceDigest.isSome then throw (.store .policyRevoked)
  if verified.evidence.disposition ≠ .complete then throw .evidenceNotComplete
  let profileDigest ← okOr .profileDigestUnavailable verified.profile.canonicalDocumentDigest
  if profileDigest ≠ snapshot.policy.profileDigest then throw .profileDigestMismatch
  if verified.evidence.profileDigest ≠ profileDigest then throw .profileDigestMismatch
  if verified.evidence.target ≠ snapshot.policy.target then throw .targetMismatch
  let evidenceDigest ← okOr .evidenceDigestUnavailable verified.evidence.canonicalDocumentDigest
  if evidenceDigest ≠ snapshot.policy.evidenceDigest then throw .evidenceDigestMismatch
  if trustedClassForProfile verified.profile.certificationClass ≠ snapshot.policy.approvedClass then
    throw .classMismatch
  return ⟨verified, snapshot.policy, snapshot.generation⟩

def assignLocalCertification (verified : VerifiedCertificationArtifacts) :
    Calls τ (Except CertificationPolicyError LocallyCertifiedArtifacts) :=
  decideOnPolicy thread Store.certification .store (assignOn verified)
    (fun certified state => state.verifyState certified.policy certified.policyGeneration) .assigned

end

def artifactKindTag : CertificationArtifactKind → UInt8
  | .packageIdentity => 0
  | .staticAnalysis => 1
  | .runtimeProbe => 2
  | .rendererProbe => 3
  | .stateProbe => 4
  | .securityProbe => 5
  | .workflowProbe => 6
  | .resourceProbe => 7
  | .helperProbe => 8
  | .exceptionVerification => 9

section

variable (sha256 : Sha256) (thread : τ)

def certificationArtifactSetDigest (verified : VerifiedCertificationArtifacts) :
    Except CertificationPublicationError CertificationArtifactSetDigest := do
  if verified.artifacts.length > u64Max then throw .artifactCountUnrepresentable
  return sha256 (utf8Bytes "weregopher.certification.artifact-set.v1" ++ [0] ++
    toLeBytes 8 verified.artifacts.length ++
    verified.artifacts.flatMap fun reference => artifactKindTag reference.kind :: reference.digest.bytes.toList)

def receiptOf (certified : LocallyCertifiedArtifacts) :
    Except CertificationPublicationError LocalCertificationPublicationReceipt := do
  let artifactSetDigest ← certificationArtifactSetDigest sha256 certified.verifiedArtifacts
  return ⟨certified.policy.target, certified.policy.profileDigest, certified.policy.evidenceDigest, artifactSetDigest,
    certified.policy.approvedClass, certified.policy.revisionDigest, certified.policyGeneration,
    certified.verifiedArtifacts.artifacts.length, certified.verifiedArtifacts.totalBytes⟩

def localCertificationReceipt (certified : LocallyCertifiedArtifacts) :
    Calls τ (Except CertificationPublicationError LocalCertificationPublicationReceipt) := do
  match ← certified.commitWhilePolicyCurrent thread (pure ()) with
  | .error error => return .error (.policy error)
  | .ok () => return receiptOf sha256 certified

def prepareAttestedLocalCertificationPublication (pending : PendingLocalCertificationRun)
    (certified : LocallyCertifiedArtifacts) :
    Calls τ (Except AttestedCertificationPublicationError PreparedAttestedLocalCertificationPublication) := do
  match ← pending.runner.approved.commitWhilePolicyCurrent thread (pure ()) with
  | .error error => return .error (.runnerPolicy error)
  | .ok () =>
    if pending.semanticReport ∉ certified.verifiedArtifacts.artifacts then return .error .semanticReportMissing
    else
      match ← localCertificationReceipt sha256 thread certified with
      | .error error => return .error (.publication error)
      | .ok receipt =>
        record (.prepared ⟨pending, certified, receipt⟩)
        return .ok ⟨pending, certified, receipt⟩

def publicationAt (prepared : PreparedAttestedLocalCertificationPublication) (now : Nat) :
    Except AttestedCertificationPublicationError AttestedLocalCertificationPublication := do
  let pending := prepared.pending
  let receipt := prepared.receipt
  let elapsed := now - pending.startedAt
  if elapsed > pending.maximumElapsed then throw .freshnessExpired
  if elapsed / 1000000 > u64Max then throw .elapsedDurationUnrepresentable
  let freshness ← (CertificationRunFreshness.new pending.challenge pending.maximumElapsedMillis
    (UInt64.ofNat (elapsed / 1000000))).mapError .attestation
  let runner ← (CertificationRunRunnerIdentity.new pending.runner.approved.identityDigest
    pending.runner.descriptorSetDigest pending.runner.approved.policy.revisionDigest
    pending.runner.approved.policyGeneration).mapError .attestation
  if receipt.artifactCount > u32Max then throw .artifactCountUnrepresentable
  if receipt.totalArtifactBytes > u64Max then throw .artifactBytesUnrepresentable
  let result ← (CertificationRunResultIdentity.new pending.semanticReport receipt.target receipt.profileDigest
    receipt.evidenceDigest receipt.artifactSetDigest receipt.certificationClass receipt.policyRevisionDigest
    receipt.policyGeneration (UInt32.ofNat receipt.artifactCount)
    (UInt64.ofNat receipt.totalArtifactBytes)).mapError .attestation
  return ⟨⟨freshness, runner, result⟩, receipt⟩

/-- `commit` of the destination. A pair that is there already converges with it. -/
def storePublication (maxPublications : Nat) (publication : AttestedLocalCertificationPublication) :
    Transition (List AttestedLocalCertificationPublication) AttestedCertificationPublicationError
      AttestedLocalCertificationPublication := do
  let publications ← get
  if publication ∈ publications then return publication
  if publications.length ≥ maxPublications then throw .storeFull
  modify (· ++ [publication])
  return publication

/-- Both policy guards are held until the pair is visible or the commit has failed. -/
def publishAttestedLocalCertification (maxPublications : Nat)
    (prepared : PreparedAttestedLocalCertificationPublication) :
    Calls τ (Except AttestedCertificationPublicationError AttestedLocalCertificationPublication) := do
  let underRunner ← prepared.pending.runner.approved.commitWhilePolicyCurrent thread <|
    prepared.certified.commitWhilePolicyCurrent thread do
      let now ← instrument
      match publicationAt prepared now with
      | .error error => return .error error
      | .ok publication =>
        updating thread Store.destination .storePoisoned
          (storePublication maxPublications publication) fun publication =>
          some (.committed prepared publication)
  match underRunner with
  | .error error => return .error (.runnerPolicy error)
  | .ok (.error error) => return .error (.certificationPolicy error)
  | .ok (.ok outcome) => return outcome

end

inductive Call
  | changeRunnerPolicy (change : RunnerChange)
  | changeCertificationPolicy (change : CertificationChange)
  | approve (identity : CertificationRunnerIdentity)
  | verifyComponents (approved : LocallyApprovedCertificationRunner)
      (verifyComponentInputs : CertificationRunnerIdentity → Option CertificationRunnerDescriptorSetDigest)
  | begin (runner : VerifiedCertificationRunnerComponents) (semanticReport : CertificationArtifactRef)
      (maximumElapsed : Nat) (challenge : Uuid)
  | assign (verified : VerifiedCertificationArtifacts)
  | prepare (pending : PendingLocalCertificationRun) (certified : LocallyCertifiedArtifacts)
  | publish (prepared : PreparedAttestedLocalCertificationPublication)

def returned (event : Event) : Calls τ Unit := await fun log => decide (event ∈ log)

def Call.program (sha256 : Sha256) (maxPublications : Nat) (thread : τ) : Call → Calls τ Unit
  | changeRunnerPolicy change => do
    let _ ← Certification.changeRunnerPolicy thread change
  | changeCertificationPolicy change => do
    let _ ← Certification.changeCertificationPolicy thread change
  | approve identity => do
    let _ ← approveLocalCertificationRunner thread identity
  | verifyComponents approved verifyComponentInputs => do
    returned (.approved approved)
    let _ ← verifyCertificationRunnerComponents thread approved verifyComponentInputs
  | begin runner semanticReport maximumElapsed challenge => do
    returned (.verified runner)
    let _ ← beginLocalCertificationRun thread runner semanticReport maximumElapsed challenge
  | assign verified => do
    let _ ← assignLocalCertification thread verified
  | prepare pending certified => do
    returned (.began pending)
    returned (.assigned certified)
    let _ ← prepareAttestedLocalCertificationPublication sha256 thread pending certified
  | publish prepared => do
    returned (.prepared prepared)
    let _ ← publishAttestedLocalCertification thread maxPublications prepared

end Weregopher.Certification
