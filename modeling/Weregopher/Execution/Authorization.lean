import Weregopher.Execution.Target
import Weregopher.Policy.Store
import Weregopher.Windows.Launch

/-! # Live authorisation and launch of one execution target

Each call is the program of one thread on one policy store. A launch waits for the
authorisation it consumes, which may be consumed more often than the source allows.
The scheduler decides whether a retained view is current and whether Windows creates
a job or a process.
-/
namespace Weregopher.Execution
open Lib.Bytes Lib.Checked Lib.LockedCells Lib.Outcome Policy Windows

structure ExecutionAuthorityPins where
  adapterId : AdapterId
  family : ApplicationFamilyId
  (adapterContentDigest authorityDocumentDigest : Sha256Digest)
  deriving DecidableEq

structure ExecutionContextPins where
  sourceBuildFingerprintDigest : Sha256Digest
  (packageTreeMerkle executionEnvironmentDigest buildDescriptorDigest : Sha256Digest)
  deriving DecidableEq

structure ExecutionTargetPins where
  targetId : ExecutionTargetId
  targetContractDigest : ExecutionContractDigest
  resolutionEvidenceDigest : ExecutionResolutionEvidenceDigest
  artifactTrustEvidenceDigest : ArtifactTrustEvidenceDigest
  provenanceEvidenceDigest : ProvenanceEvidenceDigest
  compatibilityAnalysisDigest : CompatibilityAnalysisDigest
  capabilityPolicyDigest : CapabilityPolicyDigest
  statePolicyDigest : StatePolicyDigest
  userPolicyDigest : UserPolicyDigest
  securityPosture : EffectiveSecurityPosture
  stateMode : ExecutionStateMode
  deriving DecidableEq

inductive TrustMode
  | registryTrusted
  | locallyTrusted
  | developer
  | forensicOverride
  deriving DecidableEq

inductive ExecutionAuthorizationError
  | invalidLimits
  | evidenceLimitsExceedImplementationMaximum
  | evidenceByteLimitExceeded
  | evidenceByteCountOverflow
  | aggregateEvidenceByteLimitExceeded
  | unsupportedTrustMode
  | unsupportedSecurityPosture
  | unsupportedLaunchSemantics
  | unsupportedStateMode
  | unsupportedDependencyPolicy
  | unrepresentableLaunch
  | unrepresentableResourceLimits
  | developerModeRequiresDisposableState
  | store (reason : PolicyStoreError)
  | authorityIdentityMismatch
  | authorityDigestMismatch
  | sourceBuildContextMismatch
  | packageTreeContextMismatch
  | executionEnvironmentContextMismatch
  | buildDescriptorContextMismatch
  | targetPolicyMismatch
  | unknownTarget
  | targetContractDigestMismatch
  | targetKindMismatch
  | artifactSourceMismatch
  | resolutionEvidenceDigestMismatch
  | resolutionTargetMismatch
  | resolutionLocatorMismatch
  | resolutionContractMismatch
  | resolutionArtifactSourceMismatch
  | resolutionExecutableMismatch
  | artifactTrustEvidenceMismatch
  | provenanceEvidenceMismatch
  | compatibilityDigestMismatch
  | compatibilityDenied
  | compatibilitySourceMismatch
  | compatibilityEnvironmentMismatch
  | capabilityPolicyMismatch
  | statePolicyMismatch
  | userPolicyMismatch
  | securityPostureMismatch
  | stateModeMismatch
  | retainedArtifactSourceMismatch
  | retainedArtifactLocatorMismatch
  | retainedArtifactSourceDigestMismatch
  | retainedExecutableDigestMismatch
  | retainedArtifactCurrentViewInvalid
  | canonicalSerializationFailed
  | authorizationContextEncodingFailed

structure LocalExecutionPolicy where
  trustMode : TrustMode
  authority : ExecutionAuthorityPins
  context : ExecutionContextPins
  target : ExecutionTargetPins
  revisionDigest : Sha256Digest
  posture : target.securityPosture = .vendorEquivalentFullTrust
  trusted : trustMode = .locallyTrusted ∨ (trustMode = .developer ∧ target.stateMode = .disposable)
  deriving DecidableEq

def LocalExecutionPolicy.new (trustMode : TrustMode) (authority : ExecutionAuthorityPins)
    (context : ExecutionContextPins) (target : ExecutionTargetPins) (revisionDigest : Sha256Digest) :
    Except ExecutionAuthorizationError LocalExecutionPolicy :=
  if hPosture : target.securityPosture = .vendorEquivalentFullTrust then
    match trustMode with
    | .locallyTrusted => .ok ⟨.locallyTrusted, authority, context, target, revisionDigest, hPosture, .inl rfl⟩
    | .developer =>
      if hState : target.stateMode = .disposable then
        .ok ⟨.developer, authority, context, target, revisionDigest, hPosture, .inr ⟨rfl, hState⟩⟩
      else .error .developerModeRequiresDisposableState
    | .registryTrusted | .forensicOverride => .error .unsupportedTrustMode
  else .error .unsupportedSecurityPosture

def maxExecutionPolicyEvidenceBytes : Nat := 1024 * 1024

def maxTotalExecutionPolicyEvidenceBytes : Nat := 4 * 1024 * 1024

structure ExecutionAuthorizationLimits where
  maxEvidenceBytes : Nat
  maxTotalEvidenceBytes : Nat
  nonzero : ¬(maxEvidenceBytes = 0 ∨ maxTotalEvidenceBytes = 0)
  bounded : ¬(maxEvidenceBytes > maxExecutionPolicyEvidenceBytes ∨
    maxTotalEvidenceBytes > maxTotalExecutionPolicyEvidenceBytes)
  deriving DecidableEq

def ExecutionAuthorizationLimits.new (maxEvidenceBytes maxTotalEvidenceBytes : Nat) :
    Except ExecutionAuthorizationError ExecutionAuthorizationLimits :=
  if hZero : maxEvidenceBytes = 0 ∨ maxTotalEvidenceBytes = 0 then .error .invalidLimits
  else if hBound : maxEvidenceBytes > maxExecutionPolicyEvidenceBytes ∨
      maxTotalEvidenceBytes > maxTotalExecutionPolicyEvidenceBytes then
    .error .evidenceLimitsExceedImplementationMaximum
  else .ok ⟨maxEvidenceBytes, maxTotalEvidenceBytes, hZero, hBound⟩

structure ExecutionPolicyEvidence where
  (artifactTrust provenance capabilityPolicy statePolicy userPolicy : List UInt8)
  deriving DecidableEq

inductive RetainedExecutionArtifact
  | packageSnapshot (packageTreeMerkle : Sha256Digest) (normalizedPath : String) (digest : Sha256Digest)
      (locked : LockedExecutable)
  | managedArtifact (manifestDigest digest : Sha256Digest) (locked : LockedExecutable)
  deriving DecidableEq

namespace RetainedExecutionArtifact

def source : RetainedExecutionArtifact → ExecutionArtifactSource
  | packageSnapshot .. => .packageSnapshot
  | managedArtifact .. => .managedArtifact

def sourceDigest : RetainedExecutionArtifact → Sha256Digest
  | packageSnapshot packageTreeMerkle _ _ _ => packageTreeMerkle
  | managedArtifact manifestDigest _ _ => manifestDigest

def executableDigest : RetainedExecutionArtifact → Sha256Digest
  | packageSnapshot _ _ digest _ => digest
  | managedArtifact _ digest _ => digest

def locked : RetainedExecutionArtifact → LockedExecutable
  | packageSnapshot _ _ _ locked => locked
  | managedArtifact _ _ locked => locked

def matchesLocator : RetainedExecutionArtifact → ExecutionArtifactLocator → Bool
  | packageSnapshot _ normalizedPath _ _, .packageSnapshot path => path = normalizedPath
  | managedArtifact _ digest _, .managedArtifact managed => managed = digest
  | _, _ => false

end RetainedExecutionArtifact

structure ExecutionAuthorizationRequest (sha256 : Sha256) where
  structuralOverlay : StructurallyValidatedExecutionOverlay sha256
  targetContract : ExecutionTargetContract
  resolutionEvidence : ExecutionResolutionEvidence
  compatibilityAnalysis : CompatibilityAnalysis
  policyEvidence : ExecutionPolicyEvidence
  retainedArtifact : RetainedExecutionArtifact
  limits : ExecutionAuthorizationLimits
  deriving DecidableEq

structure PreparedAuthorizedLaunch where
  jobLimits : JobLimits
  process : PreparedProcessLaunch
  deriving DecidableEq

structure AuthorizedExecution where
  targetId : ExecutionTargetId
  trustMode : TrustMode
  effectiveSecurityPosture : EffectiveSecurityPosture
  launchPolicy : ExecutionLaunchPolicy
  authorizationContextDigest : AuthorizationContextDigest
  policyGeneration : UInt64
  preparedLaunch : PreparedAuthorizedLaunch
  retainedArtifact : RetainedExecutionArtifact
  deriving DecidableEq

structure SupervisedExecution where
  process : OwnedJobProcess
  targetId : ExecutionTargetId
  trustMode : TrustMode
  effectiveSecurityPosture : EffectiveSecurityPosture
  launchPolicy : ExecutionLaunchPolicy
  authorizationContextDigest : AuthorizationContextDigest
  retainedSource : ExecutionArtifactSource
  policyGeneration : UInt64
  deriving DecidableEq

inductive SupervisedExecutionError
  | authorization (source : ExecutionAuthorizationError)
  | jobCreation
  | processLaunch

abbrev ExecutionPolicyState := PolicyState LocalExecutionPolicy Sha256Digest

structure ValidatedExecutionBindings where
  authorityDigest : Sha256Digest
  targetId : ExecutionTargetId
  contractDigest : ExecutionContractDigest
  resolutionDigest : ExecutionResolutionEvidenceDigest
  artifactSource : ExecutionArtifactSource
  artifactSourceDigest : ExecutionArtifactSourceDigest
  executableDigest : ExecutableDigest

structure PolicyEvidenceDigests where
  artifactTrust : ArtifactTrustEvidenceDigest
  provenance : ProvenanceEvidenceDigest
  capabilityPolicy : CapabilityPolicyDigest
  statePolicy : StatePolicyDigest
  userPolicy : UserPolicyDigest

def PolicyEvidenceDigests.intoSha256Array (digests : PolicyEvidenceDigests) : List Sha256Digest :=
  [digests.artifactTrust, digests.provenance, digests.capabilityPolicy, digests.statePolicy, digests.userPolicy]

section

variable (sha256 : Sha256)

def validateExecutionBindings (policy : LocalExecutionPolicy) (proof : StructurallyValidatedExecutionOverlay sha256)
    (targetContract : ExecutionTargetContract) (resolution : ExecutionResolutionEvidence) :
    Except ExecutionAuthorizationError ValidatedExecutionBindings := do
  let authority := proof.authority
  if authority.adapterId ≠ policy.authority.adapterId ∨ authority.family ≠ policy.authority.family ∨
      authority.adapterContentDigest ≠ policy.authority.adapterContentDigest then
    throw .authorityIdentityMismatch
  let authorityDigest := authority.canonicalDocumentDigest sha256
  if authorityDigest ≠ policy.authority.authorityDocumentDigest then throw .authorityDigestMismatch
  let overlayContext := proof.overlay.binding
  if overlayContext.sourceBuildFingerprintDigest ≠ policy.context.sourceBuildFingerprintDigest then
    throw .sourceBuildContextMismatch
  if overlayContext.packageTreeMerkle ≠ policy.context.packageTreeMerkle then throw .packageTreeContextMismatch
  if overlayContext.executionEnvironmentDigest ≠ policy.context.executionEnvironmentDigest then
    throw .executionEnvironmentContextMismatch
  if overlayContext.buildDescriptorDigest ≠ policy.context.buildDescriptorDigest then
    throw .buildDescriptorContextMismatch
  let targetId := targetContract.targetId
  if targetId ≠ policy.target.targetId then throw .targetPolicyMismatch
  let staticTarget ← okOr .unknownTarget (authority.targets.lookup targetId)
  let generatedBinding ← okOr .unknownTarget (proof.overlay.bindings.lookup targetId)
  let contractDigest ← okOr .canonicalSerializationFailed targetContract.canonicalDocumentDigest
  if contractDigest ≠ policy.target.targetContractDigest ∨ staticTarget.executionContractDigest ≠ contractDigest ∨
      generatedBinding.executionContractDigest ≠ contractDigest then
    throw .targetContractDigestMismatch
  if targetContract.kind ≠ staticTarget.kind then throw .targetKindMismatch
  let locator := targetContract.artifactLocator
  if locator.artifactSource ≠ staticTarget.artifactSource then throw .artifactSourceMismatch
  let resolutionDigest ← okOr .canonicalSerializationFailed resolution.canonicalDocumentDigest
  if resolutionDigest ≠ policy.target.resolutionEvidenceDigest ∨
      generatedBinding.resolutionEvidenceDigest ≠ resolutionDigest then
    throw .resolutionEvidenceDigestMismatch
  if resolution.targetId ≠ targetId then throw .resolutionTargetMismatch
  if resolution.artifactLocator ≠ locator then throw .resolutionLocatorMismatch
  let digests := resolution.digests
  if digests.executionContractDigest ≠ contractDigest then throw .resolutionContractMismatch
  if generatedBinding.artifactSourceDigest ≠ digests.artifactSourceDigest then
    throw .resolutionArtifactSourceMismatch
  if generatedBinding.executableDigest ≠ digests.executableDigest then throw .resolutionExecutableMismatch
  return ⟨authorityDigest, targetId, contractDigest, resolutionDigest, staticTarget.artifactSource,
    digests.artifactSourceDigest, digests.executableDigest⟩

def countEvidence (limits : ExecutionAuthorizationLimits) (total : Nat) (value : List UInt8) :
    Except ExecutionAuthorizationError Nat := do
  if value.length > limits.maxEvidenceBytes then throw .evidenceByteLimitExceeded
  let total ← okOr .evidenceByteCountOverflow (checkedAdd usizeMax total value.length)
  if total > limits.maxTotalEvidenceBytes then throw .aggregateEvidenceByteLimitExceeded
  return total

def hashPolicyEvidence (evidence : ExecutionPolicyEvidence) (limits : ExecutionAuthorizationLimits) :
    Except ExecutionAuthorizationError PolicyEvidenceDigests := do
  let _ ← [evidence.artifactTrust, evidence.provenance, evidence.capabilityPolicy, evidence.statePolicy,
    evidence.userPolicy].foldlM (countEvidence limits) 0
  return ⟨sha256 evidence.artifactTrust, sha256 evidence.provenance, sha256 evidence.capabilityPolicy,
    sha256 evidence.statePolicy, sha256 evidence.userPolicy⟩

def validatePolicyEvidence (policy : LocalExecutionPolicy) (overlay : GeneratedExecutionOverlay)
    (resolution : ExecutionResolutionEvidence) (compatibility : CompatibilityAnalysis)
    (launchPolicy : ExecutionLaunchPolicy) (evidence : ExecutionPolicyEvidence)
    (limits : ExecutionAuthorizationLimits) :
    Except ExecutionAuthorizationError (PolicyEvidenceDigests × CompatibilityAnalysisDigest) := do
  let digests ← hashPolicyEvidence sha256 evidence limits
  if digests.artifactTrust ≠ resolution.digests.artifactTrustEvidenceDigest ∨
      digests.artifactTrust ≠ policy.target.artifactTrustEvidenceDigest then
    throw .artifactTrustEvidenceMismatch
  if digests.provenance ≠ resolution.digests.provenanceEvidenceDigest ∨
      digests.provenance ≠ policy.target.provenanceEvidenceDigest then
    throw .provenanceEvidenceMismatch
  let required := launchPolicy.policyRequirements
  let compatibilityDigest ← okOr .canonicalSerializationFailed compatibility.canonicalDigest
  if compatibilityDigest ≠ policy.target.compatibilityAnalysisDigest then throw .compatibilityDigestMismatch
  if compatibility.disposition ≠ .complete then throw .compatibilityDenied
  if compatibility.sourceBuildFingerprintDigest ≠ overlay.binding.sourceBuildFingerprintDigest then
    throw .compatibilitySourceMismatch
  if compatibility.executionEnvironmentDigest ≠ overlay.binding.executionEnvironmentDigest then
    throw .compatibilityEnvironmentMismatch
  if digests.capabilityPolicy ≠ required.capabilityPolicyDigest ∨
      digests.capabilityPolicy ≠ policy.target.capabilityPolicyDigest then
    throw .capabilityPolicyMismatch
  if digests.statePolicy ≠ required.statePolicyDigest ∨ digests.statePolicy ≠ policy.target.statePolicyDigest then
    throw .statePolicyMismatch
  if digests.userPolicy ≠ policy.target.userPolicyDigest then throw .userPolicyMismatch
  if !launchPolicy.requiredSecurityPosture.isSatisfiedBy policy.target.securityPosture then
    throw .securityPostureMismatch
  if launchPolicy.stateMode ≠ policy.target.stateMode then throw .stateModeMismatch
  return (digests, compatibilityDigest)

def maxExecutionArguments : Nat := 64

def windowsMaxSingleValueUnits : Nat := 32766

def windowsMaxCommandLineUnits : Nat := 32767

def prepareAuthorizedLaunch (artifact : RetainedExecutionArtifact) (launchPolicy : ExecutionLaunchPolicy) :
    Except ExecutionAuthorizationError PreparedAuthorizedLaunch := do
  if launchPolicy.dependencyPolicy ≠ .vendorDefaultAmbient then throw .unsupportedDependencyPolicy
  if launchPolicy.stateMode ≠ .vendorDefault then throw .unsupportedStateMode
  if launchPolicy.environment ≠ .empty ∨ launchPolicy.inheritedHandles ≠ .none ∨ launchPolicy.console ≠ .none ∨
      launchPolicy.workingDirectory ≠ .executableParent then
    throw .unsupportedLaunchSemantics
  let processLimits ← (ProcessLaunchLimits.new maxExecutionArguments windowsMaxSingleValueUnits
    windowsMaxCommandLineUnits).mapError fun _ => .unrepresentableLaunch
  let process ← (artifact.locked.prepareLaunch (launchPolicy.arguments.map encodeWide) processLimits).mapError fun _ =>
    .unrepresentableLaunch
  let resources := launchPolicy.resourceLimits
  let jobLimits ← (JobLimits.new resources.activeProcessLimit resources.processMemoryLimitBytes
    resources.jobMemoryLimitBytes).mapError fun _ => .unrepresentableResourceLimits
  return ⟨jobLimits, process⟩

def trustModeTag : TrustMode → UInt8
  | .registryTrusted => 0
  | .locallyTrusted => 1
  | .developer => 2
  | .forensicOverride => 3

structure AuthorizationContextDigests where
  authorityDocument : Sha256Digest
  targetContract : ExecutionContractDigest
  resolutionEvidence : ExecutionResolutionEvidenceDigest
  artifactSource : ExecutionArtifactSourceDigest
  executable : ExecutableDigest
  compatibilityAnalysis : CompatibilityAnalysisDigest
  policyEvidence : PolicyEvidenceDigests

def authorizationContextDigest (targetId : ExecutionTargetId) (digests : AuthorizationContextDigests)
    (policy : LocalExecutionPolicy) (generation : UInt64) :
    Except ExecutionAuthorizationError AuthorizationContextDigest := do
  let target := utf8Bytes targetId.value
  if target.length > u64Max then throw .authorizationContextEncodingFailed
  let values := [digests.authorityDocument, policy.context.sourceBuildFingerprintDigest,
    policy.context.packageTreeMerkle, policy.context.executionEnvironmentDigest,
    policy.context.buildDescriptorDigest, digests.targetContract, digests.resolutionEvidence, digests.artifactSource,
    digests.executable, digests.compatibilityAnalysis] ++ digests.policyEvidence.intoSha256Array ++
      [policy.revisionDigest]
  return sha256 (utf8Bytes "weregopher-live-execution-authorization-v1" ++ [0] ++ toLeBytes 8 target.length ++ target ++
    values.flatMap (·.bytes.toList) ++ toLeBytes 8 generation.toNat ++ [trustModeTag policy.trustMode])

structure ValidatedExecution where
  bindings : ValidatedExecutionBindings
  evidenceDigests : PolicyEvidenceDigests
  compatibilityDigest : CompatibilityAnalysisDigest
  preparedLaunch : PreparedAuthorizedLaunch

/-- What `authorize_execution` decides on its snapshot alone. -/
def validateOn (request : ExecutionAuthorizationRequest sha256) (snapshot : ExecutionPolicyState) :
    Except ExecutionAuthorizationError ValidatedExecution := do
  if snapshot.revocationEvidenceDigest.isSome then throw (.store .policyRevoked)
  let bindings ← validateExecutionBindings sha256 snapshot.policy request.structuralOverlay request.targetContract
    request.resolutionEvidence
  let (evidenceDigests, compatibilityDigest) ← validatePolicyEvidence sha256 snapshot.policy
    request.structuralOverlay.overlay request.resolutionEvidence request.compatibilityAnalysis
    request.targetContract.launchPolicy request.policyEvidence request.limits
  let artifact := request.retainedArtifact
  if artifact.source ≠ bindings.artifactSource then throw .retainedArtifactSourceMismatch
  if !artifact.matchesLocator request.targetContract.artifactLocator then throw .retainedArtifactLocatorMismatch
  if artifact.sourceDigest ≠ bindings.artifactSourceDigest then throw .retainedArtifactSourceDigestMismatch
  if artifact.executableDigest ≠ bindings.executableDigest then throw .retainedExecutableDigestMismatch
  let preparedLaunch ← prepareAuthorizedLaunch artifact request.targetContract.launchPolicy
  return ⟨bindings, evidenceDigests, compatibilityDigest, preparedLaunch⟩

def issue (request : ExecutionAuthorizationRequest sha256) (snapshot : ExecutionPolicyState)
    (validated : ValidatedExecution) : Except ExecutionAuthorizationError AuthorizedExecution := do
  let policy := snapshot.policy
  let bindings := validated.bindings
  let artifact := request.retainedArtifact
  let contextDigest ← authorizationContextDigest sha256 bindings.targetId
    ⟨bindings.authorityDigest, bindings.contractDigest, bindings.resolutionDigest, artifact.sourceDigest,
      artifact.executableDigest, validated.compatibilityDigest, validated.evidenceDigests⟩ policy snapshot.generation
  return ⟨bindings.targetId, policy.trustMode, policy.target.securityPosture, request.targetContract.launchPolicy,
    contextDigest, snapshot.generation, validated.preparedLaunch, artifact⟩

end

/-! ## The calls -/

inductive Event (sha256 : Sha256)
  | changed (change : PolicyChange LocalExecutionPolicy Sha256Digest)
  | authorized (request : ExecutionAuthorizationRequest sha256) (authorization : AuthorizedExecution)
  | started (authorization : AuthorizedExecution) (execution : SupervisedExecution)
  deriving DecidableEq

abbrev Content : Unit → Type := fun _ => ExecutionPolicyState

variable {sha256 : Sha256} {τ : Type} [DecidableEq τ]

abbrev Calls (sha256 : Sha256) (τ α : Type) := Program τ Content (Event sha256) α

section

variable (thread : τ)

def changePolicy (change : PolicyChange LocalExecutionPolicy Sha256Digest) :
    Calls sha256 τ (Except PolicyStoreError Unit) :=
  updating thread () .policyStorePoisoned (PolicyState.make change) fun _ => some (.changed change)

def verifyPolicyGeneration (generation : UInt64) : Calls sha256 τ (Except ExecutionAuthorizationError Unit) :=
  reading thread () (.error (.store .policyStorePoisoned)) fun state =>
    return (state.verifyGeneration generation).mapError .store

def authorizeExecution (request : ExecutionAuthorizationRequest sha256) :
    Calls sha256 τ (Except ExecutionAuthorizationError AuthorizedExecution) := do
  match ← snapshot thread () ExecutionAuthorizationError.store with
  | .error error => return .error error
  | .ok snapshot =>
    match validateOn sha256 request snapshot with
    | .error error => return .error error
    | .ok validated =>
      -- `verify_current` of the retained artifact
      if ← available then
        match ← verifyPolicyGeneration thread snapshot.generation with
        | .error error => return .error error
        | .ok () =>
          match issue sha256 request snapshot validated with
          | .error error => return .error error
          | .ok authorization =>
            record (.authorized request authorization)
            return .ok authorization
      else return .error .retainedArtifactCurrentViewInvalid

variable (authorization : AuthorizedExecution)

def superviseProcess (process : OwnedJobProcess) : SupervisedExecution :=
  ⟨process, authorization.targetId, authorization.trustMode, authorization.effectiveSecurityPosture,
    authorization.launchPolicy, authorization.authorizationContextDigest, authorization.retainedArtifact.source,
    authorization.policyGeneration⟩

/-- `launch_prepared`. The process runs once this has succeeded. -/
def launchPrepared : Calls sha256 τ (Except SupervisedExecutionError SupervisedExecution) := do
  let executable := authorization.retainedArtifact.locked
  if !authorization.preparedLaunch.process.isFor executable then return .error .processLaunch
  else if ← available then
    let processId ← instrument
    let execution := superviseProcess authorization
      ⟨authorization.preparedLaunch.jobLimits, UInt32.ofNat processId, executable⟩
    record (.started authorization execution)
    return .ok execution
  else return .error .processLaunch

/-- The guard is held until the process runs or the launch has failed. -/
def launchAuthorizedExecution : Calls sha256 τ (Except SupervisedExecutionError SupervisedExecution) := do
  let outcome ← commitIfPolicyCurrent thread () (SupervisedExecutionError.authorization ∘ .store)
    (PolicyState.verifyGeneration · authorization.policyGeneration) do
      -- `verify_current` of the retained artifact, then the creation of the job
      if ← available then
        if ← available then launchPrepared authorization
        else return .error .jobCreation
      else return .error (.authorization .retainedArtifactCurrentViewInvalid)
  match outcome with
  | .error error => return .error error
  | .ok result => return result

end

inductive Call (sha256 : Sha256)
  | changePolicy (change : PolicyChange LocalExecutionPolicy Sha256Digest)
  | authorize (request : ExecutionAuthorizationRequest sha256)
  | launch (request : ExecutionAuthorizationRequest sha256) (authorization : AuthorizedExecution)

/-- An authorisation is there to be consumed once it has been returned. -/
def Call.program (thread : τ) : Call sha256 → Calls sha256 τ Unit
  | changePolicy change => do
    let _ ← Execution.changePolicy thread change
  | authorize request => do
    let _ ← authorizeExecution thread request
  | launch request authorization => do
    await fun log => decide (.authorized request authorization ∈ log)
    let _ ← launchAuthorizedExecution thread authorization

end Weregopher.Execution
