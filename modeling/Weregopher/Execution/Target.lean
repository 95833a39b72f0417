import Weregopher.Digest
import Weregopher.Ids
import Weregopher.Lib.Outcome

/-! # Execution authorities, target contracts and generated evidence

Digest roles are told apart by name only. A document that is serialised by its derived
format carries its canonical digest, which serialisation may fail to give.
-/
namespace Weregopher
open Lib.Bytes Lib.Outcome

abbrev ExecutionTargetId := StableId "execution target"

abbrev ExecutionContractDigest := Sha256Digest

abbrev ExecutionResolutionEvidenceDigest := Sha256Digest

abbrev ExecutionArtifactSourceDigest := Sha256Digest

abbrev ExecutableDigest := Sha256Digest

abbrev ArtifactTrustEvidenceDigest := Sha256Digest

abbrev ProvenanceEvidenceDigest := Sha256Digest

abbrev CompatibilityAnalysisDigest := Sha256Digest

abbrev CapabilityPolicyDigest := Sha256Digest

abbrev StatePolicyDigest := Sha256Digest

abbrev UserPolicyDigest := Sha256Digest

abbrev AuthorizationContextDigest := Sha256Digest

inductive EffectiveSecurityPosture
  | brokerMediated
  | osContained
  | vendorEquivalentFullTrust
  deriving DecidableEq

inductive RequiredSecurityPosture
  | vendorEquivalentFullTrust
  | brokerMediated
  | osContained
  deriving DecidableEq

def RequiredSecurityPosture.isSatisfiedBy : RequiredSecurityPosture → EffectiveSecurityPosture → Bool
  | .vendorEquivalentFullTrust, .vendorEquivalentFullTrust
  | .brokerMediated, .brokerMediated
  | .osContained, .osContained => true
  | _, _ => false

inductive ExecutionTargetKind
  | mainRuntime
  | vendorHelper
  | abiIsland
  | specializedHelper
  deriving DecidableEq

def executionTargetKindText : ExecutionTargetKind → String
  | .mainRuntime => "main_runtime"
  | .vendorHelper => "vendor_helper"
  | .abiIsland => "abi_island"
  | .specializedHelper => "specialized_helper"

inductive ExecutionArtifactSource
  | packageSnapshot
  | managedArtifact
  deriving DecidableEq

def executionArtifactSourceText : ExecutionArtifactSource → String
  | .packageSnapshot => "package_snapshot"
  | .managedArtifact => "managed_artifact"

inductive ExecutionArtifactLocator
  | packageSnapshot (normalizedPath : String)
  | managedArtifact (digest : ExecutableDigest)
  deriving DecidableEq

namespace ExecutionArtifactLocator

def artifactSource : ExecutionArtifactLocator → ExecutionArtifactSource
  | packageSnapshot _ => .packageSnapshot
  | managedArtifact _ => .managedArtifact

def managedDigest : ExecutionArtifactLocator → Option ExecutableDigest
  | packageSnapshot _ => none
  | managedArtifact digest => some digest

end ExecutionArtifactLocator

inductive ExecutionStateMode
  | disposable
  | production
  | vendorDefault
  deriving DecidableEq

inductive ExecutionEnvironmentPolicy
  | empty
  deriving DecidableEq

inductive ExecutionInheritedHandlePolicy
  | none
  deriving DecidableEq

inductive ExecutionConsolePolicy
  | none
  deriving DecidableEq

inductive ExecutionWorkingDirectoryPolicy
  | executableParent
  deriving DecidableEq

inductive ExecutionDependencyPolicy
  | vendorDefaultAmbient
  | manifestClosed
  deriving DecidableEq

structure ExecutionResourceLimits where
  activeProcessLimit : UInt32
  (processMemoryLimitBytes jobMemoryLimitBytes : UInt64)
  nonzero : ¬(activeProcessLimit = 0 ∨ processMemoryLimitBytes = 0 ∨ jobMemoryLimitBytes = 0)
  coherent : ¬processMemoryLimitBytes > jobMemoryLimitBytes
  deriving DecidableEq

structure ExecutionPolicyRequirements where
  capabilityPolicyDigest : CapabilityPolicyDigest
  statePolicyDigest : StatePolicyDigest
  deriving DecidableEq

structure ExecutionLaunchPolicy where
  arguments : List String
  environment : ExecutionEnvironmentPolicy
  inheritedHandles : ExecutionInheritedHandlePolicy
  console : ExecutionConsolePolicy
  workingDirectory : ExecutionWorkingDirectoryPolicy
  dependencyPolicy : ExecutionDependencyPolicy
  requiredSecurityPosture : RequiredSecurityPosture
  stateMode : ExecutionStateMode
  resourceLimits : ExecutionResourceLimits
  policyRequirements : ExecutionPolicyRequirements
  deriving DecidableEq

structure ExecutionTargetContract where
  targetId : ExecutionTargetId
  kind : ExecutionTargetKind
  artifactLocator : ExecutionArtifactLocator
  launchPolicy : ExecutionLaunchPolicy
  canonicalDocumentDigest : Option ExecutionContractDigest
  deriving DecidableEq

structure ExecutionResolutionDigests where
  executionContractDigest : ExecutionContractDigest
  artifactSourceDigest : ExecutionArtifactSourceDigest
  executableDigest : ExecutableDigest
  artifactTrustEvidenceDigest : ArtifactTrustEvidenceDigest
  provenanceEvidenceDigest : ProvenanceEvidenceDigest
  deriving DecidableEq

/-- A managed locator names the executable that the digests name. -/
structure ExecutionResolutionEvidence where
  targetId : ExecutionTargetId
  artifactLocator : ExecutionArtifactLocator
  digests : ExecutionResolutionDigests
  canonicalDocumentDigest : Option ExecutionResolutionEvidenceDigest
  managed : ∀ digest ∈ artifactLocator.managedDigest, digest = digests.executableDigest
  deriving DecidableEq

inductive AnalysisDisposition
  | incomplete
  | blocked
  | complete
  deriving DecidableEq

structure CompatibilityAnalysis where
  disposition : AnalysisDisposition
  (sourceBuildFingerprintDigest executionEnvironmentDigest : Sha256Digest)
  canonicalDigest : Option CompatibilityAnalysisDigest
  deriving DecidableEq

structure AuthorizedExecutionTargetRef where
  kind : ExecutionTargetKind
  artifactSource : ExecutionArtifactSource
  executionContractDigest : ExecutionContractDigest
  deriving DecidableEq

structure AdapterExecutionAuthority where
  adapterId : AdapterId
  family : ApplicationFamilyId
  adapterContentDigest : Sha256Digest
  targets : List (ExecutionTargetId × AuthorizedExecutionTargetRef)
  deriving DecidableEq

namespace AdapterExecutionAuthority

def targetText (target : ExecutionTargetId × AuthorizedExecutionTargetRef) : String :=
  "\"" ++ target.1.value ++ "\":\x7b\"kind\":\"" ++ executionTargetKindText target.2.kind ++
    "\",\"artifact_source\":\"" ++ executionArtifactSourceText target.2.artifactSource ++
    "\",\"execution_contract_digest\":\"" ++ target.2.executionContractDigest.toText ++ "\"\x7d"

def canonicalText (authority : AdapterExecutionAuthority) : String :=
  "\x7b\"format_version\":\"1\",\"adapter_id\":\"" ++ authority.adapterId.value ++ "\",\"family\":\"" ++
    authority.family.value ++ "\",\"adapter_content_digest\":\"" ++ authority.adapterContentDigest.toText ++
    "\",\"targets\":\x7b" ++ String.intercalate "," (authority.targets.map targetText) ++ "\x7d\x7d"

def canonicalDocumentDigest (sha256 : Sha256) (authority : AdapterExecutionAuthority) : Sha256Digest :=
  sha256 (utf8Bytes authority.canonicalText)

end AdapterExecutionAuthority

structure ExecutionArtifactBinding where
  executionContractDigest : ExecutionContractDigest
  artifactSourceDigest : ExecutionArtifactSourceDigest
  executableDigest : ExecutableDigest
  resolutionEvidenceDigest : ExecutionResolutionEvidenceDigest
  deriving DecidableEq

structure ExecutionAuthorityBinding where
  family : ApplicationFamilyId
  adapterId : AdapterId
  (adapterContentDigest adapterExecutionAuthorityDigest : Sha256Digest)
  deriving DecidableEq

structure ExecutionOverlayContext where
  sourceBuildFingerprintDigest : Sha256Digest
  (packageTreeMerkle executionEnvironmentDigest buildDescriptorDigest : Sha256Digest)

structure ExecutionOverlayBinding where
  (sourceBuildFingerprintDigest packageTreeMerkle executionEnvironmentDigest : Sha256Digest)
  authority : ExecutionAuthorityBinding
  buildDescriptorDigest : Sha256Digest
  deriving DecidableEq

structure GeneratedExecutionOverlay where
  binding : ExecutionOverlayBinding
  bindings : List (ExecutionTargetId × ExecutionArtifactBinding)
  deriving DecidableEq

inductive ExecutionContractError
  | sourceBuildMismatch
  | packageTreeMismatch
  | executionEnvironmentMismatch
  | buildDescriptorMismatch
  | authorityIdentityMismatch
  | authorityDigestMismatch
  | unknownExecutionTarget
  | executionContractDigestMismatch
  | packageSnapshotDigestMismatch
  deriving DecidableEq

namespace GeneratedExecutionOverlay

variable (sha256 : Sha256)

def checkBinding (overlay : GeneratedExecutionOverlay) (authority : AdapterExecutionAuthority)
    (entry : ExecutionTargetId × ExecutionArtifactBinding) : Except ExecutionContractError Unit := do
  let authorized ← okOr .unknownExecutionTarget (authority.targets.lookup entry.1)
  if authorized.executionContractDigest ≠ entry.2.executionContractDigest then
    throw .executionContractDigestMismatch
  if authorized.artifactSource = .packageSnapshot ∧
      entry.2.artifactSourceDigest ≠ overlay.binding.packageTreeMerkle then
    throw .packageSnapshotDigestMismatch

def validateAgainst (overlay : GeneratedExecutionOverlay) (authority : AdapterExecutionAuthority)
    (context : ExecutionOverlayContext) : Except ExecutionContractError Unit := do
  let binding := overlay.binding
  if binding.sourceBuildFingerprintDigest ≠ context.sourceBuildFingerprintDigest then throw .sourceBuildMismatch
  if binding.packageTreeMerkle ≠ context.packageTreeMerkle then throw .packageTreeMismatch
  if binding.executionEnvironmentDigest ≠ context.executionEnvironmentDigest then throw .executionEnvironmentMismatch
  if binding.buildDescriptorDigest ≠ context.buildDescriptorDigest then throw .buildDescriptorMismatch
  if binding.authority.adapterId ≠ authority.adapterId ∨ binding.authority.family ≠ authority.family ∨
      binding.authority.adapterContentDigest ≠ authority.adapterContentDigest then
    throw .authorityIdentityMismatch
  if binding.authority.adapterExecutionAuthorityDigest ≠ authority.canonicalDocumentDigest sha256 then
    throw .authorityDigestMismatch
  overlay.bindings.forM (checkBinding overlay authority)

end GeneratedExecutionOverlay

structure StructurallyValidatedExecutionOverlay (sha256 : Sha256) where
  overlay : GeneratedExecutionOverlay
  authority : AdapterExecutionAuthority
  validated : ∃ context, overlay.validateAgainst sha256 authority context = .ok ()
  deriving DecidableEq

end Weregopher
