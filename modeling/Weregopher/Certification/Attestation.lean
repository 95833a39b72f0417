import Weregopher.Digest
import Weregopher.Ids
import Weregopher.Lib.Outcome

/-! # Local certification-run attestations and control policies

The checked types carry what their constructors establish. Digest roles are
told apart by name only; every role is a SHA-256 identity.
-/
namespace Weregopher

abbrev CertificationRunnerIdentityDigest := Sha256Digest

abbrev CertificationRunnerDescriptorSetDigest := Sha256Digest

abbrev CertificationRunnerPolicyRevisionDigest := Sha256Digest

abbrev CertificationRunnerPolicyRevocationDigest := Sha256Digest

abbrev CertificationPolicyRevisionDigest := Sha256Digest

abbrev CertificationPolicyRevocationDigest := Sha256Digest

abbrev CertificationArtifactDigest := Sha256Digest

abbrev CertificationArtifactSetDigest := Sha256Digest

abbrev CertificationProfileDigest := Sha256Digest

abbrev CertificationEvidenceDigest := Sha256Digest

abbrev LocalCertificationRunAttestationDigest := Sha256Digest

inductive CertificationArtifactKind
  | packageIdentity
  | staticAnalysis
  | runtimeProbe
  | rendererProbe
  | stateProbe
  | securityProbe
  | workflowProbe
  | resourceProbe
  | helperProbe
  | exceptionVerification
  deriving DecidableEq

structure CertificationArtifactRef where
  kind : CertificationArtifactKind
  digest : CertificationArtifactDigest
  deriving DecidableEq

structure CertificationTarget where
  compatibilityAnalysisDigest : Sha256Digest
  executionContractDigest : Sha256Digest
  (executionResolutionEvidenceDigest artifactSourceDigest executableDigest : Sha256Digest)
  deriving DecidableEq

inductive CertificationClass
  | blocked
  | provisional
  | structuralVerified
  | smokeVerified
  | contractVerified
  | exactCertified
  deriving DecidableEq

inductive CertificationRunAttestationError
  | invalidFreshnessLimit
  | freshnessExpired
  | invalidPolicyGeneration
  | unassignableClass
  | missingArtifacts
  | missingArtifactBytes

def maxLocalCertificationRunFreshnessMillis : UInt64 := 10 * 60 * 1000

structure CertificationRunFreshness where
  challenge : Uuid
  (maximumElapsedMillis elapsedMillis : UInt64)
  window : ¬(maximumElapsedMillis = 0 ∨ maximumElapsedMillis > maxLocalCertificationRunFreshnessMillis)
  fresh : ¬elapsedMillis > maximumElapsedMillis
  deriving DecidableEq

namespace CertificationRunFreshness

def new (challenge : Uuid) (maximumElapsedMillis elapsedMillis : UInt64) :
    Except CertificationRunAttestationError CertificationRunFreshness :=
  if hWindow : maximumElapsedMillis = 0 ∨ maximumElapsedMillis > maxLocalCertificationRunFreshnessMillis then
    .error .invalidFreshnessLimit
  else if hFresh : elapsedMillis > maximumElapsedMillis then .error .freshnessExpired
  else .ok ⟨challenge, maximumElapsedMillis, elapsedMillis, hWindow, hFresh⟩

def validate (freshness : CertificationRunFreshness) : Except CertificationRunAttestationError Unit := do
  let _ ← new freshness.challenge freshness.maximumElapsedMillis freshness.elapsedMillis
  return ()

theorem new_self (freshness : CertificationRunFreshness) :
    new freshness.challenge freshness.maximumElapsedMillis freshness.elapsedMillis = .ok freshness := by
  rw [new, dif_neg freshness.window, dif_neg freshness.fresh]

end CertificationRunFreshness

structure CertificationRunRunnerIdentity where
  runnerIdentityDigest : CertificationRunnerIdentityDigest
  descriptorSetDigest : CertificationRunnerDescriptorSetDigest
  policyRevisionDigest : CertificationRunnerPolicyRevisionDigest
  policyGeneration : UInt64
  generation_ne : policyGeneration ≠ 0
  deriving DecidableEq

namespace CertificationRunRunnerIdentity

def new (runnerIdentityDigest : CertificationRunnerIdentityDigest)
    (descriptorSetDigest : CertificationRunnerDescriptorSetDigest)
    (policyRevisionDigest : CertificationRunnerPolicyRevisionDigest) (policyGeneration : UInt64) :
    Except CertificationRunAttestationError CertificationRunRunnerIdentity :=
  if h : policyGeneration = 0 then .error .invalidPolicyGeneration
  else .ok ⟨runnerIdentityDigest, descriptorSetDigest, policyRevisionDigest, policyGeneration, h⟩

def validate (runner : CertificationRunRunnerIdentity) : Except CertificationRunAttestationError Unit := do
  let _ ← new runner.runnerIdentityDigest runner.descriptorSetDigest runner.policyRevisionDigest
    runner.policyGeneration
  return ()

theorem new_self (runner : CertificationRunRunnerIdentity) :
    new runner.runnerIdentityDigest runner.descriptorSetDigest runner.policyRevisionDigest
      runner.policyGeneration = .ok runner := by
  rw [new, dif_neg runner.generation_ne]

end CertificationRunRunnerIdentity

structure CertificationRunResultIdentity where
  semanticReport : CertificationArtifactRef
  target : CertificationTarget
  profileDigest : CertificationProfileDigest
  evidenceDigest : CertificationEvidenceDigest
  artifactSetDigest : CertificationArtifactSetDigest
  certificationClass : CertificationClass
  policyRevisionDigest : CertificationPolicyRevisionDigest
  policyGeneration : UInt64
  artifactCount : UInt32
  totalArtifactBytes : UInt64
  assignable : ¬(certificationClass = .blocked ∨ certificationClass = .provisional)
  generation_ne : policyGeneration ≠ 0
  count_ne : artifactCount ≠ 0
  bytes_ne : totalArtifactBytes ≠ 0
  deriving DecidableEq

namespace CertificationRunResultIdentity

def new (semanticReport : CertificationArtifactRef) (target : CertificationTarget)
    (profileDigest : CertificationProfileDigest) (evidenceDigest : CertificationEvidenceDigest)
    (artifactSetDigest : CertificationArtifactSetDigest) (certificationClass : CertificationClass)
    (policyRevisionDigest : CertificationPolicyRevisionDigest) (policyGeneration : UInt64)
    (artifactCount : UInt32) (totalArtifactBytes : UInt64) :
    Except CertificationRunAttestationError CertificationRunResultIdentity :=
  if hClass : certificationClass = .blocked ∨ certificationClass = .provisional then .error .unassignableClass
  else if hGeneration : policyGeneration = 0 then .error .invalidPolicyGeneration
  else if hCount : artifactCount = 0 then .error .missingArtifacts
  else if hBytes : totalArtifactBytes = 0 then .error .missingArtifactBytes
  else
    .ok ⟨semanticReport, target, profileDigest, evidenceDigest, artifactSetDigest, certificationClass,
      policyRevisionDigest, policyGeneration, artifactCount, totalArtifactBytes, hClass, hGeneration, hCount,
      hBytes⟩

def validate (result : CertificationRunResultIdentity) : Except CertificationRunAttestationError Unit := do
  let _ ← new result.semanticReport result.target result.profileDigest result.evidenceDigest
    result.artifactSetDigest result.certificationClass result.policyRevisionDigest result.policyGeneration
    result.artifactCount result.totalArtifactBytes
  return ()

theorem new_self (result : CertificationRunResultIdentity) :
    new result.semanticReport result.target result.profileDigest result.evidenceDigest
      result.artifactSetDigest result.certificationClass result.policyRevisionDigest result.policyGeneration
      result.artifactCount result.totalArtifactBytes = .ok result := by
  rw [new, dif_neg result.assignable, dif_neg result.generation_ne, dif_neg result.count_ne,
    dif_neg result.bytes_ne]

end CertificationRunResultIdentity

structure LocalCertificationRunAttestation where
  freshness : CertificationRunFreshness
  runner : CertificationRunRunnerIdentity
  result : CertificationRunResultIdentity
  deriving DecidableEq

structure CertificationControlPolicy where
  runner : CertificationRunRunnerIdentity
  semanticReport : CertificationArtifactRef
  target : CertificationTarget
  profileDigest : CertificationProfileDigest
  evidenceDigest : CertificationEvidenceDigest
  artifactSetDigest : CertificationArtifactSetDigest
  certificationClass : CertificationClass
  policyRevisionDigest : CertificationPolicyRevisionDigest
  policyGeneration : UInt64
  assignable : ¬(certificationClass = .blocked ∨ certificationClass = .provisional)
  generation_ne : policyGeneration ≠ 0

namespace CertificationControlPolicy

/-- The runner is checked again, then the pins as a result with one artifact of one byte. -/
def new (runner : CertificationRunRunnerIdentity) (semanticReport : CertificationArtifactRef)
    (target : CertificationTarget) (profileDigest : CertificationProfileDigest)
    (evidenceDigest : CertificationEvidenceDigest) (artifactSetDigest : CertificationArtifactSetDigest)
    (certificationClass : CertificationClass) (policyRevisionDigest : CertificationPolicyRevisionDigest)
    (policyGeneration : UInt64) : Except CertificationRunAttestationError CertificationControlPolicy := do
  runner.validate
  let result ← CertificationRunResultIdentity.new semanticReport target profileDigest evidenceDigest
    artifactSetDigest certificationClass policyRevisionDigest policyGeneration 1 1
  return ⟨runner, result.semanticReport, result.target, result.profileDigest, result.evidenceDigest,
    result.artifactSetDigest, result.certificationClass, result.policyRevisionDigest, result.policyGeneration,
    result.assignable, result.generation_ne⟩

variable (policy : CertificationControlPolicy)

def validate : Except CertificationRunAttestationError Unit := do
  let _ ← new policy.runner policy.semanticReport policy.target policy.profileDigest policy.evidenceDigest
    policy.artifactSetDigest policy.certificationClass policy.policyRevisionDigest policy.policyGeneration
  return ()

def acceptsAttestation (attestation : LocalCertificationRunAttestation) : Bool :=
  let result := attestation.result
  policy.runner = attestation.runner && policy.semanticReport = result.semanticReport &&
    policy.target = result.target && policy.profileDigest = result.profileDigest &&
    policy.evidenceDigest = result.evidenceDigest && policy.artifactSetDigest = result.artifactSetDigest &&
    policy.certificationClass = result.certificationClass &&
    policy.policyRevisionDigest = result.policyRevisionDigest &&
    policy.policyGeneration = result.policyGeneration

theorem new_self :
    new policy.runner policy.semanticReport policy.target policy.profileDigest policy.evidenceDigest
      policy.artifactSetDigest policy.certificationClass policy.policyRevisionDigest policy.policyGeneration =
        .ok policy := by
  rw [new, CertificationRunRunnerIdentity.validate, policy.runner.new_self, CertificationRunResultIdentity.new,
    dif_neg policy.assignable, dif_neg policy.generation_ne, dif_neg (by decide), dif_neg (by decide)]
  rfl

end CertificationControlPolicy

end Weregopher
