import Weregopher.Certification.Attestation
import Weregopher.Lib.Json

/-! # Certification documents

The JSON form of the attestation and policy types. The JSON text, the text of
a UUID and SHA-256 itself belong to libraries, which are a parameter.
-/
namespace Weregopher
open Lib Lib.Json

structure DocumentLibrary where
  toVec : Json → Option (List UInt8)
  fromSlice : List UInt8 → Option Json
  uuidToText : Uuid → String
  uuidFromText : String → Option Uuid
  sha256 : Sha256

def DocumentLibrary.hashCanonical (library : DocumentLibrary) (document : Json) : Option Sha256Digest :=
  (library.toVec document).map library.sha256

def Sha256Digest.toJson (digest : Sha256Digest) : Json := .string digest.toText

def Sha256Digest.fromJson (json : Json) : Option Sha256Digest := do
  let value ← text json
  (fromStr value).toOption

def u64ToJson (value : UInt64) : Json := .integer value.toNat

def u64FromJson (json : Json) : Option UInt64 := (natural (2 ^ 64) json).map UInt64.ofNat

def u32ToJson (value : UInt32) : Json := .integer value.toNat

def u32FromJson (json : Json) : Option UInt32 := (natural (2 ^ 32) json).map UInt32.ofNat

@[simp] theorem Sha256Digest.fromJson_toJson (digest : Sha256Digest) : fromJson digest.toJson = some digest := by
  change (fromStr digest.toText).toOption = some digest
  rw [fromStr_toText]
  rfl

@[simp] theorem u64FromJson_toJson (value : UInt64) : u64FromJson (u64ToJson value) = some value := by
  rw [u64FromJson, u64ToJson, natural_integer value.toNat_lt, Option.map_some, UInt64.ofNat_toNat]

@[simp] theorem u32FromJson_toJson (value : UInt32) : u32FromJson (u32ToJson value) = some value := by
  rw [u32FromJson, u32ToJson, natural_integer value.toNat_lt, Option.map_some, UInt32.ofNat_toNat]

def formatVersion : Json := .string "1"

def formatVersionFromJson (json : Json) : Option Unit := unitVariant [("1", ())] json

namespace CertificationArtifactKind

def variants : List (String × CertificationArtifactKind) :=
  [("package_identity", packageIdentity), ("static_analysis", staticAnalysis), ("runtime_probe", runtimeProbe),
    ("renderer_probe", rendererProbe), ("state_probe", stateProbe), ("security_probe", securityProbe),
    ("workflow_probe", workflowProbe), ("resource_probe", resourceProbe), ("helper_probe", helperProbe),
    ("exception_verification", exceptionVerification)]

@[simp] theorem fromJson_toJson (kind : CertificationArtifactKind) :
    unitVariant variants (variantToJson variants kind) = some kind := by
  cases kind <;> rfl

end CertificationArtifactKind

namespace CertificationClass

def variants : List (String × CertificationClass) :=
  [("blocked", blocked), ("provisional", provisional), ("structural_verified", structuralVerified),
    ("smoke_verified", smokeVerified), ("contract_verified", contractVerified),
    ("exact_certified", exactCertified)]

@[simp] theorem fromJson_toJson (certificationClass : CertificationClass) :
    unitVariant variants (variantToJson variants certificationClass) = some certificationClass := by
  cases certificationClass <;> rfl

end CertificationClass

namespace CertificationArtifactRef

def toJson (reference : CertificationArtifactRef) : Json :=
  .object [("kind", variantToJson CertificationArtifactKind.variants reference.kind),
    ("digest", reference.digest.toJson)]

def fromJson (json : Json) : Option CertificationArtifactRef := do
  let [kind, digest] ← structMembers ["kind", "digest"] json | none
  let kind ← unitVariant CertificationArtifactKind.variants kind
  let digest ← Sha256Digest.fromJson digest
  return ⟨kind, digest⟩

@[simp] theorem fromJson_toJson (reference : CertificationArtifactRef) :
    fromJson reference.toJson = some reference := by
  have hMembers : structMembers ["kind", "digest"] reference.toJson = some [_, _] :=
    structMembers_object rfl (by decide)
  simp [fromJson, hMembers]

end CertificationArtifactRef

namespace CertificationTarget

def names : List String :=
  ["compatibility_analysis_digest", "execution_contract_digest", "execution_resolution_evidence_digest",
    "artifact_source_digest", "executable_digest"]

def toJson (target : CertificationTarget) : Json :=
  .object [("compatibility_analysis_digest", target.compatibilityAnalysisDigest.toJson),
    ("execution_contract_digest", target.executionContractDigest.toJson),
    ("execution_resolution_evidence_digest", target.executionResolutionEvidenceDigest.toJson),
    ("artifact_source_digest", target.artifactSourceDigest.toJson),
    ("executable_digest", target.executableDigest.toJson)]

def fromJson (json : Json) : Option CertificationTarget := do
  let [compatibility, contract, resolution, source, executable] ← structMembers names json | none
  let compatibility ← Sha256Digest.fromJson compatibility
  let contract ← Sha256Digest.fromJson contract
  let resolution ← Sha256Digest.fromJson resolution
  let source ← Sha256Digest.fromJson source
  let executable ← Sha256Digest.fromJson executable
  return ⟨compatibility, contract, resolution, source, executable⟩

@[simp] theorem fromJson_toJson (target : CertificationTarget) : fromJson target.toJson = some target := by
  have hMembers : structMembers names target.toJson = some [_, _, _, _, _] :=
    structMembers_object rfl (by decide)
  simp [fromJson, hMembers]

end CertificationTarget

variable (library : DocumentLibrary)

def uuidToJson (uuid : Uuid) : Json := .string (library.uuidToText uuid)

def uuidFromJson (json : Json) : Option Uuid := do
  let value ← text json
  library.uuidFromText value

namespace CertificationRunFreshness

def names : List String := ["challenge", "maximum_elapsed_millis", "elapsed_millis"]

def toJson (freshness : CertificationRunFreshness) : Json :=
  .object [("challenge", uuidToJson library freshness.challenge),
    ("maximum_elapsed_millis", u64ToJson freshness.maximumElapsedMillis),
    ("elapsed_millis", u64ToJson freshness.elapsedMillis)]

def fromJson (json : Json) : Option CertificationRunFreshness := do
  let [challenge, maximum, elapsed] ← structMembers names json | none
  let challenge ← uuidFromJson library challenge
  let maximum ← u64FromJson maximum
  let elapsed ← u64FromJson elapsed
  (new challenge maximum elapsed).toOption

variable {library}

theorem fromJson_toJson (hUuid : ∀ uuid, library.uuidFromText (library.uuidToText uuid) = some uuid)
    (freshness : CertificationRunFreshness) : fromJson library (freshness.toJson library) = some freshness := by
  have hMembers : structMembers names (freshness.toJson library) = some [_, _, _] :=
    structMembers_object rfl (by decide)
  have hChallenge : uuidFromJson library (uuidToJson library freshness.challenge) = some freshness.challenge :=
    hUuid freshness.challenge
  simp [fromJson, hMembers, hChallenge, new_self, Except.toOption]

end CertificationRunFreshness

namespace CertificationRunRunnerIdentity

def names : List String :=
  ["runner_identity_digest", "descriptor_set_digest", "policy_revision_digest", "policy_generation"]

def toJson (runner : CertificationRunRunnerIdentity) : Json :=
  .object [("runner_identity_digest", runner.runnerIdentityDigest.toJson),
    ("descriptor_set_digest", runner.descriptorSetDigest.toJson),
    ("policy_revision_digest", runner.policyRevisionDigest.toJson),
    ("policy_generation", u64ToJson runner.policyGeneration)]

def fromJson (json : Json) : Option CertificationRunRunnerIdentity := do
  let [identity, descriptors, revision, generation] ← structMembers names json | none
  let identity ← Sha256Digest.fromJson identity
  let descriptors ← Sha256Digest.fromJson descriptors
  let revision ← Sha256Digest.fromJson revision
  let generation ← u64FromJson generation
  (new identity descriptors revision generation).toOption

@[simp] theorem fromJson_toJson (runner : CertificationRunRunnerIdentity) : fromJson runner.toJson = some runner := by
  have hMembers : structMembers names runner.toJson = some [_, _, _, _] :=
    structMembers_object rfl (by decide)
  simp [fromJson, hMembers, new_self, Except.toOption]

end CertificationRunRunnerIdentity

namespace CertificationRunResultIdentity

def names : List String :=
  ["semantic_report", "target", "profile_digest", "evidence_digest", "artifact_set_digest", "class",
    "policy_revision_digest", "policy_generation", "artifact_count", "total_artifact_bytes"]

def toJson (result : CertificationRunResultIdentity) : Json :=
  .object [("semantic_report", result.semanticReport.toJson),
    ("target", result.target.toJson),
    ("profile_digest", result.profileDigest.toJson),
    ("evidence_digest", result.evidenceDigest.toJson),
    ("artifact_set_digest", result.artifactSetDigest.toJson),
    ("class", variantToJson CertificationClass.variants result.certificationClass),
    ("policy_revision_digest", result.policyRevisionDigest.toJson),
    ("policy_generation", u64ToJson result.policyGeneration),
    ("artifact_count", u32ToJson result.artifactCount),
    ("total_artifact_bytes", u64ToJson result.totalArtifactBytes)]

def fromJson (json : Json) : Option CertificationRunResultIdentity := do
  let [report, target, profile, evidence, artifacts, certificationClass, revision, generation, count, total] ←
    structMembers names json | none
  let report ← CertificationArtifactRef.fromJson report
  let target ← CertificationTarget.fromJson target
  let profile ← Sha256Digest.fromJson profile
  let evidence ← Sha256Digest.fromJson evidence
  let artifacts ← Sha256Digest.fromJson artifacts
  let certificationClass ← unitVariant CertificationClass.variants certificationClass
  let revision ← Sha256Digest.fromJson revision
  let generation ← u64FromJson generation
  let count ← u32FromJson count
  let total ← u64FromJson total
  (new report target profile evidence artifacts certificationClass revision generation count total).toOption

@[simp] theorem fromJson_toJson (result : CertificationRunResultIdentity) : fromJson result.toJson = some result := by
  have hMembers : structMembers names result.toJson = some [_, _, _, _, _, _, _, _, _, _] :=
    structMembers_object rfl (by decide)
  simp [fromJson, hMembers, new_self, Except.toOption]

end CertificationRunResultIdentity

namespace CertificationControlPolicy

def names : List String :=
  ["runner", "semantic_report", "target", "profile_digest", "evidence_digest", "artifact_set_digest", "class",
    "policy_revision_digest", "policy_generation"]

def toJson (policy : CertificationControlPolicy) : Json :=
  .object [("runner", policy.runner.toJson),
    ("semantic_report", policy.semanticReport.toJson),
    ("target", policy.target.toJson),
    ("profile_digest", policy.profileDigest.toJson),
    ("evidence_digest", policy.evidenceDigest.toJson),
    ("artifact_set_digest", policy.artifactSetDigest.toJson),
    ("class", variantToJson CertificationClass.variants policy.certificationClass),
    ("policy_revision_digest", policy.policyRevisionDigest.toJson),
    ("policy_generation", u64ToJson policy.policyGeneration)]

def fromJson (json : Json) : Option CertificationControlPolicy := do
  let [runner, report, target, profile, evidence, artifacts, certificationClass, revision, generation] ←
    structMembers names json | none
  let runner ← CertificationRunRunnerIdentity.fromJson runner
  let report ← CertificationArtifactRef.fromJson report
  let target ← CertificationTarget.fromJson target
  let profile ← Sha256Digest.fromJson profile
  let evidence ← Sha256Digest.fromJson evidence
  let artifacts ← Sha256Digest.fromJson artifacts
  let certificationClass ← unitVariant CertificationClass.variants certificationClass
  let revision ← Sha256Digest.fromJson revision
  let generation ← u64FromJson generation
  (new runner report target profile evidence artifacts certificationClass revision generation).toOption

@[simp] theorem fromJson_toJson (policy : CertificationControlPolicy) : fromJson policy.toJson = some policy := by
  have hMembers : structMembers names policy.toJson = some [_, _, _, _, _, _, _, _, _] :=
    structMembers_object rfl (by decide)
  simp [fromJson, hMembers, new_self, Except.toOption]

end CertificationControlPolicy

structure UncheckedLocalCertificationRunAttestation where
  freshness : CertificationRunFreshness
  runner : CertificationRunRunnerIdentity
  result : CertificationRunResultIdentity

namespace UncheckedLocalCertificationRunAttestation

def names : List String := ["format_version", "freshness", "runner", "result"]

def fromJson (json : Json) : Option UncheckedLocalCertificationRunAttestation := do
  let [version, freshness, runner, result] ← structMembers names json | none
  formatVersionFromJson version
  let freshness ← CertificationRunFreshness.fromJson library freshness
  let runner ← CertificationRunRunnerIdentity.fromJson runner
  let result ← CertificationRunResultIdentity.fromJson result
  return ⟨freshness, runner, result⟩

def intoChecked (unchecked : UncheckedLocalCertificationRunAttestation) :
    Except CertificationRunAttestationError LocalCertificationRunAttestation := do
  unchecked.freshness.validate
  unchecked.runner.validate
  unchecked.result.validate
  return ⟨unchecked.freshness, unchecked.runner, unchecked.result⟩

theorem intoChecked_eq (unchecked : UncheckedLocalCertificationRunAttestation) :
    unchecked.intoChecked = .ok ⟨unchecked.freshness, unchecked.runner, unchecked.result⟩ := by
  rw [intoChecked, CertificationRunFreshness.validate, CertificationRunRunnerIdentity.validate,
    CertificationRunResultIdentity.validate, unchecked.freshness.new_self, unchecked.runner.new_self,
    unchecked.result.new_self]
  rfl

end UncheckedLocalCertificationRunAttestation

namespace LocalCertificationRunAttestation

def toJson (attestation : LocalCertificationRunAttestation) : Json :=
  .object [("format_version", formatVersion),
    ("freshness", attestation.freshness.toJson library),
    ("runner", attestation.runner.toJson),
    ("result", attestation.result.toJson)]

def canonicalDocumentDigest (attestation : LocalCertificationRunAttestation) :
    Option LocalCertificationRunAttestationDigest :=
  library.hashCanonical (attestation.toJson library)

variable {library}

theorem unchecked_fromJson_toJson (hUuid : ∀ uuid, library.uuidFromText (library.uuidToText uuid) = some uuid)
    (attestation : LocalCertificationRunAttestation) :
    UncheckedLocalCertificationRunAttestation.fromJson library (attestation.toJson library) =
      some ⟨attestation.freshness, attestation.runner, attestation.result⟩ := by
  have hMembers : structMembers UncheckedLocalCertificationRunAttestation.names (attestation.toJson library) =
      some [_, _, _, _] := structMembers_object rfl (by decide)
  have hVersion : formatVersionFromJson formatVersion = some () := rfl
  simp [UncheckedLocalCertificationRunAttestation.fromJson, hMembers, hVersion,
    attestation.freshness.fromJson_toJson hUuid]

end LocalCertificationRunAttestation

end Weregopher
