import Weregopher.Lib.OrderedMap
import Weregopher.Transform.SourceMap

/-! # Generated overlays and the authority they are checked against

An overlay binds rules of an adapter to exact source units. A checked overlay can only
be built by the check. Enumerations with one value, such as the platform, are left out.
-/
namespace Weregopher
open Lib

theorem StableId.value_injective {kind : String} : Function.Injective (StableId.value : StableId kind → String) := by
  rintro ⟨value, _⟩ ⟨_, _⟩ rfl
  rfl

instance {kind : String} : LinearOrder (StableId kind) := LinearOrder.lift' StableId.value StableId.value_injective

namespace Transform
open Lib.Bytes Lib.Outcome

inductive TransformContractError
  | emptyTransformAuthority
  | tooManyTransformRules
  | emptyTransformOverlay
  | tooManyTransformRebindings
  | duplicateSourceUnit
  | sourceBuildMismatch
  | buildDescriptorMismatch
  | authorityIdentityMismatch
  | authorityDigestMismatch
  | unknownTransformRule
  | transformRuleDigestMismatch
  deriving DecidableEq

def maxAuthorizedTransformRules : Nat := 128

def maxGeneratedTransformRebindings : Nat := 128

structure AdapterTransformAuthority where
  adapterId : AdapterId
  family : ApplicationFamilyId
  adapterContentDigest : Sha256Digest
  rules : OrderedMap TransformRuleId Sha256Digest
  nonempty : rules.entries ≠ []
  bounded : rules.entries.length ≤ maxAuthorizedTransformRules

def AdapterTransformAuthority.new (adapterId : AdapterId) (family : ApplicationFamilyId)
    (adapterContentDigest : Sha256Digest) (rules : OrderedMap TransformRuleId Sha256Digest) :
    Except TransformContractError AdapterTransformAuthority :=
  if hEmpty : rules.entries = [] then .error .emptyTransformAuthority
  else if hMany : rules.entries.length > maxAuthorizedTransformRules then .error .tooManyTransformRules
  else .ok ⟨adapterId, family, adapterContentDigest, rules, hEmpty, Nat.le_of_not_lt hMany⟩

def ruleDocument (rule : TransformRuleId × Sha256Digest) : List UInt8 :=
  utf8Bytes "\"" ++ utf8Bytes rule.1.value ++ utf8Bytes "\":\x7b\"rule_digest\":\"" ++ digestText rule.2 ++
    utf8Bytes "\"\x7d"

variable (sha256 : Sha256)

def AdapterTransformAuthority.canonicalDocumentDigest (authority : AdapterTransformAuthority) : Sha256Digest :=
  sha256 (utf8Bytes "\x7b\"format_version\":\"" ++ utf8Bytes "1" ++ utf8Bytes "\",\"adapter_id\":\"" ++
    utf8Bytes authority.adapterId.value ++ utf8Bytes "\",\"family\":\"" ++ utf8Bytes authority.family.value ++
    utf8Bytes "\",\"adapter_content_digest\":\"" ++ digestText authority.adapterContentDigest ++
    utf8Bytes "\",\"rules\":\x7b" ++ (utf8Bytes ",").intercalate (authority.rules.entries.map ruleDocument) ++
    utf8Bytes "\x7d\x7d")

structure TransformRebinding where
  ruleDigest : Sha256Digest
  source : SourceUnitRef
  (matchEvidenceDigest transformedSourceDigest sourceMapDigest auditLogDigest : Sha256Digest)
  deriving DecidableEq

structure TransformOverlayBinding where
  sourceBuildFingerprintDigest : Sha256Digest
  family : ApplicationFamilyId
  adapterId : AdapterId
  (adapterContentDigest adapterTransformAuthorityDigest buildDescriptorDigest : Sha256Digest)

/-- No source unit is bound twice. -/
structure GeneratedTransformOverlay where
  binding : TransformOverlayBinding
  rebindings : OrderedMap TransformRuleId TransformRebinding
  nonempty : rebindings.entries ≠ []
  bounded : rebindings.entries.length ≤ maxGeneratedTransformRebindings
  units : (rebindings.entries.map fun entry => entry.2.source.unitId).Nodup

def GeneratedTransformOverlay.windowsX64 (binding : TransformOverlayBinding)
    (rebindings : OrderedMap TransformRuleId TransformRebinding) :
    Except TransformContractError GeneratedTransformOverlay :=
  if hEmpty : rebindings.entries = [] then .error .emptyTransformOverlay
  else if hMany : rebindings.entries.length > maxGeneratedTransformRebindings then .error .tooManyTransformRebindings
  else if hUnits : (rebindings.entries.map fun entry => entry.2.source.unitId).Nodup then
    .ok ⟨binding, rebindings, hEmpty, Nat.le_of_not_lt hMany, hUnits⟩
  else .error .duplicateSourceUnit

def checkRule (authority : AdapterTransformAuthority) (entry : TransformRuleId × TransformRebinding) :
    Except TransformContractError Unit := do
  let ruleDigest ← okOr .unknownTransformRule (authority.rules.find? entry.1)
  if ruleDigest ≠ entry.2.ruleDigest then throw .transformRuleDigestMismatch

def GeneratedTransformOverlay.checkAgainst (overlay : GeneratedTransformOverlay)
    (authority : AdapterTransformAuthority) (sourceBuildFingerprintDigest buildDescriptorDigest : Sha256Digest) :
    Except TransformContractError Unit := do
  if overlay.binding.sourceBuildFingerprintDigest ≠ sourceBuildFingerprintDigest then throw .sourceBuildMismatch
  if overlay.binding.buildDescriptorDigest ≠ buildDescriptorDigest then throw .buildDescriptorMismatch
  if overlay.binding.adapterId ≠ authority.adapterId ∨ overlay.binding.family ≠ authority.family ∨
      overlay.binding.adapterContentDigest ≠ authority.adapterContentDigest then
    throw .authorityIdentityMismatch
  if overlay.binding.adapterTransformAuthorityDigest ≠ authority.canonicalDocumentDigest sha256 then
    throw .authorityDigestMismatch
  overlay.rebindings.entries.forM (checkRule authority)

structure StructurallyValidatedTransformOverlay (sha256 : Sha256) where
  overlay : GeneratedTransformOverlay
  authority : AdapterTransformAuthority
  checked : ∃ sourceBuildFingerprintDigest buildDescriptorDigest,
    overlay.checkAgainst sha256 authority sourceBuildFingerprintDigest buildDescriptorDigest = .ok ()

def GeneratedTransformOverlay.validateAgainst (overlay : GeneratedTransformOverlay)
    (authority : AdapterTransformAuthority) (sourceBuildFingerprintDigest buildDescriptorDigest : Sha256Digest) :
    Except TransformContractError (StructurallyValidatedTransformOverlay sha256) :=
  match h : overlay.checkAgainst sha256 authority sourceBuildFingerprintDigest buildDescriptorDigest with
  | .ok () => .ok ⟨overlay, authority, _, _, h⟩
  | .error e => .error e

end Transform

end Weregopher
