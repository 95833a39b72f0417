import Weregopher.Lib.Loop
import Weregopher.Transform.Bundle

/-! # Verification of artifact bytes against an overlay

Every rule of the overlay has its five artifacts and no other rule has any. Their sizes
are bounded before anything is hashed, and each digest is the one the overlay names.
-/
namespace Weregopher.Transform
open Lib Lib.Checked Lib.Outcome

inductive TransformArtifactKind
  | source
  | matchEvidence
  | transformedSource
  | sourceMap
  | auditLog
  deriving DecidableEq

namespace TransformArtifactKind

def all : List TransformArtifactKind := [source, matchEvidence, transformedSource, sourceMap, auditLog]

theorem mem_all (kind : TransformArtifactKind) : kind ∈ all := by
  cases kind <;> decide

end TransformArtifactKind

def TransformArtifactBytes.get (bytes : TransformArtifactBytes) : TransformArtifactKind → List UInt8
  | .source => bytes.source
  | .matchEvidence => bytes.matchEvidence
  | .transformedSource => bytes.transformedSource
  | .sourceMap => bytes.sourceMap
  | .auditLog => bytes.auditLog

def TransformRebinding.digest (rebinding : TransformRebinding) : TransformArtifactKind → Sha256Digest
  | .source => rebinding.source.sourceDigest
  | .matchEvidence => rebinding.matchEvidenceDigest
  | .transformedSource => rebinding.transformedSourceDigest
  | .sourceMap => rebinding.sourceMapDigest
  | .auditLog => rebinding.auditLogDigest

inductive TransformArtifactError
  | invalidLimits
  | missingArtifactBundle (ruleId : TransformRuleId)
  | unexpectedArtifactBundle (ruleId : TransformRuleId)
  | digestMismatch (ruleId : TransformRuleId) (artifact : TransformArtifactKind)
  | artifactTooLarge (ruleId : TransformRuleId) (artifact : TransformArtifactKind) (actualBytes maxBytes : Nat)
  | totalBytesExceeded (actualBytes maxBytes : Nat)

structure TransformArtifactLimits where
  perArtifact : TransformArtifactKind → UInt64
  aggregate : UInt64
  nonzero : (∀ kind, perArtifact kind ≠ 0) ∧ aggregate ≠ 0

def TransformArtifactLimits.new (maxSourceBytes maxMatchEvidenceBytes maxTransformedSourceBytes maxSourceMapBytes
    maxAuditLogBytes maxTotalBytes : UInt64) : Except TransformArtifactError TransformArtifactLimits :=
  if h : maxSourceBytes ≠ 0 ∧ maxMatchEvidenceBytes ≠ 0 ∧ maxTransformedSourceBytes ≠ 0 ∧ maxSourceMapBytes ≠ 0 ∧
      maxAuditLogBytes ≠ 0 ∧ maxTotalBytes ≠ 0 then
    .ok {
      perArtifact := fun
        | .source => maxSourceBytes
        | .matchEvidence => maxMatchEvidenceBytes
        | .transformedSource => maxTransformedSourceBytes
        | .sourceMap => maxSourceMapBytes
        | .auditLog => maxAuditLogBytes
      aggregate := maxTotalBytes
      nonzero := ⟨by rintro (_ | _ | _ | _ | _) <;> simp [h], h.2.2.2.2.2⟩ }
  else .error .invalidLimits

abbrev ArtifactMap := OrderedMap TransformRuleId TransformArtifactBytes

structure VerifiedTransformArtifacts (sha256 : Sha256) where
  structuralValidation : StructurallyValidatedTransformOverlay sha256
  artifacts : ArtifactMap

def boundArtifact (limits : TransformArtifactLimits) (ruleId : TransformRuleId) (bytes : TransformArtifactBytes)
    (totalBytes : Nat) (kind : TransformArtifactKind) : Except TransformArtifactError Nat := do
  let actual := (bytes.get kind).length
  let maxBytes := (limits.perArtifact kind).toNat
  if actual > maxBytes then throw (.artifactTooLarge ruleId kind actual maxBytes)
  okOr (.totalBytesExceeded usizeMax limits.aggregate.toNat) (checkedAdd usizeMax totalBytes actual)

def boundRule (limits : TransformArtifactLimits) (totalBytes : Nat)
    (entry : TransformRuleId × TransformArtifactBytes) : Except TransformArtifactError Nat :=
  TransformArtifactKind.all.foldlM (boundArtifact limits entry.1 entry.2) totalBytes

section

variable {sha256 : Sha256}

def checkDigests (sha256 : Sha256) (artifacts : ArtifactMap)
    (entry : TransformRuleId × TransformRebinding) : Except TransformArtifactError Unit := do
  let bytes ← okOr (.missingArtifactBundle entry.1) (artifacts.find? entry.1)
  TransformArtifactKind.all.forM fun kind =>
    if sha256 (bytes.get kind) ≠ entry.2.digest kind then throw (.digestMismatch entry.1 kind) else return ()

def verifyTransformArtifacts (structuralValidation : StructurallyValidatedTransformOverlay sha256)
    (artifacts : ArtifactMap) (limits : TransformArtifactLimits) :
    Except TransformArtifactError (VerifiedTransformArtifacts sha256) := do
  let rebindings := structuralValidation.overlay.rebindings
  rebindings.keys.forM fun ruleId =>
    if (artifacts.find? ruleId).isNone then throw (.missingArtifactBundle ruleId) else return ()
  artifacts.keys.forM fun ruleId =>
    if (rebindings.find? ruleId).isNone then throw (.unexpectedArtifactBundle ruleId) else return ()
  let totalBytes ← artifacts.entries.foldlM (boundRule limits) 0
  if totalBytes > limits.aggregate.toNat then throw (.totalBytesExceeded totalBytes limits.aggregate.toNat)
  rebindings.entries.forM (checkDigests sha256 artifacts)
  return ⟨structuralValidation, artifacts⟩

def Conforms (sha256 : Sha256) (bytes : TransformArtifactBytes) (rebinding : TransformRebinding) :
    Prop := ∀ kind, sha256 (bytes.get kind) = rebinding.digest kind

structure Admits (limits : TransformArtifactLimits) (artifacts : ArtifactMap) : Prop where
  each : ∀ entry ∈ artifacts.entries, ∀ kind, (entry.2.get kind).length ≤ (limits.perArtifact kind).toNat
  total : (artifacts.entries.map fun entry =>
    (TransformArtifactKind.all.map fun kind => (entry.2.get kind).length).sum).sum ≤ limits.aggregate.toNat

def TransformArtifactBytes.totalLength (bytes : TransformArtifactBytes) : Nat :=
  (TransformArtifactKind.all.map fun kind => (bytes.get kind).length).sum

variable {limits : TransformArtifactLimits} {next total : Nat} {artifacts : ArtifactMap}

theorem boundArtifact_ok {ruleId : TransformRuleId} {bytes : TransformArtifactBytes} {kind : TransformArtifactKind} :
    boundArtifact limits ruleId bytes total kind = .ok next ↔
      (bytes.get kind).length ≤ (limits.perArtifact kind).toNat ∧
        total + (bytes.get kind).length ≤ usizeMax ∧ next = total + (bytes.get kind).length := by
  rw [boundArtifact, guard_ok, okOr_ok, checkedAdd_eq_some, Nat.not_lt, eq_comm (a := next)]

theorem boundRule_ok {entry : TransformRuleId × TransformArtifactBytes} (hTotal : total ≤ usizeMax) :
    boundRule limits total entry = .ok next ↔
      (∀ kind, (entry.2.get kind).length ≤ (limits.perArtifact kind).toNat) ∧
        total + entry.2.totalLength ≤ usizeMax ∧ next = total + entry.2.totalLength := by
  have hKinds : (∀ kind ∈ TransformArtifactKind.all, (entry.2.get kind).length ≤ (limits.perArtifact kind).toNat) ↔
      ∀ kind, (entry.2.get kind).length ≤ (limits.perArtifact kind).toNat :=
    forall_congr' fun kind => ⟨fun h => h kind.mem_all, fun h _ => h⟩
  rw [boundRule, foldlM_add_ok (f := boundArtifact limits entry.1 entry.2) (fun _ _ _ _ => boundArtifact_ok) _ hTotal,
    hKinds]
  rfl

theorem boundRules_ok :
    artifacts.entries.foldlM (boundRule limits) 0 = .ok total ∧ total ≤ limits.aggregate.toNat ↔
      Admits limits artifacts ∧ total = (artifacts.entries.map fun entry => entry.2.totalLength).sum := by
  have hUsize : limits.aggregate.toNat ≤ usizeMax := Nat.le_of_lt_succ limits.aggregate.toNat_lt
  rw [foldlM_add_ok (f := boundRule limits) (fun _ _ _ hTotal => boundRule_ok hTotal) _ (Nat.zero_le _), Nat.zero_add]
  constructor
  · rintro ⟨⟨hEach, -, rfl⟩, hTotal⟩
    exact ⟨⟨hEach, hTotal⟩, rfl⟩
  · rintro ⟨⟨hEach, hTotal⟩, rfl⟩
    exact ⟨⟨hEach, hTotal.trans hUsize, rfl⟩, hTotal⟩

theorem checkDigests_ok {entry : TransformRuleId × TransformRebinding} :
    checkDigests sha256 artifacts entry = .ok () ↔
      ∃ bytes, artifacts.find? entry.1 = some bytes ∧ Conforms sha256 bytes entry.2 := by
  rw [checkDigests, bind_ok]
  simp only [okOr_ok, forM_ok, ite_throw_ok, pure_ok, not_not, and_true]
  refine exists_congr fun bytes => and_congr_right fun _ => ?_
  exact forall_congr' fun kind => ⟨fun h => h kind.mem_all, fun h _ => h⟩

theorem verifyTransformArtifacts_ok {structuralValidation : StructurallyValidatedTransformOverlay sha256}
    {verified : VerifiedTransformArtifacts sha256} :
    verifyTransformArtifacts structuralValidation artifacts limits = .ok verified ↔
      (∀ ruleId ∈ artifacts.keys, (structuralValidation.overlay.rebindings.find? ruleId).isSome = true) ∧
        Admits limits artifacts ∧
        (∀ entry ∈ structuralValidation.overlay.rebindings.entries,
          ∃ bytes, artifacts.find? entry.1 = some bytes ∧ Conforms sha256 bytes entry.2) ∧
        verified = ⟨structuralValidation, artifacts⟩ := by
  rw [verifyTransformArtifacts, check_ok, check_ok, bind_ok]
  simp only [forM_ok, ite_throw_ok, pure_ok, and_true, guard_ok, Nat.not_lt, check_ok, checkDigests_ok,
    Bool.not_eq_true, Option.isNone_eq_false_iff]
  constructor
  · rintro ⟨-, hExpected, total, hTotal, hBound, hDigests, rfl⟩
    exact ⟨hExpected, (boundRules_ok.mp ⟨hTotal, hBound⟩).1, hDigests, rfl⟩
  · rintro ⟨hExpected, hAdmits, hDigests, rfl⟩
    obtain ⟨hTotal, hBound⟩ := boundRules_ok.mpr ⟨hAdmits, rfl⟩
    refine ⟨fun ruleId hRule => ?_, hExpected, _, hTotal, hBound, hDigests, rfl⟩
    obtain ⟨entry, hEntry, rfl⟩ := List.mem_map.mp hRule
    obtain ⟨bytes, hBytes, -⟩ := hDigests entry hEntry
    rw [hBytes]
    rfl

end

section

variable {sha256 : Sha256}

structure Assembled (sha256 : Sha256) (bundle : EmittedTransformArtifactBundle) : Prop where
  transformed : ∃ plan source limits, emitTransformedSource sha256 plan source limits = .ok bundle.transformedSource
  evidence : ∃ plan limits, emitMatchEvidence sha256 plan limits = .ok bundle.matchEvidence
  map : ∃ transformed source limits, emitSourceMap sha256 transformed source limits = .ok bundle.sourceMap
  assembled : ∃ limits, assembleTransformArtifacts sha256 bundle.source bundle.transformedSource bundle.matchEvidence
    bundle.sourceMap limits = .ok bundle

theorem emitTransformedSource_digest {plan : TransformPlan} {source : List UInt8} {limits : TransformEmissionLimits}
    {emitted : EmittedTransformedSource} (h : emitTransformedSource sha256 plan source limits = .ok emitted) :
    emitted.transformedSourceDigest = sha256 emitted.transformedSource := by
  rw [emitTransformedSource, guard_ok, guard_ok, bind_ok] at h
  obtain ⟨-, -, length, -, h⟩ := h
  rw [guard_ok, bind_ok] at h
  obtain ⟨-, transformed, -, h⟩ := h
  rw [guard_ok, pure_ok] at h
  rw [← h.2]

theorem emitMatchEvidence_digest {plan : TransformPlan} {limits : MatchEvidenceLimits} {emitted : EmittedMatchEvidence}
    (h : emitMatchEvidence sha256 plan limits = .ok emitted) : emitted.digest = sha256 emitted.bytes := by
  rw [emitMatchEvidence, bind_ok] at h
  obtain ⟨length, -, h⟩ := h
  rw [guard_ok, bind_ok] at h
  obtain ⟨-, ranges, -, h⟩ := h
  rw [guard_ok, pure_ok] at h
  rw [← h.2]

theorem emitSourceMap_digest {transformed : EmittedTransformedSource} {source : List UInt8} {limits : SourceMapLimits}
    {emitted : EmittedSourceMap} (h : emitSourceMap sha256 transformed source limits = .ok emitted) :
    emitted.digest = sha256 emitted.bytes := by
  rw [emitSourceMap, guard_ok, guard_ok, guard_ok] at h
  simp only [bind_ok, guard_ok, pure_ok] at h
  obtain ⟨-, -, -, _, -, _, -, _, -, _, -, _, -, _, -, _, -, -, _, -, -, rfl⟩ := h
  rfl

theorem Assembled.conforms {bundle : EmittedTransformArtifactBundle} (h : Assembled sha256 bundle) :
    Conforms sha256 bundle.artifacts bundle.rebinding := by
  obtain ⟨⟨_, _, _, hTransformed⟩, ⟨_, _, hEvidence⟩, ⟨_, _, _, hMap⟩, ⟨_, hAssembled⟩⟩ := h
  have hTransformedDigest := emitTransformedSource_digest hTransformed
  have hEvidenceDigest := emitMatchEvidence_digest hEvidence
  have hMapDigest := emitSourceMap_digest hMap
  simp only [assembleTransformArtifacts, guard_ok, bind_ok, pure_ok, not_not] at hAssembled
  obtain ⟨-, -, -, hSource, _, -, -, _, -, -, -, hBundle⟩ := hAssembled
  have hRebinding : bundle.rebinding = ⟨bundle.transformedSource.plan.ruleDigest, bundle.transformedSource.plan.source,
      bundle.matchEvidence.digest, bundle.transformedSource.transformedSourceDigest, bundle.sourceMap.digest,
      sha256 bundle.auditLog⟩ := by
    rw [← hBundle]
  intro kind
  rw [hRebinding]
  cases kind
  · exact hSource
  · exact hEvidenceDigest.symm
  · exact hTransformedDigest.symm
  · exact hMapDigest.symm
  · rfl

end

end Weregopher.Transform
