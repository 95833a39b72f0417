import Weregopher.Transform.Overlay

/-! # Match evidence and complete artifact bundles

The evidence lists the ranges a plan matched. A bundle adds the audit record to the four
artifacts of a rule and binds all five by their digests. Allocations, which can only
fail, are left out.
-/
namespace Weregopher.Transform
open Lib.Bytes Lib.Checked Lib.Outcome

inductive MatchEvidenceError
  | invalidLimit
  | evidenceLengthOverflow
  | evidenceTooLarge (actualBytes maxBytes : Nat)
  | integerEncodingFailed
  | emittedLengthMismatch (expectedBytes actualBytes : Nat)
  deriving DecidableEq

structure MatchEvidenceLimits where
  evidenceBytes : Nat
  nonzero : evidenceBytes ≠ 0

def MatchEvidenceLimits.new (maxEvidenceBytes : Nat) : Except MatchEvidenceError MatchEvidenceLimits :=
  if h : maxEvidenceBytes = 0 then .error .invalidLimit else .ok ⟨maxEvidenceBytes, h⟩

structure EmittedMatchEvidence where
  plan : TransformPlan
  bytes : List UInt8
  digest : Sha256Digest
  deriving DecidableEq

def evidencePrefix : List UInt8 :=
  utf8Bytes "\x7b\"format_version\":\"1\",\"kind\":\"static_module_specifier_matches\",\"rule_id\":\""

def evidenceRuleDigest : List UInt8 := utf8Bytes "\",\"rule_digest\":\""

def evidenceSourceUnit : List UInt8 := utf8Bytes "\",\"source\":\x7b\"unit_id\":\""

def evidenceSourceDigest : List UInt8 := utf8Bytes "\",\"source_digest\":\""

def evidenceMatches : List UInt8 := utf8Bytes "\"\x7d,\"matches\":["

def matchStart : List UInt8 := utf8Bytes "\x7b\"start_byte\":"

def matchEnd : List UInt8 := utf8Bytes ",\"end_byte\":"

def evidenceSuffix : List UInt8 := utf8Bytes "]\x7d"

def decimalLength (value : Nat) : Nat := if value ≥ 10 then decimalLength (value / 10) + 1 else 1
decreasing_by omega

def appendDigits : (position value : Nat) → Except MatchEvidenceError (List UInt8)
  | 0, _ => .error .integerEncodingFailed
  | position + 1, value =>
    if value / 10 = 0 then return [UInt8.ofNat (48 + value % 10)]
    else do
      let front ← appendDigits position (value / 10)
      return front ++ [UInt8.ofNat (48 + value % 10)]

def appendU32 (value : Nat) : Except MatchEvidenceError (List UInt8) := appendDigits 10 value

def appendMatches (first : Bool) : List TextEdit → Except MatchEvidenceError (List UInt8)
  | [] => return []
  | edit :: rest => do
    let start ← appendU32 edit.startByte
    let stop ← appendU32 edit.endByte
    let more ← appendMatches false rest
    return (if first then [] else [0x2c]) ++ matchStart ++ start ++ matchEnd ++ stop ++ [0x7d] ++ more

def checkedEvidenceAdd (current additional : Nat) : Except MatchEvidenceError Nat :=
  okOr .evidenceLengthOverflow (checkedAdd usizeMax current additional)

/-- What one match adds to the length, comma included. -/
def matchLengths (first : Bool) (edit : TextEdit) : List Nat :=
  (if first then [] else [1]) ++
    [matchStart.length, decimalLength edit.startByte, matchEnd.length, decimalLength edit.endByte, 1]

def matchEvidenceLength (plan : TransformPlan) : Except MatchEvidenceError Nat := do
  let length ← ([evidencePrefix, evidenceRuleDigest, evidenceSourceUnit, evidenceSourceDigest, evidenceMatches,
    evidenceSuffix].map List.length).foldlM checkedEvidenceAdd 0
  let length ← [(utf8Bytes plan.ruleId.value).length, digestTextLength, (utf8Bytes plan.source.unitId.value).length,
    digestTextLength].foldlM checkedEvidenceAdd length
  match plan.edits with
  | [] => return length
  | edit :: rest => (matchLengths true edit ++ rest.flatMap (matchLengths false)).foldlM checkedEvidenceAdd length

def emitMatchEvidence (sha256 : Sha256) (plan : TransformPlan) (limits : MatchEvidenceLimits) :
    Except MatchEvidenceError EmittedMatchEvidence := do
  let evidenceLength ← matchEvidenceLength plan
  if evidenceLength > limits.evidenceBytes then throw (.evidenceTooLarge evidenceLength limits.evidenceBytes)
  let ranges ← appendMatches true plan.edits
  let bytes := evidencePrefix ++ utf8Bytes plan.ruleId.value ++ evidenceRuleDigest ++ digestText plan.ruleDigest ++
    evidenceSourceUnit ++ utf8Bytes plan.source.unitId.value ++ evidenceSourceDigest ++
    digestText plan.source.sourceDigest ++ evidenceMatches ++ ranges ++ evidenceSuffix
  if bytes.length ≠ evidenceLength then throw (.emittedLengthMismatch evidenceLength bytes.length)
  return ⟨plan, bytes, sha256 bytes⟩

inductive TransformBundleError
  | invalidLimits
  | sourceTooLarge (actualBytes maxBytes : Nat)
  | artifactPlanMismatch
  | sourceMapLineageMismatch
  | sourceDigestMismatch
  | auditLengthOverflow
  | auditLogTooLarge (actualBytes maxBytes : Nat)
  | aggregateLengthOverflow
  | aggregateTooLarge (actualBytes maxBytes : Nat)
  | auditLengthMismatch (expectedBytes actualBytes : Nat)
  deriving DecidableEq

structure TransformBundleLimits where
  (source auditLog aggregate : Nat)
  nonzero : source ≠ 0 ∧ auditLog ≠ 0 ∧ aggregate ≠ 0

def TransformBundleLimits.new (maxSourceBytes maxAuditLogBytes maxAggregateBytes : Nat) :
    Except TransformBundleError TransformBundleLimits :=
  if h : maxSourceBytes ≠ 0 ∧ maxAuditLogBytes ≠ 0 ∧ maxAggregateBytes ≠ 0 then
    .ok ⟨maxSourceBytes, maxAuditLogBytes, maxAggregateBytes, h⟩
  else .error .invalidLimits

structure TransformArtifactBytes where
  (source matchEvidence transformedSource sourceMap auditLog : List UInt8)

structure EmittedTransformArtifactBundle where
  source : List UInt8
  transformedSource : EmittedTransformedSource
  matchEvidence : EmittedMatchEvidence
  sourceMap : EmittedSourceMap
  auditLog : List UInt8
  auditLogDigest : Sha256Digest
  rebinding : TransformRebinding
  totalBytes : Nat
  deriving DecidableEq

def EmittedTransformArtifactBundle.artifacts (bundle : EmittedTransformArtifactBundle) : TransformArtifactBytes where
  source := bundle.source
  matchEvidence := bundle.matchEvidence.bytes
  transformedSource := bundle.transformedSource.transformedSource
  sourceMap := bundle.sourceMap.bytes
  auditLog := bundle.auditLog

def auditPrefix : List UInt8 :=
  utf8Bytes "\x7b\"format_version\":\"1\",\"operation\":\"static_import_rewrite\",\"rule_id\":\""

def auditRuleDigest : List UInt8 := utf8Bytes "\",\"rule_digest\":\""

def auditSource : List UInt8 := utf8Bytes "\",\"source\":\x7b\"unit_id\":\""

def auditSourceDigest : List UInt8 := utf8Bytes "\",\"source_digest\":\""

def auditMatchEvidence : List UInt8 := utf8Bytes "\"\x7d,\"artifacts\":\x7b\"match_evidence_digest\":\""

def auditTransformedSource : List UInt8 := utf8Bytes "\",\"transformed_source_digest\":\""

def auditSourceMap : List UInt8 := utf8Bytes "\",\"source_map_digest\":\""

def auditEditCount : List UInt8 := utf8Bytes "\"\x7d,\"edit_count\":"

def auditSuffix : List UInt8 := utf8Bytes "\x7d"

def addLengths (overflow : TransformBundleError) (start : Nat) (lengths : List Nat) :
    Except TransformBundleError Nat :=
  lengths.foldlM (fun length more => okOr overflow (checkedAdd usizeMax length more)) start

def auditLength (ruleIdLength sourceUnitIdLength editCountLength : Nat) : Except TransformBundleError Nat := do
  let length ← addLengths .auditLengthOverflow 0 ([auditPrefix, auditRuleDigest, auditSource, auditSourceDigest,
    auditMatchEvidence, auditTransformedSource, auditSourceMap, auditEditCount, auditSuffix].map List.length)
  addLengths .auditLengthOverflow length [ruleIdLength, sourceUnitIdLength, digestTextLength, digestTextLength,
    digestTextLength, digestTextLength, digestTextLength, editCountLength]

def aggregateLength (lengths : List Nat) : Except TransformBundleError Nat :=
  addLengths .aggregateLengthOverflow 0 lengths

def auditRecord (plan : TransformPlan) (matchEvidence transformedSource sourceMap : Sha256Digest) : List UInt8 :=
  auditPrefix ++ utf8Bytes plan.ruleId.value ++ auditRuleDigest ++ digestText plan.ruleDigest ++ auditSource ++
    utf8Bytes plan.source.unitId.value ++ auditSourceDigest ++ digestText plan.source.sourceDigest ++
    auditMatchEvidence ++ digestText matchEvidence ++ auditTransformedSource ++ digestText transformedSource ++
    auditSourceMap ++ digestText sourceMap ++ auditEditCount ++ utf8Bytes (toString plan.edits.length) ++ auditSuffix

def assembleTransformArtifacts (sha256 : Sha256) (source : List UInt8)
    (transformedSource : EmittedTransformedSource) (matchEvidence : EmittedMatchEvidence)
    (sourceMap : EmittedSourceMap) (limits : TransformBundleLimits) :
    Except TransformBundleError EmittedTransformArtifactBundle := do
  if source.length > limits.source then throw (.sourceTooLarge source.length limits.source)
  let plan := transformedSource.plan
  if plan ≠ matchEvidence.plan then throw .artifactPlanMismatch
  if sourceMap.transformedSource ≠ transformedSource then throw .sourceMapLineageMismatch
  if sha256 source ≠ plan.source.sourceDigest then throw .sourceDigestMismatch
  let auditLength ← auditLength (utf8Bytes plan.ruleId.value).length (utf8Bytes plan.source.unitId.value).length
    (decimalLength plan.edits.length)
  if auditLength > limits.auditLog then throw (.auditLogTooLarge auditLength limits.auditLog)
  let totalBytes ← aggregateLength [source.length, matchEvidence.bytes.length,
    transformedSource.transformedSource.length, sourceMap.bytes.length, auditLength]
  if totalBytes > limits.aggregate then throw (.aggregateTooLarge totalBytes limits.aggregate)
  let auditLog := auditRecord plan matchEvidence.digest transformedSource.transformedSourceDigest sourceMap.digest
  if auditLog.length ≠ auditLength then throw (.auditLengthMismatch auditLength auditLog.length)
  let auditLogDigest := sha256 auditLog
  return {
    source, transformedSource, matchEvidence, sourceMap, auditLog, auditLogDigest, totalBytes
    rebinding := ⟨plan.ruleDigest, plan.source, matchEvidence.digest, transformedSource.transformedSourceDigest,
      sourceMap.digest, auditLogDigest⟩ }

end Weregopher.Transform
