import Weregopher.Lib.JsonReader
import Weregopher.ManagedStore.Publication
import Weregopher.Transform.Artifacts
import Weregopher.Transform.Exact

/-! # Content-addressed materialization of verified artifacts

The manifest lists the five artifacts of every rule with their paths. Equal digests share
one stored item, and the path of an item is a function of its digest. Allocations, which
can only fail, are left out.
-/
namespace Weregopher
open Lib Lib.Bytes

theorem Sha256Digest.order_injective :
    Function.Injective fun digest : Sha256Digest => fromBeBytes digest.bytes.toList := by
  rintro ⟨bytes⟩ ⟨bytes'⟩ h
  have hList : bytes.toList = bytes'.toList := fromBeBytes_injective (by simp) h
  rw [Vector.toList_inj.mp hList]

/-- Digests are compared byte by byte from the first on. -/
instance : LinearOrder Sha256Digest := LinearOrder.lift' _ Sha256Digest.order_injective

namespace Transform
open Lib.Checked Lib.Outcome

inductive MaterializationManifestError
  | invalidLimits
  | ruleLimitExceeded (actual max : Nat)
  | referenceCountOverflow
  | referenceLimitExceeded (actual max : Nat)
  | missingVerifiedRule (ruleId : TransformRuleId)
  | digestCollision (digest : Sha256Digest)
  | blobLimitExceeded (max : Nat)
  | pathEncodingFailed
  | serializationFailed
  | manifestLengthOverflow
  | manifestTooLarge (actualBytes maxBytes : Nat)
  | manifestLengthMismatch (expectedBytes actualBytes : Nat)

structure MaterializationManifestLimits where
  (rules references blobs manifest : UInt64)
  nonzero : rules ≠ 0 ∧ references ≠ 0 ∧ blobs ≠ 0 ∧ manifest ≠ 0

def MaterializationManifestLimits.new (maxRules maxReferences maxUniqueBlobs maxManifestBytes : UInt64) :
    Except MaterializationManifestError MaterializationManifestLimits :=
  if h : maxRules ≠ 0 ∧ maxReferences ≠ 0 ∧ maxUniqueBlobs ≠ 0 ∧ maxManifestBytes ≠ 0 then
    .ok ⟨maxRules, maxReferences, maxUniqueBlobs, maxManifestBytes, h⟩
  else .error .invalidLimits

def artifactsPerRule : Nat := 5

def contentPathLength : Nat := 72

def TransformArtifactKind.name : TransformArtifactKind → String
  | .source => "source"
  | .matchEvidence => "match_evidence"
  | .transformedSource => "transformed_source"
  | .sourceMap => "source_map"
  | .auditLog => "audit_log"

structure ManifestArtifact where
  kind : String
  digest : Sha256Digest
  bytes : Nat
  path : List Char

structure ManifestRule where
  ruleId : TransformRuleId
  sourceUnitId : SourceUnitId
  artifacts : List ManifestArtifact

def ManifestArtifact.toJson (artifact : ManifestArtifact) : Json :=
  .object [("kind", .string artifact.kind), ("digest", .string artifact.digest.toText),
    ("bytes", .integer artifact.bytes), ("path", .string (String.ofList artifact.path))]

def ManifestRule.toJson (rule : ManifestRule) : Json :=
  .object [("rule_id", .string rule.ruleId.value), ("source_unit_id", .string rule.sourceUnitId.value),
    ("artifacts", .array (rule.artifacts.map ManifestArtifact.toJson))]

def TransformOverlayBinding.manifestJson (binding : TransformOverlayBinding) : Json :=
  .object [("source_build_fingerprint_digest", .string binding.sourceBuildFingerprintDigest.toText),
    ("family", .string binding.family.value), ("adapter_id", .string binding.adapterId.value),
    ("adapter_content_digest", .string binding.adapterContentDigest.toText),
    ("adapter_transform_authority_digest", .string binding.adapterTransformAuthorityDigest.toText),
    ("build_descriptor_digest", .string binding.buildDescriptorDigest.toText)]

def manifestDocument (binding : TransformOverlayBinding) (rules : List ManifestRule) : Json :=
  .object [("format_version", .string "1"), ("layout", .string "sha256-fanout-v1"),
    ("target", .string "windows-x86_64"), ("binding", binding.manifestJson),
    ("rules", .array (rules.map ManifestRule.toJson))]

/-- What `serde_json::to_writer` hands to a writer that takes all of it, and whether it completed. -/
abbrev ToWriter := Json → List UInt8 × Bool

def serializedLength (toWriter : ToWriter) (document : Json) : Except MaterializationManifestError Nat :=
  let (bytes, completed) := toWriter document
  if bytes.length > usizeMax then .error .manifestLengthOverflow
  else if ¬completed then .error .serializationFailed
  else .ok bytes.length

abbrev BlobMap := OrderedMap Sha256Digest (List UInt8)

variable (digest : Sha256Digest)

def contentPath : Except MaterializationManifestError (List Char) :=
  let path := ManagedStore.contentPath digest
  if path.length ≠ contentPathLength then .error .pathEncodingFailed else .ok path

/-- The check of `manifest_artifact` for the bytes stored under its digest. -/
def storeBlob (maxBlobs : Nat) (blobs : BlobMap) (blob : Sha256Digest × List UInt8) :
    Except MaterializationManifestError BlobMap :=
  match blobs.find? blob.1 with
  | some existing => if existing ≠ blob.2 then .error (.digestCollision blob.1) else .ok blobs
  | none =>
    if blobs.entries.length ≥ maxBlobs then .error (.blobLimitExceeded maxBlobs)
    else .ok (blobs.insert blob.1 blob.2)

def manifestArtifact (kind : String) (digest : Sha256Digest) (bytes : List UInt8) (blobs : BlobMap) (maxBlobs : Nat) :
    Except MaterializationManifestError (ManifestArtifact × BlobMap) := do
  let blobs ← storeBlob maxBlobs blobs (digest, bytes)
  let path ← contentPath digest
  return (⟨kind, digest, bytes.length, path⟩, blobs)

def collectArtifact (maxBlobs : Nat) (rebinding : TransformRebinding) (bytes : TransformArtifactBytes)
    (collected : List ManifestArtifact × BlobMap) (kind : TransformArtifactKind) :
    Except MaterializationManifestError (List ManifestArtifact × BlobMap) := do
  let (artifact, blobs) ← manifestArtifact kind.name (rebinding.digest kind) (bytes.get kind) collected.2 maxBlobs
  return (collected.1 ++ [artifact], blobs)

def collectRule (maxBlobs : Nat) (artifacts : ArtifactMap) (collected : List ManifestRule × BlobMap)
    (entry : TransformRuleId × TransformRebinding) :
    Except MaterializationManifestError (List ManifestRule × BlobMap) := do
  let bytes ← okOr (.missingVerifiedRule entry.1) (artifacts.find? entry.1)
  let (records, blobs) ← TransformArtifactKind.all.foldlM (collectArtifact maxBlobs entry.2 bytes) ([], collected.2)
  return (collected.1 ++ [⟨entry.1, entry.2.source.unitId, records⟩], blobs)

variable {sha256 : Sha256}

def collectManifestRecords (verified : VerifiedTransformArtifacts sha256) (maxBlobs : Nat) :
    Except MaterializationManifestError (List ManifestRule × BlobMap) :=
  verified.structuralValidation.overlay.rebindings.entries.foldlM (collectRule maxBlobs verified.artifacts) ([], .empty)

structure MaterializationManifest (sha256 : Sha256) where
  verified : VerifiedTransformArtifacts sha256
  bytes : List UInt8
  digest : Sha256Digest
  blobs : BlobMap
  ruleCount : Nat
  referenceCount : Nat

def planContentAddressedMaterialization (toWriter : ToWriter) (verified : VerifiedTransformArtifacts sha256)
    (limits : MaterializationManifestLimits) :
    Except MaterializationManifestError (MaterializationManifest sha256) := do
  let overlay := verified.structuralValidation.overlay
  let ruleCount := verified.artifacts.entries.length
  if ruleCount > limits.rules.toNat then throw (.ruleLimitExceeded ruleCount limits.rules.toNat)
  let referenceCount ← okOr .referenceCountOverflow (checkedMul usizeMax ruleCount artifactsPerRule)
  if referenceCount > limits.references.toNat then
    throw (.referenceLimitExceeded referenceCount limits.references.toNat)
  let (rules, blobs) ← collectManifestRecords verified limits.blobs.toNat
  let document := manifestDocument overlay.binding rules
  let manifestLength ← serializedLength toWriter document
  if manifestLength > limits.manifest.toNat then throw (.manifestTooLarge manifestLength limits.manifest.toNat)
  let (bytes, completed) := toWriter document
  if ¬completed then throw .serializationFailed
  if bytes.length ≠ manifestLength then throw (.manifestLengthMismatch manifestLength bytes.length)
  return ⟨verified, bytes, sha256 bytes, blobs, ruleCount, referenceCount⟩

/-! ## Stored items -/

variable {blob : Sha256Digest × List UInt8} {blobs next : BlobMap} {maxBlobs : Nat} {bytes : TransformArtifactBytes}

theorem storeBlob_ok
    (h : storeBlob maxBlobs blobs blob = .ok next) (digest : Sha256Digest) (bytes : List UInt8) :
    next.find? digest = some bytes ↔ blobs.find? digest = some bytes ∨ (digest, bytes) = blob := by
  obtain ⟨stored, content⟩ := blob
  rw [storeBlob] at h
  split at h
  · rename_i existing hFound
    obtain ⟨hSame, hNext⟩ := ite_error_ok.mp h
    cases hNext
    refine ⟨Or.inl, ?_⟩
    rintro (hOld | hNew)
    · exact hOld
    · cases hNew
      exact hFound.trans (congrArg some (not_not.mp hSame))
  · rename_i hFresh
    obtain ⟨-, hNext⟩ := ite_error_ok.mp h
    cases hNext
    by_cases hDigest : digest = stored
    · subst hDigest
      rw [OrderedMap.find?_insert_self, hFresh]
      simp [eq_comm]
    · rw [OrderedMap.find?_insert_of_ne _ _ hDigest]
      simp [hDigest]

def Stores (blobs : BlobMap) (listed : List (Sha256Digest × List UInt8)) : Prop :=
  ∀ digest bytes, blobs.find? digest = some bytes ↔ (digest, bytes) ∈ listed

theorem Stores.empty : Stores .empty [] := by
  intro digest bytes
  simp [OrderedMap.find?, OrderedMap.empty, lookupEntry]

theorem Stores.concat {listed : List (Sha256Digest × List UInt8)}
    (h : Stores blobs listed) (hNext : storeBlob maxBlobs blobs blob = .ok next) :
    Stores next (listed ++ [blob]) := by
  intro digest bytes
  rw [storeBlob_ok hNext, h, List.mem_append, List.mem_singleton]

theorem Stores.length_eq {listed : List (Sha256Digest × List UInt8)} (h : Stores blobs listed) :
    blobs.entries.length = (listed.map Prod.fst).dedup.length := by
  have hPerm : blobs.keys.Perm (listed.map Prod.fst).dedup := by
    refine (List.perm_ext_iff_of_nodup blobs.nodup_keys (List.nodup_dedup _)).mpr fun digest => ?_
    rw [OrderedMap.mem_keys, Option.isSome_iff_exists, List.mem_dedup, List.mem_map]
    constructor
    · rintro ⟨bytes, hFound⟩
      exact ⟨_, (h digest bytes).mp hFound, rfl⟩
    · rintro ⟨⟨_, bytes⟩, hListed, rfl⟩
      exact ⟨bytes, (h _ bytes).mpr hListed⟩
  rw [← hPerm.length_eq, OrderedMap.keys, List.length_map]

theorem Stores.storeBlob_isOk {listed : List (Sha256Digest × List UInt8)} (h : Stores blobs listed) :
    (∃ next, storeBlob maxBlobs blobs blob = .ok next) ↔
      blob ∈ listed ∨ blob.1 ∉ listed.map Prod.fst ∧ (listed.map Prod.fst).dedup.length < maxBlobs := by
  obtain ⟨digest, bytes⟩ := blob
  rw [storeBlob, ← h digest bytes]
  cases hFound : blobs.find? digest with
  | some existing =>
    have hListed : digest ∈ listed.map Prod.fst := List.mem_map.mpr ⟨_, (h digest existing).mp hFound, rfl⟩
    by_cases hSame : existing = bytes <;> simp [hListed, hSame]
  | none =>
    have hFresh : digest ∉ listed.map Prod.fst := by
      rintro hListed
      obtain ⟨⟨_, content⟩, hBlob, rfl⟩ := List.mem_map.mp hListed
      rw [(h _ content).mpr hBlob] at hFound
      cases hFound
    simp [hFresh, ite_error_ok, h.length_eq]

theorem storeBlobs_spec (maxBlobs : Nat) (listed : List (Sha256Digest × List UInt8)) :
    (∀ blobs, listed.foldlM (storeBlob maxBlobs) .empty = .ok blobs → Stores blobs listed) ∧
      ((∀ blob ∈ listed, ∀ other ∈ listed, blob.1 = other.1 → blob = other) →
        (listed.map Prod.fst).dedup.length ≤ maxBlobs →
        ∃ blobs, listed.foldlM (storeBlob maxBlobs) .empty = .ok blobs) := by
  obtain ⟨hOk, hStores⟩ := foldlM_spec (f := storeBlob maxBlobs) (fun front blobs => Stores blobs front) _ Stores.empty
    (fun _ _ _ h => h.storeBlob_isOk) (fun _ _ _ _ h hNext => h.concat hNext) listed
  refine ⟨hStores, fun hDistinct hRoom => hOk.mpr ?_⟩
  rintro front blob back rfl
  by_cases hOld : blob.1 ∈ front.map Prod.fst
  · obtain ⟨earlier, hEarlier, hSame⟩ := List.mem_map.mp hOld
    obtain rfl := hDistinct earlier (by simp [hEarlier]) blob (by simp) hSame
    exact Or.inl hEarlier
  · refine Or.inr ⟨hOld, lt_of_lt_of_le ?_ hRoom⟩
    have hNodup : (blob.1 :: (front.map Prod.fst).dedup).Nodup :=
      List.nodup_cons.mpr ⟨fun hMem => hOld (List.mem_dedup.mp hMem), List.nodup_dedup _⟩
    refine Nat.lt_of_succ_le (hNodup.length_le_of_subset ?_)
    intro digest hDigest
    rw [List.mem_cons, List.mem_dedup] at hDigest
    rw [List.mem_dedup, List.map_append, List.mem_append]
    rcases hDigest with rfl | hFront
    · exact Or.inr List.mem_cons_self
    · exact Or.inl hFront

/-! ## The records of the manifest -/

theorem length_fanout : (Sha256Digest.encodeHex (digest.bytes.toList.take 1)).length = 2 ∧
      (Sha256Digest.encodeHex (digest.bytes.toList.drop 1)).length = 62 := by
  rw [Sha256Digest.length_encodeHex, Sha256Digest.length_encodeHex]
  simp

theorem length_contentPath : (ManagedStore.contentPath digest).length = contentPathLength := by
  obtain ⟨hFanout, hName⟩ := length_fanout digest
  have hRoot : "sha256/".toList.length = 7 := rfl
  unfold ManagedStore.contentPath
  dsimp only
  rw [List.length_append, List.length_append, List.length_cons, hFanout, hName, hRoot, contentPathLength]

theorem contentPath_ok : contentPath digest = .ok (ManagedStore.contentPath digest) := by
  rw [contentPath, if_neg (not_not.mpr (length_contentPath digest))]

theorem contentPath_injective {digest other : Sha256Digest}
    (h : ManagedStore.contentPath digest = ManagedStore.contentPath other) : digest = other := by
  unfold ManagedStore.contentPath at h
  dsimp only at h
  rw [List.append_assoc, List.append_assoc] at h
  obtain ⟨hFanout, hName⟩ := List.append_inj (List.append_cancel_left h)
    ((length_fanout digest).1.trans (length_fanout other).1.symm)
  apply ManagedStore.blobPath_injective
  rw [ManagedStore.blobPath, ManagedStore.blobPath, hFanout, (List.cons.inj hName).2]

def artifactRecord (rebinding : TransformRebinding) (bytes : TransformArtifactBytes) (kind : TransformArtifactKind) :
    ManifestArtifact :=
  ⟨kind.name, rebinding.digest kind, (bytes.get kind).length, ManagedStore.contentPath (rebinding.digest kind)⟩

def ruleBlobs (rebinding : TransformRebinding) (bytes : TransformArtifactBytes) : List (Sha256Digest × List UInt8) :=
  TransformArtifactKind.all.map fun kind => (rebinding.digest kind, bytes.get kind)

def ruleRecord (rule : (TransformRuleId × TransformRebinding) × TransformArtifactBytes) : ManifestRule :=
  ⟨rule.1.1, rule.1.2.source.unitId, TransformArtifactKind.all.map (artifactRecord rule.1.2 rule.2)⟩

def covered (artifacts : ArtifactMap) (entries : List (TransformRuleId × TransformRebinding)) :
    List ((TransformRuleId × TransformRebinding) × TransformArtifactBytes) :=
  entries.filterMap fun entry => (artifacts.find? entry.1).map (entry, ·)

def referenced (rules : List ((TransformRuleId × TransformRebinding) × TransformArtifactBytes)) :
    List (Sha256Digest × List UInt8) :=
  rules.flatMap fun rule => ruleBlobs rule.1.2 rule.2

theorem collectArtifacts_eq (maxBlobs : Nat) (rebinding : TransformRebinding) (bytes : TransformArtifactBytes)
    (blobs : BlobMap) :
    TransformArtifactKind.all.foldlM (collectArtifact maxBlobs rebinding bytes) ([], blobs) =
      (TransformArtifactKind.all.map (artifactRecord rebinding bytes), ·) <$>
        (ruleBlobs rebinding bytes).foldlM (storeBlob maxBlobs) blobs := by
  have hStep : collectArtifact maxBlobs rebinding bytes = fun collected kind => do
      let next ← storeBlob maxBlobs collected.2 (rebinding.digest kind, bytes.get kind)
      return (collected.1 ++ [artifactRecord rebinding bytes kind], next) := by
    funext collected kind
    rw [collectArtifact, manifestArtifact, contentPath_ok]
    cases storeBlob maxBlobs collected.2 (rebinding.digest kind, bytes.get kind) <;> rfl
  rw [hStep, foldlM_record (f := fun blobs kind => storeBlob maxBlobs blobs (rebinding.digest kind, bytes.get kind)),
    ruleBlobs, List.foldlM_map]
  rfl

theorem collectRule_eq {artifacts : ArtifactMap} {entry : TransformRuleId × TransformRebinding}
    (hBytes : artifacts.find? entry.1 = some bytes) (collected : List ManifestRule × BlobMap) :
    collectRule maxBlobs artifacts collected entry =
      (collected.1 ++ [ruleRecord (entry, bytes)], ·) <$>
        (ruleBlobs entry.2 bytes).foldlM (storeBlob maxBlobs) collected.2 := by
  rw [collectRule, hBytes]
  change TransformArtifactKind.all.foldlM (collectArtifact maxBlobs entry.2 bytes) ([], collected.2) >>= _ = _
  rw [collectArtifacts_eq]
  cases (ruleBlobs entry.2 bytes).foldlM (storeBlob maxBlobs) collected.2 <;> rfl

theorem collectRules_eq (maxBlobs : Nat) (artifacts : ArtifactMap)
    {entries : List (TransformRuleId × TransformRebinding)}
    (hCovered : ∀ entry ∈ entries, ∃ bytes, artifacts.find? entry.1 = some bytes) (records : List ManifestRule)
    (blobs : BlobMap) : entries.foldlM (collectRule maxBlobs artifacts) (records, blobs) =
      (records ++ (covered artifacts entries).map ruleRecord, ·) <$>
        (referenced (covered artifacts entries)).foldlM (storeBlob maxBlobs) blobs := by
  induction entries generalizing records blobs with
  | nil => simp [covered, referenced]
  | cons entry rest ih =>
    obtain ⟨⟨bytes, hBytes⟩, hRest⟩ := List.forall_mem_cons.mp hCovered
    have hFirst : covered artifacts (entry :: rest) = (entry, bytes) :: covered artifacts rest := by
      simp [covered, hBytes]
    rw [hFirst, List.foldlM_cons, collectRule_eq hBytes, referenced, List.flatMap_cons, List.foldlM_append]
    cases hStored : (ruleBlobs entry.2 bytes).foldlM (storeBlob maxBlobs) blobs with
    | error e => rfl
    | ok next =>
      apply (ih hRest _ _).trans
      rw [List.append_assoc]
      rfl

/-! ## The plan -/

section

variable (toWriter : ToWriter) (verified : VerifiedTransformArtifacts sha256)

def rebindings : List (TransformRuleId × TransformRebinding) :=
  verified.structuralValidation.overlay.rebindings.entries

def rules : List ((TransformRuleId × TransformRebinding) × TransformArtifactBytes) :=
  covered verified.artifacts (rebindings verified)

def Covered : Prop := ∀ entry ∈ rebindings verified, ∃ bytes, verified.artifacts.find? entry.1 = some bytes

def document : Json :=
  manifestDocument verified.structuralValidation.overlay.binding ((rules verified).map ruleRecord)

structure Accommodates (limits : MaterializationManifestLimits) : Prop where
  rules : verified.artifacts.entries.length ≤ limits.rules.toNat
  references : verified.artifacts.entries.length * artifactsPerRule ≤ limits.references.toNat
  blobs : ((referenced (Transform.rules verified)).map Prod.fst).dedup.length ≤ limits.blobs.toNat
  manifest : ∃ bytes, toWriter (document verified) = (bytes, true) ∧ bytes.length ≤ limits.manifest.toNat

variable {toWriter verified} {limits : MaterializationManifestLimits} {manifest : MaterializationManifest sha256}
  {bytes : TransformArtifactBytes} {entry : TransformRuleId × TransformRebinding}

theorem planContentAddressedMaterialization_ok (hCovered : Covered verified) :
    planContentAddressedMaterialization toWriter verified limits = .ok manifest ↔
      verified.artifacts.entries.length ≤ limits.rules.toNat ∧
        verified.artifacts.entries.length * artifactsPerRule ≤ limits.references.toNat ∧
        ∃ bytes, toWriter (document verified) = (bytes, true) ∧ bytes.length ≤ limits.manifest.toNat ∧
        ∃ blobs, (referenced (rules verified)).foldlM (storeBlob limits.blobs.toNat) .empty = .ok blobs ∧
          manifest = ⟨verified, bytes, sha256 bytes, blobs, verified.artifacts.entries.length,
            verified.artifacts.entries.length * artifactsPerRule⟩ := by
  have hReferences : limits.references.toNat ≤ usizeMax := Nat.le_of_lt_succ limits.references.toNat_lt
  have hManifest : limits.manifest.toNat ≤ usizeMax := Nat.le_of_lt_succ limits.manifest.toNat_lt
  rw [planContentAddressedMaterialization, collectManifestRecords]
  rw [show verified.structuralValidation.overlay.rebindings.entries = rebindings verified from rfl,
    collectRules_eq limits.blobs.toNat verified.artifacts hCovered, List.nil_append]
  simp only [guard_ok, bind_ok, okOr_ok, checkedMul_eq_some, map_ok, serializedLength, ite_error_ok, pure_ok,
    Except.ok.injEq, Nat.not_lt, not_not]
  unfold document rules
  constructor
  · rintro ⟨hRules, _, ⟨-, rfl⟩, hCount, _, ⟨blobs, hBlobs, rfl⟩, _, ⟨-, -, rfl⟩, hFits, hCompleted, -, rfl⟩
    exact ⟨hRules, hCount, _, Prod.ext rfl hCompleted, hFits, blobs, hBlobs, rfl⟩
  · rintro ⟨hRules, hCount, bytes, hBytes, hFits, blobs, hBlobs, rfl⟩
    refine ⟨hRules, _, ⟨hCount.trans hReferences, rfl⟩, hCount, _, ⟨blobs, hBlobs, rfl⟩, bytes.length, ?_⟩
    simp only [hBytes, and_true]
    exact ⟨hFits.trans hManifest, hFits⟩

theorem mem_rules :
    (entry, bytes) ∈ rules verified ↔ entry ∈ rebindings verified ∧ verified.artifacts.find? entry.1 = some bytes := by
  simp only [rules, covered, List.mem_filterMap, Option.map_eq_some_iff, Prod.mk.injEq]
  constructor
  · rintro ⟨_, hEntry, _, hFound, rfl, rfl⟩
    exact ⟨hEntry, hFound⟩
  · rintro ⟨hEntry, hFound⟩
    exact ⟨entry, hEntry, bytes, hFound, rfl, rfl⟩

theorem mem_referenced {digest : Sha256Digest} {content : List UInt8} :
    (digest, content) ∈ referenced (rules verified) ↔
      ∃ entry ∈ rebindings verified, ∃ bytes, verified.artifacts.find? entry.1 = some bytes ∧
        ∃ kind, entry.2.digest kind = digest ∧ bytes.get kind = content := by
  simp only [referenced, ruleBlobs, List.mem_flatMap, List.mem_map, Prod.mk.injEq]
  constructor
  · rintro ⟨⟨entry, bytes⟩, hRule, kind, -, hDigest, hContent⟩
    obtain ⟨hEntry, hFound⟩ := mem_rules.mp hRule
    exact ⟨entry, hEntry, bytes, hFound, kind, hDigest, hContent⟩
  · rintro ⟨entry, hEntry, bytes, hFound, kind, hDigest, hContent⟩
    exact ⟨(entry, bytes), mem_rules.mpr ⟨hEntry, hFound⟩, kind, kind.mem_all, hDigest, hContent⟩

/-- The item a manifest lists for an artifact of a rule, with the artifact's bytes stored under its digest. -/
structure Listed (blobs : BlobMap) (rule : ManifestRule) (digest : Sha256Digest) (kind : TransformArtifactKind)
    (content : List UInt8) (artifact : ManifestArtifact) : Prop where
  mem : artifact ∈ rule.artifacts
  name : artifact.kind = kind.name
  digest_eq : artifact.digest = digest
  length_eq : artifact.bytes = content.length
  path : contentPath artifact.digest = .ok artifact.path
  stored : blobs.find? artifact.digest = some content

/-- The manifest lists every artifact of every rule, and the stored items are the listed ones, each once. -/
structure Materializes (toWriter : ToWriter) (verified : VerifiedTransformArtifacts sha256)
    (manifest : MaterializationManifest sha256) : Prop where
  lists : ∃ records,
    toWriter (manifestDocument verified.structuralValidation.overlay.binding records) = (manifest.bytes, true) ∧
    records.map ManifestRule.ruleId = verified.structuralValidation.overlay.rebindings.keys ∧
    ∀ entry ∈ verified.structuralValidation.overlay.rebindings.entries,
      ∃ record ∈ records, record.ruleId = entry.1 ∧ record.sourceUnitId = entry.2.source.unitId ∧
        record.artifacts.length = artifactsPerRule ∧
        ∃ bytes, verified.artifacts.find? entry.1 = some bytes ∧
          ∀ kind, ∃ artifact, Listed manifest.blobs record (entry.2.digest kind) kind (bytes.get kind) artifact
  stores : ∀ digest content, manifest.blobs.find? digest = some content ↔
    ∃ entry ∈ verified.structuralValidation.overlay.rebindings.entries, ∃ bytes,
      verified.artifacts.find? entry.1 = some bytes ∧
        ∃ kind, entry.2.digest kind = digest ∧ bytes.get kind = content
  once : manifest.blobs.keys.Nodup

theorem Stores.listed {blobs : BlobMap} (hStores : Stores blobs (referenced (rules verified)))
    (hRule : (entry, bytes) ∈ rules verified) (kind : TransformArtifactKind) :
    Listed blobs (ruleRecord (entry, bytes)) (entry.2.digest kind) kind (bytes.get kind)
      (artifactRecord entry.2 bytes kind) where
  mem := List.mem_map_of_mem kind.mem_all
  name := rfl
  digest_eq := rfl
  length_eq := rfl
  path := contentPath_ok _
  stored := by
    obtain ⟨hEntry, hFound⟩ := mem_rules.mp hRule
    exact (hStores _ _).mpr (mem_referenced.mpr ⟨entry, hEntry, bytes, hFound, kind, rfl, rfl⟩)

theorem ruleIds_eq (hCovered : Covered verified) :
    ((rules verified).map ruleRecord).map ManifestRule.ruleId =
      verified.structuralValidation.overlay.rebindings.keys := by
  have hKeys (entries : List (TransformRuleId × TransformRebinding))
      (hEntries : ∀ entry ∈ entries, ∃ bytes, verified.artifacts.find? entry.1 = some bytes) :
      ((covered verified.artifacts entries).map ruleRecord).map ManifestRule.ruleId = entries.map Prod.fst := by
    induction entries with
    | nil => rfl
    | cons entry rest ih =>
      obtain ⟨⟨bytes, hBytes⟩, hRest⟩ := List.forall_mem_cons.mp hEntries
      have hFirst : covered verified.artifacts (entry :: rest) = (entry, bytes) :: covered verified.artifacts rest := by
        simp [covered, hBytes]
      rw [hFirst, List.map_cons, List.map_cons, List.map_cons, ih hRest]
      rfl
  exact hKeys _ hCovered

theorem materializes_of_plan (hCovered : Covered verified)
    (h : planContentAddressedMaterialization toWriter verified limits = .ok manifest) :
    Materializes toWriter verified manifest := by
  obtain ⟨-, -, bytes, hBytes, -, blobs, hBlobs, rfl⟩ := (planContentAddressedMaterialization_ok hCovered).mp h
  have hStores := (storeBlobs_spec limits.blobs.toNat (referenced (rules verified))).1 blobs hBlobs
  refine ⟨⟨(rules verified).map ruleRecord, hBytes, ruleIds_eq hCovered, ?_⟩,
    fun digest content => (hStores digest content).trans mem_referenced, blobs.nodup_keys⟩
  intro entry hEntry
  obtain ⟨bytes, hFound⟩ := hCovered entry hEntry
  have hRule : (entry, bytes) ∈ rules verified := mem_rules.mpr ⟨hEntry, hFound⟩
  exact ⟨_, List.mem_map_of_mem hRule, rfl, rfl, rfl, bytes, hFound, fun kind => ⟨_, hStores.listed hRule kind⟩⟩

theorem plan_of_accommodates (hRoom : Accommodates toWriter verified limits) (hConforms : ∀ entry ∈ rebindings verified,
      ∃ bytes, verified.artifacts.find? entry.1 = some bytes ∧ Conforms sha256 bytes entry.2)
    (hHash : CollisionFreeOn sha256 {content | ∃ digest, (digest, content) ∈ referenced (rules verified)}) :
    ∃ manifest, planContentAddressedMaterialization toWriter verified limits = .ok manifest := by
  have hDigest : ∀ blob ∈ referenced (rules verified), sha256 blob.2 = blob.1 := by
    rintro ⟨digest, content⟩ hBlob
    obtain ⟨entry, hEntry, bytes, hFound, kind, rfl, rfl⟩ := mem_referenced.mp hBlob
    obtain ⟨_, hSame, hKinds⟩ := hConforms entry hEntry
    cases hFound.symm.trans hSame
    exact hKinds kind
  have hDistinct : ∀ blob ∈ referenced (rules verified), ∀ other ∈ referenced (rules verified),
      blob.1 = other.1 → blob = other := by
    intro blob hBlob other hOther hSame
    have hContent : blob.2 = other.2 := by
      apply hHash ⟨_, hBlob⟩ ⟨_, hOther⟩
      rw [hDigest blob hBlob, hDigest other hOther, hSame]
    exact Prod.ext hSame hContent
  obtain ⟨blobs, hBlobs⟩ := (storeBlobs_spec limits.blobs.toNat _).2 hDistinct hRoom.blobs
  have hCovered : Covered verified := fun entry hEntry => (hConforms entry hEntry).imp fun _ => And.left
  obtain ⟨manifest, hManifest, hFits⟩ := hRoom.manifest
  exact ⟨_, (planContentAddressedMaterialization_ok hCovered).mpr
    ⟨hRoom.rules, hRoom.references, manifest, hManifest, hFits, blobs, hBlobs, rfl⟩⟩

end

/-- Assembled bundles pass verification, and what is verified is materialized as it is, once per digest. -/
theorem bundles_verify_and_materialize (sha256 : Sha256) (toWriter : ToWriter) :
    (∀ (validated : StructurallyValidatedTransformOverlay sha256)
      (bundles : OrderedMap TransformRuleId EmittedTransformArtifactBundle) (limits : TransformArtifactLimits),
      (∀ entry ∈ bundles.entries, Assembled sha256 entry.2) →
      validated.overlay.rebindings = bundles.map (·.rebinding) → Admits limits (bundles.map (·.artifacts)) →
      verifyTransformArtifacts validated (bundles.map (·.artifacts)) limits =
        .ok ⟨validated, bundles.map (·.artifacts)⟩) ∧
    (∀ (validated : StructurallyValidatedTransformOverlay sha256) (artifacts : ArtifactMap)
      (verifyLimits : TransformArtifactLimits) (verified : VerifiedTransformArtifacts sha256),
      verifyTransformArtifacts validated artifacts verifyLimits = .ok verified →
      ∀ limits : MaterializationManifestLimits,
        (∀ manifest, planContentAddressedMaterialization toWriter verified limits = .ok manifest →
          Materializes toWriter verified manifest) ∧
        (Accommodates toWriter verified limits →
          CollisionFreeOn sha256 {content | ∃ digest, (digest, content) ∈ referenced (rules verified)} →
          ∃ manifest, planContentAddressedMaterialization toWriter verified limits = .ok manifest)) ∧
    ∀ (digest other : Sha256Digest) (path : List Char), contentPath digest = .ok path → contentPath other = .ok path →
      digest = other := by
  refine ⟨?_, ?_, ?_⟩
  · intro validated bundles limits hAssembled hRebindings hAdmits
    refine verifyTransformArtifacts_ok.mpr ⟨fun ruleId hRule => ?_, hAdmits, ?_, rfl⟩
    · rw [hRebindings, ← OrderedMap.mem_keys, OrderedMap.keys_map]
      rwa [OrderedMap.keys_map] at hRule
    · rw [hRebindings]
      intro entry hEntry
      obtain ⟨bundle, hBundle, rfl⟩ := List.mem_map.mp hEntry
      exact ⟨bundle.2.artifacts, OrderedMap.find?_eq_some.mpr (List.mem_map.mpr ⟨bundle, hBundle, rfl⟩),
        (hAssembled bundle hBundle).conforms⟩
  · intro validated artifacts verifyLimits verified hVerified limits
    obtain ⟨-, -, hConforms, rfl⟩ := verifyTransformArtifacts_ok.mp hVerified
    refine ⟨fun manifest hPlan => materializes_of_plan ?_ hPlan, fun hRoom => plan_of_accommodates hRoom hConforms⟩
    exact fun entry hEntry => (hConforms entry hEntry).imp fun _ => And.left
  · intro digest other path hDigest hOther
    rw [contentPath_ok, Except.ok.injEq] at hDigest hOther
    exact contentPath_injective (hDigest.trans hOther.symm)

namespace Sample

def evidenceDigest : Sha256Digest := .ofNat 0x8b5579ace4503d144ed9d0742427b328bb1eec42be6007e0b7c985ab90937dd6

def auditDigest : Sha256Digest := .ofNat 0x580109f2d82688497357f7d5b24654c737996fd4191c7748dcb7c41cc44d7321

def authorityDigest : Sha256Digest := .ofNat 0xe2529ac555c9fde1acfa851d1966e729192e92d262635efcb205cbe50fe797a8

def manifestDigest : Sha256Digest := .ofNat 0x7fdba070eaa55390275d8e1ae40d2e170f4b853474ee99ccb355808cbaaf869c

/-- SHA-256 of the documents below, which are told apart by their lengths. -/
def documentSha256 (bytes : List UInt8) : Sha256Digest :=
  match bytes.length with
  | 10 => sourceDigest
  | 9 => transformedDigest
  | 269 => authorityDigest
  | 359 => evidenceDigest
  | 411 => mapDigest
  | 604 => auditDigest
  | _ => manifestDigest

def evidence : EmittedMatchEvidence where
  plan := plan
  bytes := utf8Bytes "\x7b\"format_version\":\"1\",\"kind\":\"static_module_specifier_matches\",\"rule_id\":" ++
    utf8Bytes "\"rule\",\"rule_digest\":\"" ++ digestText ruleDigest ++
    utf8Bytes "\",\"source\":\x7b\"unit_id\":\"unit\",\"source_digest\":\"" ++ digestText sourceDigest ++
    utf8Bytes "\"\x7d,\"matches\":[" ++
    utf8Bytes "\x7b\"start_byte\":0,\"end_byte\":3\x7d,\x7b\"start_byte\":4,\"end_byte\":10\x7d]\x7d"
  digest := evidenceDigest

def map : EmittedSourceMap := ⟨transformed, sourceMapBytes transformed (utf8Bytes "AAAA,KAAG,CAAC,GAAM"), mapDigest, 4⟩

def rebinding : TransformRebinding :=
  ⟨ruleDigest, plan.source, evidenceDigest, transformedDigest, mapDigest, auditDigest⟩

def bundle : EmittedTransformArtifactBundle where
  source := charBytes text
  transformedSource := transformed
  matchEvidence := evidence
  sourceMap := map
  auditLog := auditRecord plan evidenceDigest transformedDigest mapDigest
  auditLogDigest := auditDigest
  rebinding := rebinding
  totalBytes := 1393

theorem assembled : Assembled documentSha256 bundle where
  transformed := ⟨plan, charBytes text, emissionLimits, by decide +kernel⟩
  evidence := ⟨plan, ⟨1000, by decide⟩, by decide +kernel⟩
  map := ⟨transformed, charBytes text, limits, by decide +kernel⟩
  assembled := ⟨⟨1000, 1000, 2000, by decide⟩, by decide +kernel⟩

def bundles : OrderedMap TransformRuleId EmittedTransformArtifactBundle := OrderedMap.empty.insert plan.ruleId bundle

theorem adapter_valid : validateStableName "adapter" "adapter" = .ok "adapter" := by decide +kernel

theorem family_valid : validateStableName "application family" "family" = .ok "family" := by decide +kernel

def authority : AdapterTransformAuthority where
  adapterId := ⟨"adapter", adapter_valid⟩
  family := ⟨"family", family_valid⟩
  adapterContentDigest := ruleDigest
  rules := OrderedMap.empty.insert plan.ruleId ruleDigest
  nonempty := List.cons_ne_nil _ _
  bounded := by decide

def overlay : GeneratedTransformOverlay where
  binding := ⟨ruleDigest, authority.family, authority.adapterId, ruleDigest, authorityDigest, ruleDigest⟩
  rebindings := bundles.map (·.rebinding)
  nonempty := List.cons_ne_nil _ _
  bounded := by decide
  units := List.nodup_singleton _

def validated : StructurallyValidatedTransformOverlay documentSha256 where
  overlay := overlay
  authority := authority
  checked := ⟨ruleDigest, ruleDigest, by decide +kernel⟩

def artifactLimits : TransformArtifactLimits where
  perArtifact := fun _ => 1000
  aggregate := 2000
  nonzero := ⟨fun _ => by decide, by decide⟩

def manifestLimits : MaterializationManifestLimits := ⟨1, 5, 5, 100000, by decide⟩

def verified : VerifiedTransformArtifacts documentSha256 := ⟨validated, bundles.map (·.artifacts)⟩

def size : TransformArtifactKind → Nat
  | .source => 10
  | .matchEvidence => 359
  | .transformedSource => 9
  | .sourceMap => 411
  | .auditLog => 604

theorem size_eq (kind : TransformArtifactKind) : (bundle.artifacts.get kind).length = size kind := by
  cases kind <;> decide +kernel

theorem admits : Admits artifactLimits (bundles.map (·.artifacts)) where
  each := by
    rintro _ (_ | ⟨_, ⟨⟩⟩) kind
    exact (size_eq kind).trans_le (by cases kind <;> decide)
  total := by
    change ([TransformArtifactKind.all.map fun kind => (bundle.artifacts.get kind).length].map List.sum).sum ≤ _
    simp only [size_eq]
    decide

def toWriter : ToWriter := fun document => (document.compactBytes, true)

theorem accommodates : Accommodates toWriter verified manifestLimits where
  rules := by decide +kernel
  references := by decide +kernel
  blobs := by decide +kernel
  manifest := by
    have hBound : (document verified).textBound ≤ 25000 := by decide +kernel
    exact ⟨_, rfl, (Json.length_compactBytes_le _).trans (Nat.mul_le_mul_left 4 hBound)⟩

theorem collisionFree :
    CollisionFreeOn documentSha256 {content | ∃ digest, (digest, content) ∈ referenced (rules verified)} := by
  have hPairs : ∀ blob ∈ referenced (rules verified), ∀ other ∈ referenced (rules verified),
      documentSha256 blob.2 = documentSha256 other.2 → blob.2 = other.2 := by
    decide +kernel
  rintro _ ⟨_, hBlob⟩ _ ⟨_, hOther⟩ hSame
  exact hPairs _ hBlob _ hOther hSame

theorem sample_bundle_materialized :
    verifyTransformArtifacts validated (bundles.map (·.artifacts)) artifactLimits = .ok verified ∧
      ∃ manifest, planContentAddressedMaterialization toWriter verified manifestLimits = .ok manifest ∧
        Materializes toWriter verified manifest := by
  obtain ⟨hVerify, hPlan, -⟩ := bundles_verify_and_materialize documentSha256 toWriter
  have hVerified := hVerify validated bundles artifactLimits
    (by
      rintro _ (_ | ⟨_, ⟨⟩⟩)
      exact assembled)
    rfl admits
  obtain ⟨hMaterializes, hMade⟩ := hPlan _ _ _ _ hVerified manifestLimits
  obtain ⟨manifest, hManifest⟩ := hMade accommodates collisionFree
  exact ⟨hVerified, manifest, hManifest, hMaterializes manifest hManifest⟩

end Sample

end Transform

end Weregopher
