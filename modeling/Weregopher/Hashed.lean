import Weregopher.Certification.Policies
import Weregopher.Execution.Authorization
import Weregopher.Fingerprint.Root
import Weregopher.Protocol.Handshake
import Weregopher.Renderer.Bridge
import Weregopher.Transform.Planned

/-! # What the hashed documents determine

Each document is read from the front: a domain, then pieces of a fixed width or after their length.
-/
namespace Weregopher
open Lib Lib.Bytes Lib.Checked Protocol Transform Certification Execution Fingerprint Renderer

def nonceProofDocument : NonceChallenge × RuntimeId × AppInstanceId × RuntimeBackendIdentity × UInt32 → List UInt8
  | (nonce, runtime, app, backend, peerPid) => nonceProofDomain ++ (nonce.bytes.toList ++ (toBeBytes 16 runtime.toNat ++
    (toBeBytes 16 app.toNat ++ (Protocol.lengthPrefixed (utf8Bytes backend.id.value) ++
      (Protocol.lengthPrefixed (utf8Bytes backend.version) ++ toLeBytes 4 peerPid.toNat)))))

theorem selfDelimiting_shortText : SelfDelimiting (fun text : String => text.utf8ByteSize ≤ u64Max)
    fun text => Protocol.lengthPrefixed (utf8Bytes text) := by
  intro text other hText hOther rest others h
  simp only [Protocol.lengthPrefixed, length_utf8Bytes, Nat.min_eq_left hText, Nat.min_eq_left hOther] at h
  exact selfDelimiting_text _ _ (Nat.lt_succ_of_le hText) (Nat.lt_succ_of_le hOther) _ _ h

theorem StableId.size_le {kind : String} (id : StableId kind) : id.value.utf8ByteSize ≤ u64Max :=
  id.bounded.1.trans (by decide)

theorem nonceProofDocument_injective : Function.Injective nonceProofDocument := by
  rintro ⟨⟨nonce, _⟩, runtime, app, ⟨id, version, hVersion⟩, peerPid⟩
    ⟨⟨nonce', _⟩, runtime', app', ⟨id', version', hVersion'⟩, peerPid'⟩ h
  have hText {version : String} (h : validateText "runtime backend version" version 128 = .ok ()) :
      version.utf8ByteSize ≤ u64Max := (validateText_ok.mp h).2.trans (by decide)
  obtain ⟨hNonce, h⟩ := List.append_inj (List.append_cancel_left h) (by simp)
  obtain ⟨hRuntime, h⟩ := List.append_inj h (by simp)
  obtain ⟨hApp, h⟩ := List.append_inj h (by simp)
  obtain ⟨hId, h⟩ := selfDelimiting_shortText _ _ id.size_le id'.size_le _ _ h
  obtain ⟨hVersions, h⟩ := selfDelimiting_shortText _ _ (hText hVersion) (hText hVersion') _ _ h
  have hPid := UInt32.toNat_inj.mp (toLeBytes_injective peerPid.toNat_lt peerPid'.toNat_lt h)
  obtain ⟨id, _⟩ := id
  obtain ⟨id', _⟩ := id'
  cases Vector.toList_inj.mp hNonce
  cases BitVec.eq_of_toNat_eq (toBeBytes_injective runtime.isLt runtime'.isLt hRuntime)
  cases BitVec.eq_of_toNat_eq (toBeBytes_injective app.isLt app'.isLt hApp)
  cases hId
  cases hVersions
  cases hPid
  rfl

def artifactSetDocument (artifacts : List CertificationArtifactRef) : List UInt8 :=
  utf8Bytes "weregopher.certification.artifact-set.v1" ++ [0] ++ toLeBytes 8 artifacts.length ++
    artifacts.flatMap fun reference => artifactKindTag reference.kind :: reference.digest.bytes.toList

theorem artifactSetDocument_injective : Function.Injective artifactSetDocument := by
  intro artifacts others h
  have hKinds : Function.Injective artifactKindTag := by
    intro kind other
    cases kind <;> cases other <;> decide
  have hReference : SelfDelimiting (fun _ : CertificationArtifactRef => True) fun reference =>
      artifactKindTag reference.kind :: reference.digest.bytes.toList := by
    rintro ⟨kind, digest⟩ ⟨kind', digest'⟩ - - rest more h
    obtain ⟨hKind, h⟩ := List.cons.inj h
    obtain ⟨hDigest, hRest⟩ := selfDelimiting_digest _ _ trivial trivial _ _ h
    cases hKinds hKind
    cases hDigest
    exact ⟨rfl, hRest⟩
  obtain ⟨-, h⟩ := List.append_inj h (by simp)
  exact hReference.flatMap_injective (fun _ _ => List.cons_ne_nil _ _) (fun _ _ => trivial) (fun _ _ => trivial) h

def authorizationContextDocument : ExecutionTargetId × AuthorizationContextDigests × ExecutionContextPins ×
    Sha256Digest × UInt64 × TrustMode → List UInt8
  | (targetId, digests, context, revision, generation, mode) =>
    utf8Bytes "weregopher-live-execution-authorization-v1" ++ [0] ++ (Lib.lengthPrefixed 8 (utf8Bytes targetId.value) ++
      (([digests.authorityDocument, context.sourceBuildFingerprintDigest, context.packageTreeMerkle,
        context.executionEnvironmentDigest, context.buildDescriptorDigest, digests.targetContract,
        digests.resolutionEvidence, digests.artifactSource, digests.executable, digests.compatibilityAnalysis] ++
          digests.policyEvidence.intoSha256Array ++ [revision]).flatMap (·.bytes.toList) ++
            (toLeBytes 8 generation.toNat ++ [trustModeTag mode])))

theorem authorizationContextDocument_injective : Function.Injective authorizationContextDocument := by
  rintro ⟨target, ⟨_, _, _, _, _, _, ⟨_, _, _, _, _⟩⟩, ⟨_, _, _, _⟩, revision, generation, mode⟩
    ⟨target', ⟨_, _, _, _, _, _, ⟨_, _, _, _, _⟩⟩, ⟨_, _, _, _⟩, revision', generation', mode'⟩ h
  have hModes : Function.Injective trustModeTag := by
    intro mode other
    cases mode <;> cases other <;> decide
  obtain ⟨hTarget, h⟩ := selfDelimiting_text _ _ (Nat.lt_succ_of_le target.size_le) (Nat.lt_succ_of_le target'.size_le)
    _ _ (List.append_cancel_left h)
  obtain ⟨hBytes, h⟩ := List.append_inj h (by simp [PolicyEvidenceDigests.intoSha256Array])
  have hValues := selfDelimiting_digest.flatMap_injective
    (fun _ _ h => absurd (congrArg List.length h) (by simp)) (fun _ _ => trivial) (fun _ _ => trivial) hBytes
  obtain ⟨hGeneration, hTag⟩ := selfDelimiting_size _ _ trivial trivial _ _ h
  obtain ⟨target, _⟩ := target
  obtain ⟨target', _⟩ := target'
  cases hTarget
  cases hValues
  cases hGeneration
  cases hModes (List.cons.inj hTag).1
  rfl

/-- Each digest is the hash of a document, whichever the hash is, and each document determines what it describes. -/
theorem hashed_documents_determine :
    (Function.Injective nonceProofDocument ∧ ∀ sha256 nonce runtime app backend peerPid,
      noncePossessionProof sha256 nonce runtime app backend peerPid =
        (sha256 (nonceProofDocument (nonce, runtime, app, backend, peerPid))).bytes) ∧
    (Function.Injective StaticImportRewrite.canonicalDocument ∧ ∀ sha256 (rule : StaticImportRewrite),
      rule.canonicalDigest sha256 = sha256 rule.canonicalDocument) ∧
    (Function.Injective artifactSetDocument ∧ ∀ sha256 verified, certificationArtifactSetDigest sha256 verified =
      if verified.artifacts.length > u64Max then .error .artifactCountUnrepresentable
      else .ok (sha256 (artifactSetDocument verified.artifacts))) ∧
    Function.Injective authorizationContextDocument ∧ ∀ sha256 targetId digests policy generation,
      authorizationContextDigest sha256 targetId digests policy generation = .ok (sha256 (authorizationContextDocument
        (targetId, digests, policy.context, policy.revisionDigest, generation, policy.trustMode))) := by
  refine ⟨⟨nonceProofDocument_injective, fun _ _ _ _ _ _ => ?_⟩,
    ⟨fun _ _ => StaticImportRewrite.canonicalDocument_injective, fun _ _ => rfl⟩,
    ⟨artifactSetDocument_injective, fun _ _ => ?_⟩,
    authorizationContextDocument_injective, fun _ targetId _ _ _ => ?_⟩
  · simp [noncePossessionProof, nonceProofDocument]
  · rw [certificationArtifactSetDigest]
    split <;> rfl
  · have hShort : ¬(utf8Bytes targetId.value).length > u64Max := Nat.not_lt.mpr targetId.size_le
    simp only [authorizationContextDigest, hShort, authorizationContextDocument, Lib.lengthPrefixed, List.append_assoc]
    rfl

end Weregopher
