import Weregopher.Certification.Reference
import Weregopher.Ledger.Append

/-! # A ledger under the reference libraries

Every record is read back from its canonical bytes.
-/
namespace Weregopher.LocalCertificationLedger
open Lib Lib.Json LocalCertificationRunAttestation

theorem Record.plain_toJson {library : DocumentLibrary} (record : Record) : plain (record.toJson library) = true := by
  obtain ⟨sequence, previous, event⟩ := record
  have hPrevious : plain ((previous.map Sha256Digest.toJson).getD .null) = true := by cases previous <;> rfl
  cases event <;> simp [Record.toJson, Event.toJson, Event.bodyToJson, Event.kind, Receipt.toJson, revocationToJson,
    PolicyReplacement.toJson, plain, plainMembers, Sha256Digest.toJson, u64ToJson, formatVersion, hPrevious]

theorem hashCanonical_reference (sha256 : Sha256) (document : Json) :
    (referenceLibrary sha256).hashCanonical document = some (sha256 (compactBytes document)) := rfl

theorem referenceLibrary_faithful (sha256 : Sha256) : Faithful (referenceLibrary sha256) := by
  refine ⟨uuidFromText_uuidToText sha256, fun record bytes hBytes => ?_⟩
  have hSome : some (compactBytes (record.toJson (referenceLibrary sha256))) = some bytes := hBytes
  cases hSome
  exact readBytes_compactBytes record.plain_toJson

namespace Sample

def policy : CertificationControlPolicy where
  runner := ⟨.ofNat 1, .ofNat 2, .ofNat 3, 1, by decide⟩
  semanticReport := ⟨.workflowProbe, .ofNat 4⟩
  target := ⟨.ofNat 5, .ofNat 6, .ofNat 7, .ofNat 8, .ofNat 9⟩
  profileDigest := .ofNat 10
  evidenceDigest := .ofNat 11
  artifactSetDigest := .ofNat 12
  certificationClass := .exactCertified
  policyRevisionDigest := .ofNat 13
  policyGeneration := 1
  assignable := by decide
  generation_ne := by decide

variable (challenge : Uuid)

def attestation : LocalCertificationRunAttestation where
  freshness := ⟨challenge, 60000, 1200, by decide, by decide⟩
  runner := policy.runner
  result := ⟨policy.semanticReport, policy.target, policy.profileDigest, policy.evidenceDigest,
    policy.artifactSetDigest, policy.certificationClass, policy.policyRevisionDigest, policy.policyGeneration, 2, 4096,
    policy.assignable, policy.generation_ne, by decide, by decide⟩

def firstReceipt : Receipt :=
  ⟨.ofNat 0xd7d865a8e81fb5c59e3e217771e206049b5bcd8bf0c218eda9ab78226150900c, .localOnly, rfl⟩

def secondReceipt : Receipt :=
  ⟨.ofNat 0x044ffc5717b9831d1fb0c281afd096d53fd255ad98a84a4565be3cd7d2dcaf46, .localOnly, rfl⟩

def firstHead : RecordDigest := .ofNat 0x888bb5c056ace818989666711a30a58e595c140c5abd944673e75a7406b0f2cf

def secondHead : RecordDigest := .ofNat 0xd633fe032acf139892013d0df1a6f3f0341cbf3feebb5256cd3bd87f957e865d

def genesis : Genesis := ⟨policy, attestation 1, firstReceipt⟩

def publication : Event := .publication ⟨attestation 2, secondReceipt⟩

def firstRecord : Record := ⟨1, none, .genesis genesis⟩

def secondRecord : Record := ⟨2, some firstHead, publication⟩

def unhashed : DocumentLibrary := referenceLibrary fun _ => .ofNat 0

def attestationBytes : List UInt8 := compactBytes ((attestation challenge).toJson unhashed)

variable (record : Record)

def recordBytes : List UInt8 := compactBytes (record.toJson unhashed)

/-- The hashes of the four documents that occur. -/
def sha256 (bytes : List UInt8) : Sha256Digest :=
  if bytes = attestationBytes 1 then firstReceipt.attestationDigest
  else if bytes = attestationBytes 2 then secondReceipt.attestationDigest
  else if bytes = recordBytes firstRecord then firstHead
  else if bytes = recordBytes secondRecord then secondHead
  else .ofNat 0

def library : DocumentLibrary := referenceLibrary sha256

theorem library_sha256 : library.sha256 = sha256 := rfl

theorem library_faithful : Faithful library := referenceLibrary_faithful sha256

theorem toJson_attestation : (attestation challenge).toJson library = (attestation challenge).toJson unhashed := by
  simp only [toJson, CertificationRunFreshness.toJson, uuidToJson, library, unhashed,
    referenceLibrary]

theorem attestationBytes_ne : attestationBytes 2 ≠ attestationBytes 1 := by
  intro h
  have hUnhashed : Faithful unhashed := referenceLibrary_faithful _
  have hDocument : (attestation 2).toJson unhashed = (attestation 1).toJson unhashed :=
    compactBytes_injective (attestation 2).plain_toJson (attestation 1).plain_toJson h
  have hRead := unchecked_fromJson_toJson hUnhashed.uuid (attestation 2)
  rw [hDocument, unchecked_fromJson_toJson hUnhashed.uuid] at hRead
  have hChallenge : (1 : Uuid) = 2 := congrArg (fun read => read.freshness.challenge) (Option.some.inj hRead)
  exact absurd hChallenge (by decide)

theorem recordBytes_ne_attestationBytes (challenge : Uuid) : recordBytes record ≠ attestationBytes challenge := by
  intro h
  have hDocument : record.toJson unhashed = (attestation challenge).toJson unhashed :=
    compactBytes_injective record.plain_toJson (attestation challenge).plain_toJson h
  simp [Record.toJson, toJson] at hDocument

theorem recordBytes_ne : recordBytes secondRecord ≠ recordBytes firstRecord := by
  intro h
  have hDocument : secondRecord.toJson unhashed = firstRecord.toJson unhashed :=
    compactBytes_injective secondRecord.plain_toJson firstRecord.plain_toJson h
  simp [Record.toJson, firstRecord, secondRecord, u64ToJson] at hDocument

theorem sha256_firstAttestation : sha256 (attestationBytes 1) = firstReceipt.attestationDigest := by
  rw [sha256, if_pos rfl]

theorem sha256_secondAttestation : sha256 (attestationBytes 2) = secondReceipt.attestationDigest := by
  rw [sha256, if_neg attestationBytes_ne, if_pos rfl]

theorem sha256_firstRecord : sha256 (recordBytes firstRecord) = firstHead := by
  rw [sha256, if_neg (recordBytes_ne_attestationBytes _ _), if_neg (recordBytes_ne_attestationBytes _ _), if_pos rfl]

theorem sha256_secondRecord : sha256 (recordBytes secondRecord) = secondHead := by
  rw [sha256, if_neg (recordBytes_ne_attestationBytes _ _), if_neg (recordBytes_ne_attestationBytes _ _),
    if_neg recordBytes_ne, if_pos rfl]

theorem digest_attestation :
    (attestation challenge).canonicalDocumentDigest library = some (sha256 (attestationBytes challenge)) := by
  rw [canonicalDocumentDigest, toJson_attestation, library, hashCanonical_reference,
    attestationBytes]

theorem new_genesis : Genesis.new library policy (attestation 1) = .ok genesis := by
  have hAccepts : policy.acceptsAttestation (attestation 1) = true := by decide
  rw [Genesis.new, hAccepts, Receipt.fromAttestation, digest_attestation, sha256_firstAttestation]
  rfl

theorem toJson_record : record.toJson library = record.toJson unhashed := by
  obtain ⟨sequence, previous, event⟩ := record
  cases event <;> simp only [Record.toJson, Event.toJson, Event.bodyToJson, Event.kind,
    toJson, CertificationRunFreshness.toJson, uuidToJson, library, unhashed,
    referenceLibrary]

theorem canonicalRecordBytes_eq {record : Record} (hBound : textBound (record.toJson unhashed) ≤ 30000) :
    canonicalRecordBytes library record = .ok (recordBytes record) ∧ (recordBytes record).length ≤ 120000 := by
  have hLength := (length_compactBytes_le _).trans (Nat.mul_le_mul_left 4 hBound)
  refine ⟨canonicalRecordBytes_ok.2 ⟨?_, hLength.trans (by decide)⟩, hLength⟩
  rw [recordBytes, ← toJson_record]
  rfl

theorem textBound_records :
    textBound (firstRecord.toJson unhashed) ≤ 30000 ∧ textBound (secondRecord.toJson unhashed) ≤ 30000 := by
  simp only [firstRecord, secondRecord, genesis, publication, Option.map_some, Option.getD_some, Record.toJson,
    Event.toJson, Event.bodyToJson, Receipt.toJson, toJson,
    CertificationControlPolicy.toJson, CertificationRunFreshness.toJson, CertificationRunRunnerIdentity.toJson,
    CertificationRunResultIdentity.toJson, CertificationTarget.toJson, CertificationArtifactRef.toJson,
    textBound_object, membersBound_cons, Sha256Digest.textBound_toJson]
  decide +kernel

theorem canonicalRecordBytes_first :
    canonicalRecordBytes library firstRecord = .ok (recordBytes firstRecord) ∧
      (recordBytes firstRecord).length ≤ 120000 :=
  canonicalRecordBytes_eq textBound_records.1

theorem canonicalRecordBytes_second :
    canonicalRecordBytes library secondRecord = .ok (recordBytes secondRecord) ∧
      (recordBytes secondRecord).length ≤ 120000 :=
  canonicalRecordBytes_eq textBound_records.2

theorem validateReceipt_ok {challenge : Uuid} {receipt : Receipt}
    (h : sha256 (attestationBytes challenge) = receipt.attestationDigest) :
    validateReceipt library (attestation challenge) receipt = .ok () := by
  simp only [validateReceipt, receipt.status_local, digest_attestation, h, ne_eq, not_true_eq_false, if_false]

theorem record_genesis : Record.genesis library genesis = .ok firstRecord := by
  have hAccepts : policy.acceptsAttestation (attestation 1) = true := by decide
  have hReceipt : validateReceipt library (attestation 1) firstReceipt = .ok () :=
    validateReceipt_ok sha256_firstAttestation
  have hValid : genesis.validate library = .ok () := by
    simp only [Genesis.validate, genesis, hAccepts, hReceipt, Bool.not_true, Bool.false_eq_true, if_false]
  rw [Record.genesis, hValid]
  rfl

def firstEntry : DirectoryEntry := recordEntry firstRecord.sequence (recordBytes firstRecord)

def firstState : LedgerState := ⟨firstRecord, firstHead, 1, (recordBytes firstRecord).length, .fromGenesis genesis⟩

def published : LedgerProjection :=
  { LedgerProjection.fromGenesis genesis with
    freshnessChallenges := insert 2 (LedgerProjection.fromGenesis genesis).freshnessChallenges }

def prepared : Prepared :=
  ⟨published, secondRecord, recordBytes secondRecord,
    firstState.totalRecordBytes + (recordBytes secondRecord).length⟩

def secondEntry : DirectoryEntry := recordEntry prepared.record.sequence prepared.bytes

def secondState : LedgerState :=
  ⟨prepared.record, secondHead, firstState.recordCount + 1, prepared.totalRecordBytes, prepared.projection⟩

theorem replay_first : replayDirectory library (.directory [firstEntry]) none = .ok firstState := by
  have hReplay := replayDirectory_genesis library_faithful record_genesis canonicalRecordBytes_first.1
  rw [library_sha256, sha256_firstRecord] at hReplay
  exact hReplay

theorem open_first : openLedger library (.directory [firstEntry]) firstState.headDigest = .ok firstState :=
  replayDirectory_head.2 ⟨replay_first, fun _ hHead => (Option.some.inj hHead).symm⟩

theorem apply_publication : firstState.projection.apply publication = .ok published := by
  have hAccepts : policy.acceptsAttestation (attestation 2) = true := by decide
  have hFresh : (attestation 2).freshness.challenge ∉
      (LedgerProjection.fromGenesis genesis).freshnessChallenges := by
    decide
  exact applyPublication_ok.2 ⟨rfl, rfl, hAccepts, hFresh, rfl⟩

theorem next_publication : Record.next library firstRecord publication = .ok secondRecord := by
  have hDigest := canonicalDocumentDigest_eq (canonicalRecordBytes_ok.1 canonicalRecordBytes_first.1).1
  rw [library_sha256, sha256_firstRecord] at hDigest
  have hValid : publication.validate library = .ok () := by
    rw [publication, Event.validate, Publication.validate]
    exact validateReceipt_ok sha256_secondAttestation
  exact Record.next_ok.2 ⟨rfl, hValid, rfl, ⟨firstHead, hDigest, rfl⟩, rfl⟩

theorem prepare_publication : prepare library firstState publication = .ok prepared := by
  obtain ⟨-, hFirstLength⟩ := canonicalRecordBytes_first
  obtain ⟨hBytes, hSecondLength⟩ := canonicalRecordBytes_second
  have hTotal : firstState.totalRecordBytes = (recordBytes firstRecord).length := by rw [firstState]
  have hCeiling : firstState.totalRecordBytes + (recordBytes secondRecord).length ≤ maxLedgerBytes := by
    rw [hTotal]
    exact (Nat.add_le_add hFirstLength hSecondLength).trans (by decide)
  rw [prepared]
  exact prepare_of_bytes (by decide) apply_publication next_publication hBytes hCeiling

theorem sha256_prepared : library.sha256 prepared.bytes = secondHead := by
  rw [library_sha256]
  dsimp only [prepared]
  exact sha256_secondRecord

theorem commit_publication : commit library firstState prepared = .ok secondState := by
  have hBytes := (canonicalRecordBytes_ok.1 canonicalRecordBytes_second.1).1
  have hCommit : commit library firstState prepared = .ok ⟨prepared.record, library.sha256 prepared.bytes,
      firstState.recordCount + 1, prepared.totalRecordBytes, prepared.projection⟩ := by
    refine (commit_ok ?_ (by decide)).2 rfl
    dsimp only [prepared]
    exact hBytes
  rw [hCommit, sha256_prepared, secondState]

theorem replay_second : replayDirectory library (.directory [firstEntry, secondEntry]) none = .ok secondState := by
  have hReplay := replayDirectory_append library_faithful replay_first prepare_publication commit_publication
  rw [List.singleton_append] at hReplay
  rw [secondEntry]
  exact hReplay

theorem open_second {listing : List DirectoryEntry} (hListing : listing.Perm [firstEntry, secondEntry]) :
    openLedger library (.directory listing) secondHead = .ok secondState :=
  replayDirectory_head.2 ⟨replayDirectory_perm hListing replay_second, fun _ hHead => (Option.some.inj hHead).symm⟩

theorem collisionFree : CollisionFreeOn library.sha256 {recordBytes firstRecord, recordBytes secondRecord} := by
  have hHeads : firstHead ≠ secondHead := by decide
  rw [CollisionFreeOn, Set.injOn_pair, library_sha256, sha256_firstRecord, sha256_secondRecord]
  exact fun h => absurd h hHeads

end Sample

end Weregopher.LocalCertificationLedger
