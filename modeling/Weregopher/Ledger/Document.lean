import Weregopher.Ledger.Record

/-! # The JSON documents of ledger records

A record is written as compact JSON and parsed in two steps: the decoded
fields, each checked by its own type, then the event and the record's shape.
-/
namespace Weregopher.LocalCertificationLedger
open Lib Lib.Json Lib.Checked Lib.Outcome

variable (library : DocumentLibrary)

def PublicationStatus.variants : List (String × PublicationStatus) :=
  [("local_only", localOnly), ("draft", draft), ("published", published), ("withdrawn", withdrawn)]

namespace Receipt

def names : List String := ["attestation_digest", "publication_status"]

def toJson (receipt : Receipt) : Json :=
  .object [("attestation_digest", receipt.attestationDigest.toJson),
    ("publication_status", variantToJson PublicationStatus.variants receipt.publicationStatus)]

def fromJson (json : Json) : Option Receipt := do
  let [digest, status] ← structMembers names json | none
  let digest ← Sha256Digest.fromJson digest
  let status ← unitVariant PublicationStatus.variants status
  if h : status = .localOnly then some ⟨digest, status, h⟩ else none

end Receipt

def revocationToJson (evidenceDigest : Sha256Digest) : Json := .object [("evidence_digest", evidenceDigest.toJson)]

def revocationFromJson (json : Json) : Option Sha256Digest := do
  let [digest] ← structMembers ["evidence_digest"] json | none
  Sha256Digest.fromJson digest

namespace PolicyReplacement

def toJson (replacement : PolicyReplacement) : Json := .object [("policy", replacement.policy.toJson)]

def fromJson (json : Json) : Option PolicyReplacement := do
  let [policy] ← structMembers ["policy"] json | none
  let policy ← CertificationControlPolicy.fromJson policy
  return ⟨policy⟩

end PolicyReplacement

namespace Event

def kind : Event → String
  | genesis _ => "genesis"
  | publication _ => "publication"
  | policyReplacement _ => "policy_replacement"
  | certificationRevocation _ => "certification_revocation"
  | runnerRevocation _ => "runner_revocation"

def bodyToJson : Event → Json
  | genesis first =>
    .object [("policy", first.policy.toJson), ("attestation", first.attestation.toJson library),
      ("receipt", first.receipt.toJson)]
  | publication later =>
    .object [("attestation", later.attestation.toJson library), ("receipt", later.receipt.toJson)]
  | policyReplacement replacement => replacement.toJson
  | certificationRevocation revocation => revocationToJson revocation.evidenceDigest
  | runnerRevocation revocation => revocationToJson revocation.evidenceDigest

def toJson (event : Event) : Json := .object [("kind", .string event.kind), ("body", event.bodyToJson library)]

end Event

inductive UncheckedEvent
  | genesis (policy : CertificationControlPolicy) (attestation : UncheckedLocalCertificationRunAttestation)
      (receipt : Receipt)
  | publication (attestation : UncheckedLocalCertificationRunAttestation) (receipt : Receipt)
  | policyReplacement (replacement : PolicyReplacement)
  | certificationRevocation (revocation : CertificationRevocation)
  | runnerRevocation (revocation : RunnerRevocation)

namespace UncheckedEvent

def bodyFromJson (kind : String) (body : Json) : Option UncheckedEvent :=
  match kind with
  | "genesis" => do
    let [policy, attestation, receipt] ← structMembers ["policy", "attestation", "receipt"] body | none
    let policy ← CertificationControlPolicy.fromJson policy
    let attestation ← UncheckedLocalCertificationRunAttestation.fromJson library attestation
    let receipt ← Receipt.fromJson receipt
    return .genesis policy attestation receipt
  | "publication" => do
    let [attestation, receipt] ← structMembers ["attestation", "receipt"] body | none
    let attestation ← UncheckedLocalCertificationRunAttestation.fromJson library attestation
    let receipt ← Receipt.fromJson receipt
    return .publication attestation receipt
  | "policy_replacement" => (PolicyReplacement.fromJson body).map .policyReplacement
  | "certification_revocation" => (revocationFromJson body).map fun digest => .certificationRevocation ⟨digest⟩
  | "runner_revocation" => (revocationFromJson body).map fun digest => .runnerRevocation ⟨digest⟩
  | _ => none

def fromJson (json : Json) : Option UncheckedEvent := do
  let [kind, body] ← structMembers ["kind", "body"] json | none
  let kind ← text kind
  bodyFromJson library kind body

def intoChecked : UncheckedEvent → Except ContractError Event
  | genesis policy attestation receipt => do
    let attestation ← liftAttestation attestation.intoChecked
    let first : Genesis := ⟨policy, attestation, receipt⟩
    first.validate library
    return .genesis first
  | publication attestation receipt => do
    let attestation ← liftAttestation attestation.intoChecked
    let later : Publication := ⟨attestation, receipt⟩
    later.validate library
    return .publication later
  | policyReplacement replacement => .ok (.policyReplacement replacement)
  | certificationRevocation revocation => .ok (.certificationRevocation revocation)
  | runnerRevocation revocation => .ok (.runnerRevocation revocation)

end UncheckedEvent

namespace Record

def names : List String := ["format_version", "sequence", "previous_record_digest", "event"]

def toJson (record : Record) : Json :=
  .object [("format_version", formatVersion),
    ("sequence", u64ToJson record.sequence),
    ("previous_record_digest", (record.previousRecordDigest.map Sha256Digest.toJson).getD .null),
    ("event", record.event.toJson library)]

def canonicalJsonBytes (record : Record) : Option (List UInt8) := library.toVec (record.toJson library)

def canonicalDocumentDigest (record : Record) : Option RecordDigest := library.hashCanonical (record.toJson library)

def next (previous : Record) (event : Event) : Except ContractError Record := do
  if event.isGenesis then throw .unexpectedGenesis
  event.validate library
  match checkedSucc previous.sequence, previous.canonicalDocumentDigest library with
  | none, _ => throw .sequenceExhausted
  | some _, none => throw .canonicalDocumentUnavailable
  | some sequence, some digest => return ⟨sequence, some digest, event⟩

end Record

def uncheckedRecordFromJson (json : Json) : Option (UInt64 × Option RecordDigest × UncheckedEvent) := do
  let [version, number, previous, event] ← structMembers Record.names json | none
  formatVersionFromJson version
  let number ← u64FromJson number
  let previous ← nullable Sha256Digest.fromJson previous
  let event ← UncheckedEvent.fromJson library event
  return (number, previous, event)

inductive DocumentError
  | documentTooLarge
  | invalidDocument
  | invalidContract (source : ContractError)

def Record.fromJsonSlice (bytes : List UInt8) : Except DocumentError Record :=
  if bytes.length > maxRecordBytes then .error .documentTooLarge
  else
    match (library.fromSlice bytes).bind (uncheckedRecordFromJson library) with
    | none => .error .invalidDocument
    | some (number, previous, unchecked) =>
      match unchecked.intoChecked library with
      | .error source => .error (.invalidContract source)
      | .ok event =>
        let record : Record := ⟨number, previous, event⟩
        match record.validateShape library with
        | .error source => .error (.invalidContract source)
        | .ok () => .ok record

/-- What is assumed of the libraries: the text of a UUID and the documents of records are read back. -/
structure Faithful : Prop where
  uuid : ∀ uuid, library.uuidFromText (library.uuidToText uuid) = some uuid
  record : ∀ (record : Record) bytes, record.canonicalJsonBytes library = some bytes →
    library.fromSlice bytes = some (record.toJson library)

variable {library}

@[simp] theorem Receipt.fromJson_toJson (receipt : Receipt) : fromJson receipt.toJson = some receipt := by
  obtain ⟨digest, status, rfl⟩ := receipt
  have hMembers : structMembers names (Receipt.toJson ⟨digest, .localOnly, rfl⟩) = some [_, _] :=
    structMembers_object rfl (by decide)
  have hStatus : unitVariant PublicationStatus.variants (variantToJson PublicationStatus.variants .localOnly) =
      some .localOnly := rfl
  simp [fromJson, hMembers, hStatus]

@[simp] theorem revocationFromJson_toJson (digest : Sha256Digest) :
    revocationFromJson (revocationToJson digest) = some digest := by
  have hMembers : structMembers ["evidence_digest"] (revocationToJson digest) = some [_] :=
    structMembers_object rfl (by decide)
  simp [revocationFromJson, hMembers]

@[simp] theorem PolicyReplacement.fromJson_toJson (replacement : PolicyReplacement) :
    fromJson replacement.toJson = some replacement := by
  have hMembers : structMembers ["policy"] replacement.toJson = some [_] :=
    structMembers_object rfl (by decide)
  simp [fromJson, hMembers]

def Event.unchecked : Event → UncheckedEvent
  | genesis first =>
    .genesis first.policy ⟨first.attestation.freshness, first.attestation.runner, first.attestation.result⟩
      first.receipt
  | publication later =>
    .publication ⟨later.attestation.freshness, later.attestation.runner, later.attestation.result⟩ later.receipt
  | policyReplacement replacement => .policyReplacement replacement
  | certificationRevocation revocation => .certificationRevocation revocation
  | runnerRevocation revocation => .runnerRevocation revocation

theorem UncheckedEvent.bodyFromJson_bodyToJson (hLibrary : Faithful library) (event : Event) :
    bodyFromJson library event.kind (event.bodyToJson library) = some event.unchecked := by
  have hAttestation := LocalCertificationRunAttestation.unchecked_fromJson_toJson hLibrary.uuid
  cases event with
  | genesis first =>
    have hMembers : structMembers ["policy", "attestation", "receipt"] ((Event.genesis first).bodyToJson library) =
        some [_, _, _] := structMembers_object rfl (by decide)
    simp [bodyFromJson, Event.kind, Event.unchecked, hMembers, hAttestation]
  | publication later =>
    have hMembers : structMembers ["attestation", "receipt"] ((Event.publication later).bodyToJson library) =
        some [_, _] := structMembers_object rfl (by decide)
    simp [bodyFromJson, Event.kind, Event.unchecked, hMembers, hAttestation]
  | policyReplacement _ | certificationRevocation _ | runnerRevocation _ =>
    simp [bodyFromJson, Event.kind, Event.unchecked, Event.bodyToJson]

theorem uncheckedRecordFromJson_toJson (hLibrary : Faithful library) (record : Record) :
    uncheckedRecordFromJson library (record.toJson library) =
      some (record.sequence, record.previousRecordDigest, record.event.unchecked) := by
  have hMembers : structMembers Record.names (record.toJson library) = some [_, _, _, _] :=
    structMembers_object rfl (by decide)
  have hVersion : formatVersionFromJson formatVersion = some () := rfl
  have hPrevious : nullable Sha256Digest.fromJson
      ((record.previousRecordDigest.map Sha256Digest.toJson).getD .null) =
        some record.previousRecordDigest := by
    cases record.previousRecordDigest with
    | none => rfl
    | some digest => exact congrArg (Option.map some) digest.fromJson_toJson
  have hEvent : UncheckedEvent.fromJson library (record.event.toJson library) = some record.event.unchecked := by
    have hParts : structMembers ["kind", "body"] (record.event.toJson library) = some [_, _] :=
      structMembers_object rfl (by decide)
    simp [UncheckedEvent.fromJson, hParts, text]
    exact UncheckedEvent.bodyFromJson_bodyToJson hLibrary record.event
  simp [uncheckedRecordFromJson, hMembers, hVersion, hPrevious, hEvent]

theorem Event.intoChecked_unchecked {event : Event} (h : event.validate library = .ok ()) :
    event.unchecked.intoChecked library = .ok event := by
  cases event with
  | genesis first =>
    have hValid : first.validate library = .ok () := h
    simp only [Event.unchecked, UncheckedEvent.intoChecked,
      UncheckedLocalCertificationRunAttestation.intoChecked_eq]
    change (first.validate library >>= fun _ => pure (Event.genesis first)) = _
    rw [hValid]
    rfl
  | publication later =>
    have hValid : later.validate library = .ok () := h
    simp only [Event.unchecked, UncheckedEvent.intoChecked,
      UncheckedLocalCertificationRunAttestation.intoChecked_eq]
    change (later.validate library >>= fun _ => pure (Event.publication later)) = _
    rw [hValid]
    rfl
  | policyReplacement replacement => rfl
  | certificationRevocation revocation => rfl
  | runnerRevocation revocation => rfl

namespace Record

variable {record : Record} {bytes : List UInt8}

theorem validate_of_validateShape (h : record.validateShape library = .ok ()) :
    record.event.validate library = .ok () := by
  rw [validateShape] at h
  split at h
  · cases h
  · split at h <;> first | exact h | cases h

theorem fromJsonSlice_canonical (hLibrary : Faithful library)
    (hBytes : record.canonicalJsonBytes library = some bytes) (hLength : bytes.length ≤ maxRecordBytes)
    (hShape : record.validateShape library = .ok ()) : fromJsonSlice library bytes = .ok record := by
  rw [fromJsonSlice, if_neg (Nat.not_lt.2 hLength), hLibrary.record record bytes hBytes, Option.bind_some,
    uncheckedRecordFromJson_toJson hLibrary]
  simp only [Event.intoChecked_unchecked (validate_of_validateShape hShape), hShape]

theorem validateShape_of_fromJsonSlice
    (h : fromJsonSlice library bytes = .ok record) : record.validateShape library = .ok () := by
  rw [fromJsonSlice] at h
  split at h
  · cases h
  · split at h
    · cases h
    · split at h
      · cases h
      · dsimp only at h
        split at h
        · cases h
        · next hShape =>
          cases h
          exact hShape

theorem validateShape_genesis {first : Genesis} (h : genesis library first = .ok record) :
    record.validateShape library = .ok () ∧ record = ⟨1, none, .genesis first⟩ := by
  rw [genesis, check_ok, pure_ok] at h
  obtain ⟨hValid, rfl⟩ := h
  exact ⟨hValid, rfl⟩

theorem next_ok {previous : Record} {event : Event} : next library previous event = .ok record ↔
      event.isGenesis = false ∧ event.validate library = .ok () ∧
        checkedSucc previous.sequence = some record.sequence ∧
        (∃ digest, previous.canonicalDocumentDigest library = some digest ∧
          record.previousRecordDigest = some digest) ∧ record.event = event := by
  rw [next, guard_ok, check_ok]
  cases hSequence : checkedSucc previous.sequence with
  | none => simp [throw_ok]
  | some successor =>
    cases hDigest : previous.canonicalDocumentDigest library with
    | none => simp [throw_ok]
    | some digest =>
      obtain ⟨number, link, body⟩ := record
      simp only [pure_ok, Record.mk.injEq, Option.some.injEq, exists_eq_left', Bool.not_eq_true]
      tauto

end Record

end Weregopher.LocalCertificationLedger
