import Weregopher.Certification.Documents
import Weregopher.Lib.Checked

/-! # Records of the local certification ledger

A record links an event to its predecessor by digest. Records are built by
`genesis` and `next`, or parsed from bytes; all three check the event.
-/
namespace Weregopher.LocalCertificationLedger

abbrev RecordDigest := Sha256Digest

def maxRecordBytes : Nat := 256 * 1024

def maxRecords : Nat := 4096

def maxLedgerBytes : Nat := 256 * 1024 * 1024

inductive PublicationStatus
  | localOnly
  | draft
  | published
  | withdrawn
  deriving DecidableEq

inductive ContractError
  | invalidAttestation (source : CertificationRunAttestationError)
  | policyMismatch
  | receiptMismatch
  | invalidPublicationStatus
  | canonicalDocumentUnavailable
  | invalidSequence
  | invalidGenesis
  | unexpectedGenesis
  | missingPreviousLink
  | sequenceExhausted

structure Receipt where
  attestationDigest : LocalCertificationRunAttestationDigest
  publicationStatus : PublicationStatus
  status_local : publicationStatus = .localOnly

structure Genesis where
  policy : CertificationControlPolicy
  attestation : LocalCertificationRunAttestation
  receipt : Receipt

structure Publication where
  attestation : LocalCertificationRunAttestation
  receipt : Receipt

structure PolicyReplacement where
  policy : CertificationControlPolicy

structure CertificationRevocation where
  evidenceDigest : CertificationPolicyRevocationDigest

structure RunnerRevocation where
  evidenceDigest : CertificationRunnerPolicyRevocationDigest

inductive Event
  | genesis (genesis : Genesis)
  | publication (publication : Publication)
  | policyReplacement (replacement : PolicyReplacement)
  | certificationRevocation (revocation : CertificationRevocation)
  | runnerRevocation (revocation : RunnerRevocation)

structure Record where
  sequence : UInt64
  previousRecordDigest : Option RecordDigest
  event : Event

variable (library : DocumentLibrary)

def Receipt.fromAttestation (attestation : LocalCertificationRunAttestation) : Except ContractError Receipt :=
  match attestation.canonicalDocumentDigest library with
  | some digest => .ok ⟨digest, .localOnly, rfl⟩
  | none => .error .canonicalDocumentUnavailable

def validateReceipt (attestation : LocalCertificationRunAttestation) (receipt : Receipt) :
    Except ContractError Unit :=
  if receipt.publicationStatus ≠ .localOnly then .error .invalidPublicationStatus
  else
    match attestation.canonicalDocumentDigest library with
    | none => .error .canonicalDocumentUnavailable
    | some expected => if receipt.attestationDigest ≠ expected then .error .receiptMismatch else .ok ()

namespace Genesis

def new (policy : CertificationControlPolicy) (attestation : LocalCertificationRunAttestation) :
    Except ContractError Genesis := do
  if !policy.acceptsAttestation attestation then throw .policyMismatch
  let receipt ← Receipt.fromAttestation library attestation
  return ⟨policy, attestation, receipt⟩

def validate (genesis : Genesis) : Except ContractError Unit :=
  if !genesis.policy.acceptsAttestation genesis.attestation then .error .policyMismatch
  else validateReceipt library genesis.attestation genesis.receipt

end Genesis

namespace Publication

def new (attestation : LocalCertificationRunAttestation) : Except ContractError Publication := do
  let receipt ← Receipt.fromAttestation library attestation
  return ⟨attestation, receipt⟩

def validate (publication : Publication) : Except ContractError Unit :=
  validateReceipt library publication.attestation publication.receipt

end Publication

def liftAttestation {α : Type} (result : Except CertificationRunAttestationError α) : Except ContractError α :=
  result.mapError .invalidAttestation

namespace Event

def validate : Event → Except ContractError Unit
  | genesis first => first.validate library
  | publication later => later.validate library
  | policyReplacement replacement => liftAttestation replacement.policy.validate
  | certificationRevocation _ | runnerRevocation _ => .ok ()

def isGenesis : Event → Bool
  | genesis _ => true
  | _ => false

end Event

namespace Record

def genesis (first : Genesis) : Except ContractError Record := do
  first.validate library
  return ⟨1, none, .genesis first⟩

def validateShape (record : Record) : Except ContractError Unit :=
  if record.sequence = 0 then .error .invalidSequence
  else
    match decide (record.sequence = 1), record.previousRecordDigest, record.event with
    | true, none, .genesis _ => record.event.validate library
    | true, _, _ => .error .invalidGenesis
    | false, some _, .genesis _ => .error .unexpectedGenesis
    | false, some _, _ => record.event.validate library
    | false, none, _ => .error .missingPreviousLink

end Record

end Weregopher.LocalCertificationLedger
