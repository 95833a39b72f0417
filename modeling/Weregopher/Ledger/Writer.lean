import Weregopher.Ledger.Replay
import Weregopher.Lib.Transition

/-! # Creating a ledger and appending to it

An append replays the directory, prepares the next record from the state in
memory, creates its file and only then updates the state in memory.
-/
namespace Weregopher.LocalCertificationLedger
open Lib.Checked Lib.Stateful

structure AppendReceipt where
  sequence : UInt64
  recordDigest : RecordDigest
  recordCount : Nat
  totalRecordBytes : Nat

structure Ledger where
  root : LedgerRoot
  state : LedgerState

/-- Where creating a record file fails; a failed write leaves some of the bytes. -/
inductive WriteFault
  | create
  | write (written : Nat)
  | sync

variable (library : DocumentLibrary)

def canonicalRecordBytes (record : Record) : Except LedgerError (List UInt8) :=
  match record.canonicalJsonBytes library with
  | none => .error .canonicalRecordUnavailable
  | some bytes =>
    if bytes.length > maxRecordBytes then .error (.recordTooLarge record.sequence) else .ok bytes

variable (fault : Option WriteFault)

/-- The outcome and the directory afterwards. -/
def writeRecordCreateNew (root : LedgerRoot) (sequence : UInt64) (bytes : List UInt8) :
    Except LedgerError Unit × LedgerRoot :=
  match validateLedgerRoot root with
  | .error error => (.error error, root)
  | .ok entries =>
    if ∃ entry ∈ entries, entry.name = .text (recordFilename sequence) then
      (.error (.recordAlreadyExists sequence), root)
    else
      match fault with
      | none => (.ok (), .directory (entries ++ [recordEntry sequence bytes]))
      | some .create => (.error (.createRecord sequence), root)
      | some (.write written) =>
        (.error (.writeRecord sequence), .directory (entries ++ [recordEntry sequence (bytes.take written)]))
      | some .sync => (.error (.syncRecord sequence), .directory (entries ++ [recordEntry sequence bytes]))

/-- The directory still ends with the record that the state in memory ends with. -/
def observe (root : LedgerRoot) (state : LedgerState) : Except LedgerError Unit := do
  let observed ← replayDirectory library root none
  if observed.headDigest ≠ state.headDigest ∨ observed.recordCount ≠ state.recordCount ∨
      observed.totalRecordBytes ≠ state.totalRecordBytes then
    throw (.staleWriter state.headDigest observed.headDigest)

structure Prepared where
  projection : LedgerProjection
  record : Record
  bytes : List UInt8
  totalRecordBytes : Nat

def prepare (state : LedgerState) (event : Event) : Except LedgerError Prepared := do
  if state.recordCount ≥ maxRecords then throw .tooManyRecords
  let projection ← state.projection.apply event
  let record ← (Record.next library state.lastRecord event).mapError .contract
  let bytes ← canonicalRecordBytes library record
  let totalRecordBytes ← addRecordBytes state.totalRecordBytes bytes.length
  return ⟨projection, record, bytes, totalRecordBytes⟩

def commit (state : LedgerState) (prepared : Prepared) : Except LedgerError LedgerState :=
  match prepared.record.canonicalDocumentDigest library with
  | none => .error .canonicalRecordUnavailable
  | some headDigest =>
    match checkedAdd usizeMax state.recordCount 1 with
    | none => .error .tooManyRecords
    | some recordCount =>
      .ok ⟨prepared.record, headDigest, recordCount, prepared.totalRecordBytes, prepared.projection⟩

def appendEvent (event : Event) : Transition Ledger LedgerError AppendReceipt := do
  let ledger ← get
  observe library ledger.root ledger.state
  let prepared ← prepare library ledger.state event
  let (written, root) := writeRecordCreateNew fault ledger.root prepared.record.sequence prepared.bytes
  modify fun ledger => { ledger with root }
  written
  let state ← commit library ledger.state prepared
  modify fun ledger => { ledger with state }
  return ⟨state.lastRecord.sequence, state.headDigest, state.recordCount, state.totalRecordBytes⟩

def appendPublication (attestation : LocalCertificationRunAttestation) :
    Transition Ledger LedgerError AppendReceipt := do
  let publication ← (Publication.new library attestation).mapError LedgerError.contract
  appendEvent library fault (.publication publication)

def replacePolicy (policy : CertificationControlPolicy) : Transition Ledger LedgerError AppendReceipt :=
  appendEvent library fault (.policyReplacement ⟨policy⟩)

def revokeCertification (evidenceDigest : CertificationPolicyRevocationDigest) :
    Transition Ledger LedgerError AppendReceipt :=
  appendEvent library fault (.certificationRevocation ⟨evidenceDigest⟩)

def revokeRunner (evidenceDigest : CertificationRunnerPolicyRevocationDigest) :
    Transition Ledger LedgerError AppendReceipt :=
  appendEvent library fault (.runnerRevocation ⟨evidenceDigest⟩)

def genesisRecord (policy : CertificationControlPolicy) (attestation : LocalCertificationRunAttestation) :
    Except LedgerError Record := do
  let genesis ← (Genesis.new library policy attestation).mapError LedgerError.contract
  (Record.genesis library genesis).mapError .contract

/-- The state after the first record was written: the directory is replayed under its digest. -/
def replayGenesis (record : Record) (root : LedgerRoot) : Except LedgerError LedgerState :=
  match record.canonicalDocumentDigest library with
  | none => .error .canonicalRecordUnavailable
  | some head => replayDirectory library root (some head)

def writeGenesis (record : Record) : Except LedgerError LedgerState × LedgerRoot :=
  match canonicalRecordBytes library record with
  | .error error => (.error error, .directory [])
  | .ok bytes =>
    match writeRecordCreateNew fault (.directory []) record.sequence bytes with
    | (.error error, root) => (.error error, root)
    | (.ok (), root) => (replayGenesis library record root, root)

def create (rootFault : Bool) (fault : Option WriteFault) (root : LedgerRoot) (policy : CertificationControlPolicy)
    (attestation : LocalCertificationRunAttestation) : Except LedgerError LedgerState × LedgerRoot :=
  match genesisRecord library policy attestation with
  | .error error => (.error error, root)
  | .ok record =>
    if root ≠ .missing then (.error .ledgerRootAlreadyExists, root)
    else if rootFault then (.error .createLedgerRoot, root)
    else writeGenesis library fault record

end Weregopher.LocalCertificationLedger
