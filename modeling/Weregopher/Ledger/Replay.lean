import Weregopher.Ledger.Projection

/-! # Replay of a ledger directory

The records are read in the order of their sequence numbers; each is checked
against the one before it and applied to the projection.
-/
namespace Weregopher.LocalCertificationLedger
open Lib.Checked

structure LedgerState where
  lastRecord : Record
  headDigest : RecordDigest
  recordCount : Nat
  totalRecordBytes : Nat
  projection : LedgerProjection

structure ReplayState where
  totalRecordBytes : Nat
  previousRecord : Option Record
  previousDigest : Option RecordDigest
  projection : Option LedgerProjection

def ReplayState.initial : ReplayState := ⟨0, none, none, none⟩

def addRecordBytes (total length : Nat) : Except LedgerError Nat :=
  match checkedAdd usizeMax total length with
  | none => .error .totalRecordBytesExceeded
  | some total => if total > maxLedgerBytes then .error .totalRecordBytesExceeded else .ok total

variable (library : DocumentLibrary)

def replayBytes (state : ReplayState) (sequence : UInt64) (bytes : List UInt8) :
    Except LedgerError ReplayState := do
  let totalRecordBytes ← addRecordBytes state.totalRecordBytes bytes.length
  let record ← (Record.fromJsonSlice library bytes).mapError (.invalidRecord sequence)
  match record.canonicalJsonBytes library with
  | none => throw .canonicalRecordUnavailable
  | some canonical => do
    if bytes ≠ canonical then throw (.nonCanonicalRecord sequence)
    if record.sequence ≠ sequence then throw (.recordSequenceMismatch sequence record.sequence)
    if record.previousRecordDigest ≠ state.previousDigest then throw (.previousRecordMismatch sequence)
    let projection ← projectEvent state.projection record.event
    match record.canonicalDocumentDigest library with
    | none => throw .canonicalRecordUnavailable
    | some digest => return ⟨totalRecordBytes, some record, some digest, some projection⟩

def replayEntries : Nat → ReplayState → List (UInt64 × DirectoryEntry) → Except LedgerError ReplayState
  | _, state, [] => .ok state
  | index, state, (sequence, entry) :: rest => do
    if sequence ≠ UInt64.ofNat (index + 1) then throw (.sequenceGap (UInt64.ofNat (index + 1)) sequence)
    let bytes ← readRecordBytes sequence entry
    let state ← replayBytes library state sequence bytes
    replayEntries (index + 1) state rest

def finishReplay (state : ReplayState) (expectedHead : Option RecordDigest) : Except LedgerError LedgerState :=
  match state.previousDigest, state.previousRecord, state.projection with
  | some headDigest, some lastRecord, some projection =>
    match expectedHead with
    | some expected =>
      if expected ≠ headDigest then .error (.headMismatch expected headDigest)
      else .ok ⟨lastRecord, headDigest, lastRecord.sequence.toNat, state.totalRecordBytes, projection⟩
    | none => .ok ⟨lastRecord, headDigest, lastRecord.sequence.toNat, state.totalRecordBytes, projection⟩
  | _, _, _ => .error .missingGenesis

def replayDirectory (root : LedgerRoot) (expectedHead : Option RecordDigest) : Except LedgerError LedgerState := do
  let listing ← validateLedgerRoot root
  let entries ← scanEntries listing []
  if entries.isEmpty then throw .missingGenesis
  let state ← replayEntries library 0 .initial (sortEntries entries)
  finishReplay state expectedHead

def openLedger (root : LedgerRoot) (expectedHead : RecordDigest) : Except LedgerError LedgerState :=
  replayDirectory library root (some expectedHead)

end Weregopher.LocalCertificationLedger
