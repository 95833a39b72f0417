import Weregopher.Ledger.SingleWriter

/-! # Appends that fail

An append that fails before the file of its record is created leaves the directory as it
was; one that fails afterwards leaves a file more in it, and the directory no longer
stands for the records held before.
-/
namespace Weregopher.LocalCertificationLedger
open Lib.Outcome Lib.Stateful

def LedgerError.afterCreation : LedgerError → Bool
  | .writeRecord _ => true
  | .syncRecord _ => true
  | _ => false

section

variable {library : DocumentLibrary}

theorem raises_apply (projection : LedgerProjection) (event : Event) :
    Raises (fun error => error.afterCreation = false) (projection.apply event) := by
  cases event with
  | genesis _ => rfl
  | publication publication =>
    rw [LedgerProjection.apply, LedgerProjection.applyPublication]
    exact raises_ite (fun _ => rfl) fun _ => raises_ite (fun _ => rfl) fun _ => raises_ite (fun _ => rfl) fun _ =>
      raises_ite (fun _ => rfl) fun _ => trivial
  | policyReplacement replacement =>
    rw [LedgerProjection.apply, LedgerProjection.applyReplacement]
    split
    · exact raises_ite (fun _ => rfl) fun _ => trivial
    · rfl
  | certificationRevocation _ =>
    rw [LedgerProjection.apply]
    split
    · rfl
    · trivial
  | runnerRevocation _ =>
    rw [LedgerProjection.apply]
    split
    · rfl
    · trivial

theorem raises_canonicalRecordBytes (record : Record) :
    Raises (fun error => error.afterCreation = false) (canonicalRecordBytes library record) := by
  rw [canonicalRecordBytes]
  split
  · rfl
  · exact raises_ite (fun _ => rfl) fun _ => trivial

theorem raises_addRecordBytes (total length : Nat) :
    Raises (fun error => error.afterCreation = false) (addRecordBytes total length) := by
  rw [addRecordBytes]
  split
  · rfl
  · exact raises_ite (fun _ => rfl) fun _ => trivial

theorem raises_prepare (state : LedgerState) (event : Event) :
    Raises (fun error => error.afterCreation = false) (prepare library state event) := by
  apply raises_guard
  · intro _
    rfl
  intro _
  apply raises_bind (raises_apply _ _)
  intro _ _
  apply raises_bind
  · cases Record.next library state.lastRecord event with
    | ok record => trivial
    | error error => rfl
  · intro record _
    apply raises_bind (raises_canonicalRecordBytes record)
    intro bytes _
    exact raises_bind (raises_addRecordBytes _ _) fun _ _ => trivial

variable {error : LedgerError} {fault : Option WriteFault}

theorem writeRecordCreateNew_error {root root' : LedgerRoot} {sequence : UInt64} {bytes : List UInt8}
    (h : writeRecordCreateNew fault root sequence bytes = (.error error, root')) :
    (error.afterCreation = true ∧ ∃ entries part, root = .directory entries ∧
      root' = .directory (entries ++ [recordEntry sequence part])) ∨
    (error.afterCreation = false ∧ root' = root) := by
  cases root with
  | missing | unsafeRoot =>
    cases h
    exact .inr ⟨rfl, rfl⟩
  | directory entries =>
    rw [writeRecordCreateNew, validateLedgerRoot] at h
    dsimp only at h
    split at h
    · cases h
      exact .inr ⟨rfl, rfl⟩
    · obtain _ | _ | written | _ := fault
      · cases h
      · cases h
        exact .inr ⟨rfl, rfl⟩
      · cases h
        exact .inl ⟨rfl, entries, _, rfl, rfl⟩
      · cases h
        exact .inl ⟨rfl, entries, _, rfl, rfl⟩

theorem appendEvent_error {event : Event} {ledger after : Ledger}
    (hReplay : replayDirectory library ledger.root none = .ok ledger.state)
    (h : exec (appendEvent library fault event) ledger = (.error error, after)) :
    after.state = ledger.state ∧
      ((error.afterCreation = true ∧ ∃ entries sequence part, ledger.root = .directory entries ∧
        after.root = .directory (entries ++ [recordEntry sequence part])) ∨
      (error.afterCreation = false ∧ after.root = ledger.root)) := by
  have hObserve := observe_ok hReplay
  unfold appendEvent at h
  simp only [exec_bind, exec_get, exec_lift, hObserve] at h
  cases hPrepared : prepare library ledger.state event with
  | error refused =>
    rw [hPrepared] at h
    cases h
    exact ⟨rfl, .inr ⟨(raises_prepare _ _).error hPrepared, rfl⟩⟩
  | ok prepared =>
    obtain ⟨state', hCommit⟩ := exists_commit hPrepared
    rcases hWrite : writeRecordCreateNew fault ledger.root prepared.record.sequence prepared.bytes with ⟨written, root⟩
    rw [hPrepared] at h
    simp only [hWrite, exec_modify] at h
    cases written with
    | ok written =>
      simp only [hCommit] at h
      cases h
    | error failed =>
      cases h
      refine ⟨rfl, (writeRecordCreateNew_error hWrite).imp_left ?_⟩
      rintro ⟨hError, entries, part, hEntries, hRoot⟩
      exact ⟨hError, entries, _, part, hEntries, hRoot⟩

theorem recordCount_of_replay {entries : List DirectoryEntry} {expectedHead : Option RecordDigest}
    {state : LedgerState} (h : replayDirectory library (.directory entries) expectedHead = .ok state) :
    state.recordCount = entries.length := by
  obtain ⟨_, files, final, hRoot, hStores, hNonempty, hLength, hFiles, hFinish⟩ := replayDirectory_ok.1 h
  cases hRoot
  obtain ⟨⟨hRecord, -, -, -, hCount⟩, -⟩ := finishReplay_ok.1 hFinish
  obtain ⟨last, hLast, hSequence, -⟩ := Replayed.last hFiles hNonempty hLength
  obtain rfl : last = state.lastRecord := Option.some.inj (hLast.symm.trans hRecord)
  have hEntries : entries.length = files.length := by simpa using hStores.length_eq
  rw [hCount, hSequence, hEntries]

end

/-- A failed append leaves a directory that opens with the records and the head held before, unless the
record file had been created. -/
theorem failed_append_leaves_ledger_openable_iff (library : DocumentLibrary) (root : LedgerRoot) (state : LedgerState)
    (hOpen : openLedger library root state.headDigest = .ok state) (fault : Option WriteFault) (event : Event)
    (error : LedgerError) (after : Ledger)
    (hAppend : exec (appendEvent library fault event) ⟨root, state⟩ = (.error error, after)) :
    after.state = state ∧ (error.afterCreation = false → after.root = root) ∧
      (openLedger library after.root state.headDigest = .ok state ↔ error.afterCreation = false) := by
  have hReplay := (replayDirectory_head.1 hOpen).1
  obtain ⟨hState, ⟨hError, entries, sequence, part, hEntries, hRoot⟩ | ⟨hError, hRoot⟩⟩ :=
    appendEvent_error hReplay hAppend
  · refine ⟨hState, fun hBefore => absurd (hError.symm.trans hBefore) nofun, iff_of_false ?_ ?_⟩
    · -- A record more than the state knows.
      intro hAgain
      have hEarlier : root = .directory entries := hEntries
      rw [hEarlier] at hReplay
      rw [hRoot] at hAgain
      have hMore := recordCount_of_replay hAgain
      rw [recordCount_of_replay hReplay, List.length_append, List.length_singleton] at hMore
      omega
    · rw [hError]
      nofun
  · rw [hRoot]
    exact ⟨hState, fun _ => rfl, iff_of_true hOpen hError⟩

namespace Sample

/-- The record is complete when its synchronisation fails, so only its own digest opens the directory. -/
theorem failed_sync_moves_head :
    openLedger library (.directory [firstEntry]) firstState.headDigest = .ok firstState ∧
      exec (appendEvent library (some .sync) publication) ⟨.directory [firstEntry], firstState⟩ =
        (.error (.syncRecord prepared.record.sequence), ⟨.directory [firstEntry, secondEntry], firstState⟩) ∧
      ∀ state, openLedger library (.directory [firstEntry, secondEntry]) firstState.headDigest ≠ .ok state := by
  refine ⟨open_first, ?_, ?_⟩
  · have hAbsent := absent_of_prepare replay_first prepare_publication
    have hWrite : writeRecordCreateNew (some .sync) (.directory [firstEntry]) prepared.record.sequence prepared.bytes =
        (.error (.syncRecord prepared.record.sequence), .directory [firstEntry, secondEntry]) := by
      rw [writeRecordCreateNew, validateLedgerRoot]
      exact if_neg (by simpa using hAbsent)
    unfold appendEvent
    simp [exec_bind, observe_ok replay_first, prepare_publication, hWrite]
  · intro state hOpen
    obtain ⟨hReplay, hHead⟩ := replayDirectory_head.1 hOpen
    obtain rfl : secondState = state := Except.ok.inj (replay_second.symm.trans hReplay)
    have hSame : firstHead = secondHead := hHead _ rfl
    exact absurd hSame (by decide)

theorem second_genesis_is_refused :
    exec (appendEvent library none (.genesis genesis)) ⟨.directory [firstEntry], firstState⟩ =
      (.error .unexpectedGenesis, ⟨.directory [firstEntry], firstState⟩) := by
  have hPrepare : prepare library firstState (.genesis genesis) = .error .unexpectedGenesis := rfl
  unfold appendEvent
  simp [exec_bind, observe_ok replay_first, hPrepare]

theorem refused_append_leaves_ledger_openable :
    openLedger library (.directory [firstEntry]) firstState.headDigest = .ok firstState ∧
      exec (appendEvent library none (.genesis genesis)) ⟨.directory [firstEntry], firstState⟩ =
        (.error .unexpectedGenesis, ⟨.directory [firstEntry], firstState⟩) ∧
      (openLedger library (.directory [firstEntry]) firstState.headDigest = .ok firstState ↔
        LedgerError.unexpectedGenesis.afterCreation = false) :=
  ⟨open_first, second_genesis_is_refused, (failed_append_leaves_ledger_openable_iff library (.directory [firstEntry])
    firstState open_first none (.genesis genesis) .unexpectedGenesis _ second_genesis_is_refused).2.2⟩

end Sample

end Weregopher.LocalCertificationLedger
