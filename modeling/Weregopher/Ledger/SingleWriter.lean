import Weregopher.Ledger.Reference

/-! # One writer

A ledger created and appended to by one writer. Writes do not fail here, appends
may be refused, and every enumeration may give the entries in another order.
-/
namespace Weregopher.LocalCertificationLedger
open Lib.Outcome Lib.Stateful

/-- The directory and the state in memory after creation and some attempts to append. -/
inductive Reached (library : DocumentLibrary) : List DirectoryEntry → LedgerState → Prop
  | created {policy : CertificationControlPolicy} {attestation : LocalCertificationRunAttestation}
      {entries : List DirectoryEntry} {state : LedgerState}
      (h : create library false none .missing policy attestation = (.ok state, .directory entries)) :
      Reached library entries state
  | enumerated {entries listing : List DirectoryEntry} {state : LedgerState} (h : Reached library entries state)
      (hPerm : listing.Perm entries) : Reached library listing state
  | attempted {entries entries' : List DirectoryEntry} {state state' : LedgerState} {event : Event}
      {outcome : Except LedgerError AppendReceipt} (h : Reached library entries state)
      (hAppend : exec (appendEvent library none event) ⟨.directory entries, state⟩ =
        (outcome, ⟨.directory entries', state'⟩)) : Reached library entries' state'

variable {library : DocumentLibrary}

theorem writeRecordCreateNew_none (root : LedgerRoot) (sequence : UInt64) (bytes : List UInt8) :
    (∃ entries, root = .directory entries ∧ (∀ entry ∈ entries, entry.name ≠ .text (recordFilename sequence)) ∧
      writeRecordCreateNew none root sequence bytes =
        (.ok (), .directory (entries ++ [recordEntry sequence bytes]))) ∨
    ∃ error, writeRecordCreateNew none root sequence bytes = (.error error, root) := by
  cases root with
  | missing => exact .inr ⟨_, rfl⟩
  | unsafeRoot => exact .inr ⟨_, rfl⟩
  | directory entries =>
    rw [writeRecordCreateNew, validateLedgerRoot]
    simp only
    split
    · exact .inr ⟨_, rfl⟩
    · next hAbsent => exact .inl ⟨entries, rfl, by simpa using hAbsent, rfl⟩

variable {event : Event} {prepared : Prepared} {state : LedgerState} {root : LedgerRoot}
  {entries : List DirectoryEntry} {fault : Option WriteFault} {record : Record}
  {attestation : LocalCertificationRunAttestation} {policy : CertificationControlPolicy}

theorem exists_commit
    (h : prepare library state event = .ok prepared) : ∃ state', commit library state prepared = .ok state' := by
  obtain ⟨hRoom, -, -, hBytes, -⟩ := prepare_ok.1 h
  exact ⟨_, (commit_ok hBytes hRoom).2 rfl⟩

theorem wp_appendEvent (library : DocumentLibrary) (ledger : Ledger) (event : Event) :
    wp (appendEvent library none event) ledger
      (fun _ after => ∃ entries prepared, ledger.root = .directory entries ∧
        prepare library ledger.state event = .ok prepared ∧
        commit library ledger.state prepared = .ok after.state ∧
        observe library ledger.root ledger.state = .ok () ∧
        after.root = .directory (entries ++ [recordEntry prepared.record.sequence prepared.bytes]))
      (fun _ after => after = ledger) := by
  unfold appendEvent
  simp only [wp_bind, wp_get, wp_lift, wp_modify]
  refine ⟨fun _ hObserve => ⟨fun prepared hPrepared => ?_, fun _ _ => trivial⟩, fun _ _ => trivial⟩
  obtain ⟨state', hCommit⟩ := exists_commit hPrepared
  obtain ⟨entries, hRoot, -, hWrite⟩ | ⟨error, hWrite⟩ :=
    writeRecordCreateNew_none ledger.root prepared.record.sequence prepared.bytes
  · rw [hWrite]
    refine ⟨fun _ _ => ⟨fun state hState => ?_, fun error hError => ?_⟩, by simp⟩
    · exact ⟨entries, prepared, hRoot, hPrepared, hState, hObserve, rfl⟩
    · cases hCommit.symm.trans hError
  · rw [hWrite]
    exact ⟨by simp, fun _ _ => rfl⟩

theorem observe_ok
    (h : replayDirectory library root none = .ok state) : observe library root state = .ok () := by
  rw [observe, h]
  simp [bind, Except.bind, pure, Except.pure]

theorem exec_appendEvent (hReplay : replayDirectory library (.directory entries) none = .ok state)
    (hPrepared : prepare library state event = .ok prepared) :
    exec (appendEvent library none event) ⟨.directory entries, state⟩ =
      (.ok ⟨prepared.record.sequence, library.sha256 prepared.bytes, state.recordCount + 1,
          prepared.totalRecordBytes⟩,
        ⟨.directory (entries ++ [recordEntry prepared.record.sequence prepared.bytes]),
          ⟨prepared.record, library.sha256 prepared.bytes, state.recordCount + 1, prepared.totalRecordBytes,
            prepared.projection⟩⟩) := by
  have hAbsent := absent_of_prepare hReplay hPrepared
  obtain ⟨hRoom, -, -, hBytes, -⟩ := prepare_ok.1 hPrepared
  have hCommit := (commit_ok hBytes hRoom).2 rfl
  have hWrite : writeRecordCreateNew none (.directory entries) prepared.record.sequence prepared.bytes =
      (.ok (), .directory (entries ++ [recordEntry prepared.record.sequence prepared.bytes])) := by
    rw [writeRecordCreateNew, validateLedgerRoot]
    exact if_neg (by simpa using hAbsent)
  unfold appendEvent
  simp only [exec_bind, exec_get, exec_lift, exec_modify, exec_pure, observe_ok hReplay, hPrepared, hWrite, hCommit]

theorem replay_appendEvent (hLibrary : Faithful library) {entries' : List DirectoryEntry}
    {state' : LedgerState} {outcome : Except LedgerError AppendReceipt}
    (hReplay : replayDirectory library (.directory entries) none = .ok state)
    (hAppend : exec (appendEvent library none event) ⟨.directory entries, state⟩ =
      (outcome, ⟨.directory entries', state'⟩)) :
    replayDirectory library (.directory entries') none = .ok state' := by
  have hStep := wp_appendEvent library ⟨.directory entries, state⟩ event
  rw [wp, hAppend] at hStep
  cases outcome with
  | error error =>
    obtain ⟨rfl, rfl⟩ : entries' = entries ∧ state' = state := by simpa using hStep
    exact hReplay
  | ok receipt =>
    obtain ⟨_, prepared, hRoot, hPrepared, hCommit, -, hAfter⟩ := hStep
    cases hRoot
    cases hAfter
    exact replayDirectory_append hLibrary hReplay hPrepared hCommit

theorem replay_writeGenesis (h : writeGenesis library fault record = (.ok state, root)) :
    replayDirectory library root none = .ok state := by
  rw [writeGenesis] at h
  cases hBytes : canonicalRecordBytes library record with
  | error error => simp [hBytes] at h
  | ok bytes =>
    simp only [hBytes] at h
    rcases hWrite : writeRecordCreateNew fault (.directory []) record.sequence bytes with ⟨written, after⟩
    rw [hWrite] at h
    cases written with
    | error error => cases h
    | ok written =>
      obtain ⟨hReplay, rfl⟩ := Prod.mk.inj h
      rw [replayGenesis] at hReplay
      split at hReplay
      · cases hReplay
      · exact (replayDirectory_head.1 hReplay).1

theorem create_genesis (hLibrary : Faithful library) {first : Genesis} {bytes : List UInt8}
    (hFirst : Genesis.new library policy attestation = .ok first)
    (hRecord : Record.genesis library first = .ok record) (hBytes : canonicalRecordBytes library record = .ok bytes) :
    create library false none .missing policy attestation =
      (.ok ⟨record, library.sha256 bytes, 1, bytes.length, .fromGenesis first⟩,
        .directory [recordEntry record.sequence bytes]) := by
  have hGenesis : genesisRecord library policy attestation = .ok record := by
    rw [genesisRecord, bind_ok]
    exact ⟨first, mapError_ok.2 hFirst, mapError_ok.2 hRecord⟩
  have hReplay := replayDirectory_genesis hLibrary hRecord hBytes
  have hDigest := canonicalDocumentDigest_eq (canonicalRecordBytes_ok.1 hBytes).1
  have hHead : replayGenesis library record (.directory [recordEntry record.sequence bytes]) =
      .ok ⟨record, library.sha256 bytes, 1, bytes.length, .fromGenesis first⟩ := by
    rw [replayGenesis, hDigest]
    exact replayDirectory_head.2 ⟨hReplay, fun _ hExpected => (Option.some.inj hExpected).symm⟩
  have hWrite : writeRecordCreateNew none (.directory []) record.sequence bytes =
      (.ok (), .directory [recordEntry record.sequence bytes]) := by
    rw [writeRecordCreateNew, validateLedgerRoot]
    exact if_neg (by simp)
  unfold create
  rw [hGenesis]
  simp [writeGenesis, hBytes, hWrite, hHead]

theorem replay_create {rootFault : Bool} {root' : LedgerRoot}
    (h : create library rootFault fault root policy attestation = (.ok state, root')) :
    replayDirectory library root' none = .ok state := by
  unfold create at h
  cases hRecord : genesisRecord library policy attestation with
  | error error =>
    rw [hRecord] at h
    exact nomatch congrArg Prod.fst h
  | ok record =>
    rw [hRecord] at h
    dsimp only at h
    split at h
    · exact nomatch congrArg Prod.fst h
    · split at h
      · exact nomatch congrArg Prod.fst h
      · exact replay_writeGenesis h

theorem Reached.replay (hLibrary : Faithful library)
    (h : Reached library entries state) : replayDirectory library (.directory entries) none = .ok state := by
  induction h with
  | created hCreate => exact replay_create hCreate
  | enumerated _ hPerm ih => exact replayDirectory_perm hPerm ih
  | attempted _ hAppend ih => exact replay_appendEvent hLibrary ih hAppend

/-- With one writer, the state in memory is the one that replay computes from the directory, in every
order of enumeration, and the directory opens with it under the current head. -/
theorem memory_equals_replay (library : DocumentLibrary) (hLibrary : Faithful library)
    (entries : List DirectoryEntry) (state : LedgerState) (hReached : Reached library entries state)
    (listing : List DirectoryEntry) (hListing : listing.Perm entries) :
    replayDirectory library (.directory listing) none = .ok state ∧
      openLedger library (.directory listing) state.headDigest = .ok state := by
  have hReplay := replayDirectory_perm hListing (hReached.replay hLibrary)
  exact ⟨hReplay, replayDirectory_head.2 ⟨hReplay, fun _ hHead => (Option.some.inj hHead).symm⟩⟩

theorem Sample.reached : Reached Sample.library [firstEntry, secondEntry] secondState := by
  have hCreate := create_genesis library_faithful new_genesis record_genesis canonicalRecordBytes_first.1
  rw [library_sha256, sha256_firstRecord] at hCreate
  have hCreated : Reached Sample.library [firstEntry] firstState := by
    rw [firstEntry, firstState]
    exact .created hCreate
  have hAppend := exec_appendEvent replay_first prepare_publication
  rw [sha256_prepared, List.singleton_append] at hAppend
  rw [secondEntry, secondState]
  exact .attempted hCreated hAppend

namespace Sample

theorem sample_memory_equals_replay :
    Reached Sample.library [firstEntry, secondEntry] secondState ∧
      replayDirectory Sample.library (.directory [secondEntry, firstEntry]) none = .ok secondState ∧
      openLedger Sample.library (.directory [secondEntry, firstEntry]) secondState.headDigest =
        .ok secondState :=
  ⟨reached, memory_equals_replay Sample.library library_faithful _ _ reached _ (.swap _ _ [])⟩

end Sample

end Weregopher.LocalCertificationLedger
