import Weregopher.Ledger.Chain
import Weregopher.Ledger.Writer

/-! # What an append makes of the directory

The file of a prepared record extends the chain that replay accepts, and
replay of the longer chain gives the state that the append commits.
-/
namespace Weregopher.LocalCertificationLedger
open Lib.Checked Lib.Outcome

variable {library : DocumentLibrary}

variable {entries : List DirectoryEntry} {expectedHead : Option RecordDigest} {state state' : LedgerState}
  {bytes : List UInt8} {record : Record} {event : Event} {prepared : Prepared}

theorem replayDirectory_perm {listing : List DirectoryEntry} (hPerm : listing.Perm entries)
    (h : replayDirectory library (.directory entries) expectedHead = .ok state) :
    replayDirectory library (.directory listing) expectedHead = .ok state := by
  obtain ⟨_, files, final, hRoot, hStores, hReplay⟩ := replayDirectory_ok.1 h
  cases hRoot
  exact replayDirectory_ok.2 ⟨listing, files, final, rfl, hPerm.trans hStores, hReplay⟩

theorem finishReplay_none (final : ReplayState) (expectedHead : Option RecordDigest) :
    finishReplay final expectedHead = .ok state ↔
      finishReplay final none = .ok state ∧ ∀ expected, expectedHead = some expected → expected = state.headDigest := by
  rw [finishReplay_ok, finishReplay_ok]
  simp

theorem replayDirectory_head {root : LedgerRoot} :
    replayDirectory library root expectedHead = .ok state ↔
      replayDirectory library root none = .ok state ∧
        ∀ expected, expectedHead = some expected → expected = state.headDigest := by
  simp only [replayDirectory_ok, finishReplay_none _ expectedHead]
  constructor
  · rintro ⟨listing, files, final, hRoot, hStores, hNonempty, hLength, hReplay, hFinish, hHead⟩
    exact ⟨⟨listing, files, final, hRoot, hStores, hNonempty, hLength, hReplay, hFinish⟩, hHead⟩
  · rintro ⟨⟨listing, files, final, hRoot, hStores, hNonempty, hLength, hReplay, hFinish⟩, hHead⟩
    exact ⟨listing, files, final, hRoot, hStores, hNonempty, hLength, hReplay, hFinish, hHead⟩

theorem canonicalRecordBytes_ok : canonicalRecordBytes library record = .ok bytes ↔
      record.canonicalJsonBytes library = some bytes ∧ bytes.length ≤ maxRecordBytes := by
  rw [canonicalRecordBytes]
  cases record.canonicalJsonBytes library with
  | none => simp
  | some canonical =>
    simp only [ite_error_ok, Except.ok.injEq, Option.some.injEq, Nat.not_lt]
    constructor
    · rintro ⟨hLength, rfl⟩
      exact ⟨rfl, hLength⟩
    · rintro ⟨rfl, hLength⟩
      exact ⟨hLength, rfl⟩

theorem prepare_ok : prepare library state event = .ok prepared ↔
      state.recordCount < maxRecords ∧ state.projection.apply event = .ok prepared.projection ∧
        Record.next library state.lastRecord event = .ok prepared.record ∧
        prepared.record.canonicalJsonBytes library = some prepared.bytes ∧
        prepared.bytes.length ≤ maxRecordBytes ∧
        prepared.totalRecordBytes = state.totalRecordBytes + prepared.bytes.length ∧
        state.totalRecordBytes + prepared.bytes.length ≤ maxLedgerBytes := by
  obtain ⟨projection, record, bytes, total⟩ := prepared
  simp only [prepare, guard_ok, bind_ok, mapError_ok, canonicalRecordBytes_ok, addRecordBytes_ok, pure_ok,
    Prepared.mk.injEq, Nat.not_le, ge_iff_le]
  constructor
  · rintro ⟨hCount, _, hProjection, _, hRecord, _, ⟨hBytes, hLength⟩, _, ⟨rfl, hTotal⟩, rfl, rfl, rfl, rfl⟩
    exact ⟨hCount, hProjection, hRecord, hBytes, hLength, rfl, hTotal⟩
  · rintro ⟨hCount, hProjection, hRecord, hBytes, hLength, rfl, hTotal⟩
    exact ⟨hCount, projection, hProjection, record, hRecord, bytes, ⟨hBytes, hLength⟩, _, ⟨rfl, hTotal⟩, rfl, rfl,
      rfl, rfl⟩

theorem prepare_of_bytes {projection : LedgerProjection} (hRoom : state.recordCount < maxRecords)
    (hApply : state.projection.apply event = .ok projection)
    (hNext : Record.next library state.lastRecord event = .ok record)
    (hBytes : canonicalRecordBytes library record = .ok bytes)
    (hCeiling : state.totalRecordBytes + bytes.length ≤ maxLedgerBytes) :
    prepare library state event = .ok ⟨projection, record, bytes, state.totalRecordBytes + bytes.length⟩ := by
  obtain ⟨hCanonical, hBound⟩ := canonicalRecordBytes_ok.1 hBytes
  exact prepare_ok.2 ⟨hRoom, hApply, hNext, hCanonical, hBound, rfl, hCeiling⟩

theorem commit_ok (hBytes : prepared.record.canonicalJsonBytes library = some prepared.bytes)
    (hCount : state.recordCount < maxRecords) : commit library state prepared = .ok state' ↔
      state' = ⟨prepared.record, library.sha256 prepared.bytes, state.recordCount + 1, prepared.totalRecordBytes,
        prepared.projection⟩ := by
  have hAdd : checkedAdd usizeMax state.recordCount 1 = some (state.recordCount + 1) := by
    apply if_pos
    simp only [usizeMax, u64Max, maxRecords] at *
    omega
  simp only [commit, canonicalDocumentDigest_eq hBytes, hAdd, Except.ok.injEq]
  exact eq_comm

theorem Replayed.last {files : List (List UInt8)} {final : ReplayState} (h : Replayed library files final)
    (hNonempty : files ≠ []) (hLength : files.length ≤ maxRecords) :
    ∃ record, final.previousRecord = some record ∧ record.sequence.toNat = files.length ∧
      record.canonicalDocumentDigest library = final.previousDigest := by
  obtain ⟨front, bytes, rfl⟩ := (List.eq_nil_or_concat files).resolve_left hNonempty
  rw [List.concat_eq_append] at *
  obtain ⟨state, record, projection, -, -, hExtends, rfl⟩ := replayed_concat.1 h
  refine ⟨record, rfl, ?_, canonicalDocumentDigest_eq hExtends.canonical⟩
  rw [List.length_append, List.length_singleton] at *
  rw [hExtends.sequence, u64_ofNat_toNat]
  exact Nat.lt_of_le_of_lt hLength (by decide)

theorem validateShape_next {previous : Record} (hPrevious : previous.sequence ≠ 0)
    (h : Record.next library previous event = .ok record) : record.validateShape library = .ok () := by
  obtain ⟨hGenesis, hValid, hSequence, ⟨digest, -, hLink⟩, rfl⟩ := Record.next_ok.1 h
  have hSucc := checkedSucc_toNat hSequence
  have hPositive : previous.sequence.toNat ≠ 0 := fun hZero => hPrevious (UInt64.toNat_inj.1 hZero)
  have hZero : record.sequence ≠ 0 := by
    intro hZero
    rw [hZero, UInt64.toNat_zero] at hSucc
    omega
  have hOne : record.sequence ≠ 1 := by
    intro hOne
    rw [hOne, UInt64.toNat_one] at hSucc
    omega
  obtain ⟨sequence, link, body⟩ := record
  obtain rfl : link = some digest := hLink
  rw [Record.validateShape, if_neg hZero, decide_eq_false hOne]
  cases body with
  | genesis first => cases hGenesis
  | _ => exact hValid

/-- The step: a prepared record extends the replayed chain by the committed state. -/
theorem replayDirectory_append (hLibrary : Faithful library)
    (hReplay : replayDirectory library (.directory entries) none = .ok state)
    (hPrepared : prepare library state event = .ok prepared) (hCommit : commit library state prepared = .ok state') :
    replayDirectory library (.directory (entries ++ [recordEntry prepared.record.sequence prepared.bytes])) none =
      .ok state' := by
  obtain ⟨_, files, final, hRoot, hStores, hNonempty, hLength, hFiles, hFinish⟩ := replayDirectory_ok.1 hReplay
  cases hRoot
  obtain ⟨⟨hRecord, hDigest, hProjection, hTotal, hCount⟩, -⟩ := finishReplay_ok.1 hFinish
  obtain ⟨last, hLast, hSequence, hLink⟩ := Replayed.last hFiles hNonempty hLength
  obtain rfl : last = state.lastRecord := Option.some.inj (hLast.symm.trans hRecord)
  obtain ⟨hRoom, hApply, hNext, hBytes, hBound, hSum, hCeiling⟩ := prepare_ok.1 hPrepared
  obtain rfl := (commit_ok hBytes hRoom).1 hCommit
  obtain ⟨-, -, hSucc, ⟨digest, hLastDigest, hPrevious⟩, rfl⟩ := Record.next_ok.1 hNext
  have hPositive : state.lastRecord.sequence ≠ 0 := by
    intro hZero
    rw [hZero, UInt64.toNat_zero] at hSequence
    exact hNonempty (List.length_eq_zero_iff.1 hSequence.symm)
  have hNumber : prepared.record.sequence = UInt64.ofNat (files.length + 1) := by
    apply UInt64.toNat_inj.1
    rw [checkedSucc_toNat hSucc, hSequence, u64_ofNat_toNat]
    exact Nat.lt_of_le_of_lt (Nat.succ_le_succ hLength) (by decide)
  have hExtends : Extends library final (UInt64.ofNat (files.length + 1)) prepared.bytes prepared.record
      prepared.projection := by
    refine ⟨hTotal ▸ hCeiling, Record.fromJsonSlice_canonical hLibrary hBytes hBound
      (validateShape_next hPositive hNext), hBytes, hNumber, ?_, ?_⟩
    · rw [hPrevious, ← hLink, hLastDigest]
    · rw [hProjection]
      exact hApply
  have hFiles' : Replayed library (files ++ [prepared.bytes]) ⟨final.totalRecordBytes + prepared.bytes.length,
      some prepared.record, some (library.sha256 prepared.bytes), some prepared.projection⟩ :=
    replayed_concat.2 ⟨final, prepared.record, prepared.projection, hFiles, hBound, hExtends, rfl⟩
  refine replayDirectory_ok.2 ⟨_, files ++ [prepared.bytes], _, rfl, ?_, by simp, ?_, hFiles', ?_⟩
  · rw [Stores, layoutFrom_append, List.map_append, hNumber, Nat.zero_add]
    exact hStores.append_right _
  · rw [List.length_append, List.length_singleton]
    rw [hCount, hSequence] at hRoom
    exact hRoom
  · refine finishReplay_ok.2 ⟨⟨rfl, rfl, rfl, ?_, ?_⟩, by simp⟩
    · rw [hSum, hTotal]
    · rw [hCount, checkedSucc_toNat hSucc]

theorem replayDirectory_genesis (hLibrary : Faithful library) {first : Genesis}
    (hRecord : Record.genesis library first = .ok record) (hBytes : canonicalRecordBytes library record = .ok bytes) :
    replayDirectory library (.directory [recordEntry record.sequence bytes]) none =
      .ok ⟨record, library.sha256 bytes, 1, bytes.length, .fromGenesis first⟩ := by
  obtain ⟨hShape, rfl⟩ := Record.validateShape_genesis hRecord
  obtain ⟨hCanonical, hBound⟩ := canonicalRecordBytes_ok.1 hBytes
  have hCeiling : 0 + bytes.length ≤ maxLedgerBytes := by
    rw [Nat.zero_add]
    exact hBound.trans (by decide)
  have hExtends : Extends library .initial (UInt64.ofNat ([] : List (List UInt8)).length.succ) bytes
      ⟨1, none, .genesis first⟩ (.fromGenesis first) :=
    ⟨hCeiling, Record.fromJsonSlice_canonical hLibrary hCanonical hBound hShape, hCanonical, rfl, rfl, rfl⟩
  have hFiles : Replayed library ([] ++ [bytes]) ⟨0 + bytes.length, some ⟨1, none, .genesis first⟩,
      some (library.sha256 bytes), some (.fromGenesis first)⟩ :=
    replayed_concat.2 ⟨.initial, _, _, replayed_nil.2 rfl, hBound, hExtends, rfl⟩
  refine replayDirectory_ok.2 ⟨_, [bytes], _, rfl, .refl _, by simp, by simp [maxRecords], hFiles, ?_⟩
  exact finishReplay_ok.2 ⟨⟨rfl, rfl, rfl, (Nat.zero_add _).symm, rfl⟩, nofun⟩

theorem sequence_of_prepare (hReplay : replayDirectory library (.directory entries) none = .ok state)
    (hPrepared : prepare library state event = .ok prepared) :
    prepared.record.sequence = UInt64.ofNat (entries.length + 1) ∧ entries.length ≤ maxRecords := by
  obtain ⟨_, files, final, hRoot, hStores, hNonempty, hLength, hFiles, hFinish⟩ := replayDirectory_ok.1 hReplay
  cases hRoot
  obtain ⟨⟨hRecord, -⟩, -⟩ := finishReplay_ok.1 hFinish
  obtain ⟨last, hLast, hSequence, -⟩ := Replayed.last hFiles hNonempty hLength
  obtain rfl : last = state.lastRecord := Option.some.inj (hLast.symm.trans hRecord)
  obtain ⟨-, -, hNext, -⟩ := prepare_ok.1 hPrepared
  obtain ⟨-, -, hSucc, -⟩ := Record.next_ok.1 hNext
  have hEntries : entries.length = files.length := by simpa using hStores.length_eq
  refine ⟨UInt64.toNat_inj.1 ?_, hEntries ▸ hLength⟩
  rw [checkedSucc_toNat hSucc, hSequence, hEntries, u64_ofNat_toNat]
  exact Nat.lt_of_le_of_lt (Nat.succ_le_succ hLength) (by decide)

theorem absent_of_prepare (hReplay : replayDirectory library (.directory entries) none = .ok state)
    (hPrepared : prepare library state event = .ok prepared) :
    ∀ entry ∈ entries, entry.name ≠ .text (recordFilename prepared.record.sequence) := by
  obtain ⟨hNumber, hLength⟩ := sequence_of_prepare hReplay hPrepared
  obtain ⟨_, files, final, hRoot, hStores, -⟩ := replayDirectory_ok.1 hReplay
  cases hRoot
  have hEntries : entries.length = files.length := by simpa using hStores.length_eq
  have hSmall : maxRecords + 1 < 2 ^ 64 := by decide
  intro entry hEntry hName
  obtain ⟨item, hItem, rfl⟩ := List.mem_map.1 (hStores.mem_iff.1 hEntry)
  obtain ⟨hNamed, -, hHigh⟩ := mem_layoutFrom hItem (by omega)
  have hToNat : (UInt64.ofNat (entries.length + 1)).toNat = entries.length + 1 := u64_ofNat_toNat (by omega)
  have hNonzero : UInt64.ofNat (entries.length + 1) ≠ 0 := by
    intro hZero
    rw [hZero, UInt64.toNat_zero] at hToNat
    omega
  have hFilename : OsName.text (recordFilename item.1) = .text (recordFilename prepared.record.sequence) :=
    (congrArg DirectoryEntry.name hNamed.2).symm.trans hName
  rw [hNumber, OsName.text.injEq] at hFilename
  rw [recordFilename_injective hNamed.1 hNonzero hFilename, hToNat] at hHigh
  omega

end Weregopher.LocalCertificationLedger
