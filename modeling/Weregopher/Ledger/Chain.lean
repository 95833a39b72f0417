import Weregopher.Ledger.Layout
import Weregopher.Lib.HashChain

/-! # Chains of record bytes

What one record adds to the replay loop, and what follows for the list of all
records: they form a hash chain, and the head is the digest of the last one.
-/
namespace Weregopher.LocalCertificationLedger
open Lib Lib.Checked Lib.Outcome

variable {library : DocumentLibrary}

theorem addRecordBytes_ok {total length sum : Nat} :
    addRecordBytes total length = .ok sum ↔ sum = total + length ∧ total + length ≤ maxLedgerBytes := by
  rw [addRecordBytes, checkedAdd]
  split
  · next hAdd =>
    split at hAdd
    · cases hAdd
    · next hOver =>
      simp only [reduceCtorEq, false_iff, not_and]
      simp only [usizeMax, u64Max, maxLedgerBytes] at *
      omega
  · next hAdd =>
    split at hAdd
    · cases hAdd
      rw [ite_error_ok, Except.ok.injEq, Nat.not_lt, and_comm, eq_comm]
    · cases hAdd

/-- One record of the chain: what its bytes are and what replay makes of it. -/
structure Extends (library : DocumentLibrary) (state : ReplayState) (sequence : UInt64) (bytes : List UInt8)
    (record : Record) (projection : LedgerProjection) : Prop where
  total : state.totalRecordBytes + bytes.length ≤ maxLedgerBytes
  parsed : Record.fromJsonSlice library bytes = .ok record
  canonical : record.canonicalJsonBytes library = some bytes
  sequence : record.sequence = sequence
  previous : record.previousRecordDigest = state.previousDigest
  projected : projectEvent state.projection record.event = .ok projection

variable {bytes : List UInt8} {final state : ReplayState} {files : List (List UInt8)}

theorem canonicalDocumentDigest_eq {record : Record} (h : record.canonicalJsonBytes library = some bytes) :
    record.canonicalDocumentDigest library = some (library.sha256 bytes) := by
  rw [Record.canonicalDocumentDigest, DocumentLibrary.hashCanonical]
  exact congrArg (Option.map library.sha256) h

theorem replayBytes_ok {sequence : UInt64} : replayBytes library state sequence bytes = .ok final ↔
      ∃ record projection, Extends library state sequence bytes record projection ∧
        final = ⟨state.totalRecordBytes + bytes.length, some record, some (library.sha256 bytes),
          some projection⟩ := by
  simp only [replayBytes, bind_ok, addRecordBytes_ok, mapError_ok]
  constructor
  · rintro ⟨total, ⟨rfl, hTotal⟩, record, hParsed, h⟩
    cases hCanonical : record.canonicalJsonBytes library with
    | none =>
      rw [hCanonical] at h
      cases h
    | some canonical =>
      simp only [hCanonical, canonicalDocumentDigest_eq hCanonical, guard_ok, not_not, bind_ok, pure_ok] at h
      obtain ⟨rfl, hSequence, hPrevious, projection, hProjected, rfl⟩ := h
      exact ⟨record, projection, ⟨hTotal, hParsed, hCanonical, hSequence, hPrevious, hProjected⟩, rfl⟩
  · rintro ⟨record, projection, ⟨hTotal, hParsed, hCanonical, hSequence, hPrevious, hProjected⟩, rfl⟩
    refine ⟨_, ⟨rfl, hTotal⟩, record, hParsed, ?_⟩
    simp only [hCanonical, canonicalDocumentDigest_eq hCanonical, guard_ok, not_not, bind_ok, pure_ok]
    exact ⟨trivial, hSequence, hPrevious, projection, hProjected, rfl⟩

/-- The loop's variables after the records with the given bytes. -/
def Replayed (library : DocumentLibrary) (files : List (List UInt8)) (final : ReplayState) : Prop :=
  replayEntries library 0 .initial (layoutFrom 0 files) = .ok final

theorem replayed_nil : Replayed library [] final ↔ final = .initial := by
  rw [Replayed, layoutFrom, replayEntries, Except.ok.injEq, eq_comm]

theorem replayEntries_append {index : Nat} {front back : List (UInt64 × DirectoryEntry)} :
    replayEntries library index state (front ++ back) = .ok final ↔
      ∃ middle, replayEntries library index state front = .ok middle ∧
        replayEntries library (index + front.length) middle back = .ok final := by
  induction front generalizing index state with
  | nil => simp [replayEntries]
  | cons item rest ih =>
    simp only [List.cons_append, replayEntries_cons, ih, List.length_cons]
    rw [Nat.add_assoc, Nat.add_comm 1]
    constructor
    · rintro ⟨hSequence, bytes, hBytes, first, hFirst, middle, hRest, hBack⟩
      exact ⟨middle, ⟨hSequence, bytes, hBytes, first, hFirst, hRest⟩, hBack⟩
    · rintro ⟨middle, ⟨hSequence, bytes, hBytes, first, hFirst, hRest⟩, hBack⟩
      exact ⟨hSequence, bytes, hBytes, first, hFirst, middle, hRest, hBack⟩

theorem replayed_concat : Replayed library (files ++ [bytes]) final ↔
      ∃ state record projection, Replayed library files state ∧ bytes.length ≤ maxRecordBytes ∧
        Extends library state (UInt64.ofNat (files.length + 1)) bytes record projection ∧
        final = ⟨state.totalRecordBytes + bytes.length, some record, some (library.sha256 bytes),
          some projection⟩ := by
  have hRead : ∀ read, readRecordBytes (UInt64.ofNat (files.length + 1))
      (recordEntry (UInt64.ofNat (files.length + 1)) bytes) = .ok read ↔
        bytes.length ≤ maxRecordBytes ∧ bytes = read := by
    intro read
    simp [readRecordBytes, recordEntry, ite_error_ok]
  rw [Replayed, layoutFrom_append, replayEntries_append, length_layoutFrom, Nat.zero_add]
  simp only [layoutFrom, replayEntries_cons, hRead, replayBytes_ok]
  constructor
  · rintro ⟨state, hState, -, read, ⟨hLength, rfl⟩, _, ⟨record, projection, hExtends, rfl⟩, hDone⟩
    cases hDone
    exact ⟨state, record, projection, hState, hLength, hExtends, rfl⟩
  · rintro ⟨state, record, projection, hState, hLength, hExtends, rfl⟩
    exact ⟨state, hState, trivial, bytes, ⟨hLength, rfl⟩, _, ⟨record, projection, hExtends, rfl⟩, rfl⟩

def linkOf (library : DocumentLibrary) (bytes : List UInt8) : Option RecordDigest :=
  match Record.fromJsonSlice library bytes with
  | .ok record => record.previousRecordDigest
  | .error _ => none

theorem Replayed.linked (h : Replayed library files final) :
    HashChain.Linked library.sha256 (linkOf library) files ∧
      final.previousDigest = HashChain.head library.sha256 files := by
  induction files using List.reverseRecOn generalizing final with
  | nil =>
    rw [replayed_nil.1 h]
    exact ⟨EachAfter.nil, rfl⟩
  | append_singleton front bytes ih =>
    obtain ⟨state, record, projection, hFront, -, hExtends, rfl⟩ := replayed_concat.1 h
    obtain ⟨hLinked, hHead⟩ := ih hFront
    refine ⟨HashChain.linked_concat.2 ⟨hLinked, ?_⟩, (HashChain.head_concat front bytes).symm⟩
    rw [linkOf, hExtends.parsed]
    exact hExtends.previous.trans hHead

theorem finishReplay_ok {expectedHead : Option RecordDigest} {state : LedgerState} :
    finishReplay final expectedHead = .ok state ↔
      (final.previousRecord = some state.lastRecord ∧ final.previousDigest = some state.headDigest ∧
        final.projection = some state.projection ∧ state.totalRecordBytes = final.totalRecordBytes ∧
        state.recordCount = state.lastRecord.sequence.toNat) ∧
        ∀ expected, expectedHead = some expected → expected = state.headDigest := by
  obtain ⟨total, previousRecord, previousDigest, projection⟩ := final
  obtain ⟨lastRecord, headDigest, recordCount, totalRecordBytes, projected⟩ := state
  rw [finishReplay]
  split
  · next digest record projection hDigest hRecord hProjection =>
    obtain ⟨rfl, rfl, rfl⟩ : previousDigest = _ ∧ previousRecord = _ ∧ _ = _ := ⟨hDigest, hRecord, hProjection⟩
    cases expectedHead with
    | none =>
      simp only [Except.ok.injEq, LedgerState.mk.injEq, Option.some.injEq, reduceCtorEq, false_implies,
        implies_true, and_true]
      constructor
      · rintro ⟨rfl, rfl, rfl, rfl, rfl⟩
        exact ⟨rfl, rfl, rfl, rfl, rfl⟩
      · rintro ⟨rfl, rfl, rfl, rfl, rfl⟩
        exact ⟨rfl, rfl, rfl, rfl, rfl⟩
    | some expected =>
      simp only [ite_error_ok, not_not, Except.ok.injEq, LedgerState.mk.injEq, Option.some.injEq]
      constructor
      · rintro ⟨rfl, rfl, rfl, rfl, rfl, rfl⟩
        exact ⟨⟨rfl, rfl, rfl, rfl, rfl⟩, fun _ => Eq.symm⟩
      · rintro ⟨⟨rfl, rfl, rfl, rfl, rfl⟩, hExpected⟩
        exact ⟨hExpected _ rfl, rfl, rfl, rfl, rfl, rfl⟩
  · next hAbsent =>
    simp only [reduceCtorEq, false_iff, not_and]
    rintro ⟨hRecord, hDigest, hProjection, -, -⟩
    exact absurd hProjection (hAbsent _ _ _ hDigest hRecord)

theorem mem_contents_of_stores {listing : List DirectoryEntry} (h : Stores listing files) (hBytes : bytes ∈ files) :
    bytes ∈ (LedgerRoot.directory listing).contents := by
  have hContents := (h.map DirectoryEntry.content).mem_iff (a := bytes)
  rw [List.map_map] at hContents
  have hFiles : (layoutFrom 0 files).map (DirectoryEntry.content ∘ Prod.snd) = files := layoutFrom_content
  exact hContents.2 (hFiles.symm ▸ hBytes)

end Weregopher.LocalCertificationLedger
