import Weregopher.Ledger.SingleWriter

/-! # Several writers on one directory

An append replays the directory, prepares the next record from the state in memory
and creates its file. These steps of several writers interleave in any order.
Creating a file and writing its bytes is one step, which may still fail.
-/
namespace Weregopher.LocalCertificationLedger

inductive Phase
  | idle
  | observed (event : Event)
  | prepared (prepared : Prepared)

structure Writer where
  state : LedgerState
  phase : Phase

structure Acknowledged where
  sequence : UInt64
  bytes : List UInt8

structure Shared where
  entries : List DirectoryEntry
  writers : Nat → Option Writer
  acknowledged : List Acknowledged

def Shared.setWriter (shared : Shared) (index : Nat) (writer : Writer) : Shared :=
  { shared with writers := Function.update shared.writers index (some writer) }

/-- One step of one writer. Every enumeration gives the entries in an order of its own. A refused replay
changes nothing and is not listed. -/
inductive Step (library : DocumentLibrary) (shared : Shared) : Shared → Prop
  | opened {index : Nat} {listing : List DirectoryEntry} {head : RecordDigest} {state : LedgerState}
      (hListing : listing.Perm shared.entries) (h : openLedger library (.directory listing) head = .ok state) :
      Step library shared (shared.setWriter index ⟨state, .idle⟩)
  | observed {index : Nat} {listing : List DirectoryEntry} {state : LedgerState} (event : Event)
      (hWriter : shared.writers index = some ⟨state, .idle⟩) (hListing : listing.Perm shared.entries)
      (h : observe library (.directory listing) state = .ok ()) :
      Step library shared (shared.setWriter index ⟨state, .observed event⟩)
  | prepared {index : Nat} {state : LedgerState} {event : Event} {prepared : Prepared}
      (hWriter : shared.writers index = some ⟨state, .observed event⟩)
      (h : prepare library state event = .ok prepared) :
      Step library shared (shared.setWriter index ⟨state, .prepared prepared⟩)
  | refused {index : Nat} {state : LedgerState} {event : Event} {error : LedgerError}
      (hWriter : shared.writers index = some ⟨state, .observed event⟩)
      (h : prepare library state event = .error error) :
      Step library shared (shared.setWriter index ⟨state, .idle⟩)
  | appended {index : Nat} {state state' : LedgerState} {prepared : Prepared} {entries : List DirectoryEntry}
      {fault : Option WriteFault} (hFault : ∀ written, fault ≠ some (.write written))
      (hWriter : shared.writers index = some ⟨state, .prepared prepared⟩)
      (h : writeRecordCreateNew fault (.directory shared.entries) prepared.record.sequence prepared.bytes =
        (.ok (), .directory entries))
      (hCommit : commit library state prepared = .ok state') :
      Step library shared
        { (shared.setWriter index ⟨state', .idle⟩) with
          entries, acknowledged := shared.acknowledged ++ [⟨prepared.record.sequence, prepared.bytes⟩] }
  | failed {index : Nat} {state : LedgerState} {prepared : Prepared} {entries : List DirectoryEntry}
      {fault : Option WriteFault} {error : LedgerError} (hFault : ∀ written, fault ≠ some (.write written))
      (hWriter : shared.writers index = some ⟨state, .prepared prepared⟩)
      (h : writeRecordCreateNew fault (.directory shared.entries) prepared.record.sequence prepared.bytes =
        (.error error, .directory entries)) :
      Step library shared { (shared.setWriter index ⟨state, .idle⟩) with entries }

def Shared.initial (entries : List DirectoryEntry) : Shared := ⟨entries, fun _ => none, []⟩

def Interleaved (library : DocumentLibrary) (shared : Shared) : Prop :=
  ∃ entries state, replayDirectory library (.directory entries) none = .ok state ∧
    Relation.ReflTransGen (Step library) (Shared.initial entries) shared

section

variable {library : DocumentLibrary}

/-- The writer's state is the replay of a part of the directory, and a prepared record follows it. -/
structure Follows (library : DocumentLibrary) (entries : List DirectoryEntry) (writer : Writer) : Prop where
  part : ∃ older newer, entries.Perm (older ++ newer) ∧
    replayDirectory library (.directory older) none = .ok writer.state
  prepared : ∀ prepared, writer.phase = .prepared prepared →
    ∃ event, prepare library writer.state event = .ok prepared

variable {entries : List DirectoryEntry} {state : LedgerState} {shared : Shared}

theorem Follows.grow {writer : Writer} (h : Follows library entries writer)
    (entry : DirectoryEntry) : Follows library (entries ++ [entry]) writer := by
  obtain ⟨older, newer, hPerm, hReplay⟩ := h.part
  refine ⟨⟨older, newer ++ [entry], ?_, hReplay⟩, h.prepared⟩
  rw [← List.append_assoc]
  exact hPerm.append_right [entry]

structure Valid (library : DocumentLibrary) (shared : Shared) : Prop where
  chain : ∃ state, replayDirectory library (.directory shared.entries) none = .ok state
  writers : ∀ index writer, shared.writers index = some writer → Follows library shared.entries writer
  acknowledged : ∀ record ∈ shared.acknowledged, recordEntry record.sequence record.bytes ∈ shared.entries
  distinct : (shared.acknowledged.map Acknowledged.sequence).Nodup

theorem exists_entry {n : Nat}
    (hReplay : replayDirectory library (.directory entries) none = .ok state) (hn : n < entries.length) :
    ∃ entry ∈ entries, entry.name = .text (recordFilename (UInt64.ofNat (n + 1))) := by
  obtain ⟨_, files, final, hRoot, hStores, -⟩ := replayDirectory_ok.1 hReplay
  cases hRoot
  have hEntries : entries.length = files.length := by simpa using hStores.length_eq
  obtain ⟨front, bytes, back, hSplit, hFront⟩ : ∃ front bytes back, files = front ++ bytes :: back ∧
      front.length = n :=
    ⟨files.take n, files[n], files.drop (n + 1), by simp, by simp; omega⟩
  refine ⟨recordEntry (UInt64.ofNat (n + 1)) bytes, hStores.mem_iff.2 ?_, rfl⟩
  rw [hSplit, layoutFrom_append, List.map_append, hFront, Nat.zero_add, layoutFrom]
  simp

theorem Follows.current {prepared : Prepared} (h : Follows library entries ⟨state, .prepared prepared⟩)
    (hChain : ∃ state, replayDirectory library (.directory entries) none = .ok state)
    (hAbsent : ∀ entry ∈ entries, entry.name ≠ .text (recordFilename prepared.record.sequence)) :
    replayDirectory library (.directory entries) none = .ok state := by
  obtain ⟨older, newer, hPerm, hReplay⟩ := h.part
  obtain ⟨event, hPrepared⟩ := h.prepared prepared rfl
  obtain ⟨last, hChain⟩ := hChain
  obtain ⟨hNumber, -⟩ := sequence_of_prepare hReplay hPrepared
  have hLength : entries.length = older.length + newer.length := by
    rw [hPerm.length_eq, List.length_append]
  obtain rfl : newer = [] := by
    refine List.eq_nil_of_length_eq_zero (Nat.eq_zero_of_not_pos fun hPositive => ?_)
    obtain ⟨entry, hEntry, hName⟩ := exists_entry hChain (show older.length < entries.length by omega)
    exact hAbsent entry hEntry (hNumber ▸ hName)
  rw [List.append_nil] at hPerm
  exact replayDirectory_perm hPerm hReplay

theorem writeRecordCreateNew_cases {fault : Option WriteFault} {entries' : List DirectoryEntry}
    {sequence : UInt64} {bytes : List UInt8} {outcome : Except LedgerError Unit}
    (hFault : ∀ written, fault ≠ some (.write written))
    (h : writeRecordCreateNew fault (.directory entries) sequence bytes = (outcome, .directory entries')) :
    (outcome ≠ .ok () ∧ entries' = entries) ∨
      (∀ entry ∈ entries, entry.name ≠ .text (recordFilename sequence)) ∧
        entries' = entries ++ [recordEntry sequence bytes] := by
  rw [writeRecordCreateNew, validateLedgerRoot] at h
  dsimp only at h
  split at h
  · cases h
    exact .inl ⟨by simp, rfl⟩
  · next hAbsent =>
    have hName : ∀ entry ∈ entries, entry.name ≠ .text (recordFilename sequence) := by simpa using hAbsent
    split at h
    · cases h
      exact .inr ⟨hName, rfl⟩
    · cases h
      exact .inl ⟨by simp, rfl⟩
    · next written => exact absurd rfl (hFault written)
    · cases h
      exact .inr ⟨hName, rfl⟩

theorem Valid.setWriter (h : Valid library shared) (index : Nat) (writer : Writer)
    (hWriter : Follows library shared.entries writer) : Valid library (shared.setWriter index writer) := by
  refine ⟨h.chain, ?_, h.acknowledged, h.distinct⟩
  intro other known hKnown
  rcases eq_or_ne other index with rfl | hOther
  · obtain rfl : writer = known := by simpa [Shared.setWriter] using hKnown
    exact hWriter
  · apply h.writers other known
    simpa [Shared.setWriter, hOther] using hKnown

theorem Valid.extend (hLibrary : Faithful library) {index : Nat} {prepared : Prepared} (h : Valid library shared)
    (hWriter : shared.writers index = some ⟨state, .prepared prepared⟩)
    (hAbsent : ∀ entry ∈ shared.entries, entry.name ≠ .text (recordFilename prepared.record.sequence)) :
    ∃ state', commit library state prepared = .ok state' ∧
      replayDirectory library
        (.directory (shared.entries ++ [recordEntry prepared.record.sequence prepared.bytes])) none = .ok state' := by
  have hFollows := h.writers index _ hWriter
  have hCurrent := hFollows.current h.chain hAbsent
  obtain ⟨event, hPrepared⟩ := hFollows.prepared prepared rfl
  obtain ⟨state', hCommit⟩ := exists_commit hPrepared
  exact ⟨state', hCommit, replayDirectory_append hLibrary hCurrent hPrepared hCommit⟩

theorem Valid.grow {entry : DirectoryEntry} (h : Valid library shared)
    (hChain : ∃ state, replayDirectory library (.directory (shared.entries ++ [entry])) none = .ok state) :
    Valid library { shared with entries := shared.entries ++ [entry] } := by
  refine ⟨hChain, fun index writer hWriter => (h.writers index writer hWriter).grow entry, ?_, h.distinct⟩
  intro record hRecord
  exact List.mem_append_left _ (h.acknowledged record hRecord)

theorem Valid.acknowledge (shared : Shared) {sequence : UInt64} {bytes : List UInt8}
    (h : Valid library { shared with entries := entries ++ [recordEntry sequence bytes] })
    (hBefore : ∀ record ∈ shared.acknowledged, recordEntry record.sequence record.bytes ∈ entries)
    (hAbsent : ∀ entry ∈ entries, entry.name ≠ .text (recordFilename sequence)) :
    Valid library ⟨entries ++ [recordEntry sequence bytes], shared.writers,
      shared.acknowledged ++ [⟨sequence, bytes⟩]⟩ := by
  refine ⟨h.chain, h.writers, ?_, ?_⟩
  · intro record hRecord
    rcases List.mem_append.1 hRecord with hOld | hNew
    · exact h.acknowledged record hOld
    · rw [List.mem_singleton.1 hNew]
      exact List.mem_append_right _ (List.mem_singleton_self _)
  · rw [List.map_append]
    apply List.Nodup.append h.distinct (List.nodup_singleton _)
    intro number hOld hNew
    obtain ⟨record, hRecord, rfl⟩ := List.mem_map.1 hOld
    have hSame : record.sequence = sequence := List.mem_singleton.1 hNew
    exact hAbsent _ (hBefore record hRecord) (hSame ▸ rfl)

/-- The step lemma. -/
theorem Valid.step (hLibrary : Faithful library) {next : Shared} (h : Valid library shared)
    (hStep : Step library shared next) : Valid library next := by
  cases hStep with
  | @opened index listing head state hListing hOpen =>
    obtain ⟨hReplay, -⟩ := replayDirectory_head.1 hOpen
    refine h.setWriter index _ ⟨⟨listing, [], ?_, hReplay⟩, fun _ hPhase => (nomatch hPhase)⟩
    rw [List.append_nil]
    exact hListing.symm
  | @observed index listing state event hWriter hListing hObserve =>
    exact h.setWriter index _ ⟨(h.writers index _ hWriter).part, fun _ hPhase => (nomatch hPhase)⟩
  | @prepared index state event prepared hWriter hPrepare =>
    refine h.setWriter index _ ⟨(h.writers index _ hWriter).part, ?_⟩
    intro other hPhase
    cases hPhase
    exact ⟨event, hPrepare⟩
  | @refused index state event error hWriter hPrepare =>
    exact h.setWriter index _ ⟨(h.writers index _ hWriter).part, fun _ hPhase => (nomatch hPhase)⟩
  | @appended index state state' prepared entries fault hFault hWriter hWrite hCommit =>
    obtain ⟨hFailed, -⟩ | ⟨hAbsent, rfl⟩ := writeRecordCreateNew_cases hFault hWrite
    · exact absurd rfl hFailed
    · obtain ⟨last, hLast, hReplay⟩ := h.extend hLibrary hWriter hAbsent
      obtain rfl : last = state' := Except.ok.inj (hLast.symm.trans hCommit)
      have hGrown := (h.grow ⟨last, hReplay⟩).setWriter index ⟨last, .idle⟩
        ⟨⟨_, [], by rw [List.append_nil], hReplay⟩, fun _ hPhase => (nomatch hPhase)⟩
      exact Valid.acknowledge (shared.setWriter index ⟨last, .idle⟩) hGrown h.acknowledged hAbsent
  | @failed index state prepared entries fault error hFault hWriter hWrite =>
    have hPart := (h.writers index _ hWriter).part
    obtain ⟨-, rfl⟩ | ⟨hAbsent, rfl⟩ := writeRecordCreateNew_cases hFault hWrite
    · exact h.setWriter index _ ⟨hPart, fun _ hPhase => (nomatch hPhase)⟩
    · obtain ⟨last, -, hReplay⟩ := h.extend hLibrary hWriter hAbsent
      have hIdle : Follows library shared.entries ⟨state, .idle⟩ := ⟨hPart, fun _ hPhase => (nomatch hPhase)⟩
      exact (h.grow ⟨last, hReplay⟩).setWriter index _ (hIdle.grow _)

theorem Interleaved.valid (hLibrary : Faithful library) (h : Interleaved library shared) :
    Valid library shared := by
  obtain ⟨entries, state, hReplay, hRun⟩ := h
  induction hRun with
  | refl => exact ⟨⟨state, hReplay⟩, fun _ _ hWriter => (nomatch hWriter), fun _ hRecord => (nomatch hRecord), .nil⟩
  | tail _ hStep ih => exact ih.step hLibrary hStep

/-- Acknowledged appends have distinct numbers and stay in the directory, which is accepted in every order
of enumeration, and a writer creates a file only while its state is the replay of the directory. -/
theorem writers_share_one_chain (library : DocumentLibrary) (hLibrary : Faithful library) (shared : Shared)
    (hShared : Interleaved library shared) : (shared.acknowledged.map Acknowledged.sequence).Nodup ∧
      (∀ record ∈ shared.acknowledged, recordEntry record.sequence record.bytes ∈ shared.entries) ∧
      (∃ state, ∀ listing, listing.Perm shared.entries →
        replayDirectory library (.directory listing) none = .ok state) ∧
      ∀ index state prepared fault outcome entries,
        shared.writers index = some ⟨state, .prepared prepared⟩ →
        (∀ written, fault ≠ some (.write written)) →
        writeRecordCreateNew fault (.directory shared.entries) prepared.record.sequence prepared.bytes =
          (outcome, .directory entries) →
        outcome = .ok () ∨ entries ≠ shared.entries →
          replayDirectory library (.directory shared.entries) none = .ok state := by
  have hValid := hShared.valid hLibrary
  obtain ⟨state, hReplay⟩ := hValid.chain
  refine ⟨hValid.distinct, hValid.acknowledged, ⟨state, fun _ hPerm => replayDirectory_perm hPerm hReplay⟩, ?_⟩
  intro index state prepared fault outcome entries hWriter hFault hWrite hEffect
  obtain ⟨hFailed, hSame⟩ | ⟨hAbsent, -⟩ := writeRecordCreateNew_cases hFault hWrite
  · rcases hEffect with hOk | hChanged
    · exact absurd hOk hFailed
    · exact absurd hSame hChanged
  · exact (hValid.writers index _ hWriter).current hValid.chain hAbsent

end

namespace Sample

variable (first second : Phase)

def racing : Shared :=
  ⟨[firstEntry], Function.update (Function.update (fun _ => none) 0 (some ⟨firstState, first⟩)) 1
    (some ⟨firstState, second⟩), []⟩

def raced (second : Phase) : Shared :=
  ⟨[firstEntry, secondEntry], Function.update (Function.update (fun _ => none) 0 (some ⟨secondState, .idle⟩)) 1
    (some ⟨firstState, second⟩), [⟨prepared.record.sequence, prepared.bytes⟩]⟩

theorem update_first {first second : Option Writer} (next : Option Writer) :
    Function.update (Function.update (Function.update (fun _ => none) 0 first) 1 second) 0 next =
      Function.update (Function.update (fun _ => none) 0 next) 1 second := by
  rw [Function.update_comm (by decide), Function.update_idem]

theorem step_first {first next second : Phase}
    (h : Step library (racing first second) ((racing first second).setWriter 0 ⟨firstState, next⟩)) :
    Step library (racing first second) (racing next second) := by
  rw [Shared.setWriter, racing, update_first] at h
  exact h

theorem step_second {first second next : Phase}
    (h : Step library (racing first second) ((racing first second).setWriter 1 ⟨firstState, next⟩)) :
    Step library (racing first second) (racing first next) := by
  rw [Shared.setWriter, racing, Function.update_idem] at h
  exact h

theorem racing_zero : (racing first second).writers 0 = some ⟨firstState, first⟩ := rfl

theorem racing_one : (racing first second).writers 1 = some ⟨firstState, second⟩ := rfl

theorem write_first : writeRecordCreateNew none (.directory [firstEntry]) prepared.record.sequence prepared.bytes =
    (.ok (), .directory [firstEntry, secondEntry]) := by
  have hAbsent := absent_of_prepare replay_first prepare_publication
  rw [writeRecordCreateNew, validateLedgerRoot, secondEntry]
  exact if_neg (by simpa using hAbsent)

theorem write_second :
    writeRecordCreateNew none (.directory [firstEntry, secondEntry]) prepared.record.sequence prepared.bytes =
      (.error (.recordAlreadyExists prepared.record.sequence), .directory [firstEntry, secondEntry]) := by
  rw [writeRecordCreateNew, validateLedgerRoot]
  exact if_pos ⟨secondEntry, by simp, by rw [secondEntry, recordEntry]⟩

theorem interleaved_racing : Interleaved library (racing (.prepared prepared) (.prepared prepared)) := by
  have hObserve := observe_ok replay_first
  have hOpen : openLedger library (.directory [firstEntry]) firstHead = .ok firstState :=
    replayDirectory_head.2 ⟨replay_first, fun _ hHead => (Option.some.inj hHead).symm⟩
  have hFirst : Step library (.initial [firstEntry]) ((Shared.initial [firstEntry]).setWriter 0
      ⟨firstState, .idle⟩) := .opened (.refl _) hOpen
  have hSecond : Step library ((Shared.initial [firstEntry]).setWriter 0 ⟨firstState, .idle⟩)
      (racing .idle .idle) := .opened (.refl _) hOpen
  have hThird : Step library (racing .idle .idle) (racing (.observed publication) .idle) :=
    step_first (.observed publication (racing_zero ..) (.refl _) hObserve)
  have hFourth : Step library (racing (.observed publication) .idle)
      (racing (.observed publication) (.observed publication)) :=
    step_second (.observed publication (racing_one ..) (.refl _) hObserve)
  have hFifth : Step library (racing (.observed publication) (.observed publication))
      (racing (.prepared prepared) (.observed publication)) :=
    step_first (.prepared (racing_zero ..) prepare_publication)
  have hSixth : Step library (racing (.prepared prepared) (.observed publication))
      (racing (.prepared prepared) (.prepared prepared)) :=
    step_second (.prepared (racing_one ..) prepare_publication)
  exact ⟨[firstEntry], firstState, replay_first,
    .tail (.tail (.tail (.tail (.tail (.tail .refl hFirst) hSecond) hThird) hFourth) hFifth) hSixth⟩

theorem interleaved_raced : Interleaved library (raced .idle) := by
  obtain ⟨entries, state, hReplay, hRun⟩ := interleaved_racing
  have hNone : ∀ written, (none : Option WriteFault) ≠ some (.write written) := fun _ h => nomatch h
  have hWon : Step library (racing (.prepared prepared) (.prepared prepared)) (raced (.prepared prepared)) := by
    have hStep := Step.appended hNone (racing_zero (.prepared prepared) (.prepared prepared)) write_first
      commit_publication
    rw [Shared.setWriter, racing, update_first] at hStep
    exact hStep
  have hLost : Step library (raced (.prepared prepared)) (raced .idle) := by
    have hWriter : (raced (.prepared prepared)).writers 1 = some ⟨firstState, .prepared prepared⟩ := rfl
    have hStep : Step library (raced (.prepared prepared)) _ := .failed hNone hWriter write_second
    rw [Shared.setWriter, raced, Function.update_idem] at hStep
    exact hStep
  exact ⟨entries, state, hReplay, .tail (.tail hRun hWon) hLost⟩

theorem sample_race_one_chain :
    Interleaved library (raced .idle) ∧ ((raced .idle).acknowledged.map Acknowledged.sequence).Nodup ∧
      ∃ state, ∀ listing, listing.Perm [firstEntry, secondEntry] →
        replayDirectory library (.directory listing) none = .ok state := by
  obtain ⟨hDistinct, -, hChain, -⟩ :=
    writers_share_one_chain library library_faithful _ interleaved_raced
  exact ⟨interleaved_raced, hDistinct, hChain⟩

end Sample

end Weregopher.LocalCertificationLedger
