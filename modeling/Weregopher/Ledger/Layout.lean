import Weregopher.Ledger.Replay

/-! # The directories that replay accepts

Replay succeeds exactly on the directories that hold, in any order of
enumeration, one file for each of the sequences from one on and nothing else,
when the bytes of those files pass the replay loop in this order.
-/
namespace Weregopher.LocalCertificationLedger
open Lib.Outcome

/-- The files of consecutive records, the first with the sequence after `index`. -/
def layoutFrom : Nat → List (List UInt8) → List (UInt64 × DirectoryEntry)
  | _, [] => []
  | index, bytes :: rest =>
    (UInt64.ofNat (index + 1), recordEntry (UInt64.ofNat (index + 1)) bytes) :: layoutFrom (index + 1) rest

/-- The directory holds the records with the given bytes and nothing else. -/
def Stores (listing : List DirectoryEntry) (files : List (List UInt8)) : Prop :=
  listing.Perm ((layoutFrom 0 files).map Prod.snd)

def Named (item : UInt64 × DirectoryEntry) : Prop := item.1 ≠ 0 ∧ item.2 = recordEntry item.1 item.2.content

section

variable {index : Nat} {files : List (List UInt8)}

@[simp] theorem length_layoutFrom : (layoutFrom index files).length = files.length := by
  induction files generalizing index with
  | nil => rfl
  | cons bytes rest ih => rw [layoutFrom, List.length_cons, ih, List.length_cons]

theorem layoutFrom_append (front back : List (List UInt8)) :
    layoutFrom index (front ++ back) = layoutFrom index front ++ layoutFrom (index + front.length) back := by
  induction front generalizing index with
  | nil => rfl
  | cons bytes rest ih =>
    rw [List.cons_append, layoutFrom, ih, layoutFrom, List.length_cons, List.cons_append, Nat.add_right_comm,
      Nat.add_assoc]

theorem u64_ofNat_toNat {n : Nat} (h : n < 2 ^ 64) : (UInt64.ofNat n).toNat = n := by
  rw [UInt64.toNat_ofNat']
  omega

theorem mem_layoutFrom {item : UInt64 × DirectoryEntry} (h : item ∈ layoutFrom index files)
    (hBound : index + files.length < 2 ^ 64) :
    Named item ∧ index < item.1.toNat ∧ item.1.toNat ≤ index + files.length := by
  induction files generalizing index with
  | nil => cases h
  | cons bytes rest ih =>
    rw [List.length_cons] at hBound ⊢
    have hNumber := u64_ofNat_toNat (show index + 1 < 2 ^ 64 by omega)
    rcases List.mem_cons.1 h with rfl | hRest
    · refine ⟨⟨fun hZero => ?_, rfl⟩, by simp only; omega, by simp only; omega⟩
      have hToNat := congrArg UInt64.toNat hZero
      rw [hNumber, UInt64.toNat_zero] at hToNat
      omega
    · obtain ⟨hNamed, hLow, hHigh⟩ := ih hRest (by omega)
      exact ⟨hNamed, by omega, by omega⟩

theorem pairwise_layoutFrom (hBound : index + files.length < 2 ^ 64) :
    (layoutFrom index files).Pairwise fun a b => a.1.toNat < b.1.toNat := by
  induction files generalizing index with
  | nil => exact .nil
  | cons bytes rest ih =>
    rw [List.length_cons] at hBound
    refine .cons (fun item hItem => ?_) (ih (by omega))
    obtain ⟨-, hLow, -⟩ := mem_layoutFrom hItem (by omega)
    rw [u64_ofNat_toNat (by omega)]
    exact hLow

theorem layoutFrom_content : (layoutFrom index files).map (·.2.content) = files := by
  induction files generalizing index with
  | nil => rfl
  | cons bytes rest ih => rw [layoutFrom, List.map_cons, ih]; rfl

end

theorem recordEntry_of_named {item : UInt64 × DirectoryEntry} (h : Named item) :
    item.2.kind = .file ∧ parseRecordFilename item.2.name = some item.1 := by
  rw [h.2]
  exact ⟨rfl, parseRecordFilename_recordFilename h.1⟩

theorem named_of_recordEntry {sequence : UInt64} {entry : DirectoryEntry} (hKind : entry.kind = .file)
    (hName : parseRecordFilename entry.name = some sequence) : Named (sequence, entry) := by
  obtain ⟨hZero, hText⟩ := parseRecordFilename_eq_some.1 hName
  obtain ⟨name, kind, content⟩ := entry
  obtain rfl : kind = .file := hKind
  obtain rfl : name = _ := hText
  exact ⟨hZero, rfl⟩

variable {entries : List (UInt64 × DirectoryEntry)} {listing : List DirectoryEntry} {files : List (List UInt8)}

theorem scanEntries_ok {front : List (UInt64 × DirectoryEntry)} (hFront : front.length ≤ maxRecords) :
    scanEntries listing front = .ok entries ↔
      ∃ items, entries = front ++ items ∧ items.map Prod.snd = listing ∧ (∀ item ∈ items, Named item) ∧
        entries.length ≤ maxRecords := by
  induction listing generalizing front with
  | nil =>
    constructor
    · intro h
      cases h
      exact ⟨[], (List.append_nil _).symm, rfl, by simp, hFront⟩
    · rintro ⟨items, rfl, hItems, -, -⟩
      rw [List.map_eq_nil_iff.1 hItems, List.append_nil]
      rfl
  | cons entry rest ih =>
    rw [scanEntries]
    constructor
    · intro h
      split at h
      · cases h
      · next hKind =>
        rw [not_or, not_not] at hKind
        split at h
        · cases h
        · next sequence hName =>
          split at h
          · cases h
          · next hCount =>
            obtain ⟨items, rfl, rfl, hNamed, hLength⟩ := (ih (by simp; omega)).1 h
            refine ⟨(sequence, entry) :: items, by simp, rfl, ?_, hLength⟩
            rintro item (_ | hItem)
            · exact named_of_recordEntry hKind.2 hName
            · exact hNamed item (by assumption)
    · rintro ⟨items, rfl, hItems, hNamed, hLength⟩
      obtain - | ⟨first, others⟩ := items
      · cases hItems
      · obtain ⟨rfl, rfl⟩ := List.cons.inj hItems
        have hLengths : (front ++ first :: others).length = front.length + (others.length + 1) := by simp
        obtain ⟨hKind, hName⟩ := recordEntry_of_named (hNamed first List.mem_cons_self)
        rw [if_neg (by simp [hKind]), hName]
        simp only
        rw [if_neg (by omega)]
        exact (ih (by simp; omega)).2 ⟨others, by simp, rfl,
          fun item hItem => hNamed item (List.mem_cons_of_mem first hItem), hLength⟩

theorem scanEntries_nil_ok : scanEntries listing [] = .ok entries ↔
      entries.map Prod.snd = listing ∧ (∀ item ∈ entries, Named item) ∧ entries.length ≤ maxRecords := by
  have hScan : scanEntries listing [] = .ok entries ↔ _ := scanEntries_ok (Nat.zero_le maxRecords)
  simpa only [List.nil_append, exists_eq_left'] using hScan

section

variable {library : DocumentLibrary} {index : Nat} {state final : ReplayState}

theorem replayEntries_cons {item : UInt64 × DirectoryEntry} {rest : List (UInt64 × DirectoryEntry)} :
    replayEntries library index state (item :: rest) = .ok final ↔
      item.1 = UInt64.ofNat (index + 1) ∧ ∃ bytes, readRecordBytes item.1 item.2 = .ok bytes ∧
        ∃ middle, replayBytes library state item.1 bytes = .ok middle ∧
          replayEntries library (index + 1) middle rest = .ok final := by
  rw [replayEntries, guard_ok, not_not, bind_ok]
  simp only [bind_ok]

theorem layoutFrom_of_replayEntries {items : List (UInt64 × DirectoryEntry)}
    (h : replayEntries library index state items = .ok final) (hNamed : ∀ item ∈ items, Named item) :
    items = layoutFrom index (items.map (·.2.content)) := by
  induction items generalizing index state with
  | nil => rfl
  | cons item rest ih =>
    obtain ⟨hSequence, bytes, -, middle, -, hRest⟩ := replayEntries_cons.1 h
    have hItem := (hNamed item List.mem_cons_self).2
    rw [List.map_cons, layoutFrom, ← hSequence, ← hItem,
      ← ih hRest fun other hOther => hNamed other (List.mem_cons_of_mem item hOther)]

end

theorem sortEntries_perm (entries : List (UInt64 × DirectoryEntry)) : (sortEntries entries).Perm entries :=
  List.perm_insertionSort _ entries

theorem eq_of_mem_layoutFrom (hBound : files.length < 2 ^ 64)
    {a b : UInt64 × DirectoryEntry} (ha : a ∈ layoutFrom 0 files) (hb : b ∈ layoutFrom 0 files)
    (hSequence : a.1.toNat = b.1.toNat) : a = b := by
  have hPairwise : (layoutFrom 0 files).Pairwise fun a b => a.1.toNat < b.1.toNat :=
    pairwise_layoutFrom (by omega)
  have hNodup : ((layoutFrom 0 files).map (·.1.toNat)).Nodup :=
    List.pairwise_map.2 (hPairwise.imp Nat.ne_of_lt)
  exact List.inj_on_of_nodup_map hNodup ha hb hSequence

theorem pairwise_sortEntries (entries : List (UInt64 × DirectoryEntry)) :
    (sortEntries entries).Pairwise fun a b => a.1 ≤ b.1 := by
  have : Std.Total fun a b : UInt64 × DirectoryEntry => a.1 ≤ b.1 := ⟨fun a b => UInt64.le_total a.1 b.1⟩
  have : IsTrans (UInt64 × DirectoryEntry) fun a b => a.1 ≤ b.1 := ⟨fun _ _ _ => UInt64.le_trans⟩
  exact List.pairwise_insertionSort _ entries

/-- Sorting restores the order of the sequences, whatever the order of enumeration was. -/
theorem sortEntries_of_perm (h : entries.Perm (layoutFrom 0 files)) (hBound : files.length < 2 ^ 64) :
    sortEntries entries = layoutFrom 0 files := by
  have hPerm := (sortEntries_perm entries).trans h
  have hLayout : (layoutFrom 0 files).Pairwise fun a b => a.1 ≤ b.1 :=
    (pairwise_layoutFrom (by omega)).imp Nat.le_of_lt
  refine List.Perm.eq_of_pairwise ?_ (pairwise_sortEntries entries) hLayout hPerm
  intro a b ha hb hab hba
  exact eq_of_mem_layoutFrom hBound (hPerm.mem_iff.1 ha) hb (Nat.le_antisymm hab hba)

theorem exists_items_of_stores (hStores : Stores listing files) (hBound : files.length < 2 ^ 64) :
    ∃ items : List (UInt64 × DirectoryEntry), items.map Prod.snd = listing ∧ items.Perm (layoutFrom 0 files) := by
  let attach (entry : DirectoryEntry) : UInt64 × DirectoryEntry :=
    ((parseRecordFilename entry.name).getD 0, entry)
  have hAttach : ∀ item ∈ layoutFrom 0 files, attach item.2 = item := by
    intro item hItem
    obtain ⟨hNamed, -⟩ := mem_layoutFrom hItem (by omega)
    obtain ⟨-, hName⟩ := recordEntry_of_named hNamed
    exact Prod.ext (congrArg (Option.getD · 0) hName) rfl
  refine ⟨listing.map attach, ?_, ?_⟩
  · rw [List.map_map]
    exact List.map_id listing
  · have hMapped := hStores.map attach
    have hRestored : (layoutFrom 0 files).map (attach ∘ Prod.snd) = layoutFrom 0 files :=
      (List.map_congr_left hAttach).trans (List.map_id _)
    rwa [List.map_map, hRestored] at hMapped

theorem replayDirectory_ok {library : DocumentLibrary} {root : LedgerRoot} {expectedHead : Option RecordDigest}
    {state : LedgerState} : replayDirectory library root expectedHead = .ok state ↔
      ∃ listing files final, root = .directory listing ∧ Stores listing files ∧ files ≠ [] ∧
        files.length ≤ maxRecords ∧ replayEntries library 0 .initial (layoutFrom 0 files) = .ok final ∧
        finishReplay final expectedHead = .ok state := by
  simp only [replayDirectory, bind_ok, guard_ok, scanEntries_nil_ok]
  constructor
  · rintro ⟨listing, hRoot, items, ⟨rfl, hNamed, hLength⟩, hNonempty, final, hReplay, hFinish⟩
    have hSorted := sortEntries_perm items
    have hLayout := layoutFrom_of_replayEntries hReplay fun item hItem => hNamed item (hSorted.mem_iff.1 hItem)
    refine ⟨items.map Prod.snd, (sortEntries items).map (·.2.content), final, ?_, ?_, ?_, ?_, hLayout ▸ hReplay,
      hFinish⟩
    · cases root <;> cases hRoot
      rfl
    · rw [Stores, ← hLayout]
      exact hSorted.symm.map _
    · intro hEmpty
      rw [List.map_eq_nil_iff.1 hEmpty] at hSorted
      exact hNonempty (List.isEmpty_iff.2 hSorted.nil_eq.symm)
    · rwa [List.length_map, hSorted.length_eq]
  · rintro ⟨listing, files, final, rfl, hStores, hNonempty, hLength, hReplay, hFinish⟩
    have hBound : files.length < 2 ^ 64 := Nat.lt_of_le_of_lt hLength (by decide)
    obtain ⟨items, hItems, hPerm⟩ := exists_items_of_stores hStores hBound
    have hCount : items.length = files.length := hPerm.length_eq.trans length_layoutFrom
    refine ⟨listing, rfl, items, ⟨hItems, ?_, hCount ▸ hLength⟩, ?_, final, ?_, hFinish⟩
    · intro item hItem
      exact (mem_layoutFrom (hPerm.mem_iff.1 hItem) (by omega)).1
    · intro hEmpty
      rw [List.isEmpty_iff.1 hEmpty] at hCount
      exact hNonempty (List.length_eq_zero_iff.1 hCount.symm)
    · rwa [sortEntries_of_perm hPerm hBound]

end Weregopher.LocalCertificationLedger
