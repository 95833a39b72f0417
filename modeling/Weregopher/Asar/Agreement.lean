import Weregopher.Asar.Layout

/-! # The strict parser and the read-only index agree

On items that both accept the two collectors make the same step, up to the order of
their checks. Whole headers follow item by item.
-/
namespace Weregopher.Asar
open Lib Lib.Checked Lib.Outcome

/-- Not an empty directory, not an unpacked file and not a link. -/
def Rewritable : NameTree.Kind InputLeaf → Prop
  | .directory isEmpty => isEmpty = false
  | .leaf (.file file) => file.unpacked = false
  | .leaf (.link _) => False

def CollectionState.toReadOnly (state : CollectionState) : ReadOnlyCollectionState := ⟨state.files, state.counters, 0⟩

section

variable {limits : AsarLimits} {state : CollectionState} {path : List String}

theorem registers_readOnly {registered : ReadOnlyCollectionState} :
    Registers limits (readOnlyRules limits) path state.toReadOnly registered ↔
      ∃ next, Registers limits (strictRules limits) path state next ∧ next.toReadOnly = registered := by
  have hRegister : (readOnlyRules limits).register (pathText path) state.toReadOnly = .ok registered ↔
      ∃ next, (strictRules limits).register (pathText path) state = .ok next ∧ next.toReadOnly = registered := by
    simp only [readOnlyRules, strictRules, bind_ok, pure_ok]
    constructor
    · rintro ⟨counters, hCounters, rfl⟩
      exact ⟨_, ⟨counters, hCounters, rfl⟩, rfl⟩
    · rintro ⟨_, ⟨counters, hCounters, rfl⟩, rfl⟩
      exact ⟨counters, hCounters, rfl⟩
  constructor
  · rintro ⟨hName, hSize, h⟩
    obtain ⟨next, hNext, hResult⟩ := hRegister.mp h
    exact ⟨next, ⟨hName, hSize, hNext⟩, hResult⟩
  · rintro ⟨next, ⟨hName, hSize, hNext⟩, hResult⟩
    exact ⟨hName, hSize, hRegister.mpr ⟨next, hNext, hResult⟩⟩

theorem enter_readOnly (depth : Nat) :
    (readOnlyRules limits).enter depth false = .ok () ↔ (strictRules limits).enter depth false = .ok () := by
  simp [readOnlyRules, strictRules]

variable {result : ReadOnlyCollectionState} {kind : NameTree.Kind InputLeaf}

theorem collectLeaf_readOnly {text : String} {file : InputFile} (hPacked : file.unpacked = false) :
    collectReadOnlyLeaf limits text (.file file) state.toReadOnly = .ok result ↔
      ∃ next, collectLeaf limits text (.file file) state = .ok next ∧ next.toReadOnly = result := by
  simp only [collectReadOnlyLeaf, collectLeaf, hPacked, Bool.false_eq_true, if_false, bind_ok, pure_ok]
  constructor
  · rintro ⟨counters, hCounters, offset, hOffset, integrity, hIntegrity, rfl⟩
    exact ⟨_, ⟨offset, hOffset, counters, hCounters, integrity, hIntegrity, rfl⟩, rfl⟩
  · rintro ⟨_, ⟨offset, hOffset, counters, hCounters, integrity, hIntegrity, rfl⟩, rfl⟩
    exact ⟨counters, hCounters, offset, hOffset, integrity, hIntegrity, rfl⟩

theorem visit_readOnly (h : Rewritable kind) :
    visit limits (readOnlyRules limits) state.toReadOnly (path, kind) = .ok result ↔
      ∃ next, visit limits (strictRules limits) state (path, kind) = .ok next ∧ next.toReadOnly = result := by
  cases kind with
  | directory isEmpty =>
    obtain rfl : isEmpty = false := h
    simp only [visit_directory_ok, registers_readOnly, enter_readOnly]
    constructor
    · rintro ⟨⟨next, hNext, hResult⟩, hEnter⟩
      exact ⟨next, ⟨hNext, hEnter⟩, hResult⟩
    · rintro ⟨next, ⟨hNext, hEnter⟩, hResult⟩
      exact ⟨⟨next, hNext, hResult⟩, hEnter⟩
  | leaf leaf =>
    cases leaf with
    | link link => cases h
    | file file =>
      simp only [visit_leaf_ok, registers_readOnly]
      constructor
      · rintro ⟨_, ⟨registered, hRegistered, rfl⟩, hLeaf⟩
        obtain ⟨next, hNext, hResult⟩ := (collectLeaf_readOnly h).mp hLeaf
        exact ⟨next, ⟨registered, hRegistered, hNext⟩, hResult⟩
      · rintro ⟨next, ⟨registered, hRegistered, hNext⟩, hResult⟩
        exact ⟨_, ⟨registered, hRegistered, rfl⟩, (collectLeaf_readOnly h).mpr ⟨next, hNext, hResult⟩⟩

theorem rewritable_of_visit {next : CollectionState} (hPath : path ≠ [])
    (h : visit limits (strictRules limits) state (path, kind) = .ok next) : Rewritable kind := by
  cases kind with
  | directory isEmpty =>
    have hEnter := (visit_directory_ok.mp h).2
    have hDepth : path.length > 0 := List.length_pos_iff.mpr hPath
    cases isEmpty with
    | false => rfl
    | true => simp [strictRules, hDepth, guard_ok, throw_ok] at hEnter
  | leaf leaf =>
    obtain ⟨registered, -, hLeaf⟩ := visit_leaf_ok.mp h
    cases leaf with
    | link link =>
      simp only [strictRules, collectLeaf] at hLeaf
      split at hLeaf <;> cases hLeaf
    | file file =>
      simp only [strictRules, collectLeaf, guard_ok, Bool.not_eq_true] at hLeaf
      exact hLeaf.1

end

/-- A header that declares no unpacked member, no link and no empty directory below the root. -/
def InputDirectory.Rewritable (root : InputDirectory) : Prop :=
  ∀ item ∈ NameTree.items (.node root), Asar.Rewritable item.2

section

variable {limits : AsarLimits} {root : InputDirectory}

theorem rewritable_of_collectEntries {state : CollectionState} (h : collectEntries limits root .new = .ok state) :
    root.Rewritable := by
  rw [collectEntries, collect_eq, check_ok] at h
  intro item hItem
  obtain ⟨before, after, hVisit⟩ := foldlM_each h.2 item hItem
  exact rewritable_of_visit (NameTree.path_ne_nil hItem) hVisit

theorem collectReadOnlyEntries_iff (h : root.Rewritable) {result : ReadOnlyCollectionState} :
    collectReadOnlyEntries limits root .new = .ok result ↔
      ∃ state, collectEntries limits root .new = .ok state ∧ state.toReadOnly = result := by
  have hEnter : (readOnlyRules limits).enter 0 root.isEmpty = .ok () ↔
      (strictRules limits).enter 0 root.isEmpty = .ok () := by
    simp [readOnlyRules, strictRules]
  rw [collectReadOnlyEntries, collect_eq, check_ok, hEnter]
  simp only [collectEntries, collect_eq, check_ok]
  have hStep : ∀ item ∈ NameTree.items (.node root), ∀ state result,
      visit limits (readOnlyRules limits) (CollectionState.toReadOnly state) item = .ok result ↔
        ∃ next, visit limits (strictRules limits) state item = .ok next ∧ next.toReadOnly = result :=
    fun item hItem state result => visit_readOnly (h item hItem)
  have hFold := foldlM_embed CollectionState.toReadOnly hStep .new result
  constructor
  · rintro ⟨hRoot, hItems⟩
    obtain ⟨state, hState, hResult⟩ := hFold.mp hItems
    exact ⟨state, ⟨hRoot, hState⟩, hResult⟩
  · rintro ⟨state, ⟨hRoot, hState⟩, hResult⟩
    exact ⟨hRoot, hFold.mpr ⟨state, hState, hResult⟩⟩

end

/-- The same packed paths in the same order, with the same bytes at each of them. -/
structure SameContents (archive : AsarArchive) (index : AsarReadOnlyIndex) : Prop where
  paths : index.packedFilePaths = archive.filePaths
  bytes : (index.packedFiles.entries.map fun member => (member.1, index.fileBytes member.2)) =
    archive.files.entries.map fun member => (member.1, some member.2.bytes)
  lookup : ∀ path, index.packedFile path = archive.file path

section

variable {library : AsarLibrary} {bytes : List UInt8} {dataStart : Nat} {limits : AsarLimits}
  {state : CollectionState}

theorem fileBytes_eq {index : AsarReadOnlyIndex} {file : PendingFile} (hWord : index.archive.length ≤ usizeMax)
    (hStart : index.dataStart ≤ index.archive.length)
    (hEnd : file.offset + file.size ≤ (index.archive.drop index.dataStart).length) :
    index.fileBytes ⟨file.offset, file.size⟩ = some (file.cut (index.archive.drop index.dataStart)) := by
  rw [List.length_drop] at hEnd
  have hFirst : checkedAdd usizeMax index.dataStart file.offset = some (index.dataStart + file.offset) :=
    if_pos (by omega)
  have hLast : checkedAdd usizeMax (index.dataStart + file.offset) file.size =
      some (index.dataStart + file.offset + file.size) := if_pos (by omega)
  have hSlice : slice index.archive (index.dataStart + file.offset) (index.dataStart + file.offset + file.size) =
      some (file.cut (index.archive.drop index.dataStart)) := by
    rw [slice_eq_some, Nat.add_sub_cancel_left, PendingFile.cut, List.drop_drop]
    exact ⟨⟨Nat.le_add_right _ _, by omega⟩, rfl⟩
  simp [AsarReadOnlyIndex.fileBytes, hFirst, hLast, hSlice]

theorem sameContents_of_bytes {archive : AsarArchive} {index : AsarReadOnlyIndex}
    (hLimits : index.limits = archive.limits)
    (hBytes : (index.packedFiles.entries.map fun member => (member.1, index.fileBytes member.2)) =
      archive.files.entries.map fun member => (member.1, some member.2.bytes)) : SameContents archive index := by
  refine ⟨?_, hBytes, ?_⟩
  · have hKeys := congrArg (List.map Prod.fst) hBytes
    rw [List.map_map, List.map_map] at hKeys
    exact hKeys
  · intro path
    rw [AsarReadOnlyIndex.packedFile, AsarArchive.file, hLimits]
    refine congrArg _ (funext fun canonical => ?_)
    have hLookup := congrArg (lookupEntry canonical) hBytes
    rw [lookupEntry_map, lookupEntry_map (fun file : PackedFile => some file.bytes)] at hLookup
    rw [OrderedMap.find?, OrderedMap.find?]
    cases hIndexed : lookupEntry canonical index.packedFiles.entries with
    | none =>
      rw [hIndexed, Option.map_none, eq_comm, Option.map_eq_none_iff] at hLookup
      rw [hLookup]
      rfl
    | some indexed =>
      rw [hIndexed, Option.map_some, eq_comm, Option.map_eq_some_iff] at hLookup
      obtain ⟨file, hFile, hSame⟩ := hLookup
      rw [hFile]
      exact hSame.symm

theorem finish_agrees (hWord : bytes.length ≤ usizeMax) :
    (∀ archive, state.finish library bytes dataStart limits = .ok archive →
      ∃ index, state.toReadOnly.finish library bytes dataStart limits = .ok index ∧ SameContents archive index ∧
        index.unpackedFileCount = 0) ∧
    (∀ index, state.toReadOnly.finish library bytes dataStart limits = .ok index →
      ∃ archive, state.finish library bytes dataStart limits = .ok archive ∧ SameContents archive index) := by
  have hSame {body : List UInt8} {archive : AsarArchive} {index : AsarReadOnlyIndex}
      (hLayout : checkLayout bytes dataStart state.files.entries = .ok body)
      (hMembers : ∀ file ∈ state.files.entries, memberBytes library body file.2 = .ok (file.2.cut body))
      (hFiles : archive.files.entries = state.files.entries.map (fun file =>
        (file.1, PackedFile.mk (file.2.cut body) file.2.executable)))
      (hLimits : archive.limits = limits)
      (hPacked : index.packedFiles.entries = state.files.entries.map (fun file =>
        (file.1, IndexedFile.mk file.2.offset file.2.size)))
      (hIndex : index = ⟨bytes, dataStart, index.packedFiles, 0, limits⟩) : SameContents archive index := by
    obtain ⟨hStart, -, rfl⟩ := checkLayout_ok.mp hLayout
    have hArchive : index.archive = bytes := by rw [hIndex]
    have hDataStart : index.dataStart = dataStart := by rw [hIndex]
    refine sameContents_of_bytes ?_ ?_
    · rw [hIndex, hLimits]
    · rw [hPacked, hFiles, List.map_map, List.map_map]
      refine List.map_congr_left fun file hFile => ?_
      have hEnd := (memberBytes_ok.mp (hMembers file hFile)).2.1
      have hBytes : index.fileBytes ⟨file.2.offset, file.2.size⟩ = _ :=
        fileBytes_eq (by rw [hArchive]; exact hWord) (by rw [hArchive, hDataStart]; exact hStart)
          (by rw [hArchive, hDataStart]; exact hEnd)
      simp only [Function.comp_apply]
      rw [hBytes, hArchive, hDataStart]
  constructor
  · intro archive h
    obtain ⟨body, hLayout, hMembers, hFiles, hLimits⟩ := CollectionState.finish_ok.mp h
    let packed := state.files.map fun file => IndexedFile.mk file.offset file.size
    refine ⟨⟨bytes, dataStart, packed, 0, limits⟩, ?_, hSame hLayout hMembers hFiles hLimits rfl rfl, rfl⟩
    exact ReadOnlyCollectionState.finish_ok.mpr ⟨body, hLayout, hMembers, rfl, rfl⟩
  · intro index h
    obtain ⟨body, hLayout, hMembers, hPacked, hIndex⟩ := ReadOnlyCollectionState.finish_ok.mp h
    let files := state.files.map fun file => PackedFile.mk (file.cut body) file.executable
    refine ⟨⟨files, limits⟩, ?_, hSame hLayout hMembers rfl rfl hPacked hIndex⟩
    exact CollectionState.finish_ok.mpr ⟨body, hLayout, hMembers, rfl, rfl⟩

end

/-- What the strict parser accepts, the read-only index accepts with the same members, all packed; what
the index accepts without an unpacked member, a link or an empty directory below the root, the strict
parser accepts with the same contents. -/
theorem strict_and_read_only_agree (library : AsarLibrary) (bytes : List UInt8) (limits : AsarLimits) :
    (∀ archive, AsarArchive.parse library bytes limits = .ok archive →
      ∃ index, AsarReadOnlyIndex.parse library bytes limits = .ok index ∧ SameContents archive index ∧
        index.unpackedFileCount = 0) ∧
    (∀ index header, AsarReadOnlyIndex.parse library bytes limits = .ok index →
      parseHeader library bytes limits = .ok header → header.root.Rewritable →
      ∃ archive, AsarArchive.parse library bytes limits = .ok archive ∧ SameContents archive index) := by
  have hWord (hSize : ¬bytes.length > limits.maxArchiveBytes.toNat) : bytes.length ≤ usizeMax :=
    (not_lt.mp hSize).trans (toNat_le_usizeMax _)
  simp only [AsarArchive.parse, AsarReadOnlyIndex.parse, guard_ok, bind_ok]
  constructor
  · rintro archive ⟨hSize, header, hHeader, state, hState, hFinish⟩
    have hRewritable := rewritable_of_collectEntries hState
    obtain ⟨index, hIndex, hSame⟩ := (finish_agrees (hWord hSize)).1 archive hFinish
    exact ⟨index, ⟨hSize, header, hHeader, _,
      (collectReadOnlyEntries_iff hRewritable).mpr ⟨state, hState, rfl⟩, hIndex⟩, hSame⟩
  · rintro index header ⟨hSize, other, hOther, readOnly, hState, hFinish⟩ hHeader hRewritable
    obtain rfl : header = other := Except.ok.inj (hHeader.symm.trans hOther)
    obtain ⟨state, hStrict, rfl⟩ := (collectReadOnlyEntries_iff hRewritable).mp hState
    obtain ⟨archive, hArchive, hSame⟩ := (finish_agrees (hWord hSize)).2 index hFinish
    exact ⟨archive, ⟨hSize, header, hHeader, state, hStrict, hArchive⟩, hSame⟩

end Weregopher.Asar
