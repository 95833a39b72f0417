import Weregopher.Asar.PackedLayout

/-! # Looking up what the read-only index lists

A listed path was put together from valid names, and looking it up takes it apart again.
Only the lookup bounds the number of names, and no header nests deep enough for that.
-/
namespace Weregopher.Asar
open Lib Lib.Checked Lib.Outcome Lib.Tiling AsarReadOnlyIndex

section

variable {limits : AsarLimits}

theorem validateComponents_ok {count : Nat} {components : List String} (hCount : count ≤ limits.maxDepth.toNat) :
    validateComponents limits count components = .ok () ↔
      (∀ name ∈ components, validMemberName name = true) ∧ count + components.length ≤ limits.maxDepth.toNat := by
  have hWord := toNat_le_usizeMax limits.maxDepth
  induction components generalizing count with
  | nil => simp [validateComponents, hCount]
  | cons name rest ih =>
    rw [validateComponents, check_ok, validateMemberName_ok, bind_ok, List.forall_mem_cons, List.length_cons]
    simp only [okOr_ok, checkedAdd_eq_some, guard_ok, not_lt]
    constructor
    · rintro ⟨hName, _, ⟨-, rfl⟩, hFits, hRest⟩
      obtain ⟨hNames, hLength⟩ := (ih hFits).mp hRest
      exact ⟨⟨hName, hNames⟩, by omega⟩
    · rintro ⟨⟨hName, hNames⟩, hLength⟩
      have hFits : count + 1 ≤ limits.maxDepth.toNat := by omega
      exact ⟨hName, _, ⟨by omega, rfl⟩, hFits, (ih hFits).mpr ⟨hNames, by omega⟩⟩

theorem canonicalArchivePath_pathText {path : List String} (hPath : path ≠ [])
    (hNames : ∀ name ∈ path, validMemberName name = true)
    (hSize : (pathText path).utf8ByteSize ≤ limits.maxPathBytes.toNat) (hDepth : path.length ≤ limits.maxDepth.toNat) :
    canonicalArchivePath (pathText path) limits = .ok (pathText path) := by
  have hSplit := splitPath_pathText hPath hNames
  have hNoEmpty : "" ∉ splitPath (pathText path) := by
    intro hMem
    rw [hSplit] at hMem
    exact ne_empty_of_valid (hNames "" hMem) rfl
  have hEmpty : pathText path ≠ "" := by
    intro hText
    rw [hText] at hNoEmpty
    exact hNoEmpty (by decide)
  have hSlash : (pathText path).toList.head? ≠ some '/' := by
    intro hHead
    obtain ⟨rest, hRest⟩ := List.head?_eq_some_iff.mp hHead
    have hCut : ('/' :: rest).splitOn '/' = [] :: rest.splitOn '/' := List.splitOn_append_cons_self [] rest
    rw [splitPath, hRest, hCut] at hNoEmpty
    exact hNoEmpty List.mem_cons_self
  rw [canonicalArchivePath, guard_ok, check_ok, hSplit, validateComponents_ok (Nat.zero_le _), pure_ok]
  refine ⟨?_, ⟨hNames, by omega⟩, rfl⟩
  rw [not_or, not_or, not_lt]
  exact ⟨hEmpty, hSize, hSlash⟩

end

section

variable {limits : AsarLimits}

variable {member : Pending} {state : ReadOnlyCollectionState}

theorem readOnlyVisit_files {item : Item} {next : ReadOnlyCollectionState}
    (h : visit limits (readOnlyRules limits) state item = .ok next) (hMember : member ∈ next.packedFiles.entries) :
    member ∈ state.packedFiles.entries ∨ item.pending = some member := by
  obtain ⟨path, kind⟩ := item
  have hRegister {text : String} {registered : ReadOnlyCollectionState}
      (hOk : (readOnlyRules limits).register text state = .ok registered) :
      registered.packedFiles = state.packedFiles := by
    obtain ⟨_, -, hPure⟩ := bind_ok.mp hOk
    rw [← pure_ok.mp hPure]
  cases kind with
  | directory isEmpty =>
    rw [hRegister (visit_directory_ok.mp h).1.register] at hMember
    exact .inl hMember
  | leaf leaf =>
    obtain ⟨registered, hRegisters, hLeaf⟩ := visit_leaf_ok.mp h
    rw [← hRegister hRegisters.register]
    cases leaf with
    | link link =>
      simp only [readOnlyRules, collectReadOnlyLeaf, bind_ok, pure_ok] at hLeaf
      obtain ⟨-, -, rfl⟩ := hLeaf
      exact .inl hMember
    | file file =>
      simp only [readOnlyRules, collectReadOnlyLeaf, bind_ok] at hLeaf
      obtain ⟨counters, -, hLeaf⟩ := hLeaf
      split at hLeaf
      · simp only [guard_ok, bind_ok, pure_ok] at hLeaf
        obtain ⟨-, _, -, rfl⟩ := hLeaf
        exact .inl hMember
      · simp only [bind_ok, pure_ok, parseOffset, okOr_ok] at hLeaf
        obtain ⟨offset, hOffset, integrity, hIntegrity, rfl⟩ := hLeaf
        rcases (mem_insertEntry registered.packedFiles.inOrder).mp hMember with rfl | ⟨hEarlier, -⟩
        · exact .inr (pending_file.mpr ⟨offset, integrity, hOffset, hIntegrity, rfl⟩)
        · exact .inl hEarlier

theorem collected_from_items {items : List Item} {last : ReadOnlyCollectionState}
    (h : items.foldlM (visit limits (readOnlyRules limits)) state = .ok last)
    (hMember : member ∈ last.packedFiles.entries) :
    member ∈ state.packedFiles.entries ∨ ∃ item ∈ items, item.pending = some member := by
  induction items generalizing state with
  | nil =>
    cases h
    exact .inl hMember
  | cons item rest ih =>
    rw [List.foldlM_cons, bind_ok] at h
    obtain ⟨next, hNext, hRest⟩ := h
    rcases ih hRest with hEarlier | ⟨other, hOther, hPending⟩
    · rcases readOnlyVisit_files hNext hEarlier with hState | hPending
      · exact .inl hState
      · exact .inr ⟨item, List.mem_cons_self, hPending⟩
    · exact .inr ⟨other, List.mem_cons_of_mem _ hOther, hPending⟩

structure ListedPath (limits : AsarLimits) (root : InputDirectory) (member : Pending) (path : List String) : Prop where
  text : member.1 = pathText path
  item : ∃ file : InputFile, (path, .leaf (.file file)) ∈ NameTree.items (.node root) ∧ file.integrity ≠ none
  names : ∀ name ∈ path, validMemberName name = true
  size : (pathText path).utf8ByteSize ≤ limits.maxPathBytes.toNat

theorem listedPath {root : InputDirectory} (h : collectReadOnlyEntries limits root .new = .ok state)
    (hMember : member ∈ state.packedFiles.entries) : ∃ path, ListedPath limits root member path := by
  rw [collectReadOnlyEntries, collect_eq, check_ok] at h
  have hEach := foldlM_each h.2
  have hLast : ∀ item ∈ NameTree.items (.node root), validMemberName (item.1.getLast?.getD "") = true := by
    intro item hItem
    obtain ⟨before, after, hVisit⟩ := hEach item hItem
    obtain ⟨_, hRegisters⟩ := registers_of_visit hVisit
    exact hRegisters.name
  rcases collected_from_items h.2 hMember with hNew | ⟨⟨path, kind⟩, hItem, hPending⟩
  · cases hNew
  · obtain ⟨before, after, hVisit⟩ := hEach _ hItem
    obtain ⟨_, hRegisters⟩ := registers_of_visit hVisit
    obtain ⟨hText, file, rfl, -⟩ := pending_some hPending
    obtain ⟨_, integrity, -, hIntegrity, -⟩ := pending_file.mp hPending
    exact ⟨path, hText, ⟨file, hItem, by rw [hIntegrity]; simp⟩, names_valid hLast hItem, hRegisters.size⟩

end

theorem parseHeader_root {library : AsarLibrary} {bytes : List UInt8} {limits : AsarLimits} {header : ParsedHeader}
    (h : parseHeader library bytes limits = .ok header) :
    ∃ text json, library.fromSlice text = some json ∧ entryFromJson json = some (.node header.root) := by
  simp only [parseHeader, guard_ok, bind_ok, pure_ok] at h
  obtain ⟨-, _, -, _, -, _, -, _, -, -, -, -, _, -, -, _, -, text, -, _, -, -, root, hRoot, rfl⟩ := h
  rw [readRoot] at hRoot
  split at hRoot
  · next read hRead =>
    obtain rfl : read = root := Except.ok.inj hRoot
    obtain ⟨json, hJson, hEntry⟩ := Option.bind_eq_some_iff.mp hRead
    exact ⟨text, json, hJson, hEntry⟩
  · cases hRoot
  · cases hRoot

def IndexedFile.Covers (file : IndexedFile) (position : Nat) : Prop :=
  file.offset ≤ position ∧ position < file.offset + file.size

/-- Every byte of the body belongs to one file. -/
structure AsarReadOnlyIndex.Partitions (index : AsarReadOnlyIndex) (bodyLength : Nat) : Prop where
  disjoint : ∀ a ∈ index.packedFiles.entries, ∀ b ∈ index.packedFiles.entries, a ≠ b →
    ∀ position, ¬(a.2.Covers position ∧ b.2.Covers position)
  inside : ∀ file ∈ index.packedFiles.entries, file.2.offset + file.2.size ≤ bodyLength
  covers : ∀ position < bodyLength, ∃ file ∈ index.packedFiles.entries, file.2.Covers position

section

variable {library : AsarLibrary} {bytes : List UInt8} {limits : AsarLimits} {index : AsarReadOnlyIndex}

/-- What an index that was parsed is made of. -/
structure Indexes (library : AsarLibrary) (bytes : List UInt8) (limits : AsarLimits) (header : ParsedHeader)
    (state : ReadOnlyCollectionState) (index : AsarReadOnlyIndex) : Prop where
  parsed : parseHeader library bytes limits = .ok header
  collected : collectReadOnlyEntries limits header.root .new = .ok state
  word : bytes.length ≤ usizeMax
  tiles : Tiles Pending.offset Pending.size 0 (state.packedFiles.entries.mergeSort (comesBefore · ·))
    (bytes.drop header.dataStart).length
  members : ∀ member ∈ state.packedFiles.entries,
    memberBytes library (bytes.drop header.dataStart) member.2 = .ok (member.2.cut (bytes.drop header.dataStart))
  entries : index.packedFiles.entries =
    state.packedFiles.entries.map fun member => (member.1, IndexedFile.mk member.2.offset member.2.size)
  built : index = ⟨bytes, header.dataStart, index.packedFiles, state.unpackedFileCount, limits⟩

theorem exists_indexes (h : parse library bytes limits = .ok index) :
    ∃ header state, Indexes library bytes limits header state index := by
  simp only [parse, guard_ok, bind_ok, not_lt] at h
  obtain ⟨hSize, header, hHeader, state, hState, hFinish⟩ := h
  obtain ⟨body, hLayout, hMembers, hEntries, hIndex⟩ := ReadOnlyCollectionState.finish_ok.mp hFinish
  obtain ⟨-, hContiguous, rfl⟩ := checkLayout_ok.mp hLayout
  have hWord := hSize.trans (toNat_le_usizeMax _)
  have hBody : (bytes.drop header.dataStart).length ≤ usizeMax := by
    rw [List.length_drop]
    omega
  exact ⟨header, state, hHeader, hState, hWord, (checkContiguous_ok hBody).mp hContiguous, hMembers, hEntries, hIndex⟩

variable {header : ParsedHeader} {state : ReadOnlyCollectionState}

theorem Indexes.partitions (h : Indexes library bytes limits header state index) :
    index.Partitions (bytes.drop header.dataStart).length := by
  have hPerm := List.mergeSort_perm state.packedFiles.entries (comesBefore · ·)
  obtain ⟨hOrder, hInside, -⟩ := tiles_iff.mp h.tiles
  have hMem {file : String × IndexedFile} (hFile : file ∈ index.packedFiles.entries) :
      ∃ member ∈ state.packedFiles.entries.mergeSort (comesBefore · ·),
        (member.1, IndexedFile.mk member.2.offset member.2.size) = file := by
    rw [h.entries] at hFile
    obtain ⟨member, hMember, rfl⟩ := List.mem_map.mp hFile
    exact ⟨member, hPerm.mem_iff.mpr hMember, rfl⟩
  refine ⟨?_, ?_, ?_⟩
  · intro a ha b hb hNe position ⟨hFirst, hSecond⟩
    obtain ⟨first, hFirstMem, rfl⟩ := hMem ha
    obtain ⟨second, hSecondMem, rfl⟩ := hMem hb
    have hMembers : first ≠ second := by
      rintro rfl
      exact hNe rfl
    simp only [IndexedFile.Covers] at hFirst hSecond
    rcases pairwise_either hOrder hFirstMem hSecondMem hMembers with hEnds | hEnds
    · simp only [EndsBefore, Pending.offset, Pending.size] at hEnds
      omega
    · simp only [EndsBefore, Pending.offset, Pending.size] at hEnds
      omega
  · intro file hFile
    obtain ⟨member, hMember, rfl⟩ := hMem hFile
    exact (hInside member hMember).2
  · intro position hPosition
    obtain ⟨member, hMember, hCovers⟩ := h.tiles.covers (Nat.zero_le _) hPosition
    refine ⟨(member.1, ⟨member.2.offset, member.2.size⟩), ?_, hCovers⟩
    rw [h.entries]
    exact List.mem_map.mpr ⟨member, hPerm.mem_iff.mp hMember, rfl⟩

theorem Indexes.packedFile_eq (h : Indexes library bytes limits header state index) {member : Pending}
    (hMember : member ∈ state.packedFiles.entries) {path : List String}
    (hPath : ListedPath limits header.root member path) (hDepth : path.length ≤ limits.maxDepth.toNat) :
    index.packedFile member.1 = some (member.2.cut (bytes.drop header.dataStart)) := by
  obtain ⟨file, hItem, -⟩ := hPath.item
  have hCanonical : canonicalArchivePath member.1 index.limits = .ok member.1 := by
    rw [h.built, hPath.text]
    exact canonicalArchivePath_pathText (NameTree.path_ne_nil hItem) hPath.names hPath.size hDepth
  have hFind : index.packedFiles.find? member.1 = some ⟨member.2.offset, member.2.size⟩ := by
    rw [OrderedMap.find?_eq_some, h.entries]
    exact List.mem_map.mpr ⟨member, hMember, rfl⟩
  have hEnd := (memberBytes_ok.mp (h.members member hMember)).2.1
  have hArchive : index.archive = bytes := by rw [h.built]
  have hStart : index.dataStart = header.dataStart := by rw [h.built]
  have hBytes := @fileBytes_eq index member.2 (hArchive ▸ h.word)
    (by rw [hStart, hArchive]; exact dataStart_le h.parsed)
    (by rw [hStart, hArchive]; exact hEnd)
  rw [packedFile, hCanonical, hStart, hArchive] at *
  simp [Except.toOption, hFind, hBytes]

theorem Indexes.length_path (h : Indexes library bytes limits header state index)
    (hShallow : ∀ text json, library.fromSlice text = some json → json.depth ≤ 127) {member : Pending}
    {path : List String} (hPath : ListedPath limits header.root member path) : path.length ≤ 62 := by
  obtain ⟨text, json, hRead, hEntry⟩ := parseHeader_root h.parsed
  obtain ⟨file, hItem, hIntegrity⟩ := hPath.item
  have hDepth := depth_entryFromJson hEntry hItem hIntegrity
  have hBound := hShallow text json hRead
  omega

end

/-- The JSON reader stops at a nesting of 128, which is long before a path has more names than a lookup
allows. -/
theorem listed_members_are_found (library : AsarLibrary)
    (hShallow : ∀ text json, library.fromSlice text = some json → json.depth ≤ 127) (bytes : List UInt8)
    (index : AsarReadOnlyIndex) (hParse : parse library bytes .initial = .ok index) :
    ∃ header state, parseHeader library bytes .initial = .ok header ∧
      collectReadOnlyEntries .initial header.root .new = .ok state ∧
      index.packedFilePaths = state.packedFiles.keys ∧
      (∀ member ∈ state.packedFiles.entries,
        index.packedFile member.1 = some (member.2.cut (bytes.drop header.dataStart)) ∧
        (member.2.cut (bytes.drop header.dataStart)).length = member.2.size ∧
        verifyIntegrity library (member.2.cut (bytes.drop header.dataStart)) member.2.integrity = .ok ()) ∧
      index.Partitions (bytes.drop header.dataStart).length := by
  obtain ⟨header, state, h⟩ := exists_indexes hParse
  refine ⟨header, state, h.parsed, h.collected, ?_, ?_, h.partitions⟩
  · rw [packedFilePaths, OrderedMap.keys, h.entries, List.map_map]
    rfl
  · intro member hMember
    obtain ⟨path, hPath⟩ := listedPath h.collected hMember
    have hDepth : path.length ≤ AsarLimits.initial.maxDepth.toNat :=
      (h.length_path hShallow hPath).trans (by decide)
    obtain ⟨-, hEnd, hVerify, -⟩ := memberBytes_ok.mp (h.members member hMember)
    exact ⟨h.packedFile_eq hMember hPath hDepth, length_cut hEnd, hVerify⟩

namespace Sample

theorem members_in_directories_are_found : ∃ index, parse letterLibrary treeBytes .initial = .ok index ∧
      (∀ path ∈ index.packedFilePaths, (index.packedFile path).isSome = true) ∧ ∃ length, index.Partitions length := by
  obtain ⟨index, hParse⟩ := tree_parses.2
  obtain ⟨header, state, -, -, hPaths, hFound, hPartitions⟩ :=
    listed_members_are_found letterLibrary (referenceLibrary_shallow _) treeBytes index hParse
  refine ⟨index, hParse, ?_, _, hPartitions⟩
  intro path hPath
  rw [hPaths, OrderedMap.keys, List.mem_map] at hPath
  obtain ⟨member, hMember, rfl⟩ := hPath
  rw [(hFound member hMember).1]
  rfl

end Sample

end Weregopher.Asar
