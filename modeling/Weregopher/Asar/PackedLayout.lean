import Weregopher.Asar.Framing
import Weregopher.Asar.Invariant
import Weregopher.Lib.Tiling

/-! # Which layouts are accepted

The files are checked in the order of their offsets, then of their paths. An empty file
fits before a file at the same offset and not after it, whatever their paths are.
-/
namespace Weregopher.Asar
open Lib Lib.Checked Lib.Outcome Lib.Tiling

abbrev Pending := String × PendingFile

def Pending.offset (member : Pending) : Nat := member.2.offset

def Pending.size (member : Pending) : Nat := member.2.size

/-- In some order each file starts where the one before it ends, from the start of the body to its end. -/
def FillsBody (bodyLength : Nat) (files : List Pending) : Prop :=
  ∃ order, order.Perm files ∧ Tiles Pending.offset Pending.size 0 order bodyLength

/-- An empty file at the offset of a file that is not empty and has the smaller path. -/
def SortsLate (files : List Pending) : Prop :=
  ∃ empty ∈ files, ∃ other ∈ files, empty.size = 0 ∧ other.size ≠ 0 ∧ empty.offset = other.offset ∧ other.1 < empty.1

section

variable {files : List Pending} {start stop : Nat}

theorem checkContiguous_ok (hStop : stop ≤ usizeMax) :
    checkContiguous start files = .ok stop ↔ Tiles Pending.offset Pending.size start files stop := by
  induction files generalizing start with
  | nil => rw [checkContiguous, Except.ok.injEq, Tiles]
  | cons member rest ih =>
    obtain ⟨path, file⟩ := member
    rw [checkContiguous, guard_ok, bind_ok, Tiles, not_not]
    simp only [okOr_ok, checkedAdd_eq_some, ih]
    constructor
    · rintro ⟨hOffset, _, ⟨-, rfl⟩, hRest⟩
      exact ⟨hOffset, hRest⟩
    · rintro ⟨hOffset, hRest⟩
      exact ⟨hOffset, _, ⟨hRest.le.trans hStop, rfl⟩, hRest⟩

theorem comesBefore_total (a b : Pending) : comesBefore a b ∨ comesBefore b a := by
  rcases lt_trichotomy a.2.offset b.2.offset with hLess | hSame | hGreater
  · exact .inl (.inl hLess)
  · rcases le_total a.1 b.1 with hPath | hPath
    · exact .inl (.inr ⟨hSame, hPath⟩)
    · exact .inr (.inr ⟨hSame.symm, hPath⟩)
  · exact .inr (.inl hGreater)

theorem comesBefore_trans {a b c : Pending} (hab : comesBefore a b) (hbc : comesBefore b c) : comesBefore a c := by
  rcases hab with hab | ⟨hab, hFirst⟩
  · rcases hbc with hbc | ⟨hbc, -⟩
    · exact .inl (hab.trans hbc)
    · exact .inl (hbc ▸ hab)
  · rcases hbc with hbc | ⟨hbc, hSecond⟩
    · exact .inl (hab ▸ hbc)
    · exact .inr ⟨hab.trans hbc, hFirst.trans hSecond⟩

theorem pairwise_sorted (files : List Pending) : (files.mergeSort (comesBefore · ·)).Pairwise comesBefore := by
  have hTrans : ∀ a b c : Pending, decide (comesBefore a b) = true → decide (comesBefore b c) = true →
      decide (comesBefore a c) = true := by
    intro a b c hab hbc
    exact decide_eq_true (comesBefore_trans (of_decide_eq_true hab) (of_decide_eq_true hbc))
  have hTotal : ∀ a b : Pending, (decide (comesBefore a b) || decide (comesBefore b a)) = true := by
    intro a b
    rw [Bool.or_eq_true, decide_eq_true_eq, decide_eq_true_eq]
    exact comesBefore_total a b
  exact (List.pairwise_mergeSort hTrans hTotal files).imp of_decide_eq_true

theorem endsBefore_of_turned {a b : Pending} (hLate : ¬SortsLate files) (ha : a ∈ files) (hb : b ∈ files)
    (hKeys : a.1 ≠ b.1) (hSorted : comesBefore a b) (hTurned : EndsBefore Pending.offset Pending.size b a) :
    EndsBefore Pending.offset Pending.size a b := by
  have hOffset : a.offset = b.offset ∧ b.size = 0 := by
    simp only [EndsBefore] at hTurned
    rcases hSorted with hLess | ⟨hSame, -⟩
    · have hLess : a.offset < b.offset := hLess
      omega
    · have hSame : a.offset = b.offset := hSame
      omega
  have hPath : a.1 < b.1 := by
    rcases hSorted with hLess | ⟨-, hPath⟩
    · exact absurd hOffset.1 hLess.ne
    · exact lt_of_le_of_ne hPath hKeys
  have hEmpty : a.size = 0 := by
    by_contra hSize
    exact hLate ⟨b, hb, a, ha, hOffset.2, hSize, hOffset.1.symm, hPath⟩
  simp only [EndsBefore]
  omega

theorem not_sortsLate (hTiles : Tiles Pending.offset Pending.size start (files.mergeSort (comesBefore · ·)) stop) :
    ¬SortsLate files := by
  rintro ⟨empty, hEmpty, other, hOther, hZero, hSize, hOffset, hPath⟩
  have hPerm := List.mergeSort_perm files (comesBefore · ·)
  have hBoth := (tiles_iff.mp hTiles).1.and (pairwise_sorted files)
  have hNe : other ≠ empty := by
    rintro rfl
    exact hSize hZero
  rcases pairwise_either hBoth (hPerm.mem_iff.mpr hOther) (hPerm.mem_iff.mpr hEmpty) hNe with
    ⟨hEnds, -⟩ | ⟨-, hLess | ⟨-, hLate⟩⟩
  · simp only [EndsBefore] at hEnds
    omega
  · exact hLess.ne hOffset
  · exact absurd hPath hLate.not_gt

theorem sorted_tiles_iff (hKeys : (files.map Prod.fst).Nodup) :
    Tiles Pending.offset Pending.size 0 (files.mergeSort (comesBefore · ·)) stop ↔
      FillsBody stop files ∧ ¬SortsLate files := by
  have hPerm := List.mergeSort_perm files (comesBefore · ·)
  constructor
  · intro hTiles
    exact ⟨⟨_, hPerm, hTiles⟩, not_sortsLate hTiles⟩
  · rintro ⟨⟨order, hOrder, hTiles⟩, hLate⟩
    have hDistinct := List.pairwise_map.mp ((hPerm.map Prod.fst).nodup_iff.mpr hKeys)
    apply hTiles.of_perm (hPerm.trans hOrder.symm)
    apply ((pairwise_sorted files).and hDistinct).imp_of_mem
    rintro a b ha hb ⟨hSorted, hPaths⟩
    exact endsBefore_of_turned hLate (hPerm.mem_iff.mp ha) (hPerm.mem_iff.mp hb) hPaths hSorted

end

/-- The integrity records are right for every file that lies in the body. -/
def MembersVerify (library : AsarLibrary) (body : List UInt8) (files : List Pending) : Prop :=
  ∀ member ∈ files, member.offset + member.size ≤ body.length →
    verifyIntegrity library (member.2.cut body) member.2.integrity = .ok ()

section

variable {library : AsarLibrary} {bytes : List UInt8} {limits : AsarLimits} {header : ParsedHeader}

theorem dataStart_le (h : parseHeader library bytes limits = .ok header) : header.dataStart ≤ bytes.length := by
  simp only [parseHeader, guard_ok, bind_ok, pure_ok] at h
  obtain ⟨-, _, -, _, -, _, -, _, -, -, -, -, start, -, hStart, _, -, _, -, _, -, -, _, -, rfl⟩ := h
  simp only [not_or, not_lt] at hStart
  exact hStart.1

/-- Files that pass the check of the layout lie in the body, so the later checks only concern their bytes. -/
theorem layout_accepted_iff {dataStart : Nat} {files : OrderedMap String PendingFile} (hWord : bytes.length ≤ usizeMax)
    (hStart : dataStart ≤ bytes.length) (hVerify : MembersVerify library (bytes.drop dataStart) files.entries) :
    (∃ body, checkLayout bytes dataStart files.entries = .ok body ∧
      ∀ file ∈ files.entries, memberBytes library body file.2 = .ok (file.2.cut body)) ↔
    FillsBody (bytes.drop dataStart).length files.entries ∧ ¬SortsLate files.entries := by
  have hBody : (bytes.drop dataStart).length ≤ usizeMax := by
    rw [List.length_drop]
    omega
  rw [← sorted_tiles_iff files.inOrder.nodup_keys]
  constructor
  · rintro ⟨body, hLayout, -⟩
    obtain ⟨-, hContiguous, rfl⟩ := checkLayout_ok.mp hLayout
    exact (checkContiguous_ok hBody).mp hContiguous
  · intro hTiles
    refine ⟨_, checkLayout_ok.mpr ⟨hStart, (checkContiguous_ok hBody).mpr hTiles, rfl⟩, ?_⟩
    intro file hFile
    have hMem := (List.mergeSort_perm files.entries (comesBefore · ·)).mem_iff.mpr hFile
    have hInside := ((tiles_iff.mp hTiles).2.1 file hMem).2
    exact memberBytes_ok.mpr ⟨hInside.trans hBody, hInside, hVerify file hFile hInside, rfl⟩

theorem parse_accepted_iff {state : CollectionState} (hSize : bytes.length ≤ limits.maxArchiveBytes.toNat)
    (hHeader : parseHeader library bytes limits = .ok header)
    (hState : collectEntries limits header.root .new = .ok state) :
    (∃ archive, AsarArchive.parse library bytes limits = .ok archive) ↔
      ∃ body, checkLayout bytes header.dataStart state.files.entries = .ok body ∧
        ∀ file ∈ state.files.entries, memberBytes library body file.2 = .ok (file.2.cut body) := by
  simp only [AsarArchive.parse, guard_ok, bind_ok, not_lt, hHeader, hState, Except.ok.injEq, exists_eq_left',
    CollectionState.finish_ok]
  constructor
  · rintro ⟨_, -, body, hLayout, hMembers, -⟩
    exact ⟨body, hLayout, hMembers⟩
  · rintro ⟨body, hLayout, hMembers⟩
    exact ⟨⟨state.files.map fun file => ⟨file.cut body, file.executable⟩, limits⟩, hSize, body, hLayout, hMembers,
      rfl, rfl⟩

theorem readOnly_parse_accepted_iff {state : ReadOnlyCollectionState}
    (hSize : bytes.length ≤ limits.maxArchiveBytes.toNat) (hHeader : parseHeader library bytes limits = .ok header)
    (hState : collectReadOnlyEntries limits header.root .new = .ok state) :
    (∃ index, AsarReadOnlyIndex.parse library bytes limits = .ok index) ↔
      ∃ body, checkLayout bytes header.dataStart state.packedFiles.entries = .ok body ∧
        ∀ file ∈ state.packedFiles.entries, memberBytes library body file.2 = .ok (file.2.cut body) := by
  simp only [AsarReadOnlyIndex.parse, guard_ok, bind_ok, not_lt, hHeader, hState, Except.ok.injEq, exists_eq_left',
    ReadOnlyCollectionState.finish_ok]
  constructor
  · rintro ⟨_, -, body, hLayout, hMembers, -⟩
    exact ⟨body, hLayout, hMembers⟩
  · rintro ⟨body, hLayout, hMembers⟩
    exact ⟨⟨bytes, header.dataStart, state.packedFiles.map fun file => ⟨file.offset, file.size⟩,
      state.unpackedFileCount, limits⟩, hSize, body, hLayout, hMembers, rfl, rfl⟩

end

/-- Both parsers accept exactly the layouts that fill the body, unless an empty file sorts late in one. -/
theorem layouts_that_fill_are_accepted_iff (library : AsarLibrary) (bytes : List UInt8) (limits : AsarLimits)
    (header : ParsedHeader) (hSize : bytes.length ≤ limits.maxArchiveBytes.toNat)
    (hHeader : parseHeader library bytes limits = .ok header) :
    (∀ state, collectEntries limits header.root .new = .ok state →
      MembersVerify library (bytes.drop header.dataStart) state.files.entries →
      (((∃ archive, AsarArchive.parse library bytes limits = .ok archive) ↔
        FillsBody (bytes.drop header.dataStart).length state.files.entries) ↔
      ¬(FillsBody (bytes.drop header.dataStart).length state.files.entries ∧ SortsLate state.files.entries))) ∧
    (∀ state, collectReadOnlyEntries limits header.root .new = .ok state →
      MembersVerify library (bytes.drop header.dataStart) state.packedFiles.entries →
      (((∃ index, AsarReadOnlyIndex.parse library bytes limits = .ok index) ↔
        FillsBody (bytes.drop header.dataStart).length state.packedFiles.entries) ↔
      ¬(FillsBody (bytes.drop header.dataStart).length state.packedFiles.entries ∧
        SortsLate state.packedFiles.entries))) := by
  have hWord := hSize.trans (toNat_le_usizeMax _)
  have hStart := dataStart_le hHeader
  constructor
  · intro state hState hVerify
    rw [parse_accepted_iff hSize hHeader hState, layout_accepted_iff hWord hStart hVerify]
    tauto
  · intro state hState hVerify
    rw [readOnly_parse_accepted_iff hSize hHeader hState, layout_accepted_iff hWord hStart hVerify]
    tauto

namespace Sample

variable (root : OutputDirectory)

def json : List UInt8 := Json.compactBytes (entryToJson (.node root))

/-- `letterLibrary` on the header of one archive, whose text then need not be decoded by evaluation. -/
def knowing : AsarLibrary :=
  { letterLibrary with fromSlice := fun bytes => if bytes = json root then some (entryToJson (.node root)) else none }

theorem knowing_reads (hPlain : (entryToJson (.node root)).plain = true)
    (hDepth : (entryToJson (.node root)).depth ≤ 127) (text : List UInt8) (tree : Json)
    (h : (knowing root).fromSlice text = some tree) : letterLibrary.fromSlice text = some tree := by
  obtain ⟨hText, hTree⟩ := Option.ite_none_right_eq_some.mp h
  rw [hText, ← hTree]
  exact referenceLibrary_compactBytes _ hPlain hDepth

def Reads (bytes body : List UInt8) (files : List Pending) : Prop :=
  bytes.length ≤ AsarLimits.initial.maxArchiveBytes.toNat ∧
    ∃ header state, parseHeader letterLibrary bytes .initial = .ok header ∧
      collectEntries .initial header.root .new = .ok state ∧ bytes.drop header.dataStart = body ∧
      state.files.entries = files

theorem reads_of_knowing {bytes body : List UInt8} {files : List Pending}
    (hPlain : (entryToJson (.node root)).plain = true) (hDepth : (entryToJson (.node root)).depth ≤ 127)
    (hRead : bytes.length ≤ AsarLimits.initial.maxArchiveBytes.toNat ∧ (do
      let header ← parseHeader (knowing root) bytes .initial
      let state ← collectEntries .initial header.root .new
      return (bytes.drop header.dataStart, state.files.entries)) = .ok (body, files)) :
    Reads bytes body files := by
  obtain ⟨header, hHeader, hRest⟩ := bind_ok.mp hRead.2
  obtain ⟨state, hState, hFound⟩ := bind_ok.mp hRest
  obtain ⟨hBody, hFiles⟩ := Prod.mk.inj (Except.ok.inj hFound)
  exact ⟨hRead.1, header, state, parseHeader_of_reads (knowing_reads root hPlain hDepth) hHeader, hState, hBody, hFiles⟩

/-- The file `b` is empty and stands before the file `a`. -/
def lateRoot : OutputDirectory := [("a", .leaf (outputFile 0 [0x61])), ("b", .leaf (outputFile 0 []))]

def lateBytes : List UInt8 := framed (json lateRoot) [0x61]

def lateFiles : List Pending :=
  [("a", ⟨0, 1, false, Integrity.forBytes letterLibrary [0x61]⟩),
    ("b", ⟨0, 0, false, Integrity.forBytes letterLibrary []⟩)]

theorem late_reads : Reads lateBytes [0x61] lateFiles :=
  reads_of_knowing lateRoot (by decide +kernel) (by decide +kernel) (by decide +kernel)

theorem late_verifies : MembersVerify letterLibrary [0x61] lateFiles := by
  rintro member hMember -
  simp only [lateFiles, List.mem_cons, List.not_mem_nil, or_false] at hMember
  rcases hMember with rfl | rfl
  · exact verifyIntegrity_forBytes letterLibrary [0x61]
  · exact verifyIntegrity_forBytes letterLibrary []

theorem late_fills : FillsBody 1 lateFiles := ⟨lateFiles.reverse, List.reverse_perm lateFiles, rfl, rfl, rfl⟩

theorem late_sortsLate : SortsLate lateFiles :=
  ⟨_, List.mem_cons_of_mem _ List.mem_cons_self, _, List.mem_cons_self, rfl, by decide, rfl, by decide⟩

/-- The empty file `b` and the file `a` fill the body in this order, but `a` is checked first. -/
theorem late_empty_file_is_refused :
    ∃ header state, parseHeader letterLibrary lateBytes .initial = .ok header ∧
      collectEntries .initial header.root .new = .ok state ∧
      MembersVerify letterLibrary (lateBytes.drop header.dataStart) state.files.entries ∧
      FillsBody (lateBytes.drop header.dataStart).length state.files.entries ∧
      ¬∃ archive, AsarArchive.parse letterLibrary lateBytes .initial = .ok archive := by
  obtain ⟨hSize, header, state, hHeader, hState, hBody, hFiles⟩ := late_reads
  have hWord := hSize.trans (toNat_le_usizeMax _)
  have hVerify : MembersVerify letterLibrary (lateBytes.drop header.dataStart) state.files.entries := by
    rw [hBody, hFiles]
    exact late_verifies
  refine ⟨header, state, hHeader, hState, hVerify, ?_, ?_⟩
  · rw [hBody, hFiles]
    exact late_fills
  · rw [parse_accepted_iff hSize hHeader hState, layout_accepted_iff hWord (dataStart_le hHeader) hVerify, hFiles]
    rintro ⟨-, hLate⟩
    exact hLate late_sortsLate

theorem late_layout_disagrees :
    ∃ header state, parseHeader letterLibrary lateBytes .initial = .ok header ∧
      collectEntries .initial header.root .new = .ok state ∧
      (((∃ archive, AsarArchive.parse letterLibrary lateBytes .initial = .ok archive) ↔
        FillsBody 1 state.files.entries) ↔ ¬(FillsBody 1 state.files.entries ∧ SortsLate state.files.entries)) := by
  obtain ⟨hSize, header, state, hHeader, hState, hBody, hFiles⟩ := late_reads
  have hAccepted := (layouts_that_fill_are_accepted_iff letterLibrary lateBytes .initial header hSize
    hHeader).1 state hState (by rw [hBody, hFiles]; exact late_verifies)
  rw [hBody] at hAccepted
  exact ⟨header, state, hHeader, hState, hAccepted⟩

/-- Names of both cases, at the top and in a directory. The first file of the directory is empty. -/
def treeRoot : OutputDirectory :=
  [("Main", .leaf (outputFile 0 [0x61])),
    ("lib", .node [("Index", .leaf (outputFile 1 [])), ("util", .leaf (outputFile 1 [0x61]))])]

def treeBytes : List UInt8 := framed (json treeRoot) [0x61, 0x61]

def treeFiles : List Pending :=
  [("Main", ⟨0, 1, false, Integrity.forBytes letterLibrary [0x61]⟩),
    ("lib/Index", ⟨1, 0, false, Integrity.forBytes letterLibrary []⟩),
    ("lib/util", ⟨1, 1, false, Integrity.forBytes letterLibrary [0x61]⟩)]

theorem tree_verifies : MembersVerify letterLibrary [0x61, 0x61] treeFiles := by
  rintro member hMember -
  simp only [treeFiles, List.mem_cons, List.not_mem_nil, or_false] at hMember
  rcases hMember with rfl | rfl | rfl <;> exact verifyIntegrity_forBytes letterLibrary _

theorem tree_parses : (∃ archive, AsarArchive.parse letterLibrary treeBytes .initial = .ok archive) ∧
    ∃ index, AsarReadOnlyIndex.parse letterLibrary treeBytes .initial = .ok index := by
  obtain ⟨hSize, header, state, hHeader, hState, hBody, hFiles⟩ : Reads treeBytes [0x61, 0x61] treeFiles :=
    reads_of_knowing treeRoot (by decide +kernel) (by decide +kernel) (by decide +kernel)
  have hLayout := layout_accepted_iff (hSize.trans (toNat_le_usizeMax _)) (dataStart_le hHeader)
    (by rw [hBody, hFiles]; exact tree_verifies)
  rw [hBody, hFiles] at hLayout
  have hLaid := hLayout.mpr ⟨⟨treeFiles, .refl _, rfl, rfl, rfl, rfl⟩, by unfold SortsLate; decide +kernel⟩
  rw [← hFiles] at hLaid
  have hReadOnly := (collectReadOnlyEntries_iff (rewritable_of_collectEntries hState)).mpr ⟨state, hState, rfl⟩
  exact ⟨(parse_accepted_iff hSize hHeader hState).mpr hLaid,
    (readOnly_parse_accepted_iff hSize hHeader hReadOnly).mpr hLaid⟩

end Sample

end Weregopher.Asar
