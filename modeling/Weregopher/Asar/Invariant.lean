import Weregopher.Asar.Members

/-! # What parsing establishes

The paths of an archive in memory, with all directories above them, are kept as a list
beside it.
-/
namespace Weregopher.Asar
open Lib Lib.Checked Lib.Outcome NameTree

/-- `texts` are the member paths and `paths` all entries of the header: the members and the directories
above them. -/
structure PathsSound (limits : AsarLimits) (texts : List String) (paths : List (List String)) : Prop where
  nodup : paths.Nodup
  closed : ∀ path, path ∈ paths ↔ path ≠ [] ∧ ∃ text ∈ texts, path <+: splitPath text
  text : ∀ text ∈ texts, pathText (splitPath text) = text
  names : ∀ path ∈ paths, ∀ name ∈ path, validMemberName name = true
  separate : ∀ a ∈ texts, ∀ b ∈ texts, splitPath a <+: splitPath b → a = b
  size : ∀ path ∈ paths, (pathText path).utf8ByteSize ≤ limits.maxPathBytes.toNat
  depth : ∀ text ∈ texts, (splitPath text).length ≤ limits.maxDepth.toNat + 1
  count : paths.length ≤ limits.maxEntries.toNat
  pathBytes : (paths.map fun path => (pathText path).utf8ByteSize).sum ≤ pathBudget limits
  budget : paths ≠ [] → pathBudget limits ≤ usizeMax
  caseKeys : (paths.map fun path => (pathText path).toLower).Nodup

def AsarArchive.totalBytes (archive : AsarArchive) : Nat := (archive.files.entries.map (·.2.bytes.length)).sum

structure AsarArchive.Sound (archive : AsarArchive) : Prop where
  paths : ∃ paths, PathsSound archive.limits archive.filePaths paths
  fileBytes : ∀ file ∈ archive.files.entries, file.2.bytes.length ≤ archive.limits.maxFileBytes.toNat
  totalBytes : archive.totalBytes ≤ archive.limits.maxTotalFileBytes.toNat

section

variable {limits : AsarLimits} {root : InputDirectory}

theorem Collects.full (h : Collects limits .new (items (.node root))) : Full (.node root : InputEntry) := by
  intro item hItem isEmpty hKind
  have hRewritable := (h.acceptable item hItem).rewritable
  rw [hKind] at hRewritable
  exact hRewritable

variable {item : Item} {archive : AsarArchive} {bytes : List UInt8} {library : AsarLibrary}

section

variable (h : Collects limits .new (items (.node root)))

include h

theorem Collects.names
    (hItem : item ∈ items (.node root)) : ∀ name ∈ item.1, validMemberName name = true :=
  names_valid (fun other hOther => (h.acceptable other hOther).name) hItem

theorem Collects.splitPath (hItem : item ∈ items (.node root)) : splitPath (pathText item.1) = item.1 :=
  splitPath_pathText (path_ne_nil hItem) (h.names hItem)

theorem Collects.files_perm : ((items (.node root)).foldl Item.advance .new).files.entries.Perm
      ((items (.node root)).filterMap Item.pending) := by
  have hFresh : ∀ item ∈ items (.node root), ∀ other ∈ CollectionState.new.files.entries,
      other.1 ≠ pathText (Prod.fst item) := fun _ _ => List.forall_mem_nil _
  have hPerm := files_foldl_perm h.nodup_texts hFresh
  exact hPerm.trans (List.append_nil _ ▸ List.Perm.refl _)

theorem Collects.mem_files {entry : String × PendingFile} :
    entry ∈ ((items (.node root)).foldl Item.advance .new).files.entries ↔
      ∃ item ∈ items (.node root), Item.pending item = some entry := by
  rw [h.files_perm.mem_iff, List.mem_filterMap]

theorem Collects.mem_paths {text : String} :
    text ∈ ((items (.node root)).foldl Item.advance .new).files.keys ↔
      ∃ path leaf, (path, Kind.leaf leaf) ∈ items (.node root) ∧ pathText path = text := by
  rw [OrderedMap.keys, List.mem_map]
  constructor
  · rintro ⟨entry, hEntry, rfl⟩
    obtain ⟨item, hItem, hPending⟩ := h.mem_files.mp hEntry
    obtain ⟨path, kind⟩ := item
    obtain ⟨hText, file, rfl, -⟩ := pending_some hPending
    exact ⟨path, _, hItem, hText.symm⟩
  · rintro ⟨path, leaf, hItem, rfl⟩
    have hAcceptable := h.acceptable _ hItem
    cases leaf with
    | link link => cases hAcceptable.rewritable
    | file file =>
      obtain ⟨kept, hKept⟩ := Option.isSome_iff_exists.mp (hAcceptable.file file rfl).1
      exact ⟨kept, h.mem_files.mpr ⟨_, hItem, hKept⟩, (pending_some hKept).1⟩

theorem Collects.nodup_paths : ((items (.node root)).map Prod.fst).Nodup := by
  have hTexts := h.nodup_texts
  have hMap : ((items (.node root)).map fun item => pathText item.1) =
      ((items (.node root)).map Prod.fst).map pathText := by
    rw [List.map_map]
    rfl
  rw [hMap] at hTexts
  exact hTexts.of_map

theorem Collects.pathsSound :
    PathsSound limits ((items (.node root)).foldl Item.advance .new).files.keys
      ((items (.node root)).map Prod.fst) where
  nodup := h.nodup_paths
  closed path := by
    rw [h.full.mem_paths_iff]
    refine and_congr_right fun _ => ?_
    constructor
    · rintro ⟨whole, leaf, hLeaf, hPrefix⟩
      refine ⟨_, h.mem_paths.mpr ⟨whole, leaf, hLeaf, rfl⟩, ?_⟩
      rw [h.splitPath hLeaf]
      exact hPrefix
    · rintro ⟨text, hText, hPrefix⟩
      obtain ⟨whole, leaf, hLeaf, rfl⟩ := h.mem_paths.mp hText
      rw [h.splitPath hLeaf] at hPrefix
      exact ⟨whole, leaf, hLeaf, hPrefix⟩
  text text hText := by
    obtain ⟨path, leaf, hLeaf, rfl⟩ := h.mem_paths.mp hText
    rw [h.splitPath hLeaf]
  names path hPath := by
    obtain ⟨item, hItem, rfl⟩ := List.mem_map.mp hPath
    exact h.names hItem
  separate a ha b hb hPrefix := by
    obtain ⟨path, leaf, hLeaf, rfl⟩ := h.mem_paths.mp ha
    obtain ⟨whole, other, hOther, rfl⟩ := h.mem_paths.mp hb
    rw [h.splitPath hLeaf, h.splitPath hOther] at hPrefix
    by_contra hNe
    -- A member above another one would be a directory as well.
    have hDirectory := directory_mem hOther (path_ne_nil hLeaf) hPrefix fun hSame => hNe (hSame ▸ rfl)
    have hKinds := List.inj_on_of_nodup_map h.nodup_paths hLeaf hDirectory rfl
    cases hKinds
  size path hPath := by
    obtain ⟨item, hItem, rfl⟩ := List.mem_map.mp hPath
    exact (h.acceptable item hItem).size
  depth text hText := by
    obtain ⟨path, leaf, hLeaf, rfl⟩ := h.mem_paths.mp hText
    rw [h.splitPath hLeaf]
    obtain ⟨front, name, rfl⟩ := (List.eq_nil_or_concat' path).resolve_left (path_ne_nil hLeaf)
    rw [List.length_append, List.length_singleton]
    by_cases hFront : front = []
    · rw [hFront, List.length_nil]
      exact Nat.le_add_left _ _
    · have hDirectory := directory_mem hLeaf hFront (List.prefix_append _ _) (by simp)
      exact Nat.add_le_add_right ((h.acceptable _ hDirectory).depth false rfl) 1
  count := by
    rw [List.length_map]
    exact (Nat.zero_add _).symm.trans_le h.entries
  pathBytes := by
    rw [List.map_map]
    exact (Nat.zero_add _).symm.trans_le h.pathBytes
  budget hPaths := h.budget (by simpa using hPaths)
  caseKeys := by
    rw [List.map_map]
    exact h.caseKeys

end

theorem length_cut {body : List UInt8} {file : PendingFile} (h : file.offset + file.size ≤ body.length) :
    (file.cut body).length = file.size := by
  rw [PendingFile.cut, List.length_take, List.length_drop]
  omega

theorem parse_ok (h : AsarArchive.parse library bytes limits = .ok archive) :
    ∃ header body state, parseHeader library bytes limits = .ok header ∧
      Collects limits .new (items (.node header.root)) ∧
      (items (.node header.root)).foldl Item.advance .new = state ∧
      (∀ file ∈ state.files.entries, file.2.offset + file.2.size ≤ body.length) ∧
      archive.files = state.files.map (fun file => PackedFile.mk (file.cut body) file.executable) ∧
      archive.limits = limits := by
  rw [AsarArchive.parse, guard_ok, bind_ok] at h
  obtain ⟨-, header, hHeader, h⟩ := h
  obtain ⟨state, hState, hFinish⟩ := bind_ok.mp h
  obtain ⟨hCollects, hFold⟩ := collectEntries_ok.mp hState
  obtain ⟨body, -, hMembers, hFiles, hLimits⟩ := CollectionState.finish_ok.mp hFinish
  refine ⟨header, body, state, hHeader, hCollects, hFold, ?_, OrderedMap.ext_mem fun _ => by rw [hFiles]; rfl, hLimits⟩
  exact fun file hFile => (memberBytes_ok.mp (hMembers file hFile)).2.1

theorem parse_sound
    (h : AsarArchive.parse library bytes limits = .ok archive) : archive.Sound ∧ archive.limits = limits := by
  obtain ⟨header, body, state, -, hCollects, rfl, hEnds, hFiles, hLimits⟩ := parse_ok h
  refine ⟨⟨⟨(items (.node header.root)).map Prod.fst, ?_⟩, ?_, ?_⟩, hLimits⟩
  · rw [hLimits, AsarArchive.filePaths, hFiles, OrderedMap.keys_map]
    exact hCollects.pathsSound
  · intro file hFile
    rw [hFiles] at hFile
    obtain ⟨pending, hPending, rfl⟩ := List.mem_map.mp hFile
    rw [hLimits, length_cut (hEnds pending hPending)]
    obtain ⟨⟨path, kind⟩, hItem, hKept⟩ := hCollects.mem_files.mp hPending
    obtain ⟨-, input, rfl, hSize⟩ := pending_some hKept
    rw [hSize]
    exact ((hCollects.acceptable _ hItem).file input rfl).2
  · have hSizes : archive.totalBytes =
        (((items (.node header.root)).foldl Item.advance .new).files.entries.map (·.2.size)).sum := by
      rw [AsarArchive.totalBytes, hFiles, OrderedMap.map, List.map_map]
      exact congrArg List.sum (List.map_congr_left fun file hFile => length_cut (hEnds file hFile))
    have hTotal := hCollects.total
    rw [hSizes, (hCollects.files_perm.map _).sum_nat, sum_pending hCollects.acceptable, hLimits]
    exact (Nat.zero_add _).symm.trans_le hTotal

end

end Weregopher.Asar
