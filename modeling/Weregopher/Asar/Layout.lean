import Weregopher.Asar.Archive

/-! # What the steps of reading an archive accept -/
namespace Weregopher.Asar
open Lib Lib.Checked Lib.Outcome

theorem toNat_le_usizeMax (n : UInt64) : n.toNat ≤ usizeMax := by
  have h := n.toNat_lt
  simp only [usizeMax, u64Max]
  omega

/-- The product of two limits, which no sum of path lengths may pass. -/
def pathBudget (limits : AsarLimits) : Nat := limits.maxEntries.toNat * limits.maxPathBytes.toNat

namespace Counters

variable {limits : AsarLimits} {counters result : Counters}

theorem registerEntry_ok {path : String} : counters.registerEntry limits path = .ok result ↔
      counters.entries + 1 ≤ limits.maxEntries.toNat ∧
        (counters.pathBytes + path.utf8ByteSize ≤ pathBudget limits ∧ pathBudget limits ≤ usizeMax) ∧
        path.toLower ∉ counters.caseKeys ∧
        ⟨path.toLower :: counters.caseKeys, counters.entries + 1, counters.pathBytes + path.utf8ByteSize,
          counters.totalFileBytes⟩ = result := by
  have hWord := toNat_le_usizeMax limits.maxEntries
  simp only [registerEntry, bind_ok, okOr_ok, checkedAdd_eq_some, checkedMul_eq_some, guard_ok, pure_ok, not_lt,
    ← pathBudget.eq_def]
  constructor
  · rintro ⟨_, ⟨-, rfl⟩, hEntries, _, ⟨-, rfl⟩, _, ⟨hBudget, rfl⟩, hPath, hKey, hResult⟩
    exact ⟨hEntries, ⟨hPath, hBudget⟩, hKey, hResult⟩
  · rintro ⟨hEntries, ⟨hPath, hBudget⟩, hKey, hResult⟩
    exact ⟨_, ⟨by omega, rfl⟩, hEntries, _, ⟨by omega, rfl⟩, _, ⟨hBudget, rfl⟩, hPath, hKey, hResult⟩

theorem registerFileSize_ok {size : UInt64} : counters.registerFileSize limits size = .ok result ↔
      size.toNat ≤ limits.maxFileBytes.toNat ∧
        counters.totalFileBytes + size.toNat ≤ limits.maxTotalFileBytes.toNat ∧
        { counters with totalFileBytes := counters.totalFileBytes + size.toNat } = result := by
  have hWord := toNat_le_usizeMax limits.maxTotalFileBytes
  simp only [registerFileSize, bind_ok, okOr_ok, checkedAdd_eq_some, guard_ok, pure_ok, not_lt]
  constructor
  · rintro ⟨hSize, _, ⟨-, rfl⟩, hTotal, hResult⟩
    exact ⟨hSize, hTotal, hResult⟩
  · rintro ⟨hSize, hTotal, hResult⟩
    exact ⟨hSize, _, ⟨by omega, rfl⟩, hTotal, hResult⟩

end Counters

section

variable {σ : Type} {limits : AsarLimits} {rules : Rules σ} {state result : σ} {path : List String}

/-- What every item passes before the collectors treat it by its kind. -/
structure Registers (limits : AsarLimits) (rules : Rules σ) (path : List String) (state registered : σ) : Prop where
  name : validMemberName (path.getLast?.getD "") = true
  size : (pathText path).utf8ByteSize ≤ limits.maxPathBytes.toNat
  register : rules.register (pathText path) state = .ok registered

theorem visit_directory_ok {isEmpty : Bool} :
    visit limits rules state (path, .directory isEmpty) = .ok result ↔
      Registers limits rules path state result ∧ rules.enter path.length isEmpty = .ok () := by
  rw [visit, check_ok, validateMemberName_ok, guard_ok, bind_ok]
  simp only [check_ok, pure_ok, not_lt]
  constructor
  · rintro ⟨hName, hSize, _, hRegister, hEnter, rfl⟩
    exact ⟨⟨hName, hSize, hRegister⟩, hEnter⟩
  · rintro ⟨⟨hName, hSize, hRegister⟩, hEnter⟩
    exact ⟨hName, hSize, _, hRegister, hEnter, rfl⟩

theorem visit_leaf_ok {leaf : InputLeaf} : visit limits rules state (path, .leaf leaf) = .ok result ↔
      ∃ registered, Registers limits rules path state registered ∧
        rules.leaf (pathText path) leaf registered = .ok result := by
  rw [visit, check_ok, validateMemberName_ok, guard_ok, bind_ok, not_lt]
  constructor
  · rintro ⟨hName, hSize, registered, hRegister, hLeaf⟩
    exact ⟨registered, ⟨hName, hSize, hRegister⟩, hLeaf⟩
  · rintro ⟨registered, ⟨hName, hSize, hRegister⟩, hLeaf⟩
    exact ⟨hName, hSize, registered, hRegister, hLeaf⟩

theorem registers_of_visit {kind : NameTree.Kind InputLeaf} (h : visit limits rules state (path, kind) = .ok result) :
    ∃ registered, Registers limits rules path state registered := by
  cases kind with
  | directory isEmpty => exact ⟨result, (visit_directory_ok.mp h).1⟩
  | leaf leaf =>
    obtain ⟨registered, hRegisters, -⟩ := visit_leaf_ok.mp h
    exact ⟨registered, hRegisters⟩

theorem names_valid {root : InputDirectory}
    (h : ∀ item ∈ NameTree.items (.node root), validMemberName (item.1.getLast?.getD "") = true)
    {item : List String × NameTree.Kind InputLeaf} (hItem : item ∈ NameTree.items (.node root)) :
    ∀ name ∈ item.1, validMemberName name = true := by
  intro name hName
  obtain ⟨front, back, hPath⟩ := List.append_of_mem hName
  have hPrefix : front ++ [name] <+: item.1 := ⟨back, by rw [hPath, List.append_assoc, List.singleton_append]⟩
  have hMem : front ++ [name] ∈ (NameTree.items (.node root)).map Prod.fst := by
    by_cases hSame : front ++ [name] = item.1
    · exact List.mem_map.mpr ⟨item, hItem, hSame.symm⟩
    · exact List.mem_map.mpr ⟨_, NameTree.directory_mem hItem (by simp) hPrefix hSame, rfl⟩
  obtain ⟨other, hOther, hFirst⟩ := List.mem_map.mp hMem
  have hLast := h other hOther
  rw [hFirst, List.getLast?_concat, Option.getD_some] at hLast
  exact hLast

end

section

variable {library : AsarLibrary} {body : List UInt8}

def PendingFile.cut (file : PendingFile) (body : List UInt8) : List UInt8 := (body.drop file.offset).take file.size

variable {bytes : List UInt8} {α : Type} {make : PendingFile → List UInt8 → α} {result : OrderedMap String α}

theorem slice_eq_some {part : List UInt8} {start stop : Nat} : slice bytes start stop = some part ↔
      (start ≤ stop ∧ stop ≤ bytes.length) ∧ (bytes.drop start).take (stop - start) = part := by
  rw [slice, Option.ite_none_right_eq_some, Option.some.injEq]

theorem memberBytes_ok {file : PendingFile} : memberBytes library body file = .ok bytes ↔
      file.offset + file.size ≤ usizeMax ∧ file.offset + file.size ≤ body.length ∧
        verifyIntegrity library (file.cut body) file.integrity = .ok () ∧ file.cut body = bytes := by
  rw [memberBytes, bind_ok]
  simp only [bind_ok (α := List UInt8), okOr_ok, checkedAdd_eq_some, slice_eq_some, check_ok, pure_ok]
  constructor
  · rintro ⟨_, ⟨hWord, rfl⟩, _, ⟨⟨-, hEnd⟩, rfl⟩, hVerify, rfl⟩
    rw [Nat.add_sub_cancel_left] at *
    exact ⟨hWord, hEnd, hVerify, rfl⟩
  · rintro ⟨hWord, hEnd, hVerify, rfl⟩
    refine ⟨_, ⟨hWord, rfl⟩, _, ⟨⟨Nat.le_add_right _ _, hEnd⟩, rfl⟩, ?_, ?_⟩
    · rw [Nat.add_sub_cancel_left]
      exact hVerify
    · rw [Nat.add_sub_cancel_left]
      rfl

theorem finishFiles_ok {pending : List (String × PendingFile)}
    {files : OrderedMap String α} (hOrder : InOrder pending)
    (hAfter : ∀ entry ∈ files.entries, ∀ file ∈ pending, entry.1 < file.1) :
    finishFiles library body make pending files = .ok result ↔
      (∀ file ∈ pending, memberBytes library body file.2 = .ok (file.2.cut body)) ∧
        result.entries = files.entries ++ pending.map fun file => (file.1, make file.2 (file.2.cut body)) := by
  induction pending generalizing files with
  | nil =>
    rw [finishFiles, Except.ok.injEq, List.map_nil, List.append_nil]
    constructor
    · rintro rfl
      exact ⟨List.forall_mem_nil _, rfl⟩
    · rintro ⟨-, hEntries⟩
      exact OrderedMap.ext_mem fun entry => by rw [hEntries]
  | cons file rest ih =>
    obtain ⟨path, file⟩ := file
    obtain ⟨hFirst, hRest⟩ := List.pairwise_cons.mp hOrder
    have hInsert : ∀ value : α, (files.insert path value).entries = files.entries ++ [(path, value)] := by
      intro value
      exact insertEntry_last fun entry hEntry => hAfter entry hEntry _ List.mem_cons_self
    have hNext : ∀ value : α, ∀ entry ∈ (files.insert path value).entries, ∀ other ∈ rest, entry.1 < other.1 := by
      intro value entry hEntry other hOther
      rw [hInsert, List.mem_append, List.mem_singleton] at hEntry
      rcases hEntry with hEntry | rfl
      · exact hAfter entry hEntry other (List.mem_cons_of_mem _ hOther)
      · exact hFirst other hOther
    rw [finishFiles, bind_ok]
    constructor
    · rintro ⟨bytes, hBytes, hFinish⟩
      obtain ⟨-, -, -, rfl⟩ := memberBytes_ok.mp hBytes
      obtain ⟨hMembers, hResult⟩ := (ih hRest (hNext _)).mp hFinish
      refine ⟨List.forall_mem_cons.mpr ⟨hBytes, hMembers⟩, ?_⟩
      rw [hResult, hInsert, List.append_assoc, List.singleton_append, List.map_cons]
    · rintro ⟨hMembers, hResult⟩
      rw [List.forall_mem_cons] at hMembers
      refine ⟨_, hMembers.1, (ih hRest (hNext _)).mpr ⟨hMembers.2, ?_⟩⟩
      rw [hResult, hInsert, List.append_assoc, List.singleton_append, List.map_cons]

theorem finishFiles_empty_ok {pending : OrderedMap String PendingFile} :
    finishFiles library body make pending.entries .empty = .ok result ↔
      (∀ file ∈ pending.entries, memberBytes library body file.2 = .ok (file.2.cut body)) ∧
        result.entries = pending.entries.map fun file => (file.1, make file.2 (file.2.cut body)) :=
  finishFiles_ok pending.inOrder (List.forall_mem_nil _)

theorem checkLayout_ok {archive : List UInt8} {dataStart : Nat} {files : List (String × PendingFile)} :
    checkLayout archive dataStart files = .ok body ↔
      dataStart ≤ archive.length ∧ checkContiguous 0 (files.mergeSort (comesBefore · ·)) = .ok body.length ∧
        archive.drop dataStart = body := by
  rw [checkLayout, bind_ok]
  simp only [okOr_ok, slice_eq_some, bind_ok, guard_ok, not_not, pure_ok]
  have hWhole : (archive.drop dataStart).take (archive.length - dataStart) = archive.drop dataStart := by
    rw [← List.length_drop, List.take_length]
  constructor
  · rintro ⟨_, ⟨⟨hStart, -⟩, rfl⟩, cursor, hCursor, hLength, rfl⟩
    rw [← hLength]
    exact ⟨hStart, hCursor, hWhole.symm⟩
  · rintro ⟨hStart, hCursor, rfl⟩
    exact ⟨_, ⟨⟨hStart, Nat.le_refl _⟩, hWhole⟩, _, hCursor, rfl, rfl⟩

variable {archive : List UInt8} {dataStart : Nat} {limits : AsarLimits}

theorem CollectionState.finish_ok {state : CollectionState} {result : AsarArchive} :
    state.finish library archive dataStart limits = .ok result ↔
      ∃ body, checkLayout archive dataStart state.files.entries = .ok body ∧
        (∀ file ∈ state.files.entries, memberBytes library body file.2 = .ok (file.2.cut body)) ∧
        result.files.entries = state.files.entries.map (fun file =>
          (file.1, PackedFile.mk (file.2.cut body) file.2.executable)) ∧
        result.limits = limits := by
  rw [CollectionState.finish, bind_ok]
  refine exists_congr fun body => and_congr_right fun _ => ?_
  simp only [bind_ok, finishFiles_empty_ok, pure_ok]
  constructor
  · rintro ⟨files, ⟨hMembers, hFiles⟩, rfl⟩
    exact ⟨hMembers, hFiles, rfl⟩
  · rintro ⟨hMembers, hFiles, rfl⟩
    exact ⟨result.files, ⟨hMembers, hFiles⟩, rfl⟩

theorem ReadOnlyCollectionState.finish_ok {state : ReadOnlyCollectionState} {result : AsarReadOnlyIndex} :
    state.finish library archive dataStart limits = .ok result ↔
      ∃ body, checkLayout archive dataStart state.packedFiles.entries = .ok body ∧
        (∀ file ∈ state.packedFiles.entries, memberBytes library body file.2 = .ok (file.2.cut body)) ∧
        result.packedFiles.entries = state.packedFiles.entries.map (fun file =>
          (file.1, IndexedFile.mk file.2.offset file.2.size)) ∧
        result = ⟨archive, dataStart, result.packedFiles, state.unpackedFileCount, limits⟩ := by
  rw [ReadOnlyCollectionState.finish, bind_ok]
  refine exists_congr fun body => and_congr_right fun _ => ?_
  simp only [bind_ok, finishFiles_empty_ok, pure_ok]
  constructor
  · rintro ⟨files, ⟨hMembers, hFiles⟩, rfl⟩
    exact ⟨hMembers, hFiles, rfl⟩
  · rintro ⟨hMembers, hFiles, hResult⟩
    exact ⟨result.packedFiles, ⟨hMembers, hFiles⟩, hResult.symm⟩

end

end Weregopher.Asar
