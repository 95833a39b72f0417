import Weregopher.Asar.Agreement

/-! # What the strict collector collects

A run over the items of a header succeeds exactly when every item is acceptable by
itself and the totals are within the limits; the state is then known.
-/
namespace Weregopher.Asar
open Lib Lib.Checked Lib.Outcome

abbrev Item := List String × NameTree.Kind InputLeaf

namespace Item

def caseKey (item : Item) : String := (pathText item.1).toLower

def textSize (item : Item) : Nat := (pathText item.1).utf8ByteSize

def fileSize : Item → Nat
  | (_, .leaf (.file file)) => file.size.toNat
  | _ => 0

def pending : Item → Option (String × PendingFile)
  | (path, .leaf (.file file)) =>
    match file.offset.bind parseUsize, file.integrity with
    | some offset, some integrity =>
      some (pathText path, ⟨offset, file.size.toNat, file.executable, integrity⟩)
    | _, _ => none
  | _ => none

/-- The conditions on an item that do not depend on the others. -/
structure Acceptable (limits : AsarLimits) (item : Item) : Prop where
  name : validMemberName (item.1.getLast?.getD "") = true
  size : item.textSize ≤ limits.maxPathBytes.toNat
  rewritable : Rewritable item.2
  depth : ∀ isEmpty, item.2 = .directory isEmpty → item.1.length ≤ limits.maxDepth.toNat
  file : ∀ file, item.2 = .leaf (.file file) →
    item.pending.isSome = true ∧ file.size.toNat ≤ limits.maxFileBytes.toNat

def advance (state : CollectionState) (item : Item) : CollectionState where
  files :=
    match item.pending with
    | some (path, file) => state.files.insert path file
    | none => state.files
  counters :=
    ⟨item.caseKey :: state.counters.caseKeys, state.counters.entries + 1,
      state.counters.pathBytes + item.textSize, state.counters.totalFileBytes + item.fileSize⟩

end Item

section

variable {limits : AsarLimits} {state result : CollectionState}

/-- What an item needs of the state before it. -/
structure Item.Admissible (limits : AsarLimits) (state : CollectionState) (item : Item) : Prop where
  entries : state.counters.entries + 1 ≤ limits.maxEntries.toNat
  pathBytes : state.counters.pathBytes + item.textSize ≤ pathBudget limits
  budget : pathBudget limits ≤ usizeMax
  caseKey : item.caseKey ∉ state.counters.caseKeys
  total : state.counters.totalFileBytes + item.fileSize ≤ limits.maxTotalFileBytes.toNat

theorem strictRegister_ok {text : String} : (strictRules limits).register text state = .ok result ↔
      (state.counters.entries + 1 ≤ limits.maxEntries.toNat ∧
        (state.counters.pathBytes + text.utf8ByteSize ≤ pathBudget limits ∧ pathBudget limits ≤ usizeMax) ∧
        text.toLower ∉ state.counters.caseKeys) ∧
      CollectionState.mk state.files ⟨text.toLower :: state.counters.caseKeys, state.counters.entries + 1,
        state.counters.pathBytes + text.utf8ByteSize, state.counters.totalFileBytes⟩ = result := by
  simp only [strictRules, bind_ok, pure_ok, Counters.registerEntry_ok]
  constructor
  · rintro ⟨_, ⟨hEntries, hPath, hKey, rfl⟩, hResult⟩
    exact ⟨⟨hEntries, hPath, hKey⟩, hResult⟩
  · rintro ⟨⟨hEntries, hPath, hKey⟩, hResult⟩
    exact ⟨_, ⟨hEntries, hPath, hKey, rfl⟩, hResult⟩

theorem strictEnter_ok {depth : Nat} (hDepth : depth > 0) {isEmpty : Bool} :
    (strictRules limits).enter depth isEmpty = .ok () ↔ depth ≤ limits.maxDepth.toNat ∧ isEmpty = false := by
  cases isEmpty <;> simp [strictRules, hDepth, guard_ok, throw_ok, ite_throw_ok, pure_ok]

variable {file : InputFile} {path : List String} {item : Item} {items : List Item}

theorem pending_file {kept : String × PendingFile} :
    Item.pending (path, .leaf (.file file)) = some kept ↔
      ∃ offset integrity, file.offset.bind parseUsize = some offset ∧ file.integrity = some integrity ∧
        (pathText path, PendingFile.mk offset file.size.toNat file.executable integrity) = kept := by
  rw [Item.pending]
  cases file.offset.bind parseUsize with
  | none => simp
  | some offset =>
    cases file.integrity with
    | none => simp
    | some integrity => simp

theorem collectLeaf_file_ok : collectLeaf limits (pathText path) (.file file) state = .ok result ↔
      file.unpacked = false ∧ file.size.toNat ≤ limits.maxFileBytes.toNat ∧
        state.counters.totalFileBytes + file.size.toNat ≤ limits.maxTotalFileBytes.toNat ∧
        ∃ kept, Item.pending (path, .leaf (.file file)) = some (pathText path, kept) ∧
          ⟨state.files.insert (pathText path) kept,
            { state.counters with totalFileBytes := state.counters.totalFileBytes + file.size.toNat }⟩ = result := by
  simp only [collectLeaf, guard_ok, bind_ok, pure_ok, parseOffset, okOr_ok, Counters.registerFileSize_ok,
    Bool.not_eq_true, pending_file]
  constructor
  · rintro ⟨hPacked, offset, hOffset, _, ⟨hSize, hTotal, rfl⟩, integrity, hIntegrity, hResult⟩
    exact ⟨hPacked, hSize, hTotal, _, ⟨offset, integrity, hOffset, hIntegrity, rfl⟩, hResult⟩
  · rintro ⟨hPacked, hSize, hTotal, _, ⟨offset, integrity, hOffset, hIntegrity, hKept⟩, hResult⟩
    obtain ⟨-, rfl⟩ := Prod.mk.inj hKept
    exact ⟨hPacked, offset, hOffset, _, ⟨hSize, hTotal, rfl⟩, integrity, hIntegrity, hResult⟩

theorem strictVisit_ok (hPath : item.1 ≠ [])
    (hTotal : state.counters.totalFileBytes ≤ limits.maxTotalFileBytes.toNat) :
    visit limits (strictRules limits) state item = .ok result ↔
      item.Acceptable limits ∧ item.Admissible limits state ∧ item.advance state = result := by
  obtain ⟨path, kind⟩ := item
  have hLength : path.length > 0 := List.length_pos_iff.mpr hPath
  cases kind with
  | directory isEmpty =>
    rw [visit_directory_ok, strictEnter_ok hLength]
    constructor
    · rintro ⟨⟨hName, hSize, hRegister⟩, hDepth, rfl⟩
      obtain ⟨⟨hEntries, hBytes, hKey⟩, rfl⟩ := strictRegister_ok.mp hRegister
      refine ⟨⟨hName, hSize, rfl, ?_, by simp⟩, ⟨hEntries, hBytes.1, hBytes.2, hKey, hTotal⟩, rfl⟩
      rintro _ -
      exact hDepth
    · rintro ⟨⟨hName, hSize, rfl, hDepth, -⟩, ⟨hEntries, hBytes, hBudget, hKey, -⟩, rfl⟩
      exact ⟨⟨hName, hSize, strictRegister_ok.mpr ⟨⟨hEntries, ⟨hBytes, hBudget⟩, hKey⟩, rfl⟩⟩, hDepth _ rfl, rfl⟩
  | leaf leaf =>
    rw [visit_leaf_ok]
    cases leaf with
    | link link =>
      constructor
      · rintro ⟨_, -, hLeaf⟩
        simp only [strictRules, collectLeaf] at hLeaf
        split at hLeaf <;> cases hLeaf
      · rintro ⟨hAcceptable, -⟩
        cases hAcceptable.rewritable
    | file file =>
      simp only [strictRules, collectLeaf_file_ok]
      constructor
      · rintro ⟨_, ⟨hName, hSize, hRegister⟩, hPacked, hFile, hSum, kept, hKept, rfl⟩
        obtain ⟨⟨hEntries, hBytes, hKey⟩, rfl⟩ := strictRegister_ok.mp hRegister
        refine ⟨⟨hName, hSize, hPacked, by simp, ?_⟩, ⟨hEntries, hBytes.1, hBytes.2, hKey, hSum⟩, ?_⟩
        · rintro _ ⟨⟩
          rw [hKept]
          exact ⟨rfl, hFile⟩
        · rw [Item.advance, hKept]
          rfl
      · rintro ⟨⟨hName, hSize, hPacked, -, hFile⟩, ⟨hEntries, hBytes, hBudget, hKey, hSum⟩, rfl⟩
        obtain ⟨hSome, hLimit⟩ := hFile file rfl
        obtain ⟨kept, hKept⟩ := Option.isSome_iff_exists.mp hSome
        obtain ⟨offset, integrity, -, -, rfl⟩ := pending_file.mp hKept
        refine ⟨_, ⟨hName, hSize, strictRegister_ok.mpr ⟨⟨hEntries, ⟨hBytes, hBudget⟩, hKey⟩, rfl⟩⟩, hPacked,
          hLimit, hSum, _, hKept, ?_⟩
        rw [Item.advance, hKept]
        rfl

structure Collects (limits : AsarLimits) (state : CollectionState) (items : List Item) : Prop where
  acceptable : ∀ item ∈ items, item.Acceptable limits
  entries : state.counters.entries + items.length ≤ limits.maxEntries.toNat
  pathBytes : state.counters.pathBytes + (items.map Item.textSize).sum ≤ pathBudget limits
  budget : items ≠ [] → pathBudget limits ≤ usizeMax
  caseKeys : (items.map Item.caseKey).Nodup
  fresh : ∀ item ∈ items, item.caseKey ∉ state.counters.caseKeys
  total : state.counters.totalFileBytes + (items.map Item.fileSize).sum ≤ limits.maxTotalFileBytes.toNat

theorem collects_cons : Collects limits state (item :: items) ↔
      item.Acceptable limits ∧ item.Admissible limits state ∧ Collects limits (item.advance state) items := by
  constructor
  · rintro ⟨hAcceptable, hEntries, hBytes, hBudget, hKeys, hFresh, hTotal⟩
    rw [List.forall_mem_cons] at hAcceptable hFresh
    rw [List.map_cons, List.nodup_cons] at hKeys
    rw [List.map_cons, List.sum_cons] at hBytes hTotal
    rw [List.length_cons] at hEntries
    refine ⟨hAcceptable.1, ⟨by omega, by omega, hBudget (List.cons_ne_nil _ _), hFresh.1, by omega⟩, ?_⟩
    refine ⟨hAcceptable.2, ?_, ?_, fun _ => hBudget (List.cons_ne_nil _ _), hKeys.2, ?_, ?_⟩
    · simp only [Item.advance]
      omega
    · simp only [Item.advance]
      omega
    · intro other hOther hMem
      rcases List.mem_cons.mp hMem with hSame | hMem
      · exact hKeys.1 (hSame ▸ List.mem_map_of_mem hOther)
      · exact hFresh.2 other hOther hMem
    · simp only [Item.advance]
      omega
  · rintro ⟨hItem, ⟨hEntry, -, hBudget, hKey, -⟩, ⟨hAcceptable, hEntries, hBytes, -, hKeys, hFresh, hTotal⟩⟩
    simp only [Item.advance] at hEntries hBytes hTotal
    refine ⟨List.forall_mem_cons.mpr ⟨hItem, hAcceptable⟩, ?_, ?_, fun _ => hBudget, ?_, ?_, ?_⟩
    · rw [List.length_cons]
      omega
    · rw [List.map_cons, List.sum_cons]
      omega
    · rw [List.map_cons, List.nodup_cons]
      refine ⟨?_, hKeys⟩
      intro hMem
      obtain ⟨other, hOther, hSame⟩ := List.mem_map.mp hMem
      exact hFresh other hOther (List.mem_cons.mpr (Or.inl hSame))
    · refine List.forall_mem_cons.mpr ⟨hKey, fun other hOther hMem => ?_⟩
      exact hFresh other hOther (List.mem_cons_of_mem _ hMem)
    · rw [List.map_cons, List.sum_cons]
      omega

theorem foldlM_strict_ok (hPaths : ∀ item ∈ items, item.1 ≠ [])
    (hEntries : state.counters.entries ≤ limits.maxEntries.toNat)
    (hBytes : state.counters.pathBytes ≤ pathBudget limits)
    (hTotal : state.counters.totalFileBytes ≤ limits.maxTotalFileBytes.toNat) :
    items.foldlM (visit limits (strictRules limits)) state = .ok result ↔
      Collects limits state items ∧ items.foldl Item.advance state = result := by
  induction items generalizing state with
  | nil =>
    rw [List.foldlM_nil, pure_ok, List.foldl_nil]
    refine ⟨fun h => ⟨⟨?_, ?_, ?_, ?_, ?_, ?_, ?_⟩, h⟩, And.right⟩ <;> simp [hEntries, hBytes, hTotal]
  | cons item rest ih =>
    rw [List.forall_mem_cons] at hPaths
    rw [List.foldlM_cons, bind_ok, List.foldl_cons, collects_cons]
    simp only [strictVisit_ok hPaths.1 hTotal]
    constructor
    · rintro ⟨_, ⟨hItem, hAdmissible, rfl⟩, hRest⟩
      rw [ih hPaths.2 hAdmissible.entries hAdmissible.pathBytes hAdmissible.total] at hRest
      exact ⟨⟨hItem, hAdmissible, hRest.1⟩, hRest.2⟩
    · rintro ⟨⟨hItem, hAdmissible, hRest⟩, hResult⟩
      refine ⟨_, ⟨hItem, hAdmissible, rfl⟩, ?_⟩
      rw [ih hPaths.2 hAdmissible.entries hAdmissible.pathBytes hAdmissible.total]
      exact ⟨hRest, hResult⟩

theorem collectEntries_ok {root : InputDirectory} : collectEntries limits root .new = .ok result ↔
      Collects limits .new (NameTree.items (.node root)) ∧
        (NameTree.items (.node root)).foldl Item.advance .new = result := by
  have hEnter : (strictRules limits).enter 0 root.isEmpty = .ok () := by
    simp [strictRules]
    rfl
  rw [collectEntries, collect_eq, check_ok]
  rw [foldlM_strict_ok (fun _ => NameTree.path_ne_nil) (Nat.zero_le _) (Nat.zero_le _) (Nat.zero_le _)]
  exact and_iff_right hEnter

end

variable {item : Item} {state : CollectionState} {items : List Item} {limits : AsarLimits}

theorem pending_some {entry : String × PendingFile} (h : item.pending = some entry) :
    entry.1 = pathText item.1 ∧ ∃ file, item.2 = .leaf (.file file) ∧ entry.2.size = file.size.toNat := by
  obtain ⟨path, kind⟩ := item
  match kind with
  | .leaf (.file file) =>
    obtain ⟨offset, integrity, -, -, rfl⟩ := pending_file.mp h
    exact ⟨rfl, file, rfl, rfl⟩

theorem files_advance_perm (hFresh : ∀ other ∈ state.files.entries, other.1 ≠ pathText item.1) :
    (item.advance state).files.entries.Perm (item.pending.toList ++ state.files.entries) := by
  rw [Item.advance]
  cases hPending : item.pending with
  | none => exact List.Perm.refl _
  | some kept =>
    obtain ⟨path, file⟩ := kept
    obtain rfl : path = pathText item.1 := (pending_some hPending).1
    exact insertEntry_perm hFresh

theorem files_foldl_perm (hTexts : (items.map fun item => pathText item.1).Nodup)
    (hFresh : ∀ item ∈ items, ∀ other ∈ state.files.entries, other.1 ≠ pathText item.1) :
    (items.foldl Item.advance state).files.entries.Perm
      (items.filterMap Item.pending ++ state.files.entries) := by
  induction items generalizing state with
  | nil => exact List.Perm.refl _
  | cons item rest ih =>
    rw [List.map_cons, List.nodup_cons] at hTexts
    rw [List.forall_mem_cons] at hFresh
    have hFirst := files_advance_perm hFresh.1
    have hNext : ∀ later ∈ rest, ∀ other ∈ (item.advance state).files.entries, other.1 ≠ pathText later.1 := by
      intro later hLater other hOther
      rcases List.mem_append.mp (hFirst.mem_iff.mp hOther) with hPending | hOther
      · rw [(pending_some (Option.mem_toList.mp hPending)).1]
        intro hSame
        exact hTexts.1 (List.mem_map.mpr ⟨later, hLater, hSame.symm⟩)
      · exact hFresh.2 later hLater other hOther
    have hHead : (item :: rest).filterMap Item.pending = item.pending.toList ++ rest.filterMap Item.pending := by
      cases hPending : item.pending with
      | none => simp [hPending]
      | some kept => simp [hPending]
    rw [List.foldl_cons, hHead]
    have hRest := (ih hTexts.2 hNext).trans (hFirst.append_left _)
    apply hRest.trans
    rw [← List.append_assoc]
    exact List.perm_append_comm.append_right _

theorem sum_pending (h : ∀ item ∈ items, item.Acceptable limits) :
    ((items.filterMap Item.pending).map (·.2.size)).sum = (items.map Item.fileSize).sum := by
  induction items with
  | nil => rfl
  | cons item rest ih =>
    rw [List.forall_mem_cons] at h
    rw [List.map_cons, List.sum_cons, ← ih h.2]
    obtain ⟨path, kind⟩ := item
    match kind with
    | .directory isEmpty => simp [List.filterMap_cons, Item.pending, Item.fileSize]
    | .leaf (.link link) => simp [List.filterMap_cons, Item.pending, Item.fileSize]
    | .leaf (.file file) =>
      obtain ⟨kept, hKept⟩ := Option.isSome_iff_exists.mp (h.1.file file rfl).1
      obtain ⟨-, _, hKind, hSize⟩ := pending_some hKept
      cases hKind
      rw [List.filterMap_cons_some hKept, List.map_cons, List.sum_cons, hSize]
      rfl

theorem Collects.nodup_texts
    (h : Collects limits state items) : (items.map fun item => pathText item.1).Nodup := by
  have hKeys := h.caseKeys
  have hMap : items.map Item.caseKey = (items.map fun item => pathText item.1).map String.toLower := by
    rw [List.map_map]
    rfl
  rw [hMap] at hKeys
  exact hKeys.of_map

end Weregopher.Asar
