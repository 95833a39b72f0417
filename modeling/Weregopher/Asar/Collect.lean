import Weregopher.Asar.Header

/-! # Collecting the members of a header

Both collectors walk the items of the header in the same way and differ in what they
do with a directory and a leaf.
-/
namespace Weregopher.Asar
open Lib Lib.Checked Lib.Decimal Lib.Outcome

structure PendingFile where
  offset : Nat
  size : Nat
  executable : Bool
  integrity : Integrity
  deriving DecidableEq

structure Counters where
  caseKeys : List String
  (entries pathBytes totalFileBytes : Nat)

namespace Counters

def new : Counters := ⟨[], 0, 0, 0⟩

def registerEntry (limits : AsarLimits) (path : String) (counters : Counters) : Result Counters := do
  let entries ← okOr .tooManyEntries (checkedAdd usizeMax counters.entries 1)
  if entries > limits.maxEntries.toNat then throw .tooManyEntries
  let pathBytes ← okOr .pathBudgetExceeded (checkedAdd usizeMax counters.pathBytes path.utf8ByteSize)
  let aggregatePathLimit ← okOr .pathBudgetExceeded
    (checkedMul usizeMax limits.maxEntries.toNat limits.maxPathBytes.toNat)
  if pathBytes > aggregatePathLimit then throw .pathBudgetExceeded
  if path.toLower ∈ counters.caseKeys then throw .invalidMemberName
  return { counters with entries, pathBytes, caseKeys := path.toLower :: counters.caseKeys }

def registerFileSize (limits : AsarLimits) (size : UInt64) (counters : Counters) : Result Counters := do
  if size.toNat > limits.maxFileBytes.toNat then throw .fileTooLarge
  let totalFileBytes ← okOr .aggregateTooLarge (checkedAdd usizeMax counters.totalFileBytes size.toNat)
  if totalFileBytes > limits.maxTotalFileBytes.toNat then throw .aggregateTooLarge
  return { counters with totalFileBytes }

end Counters

/-- `str::parse::<usize>`: a sign may come first. -/
def parseUsize (text : String) : Option Nat :=
  let digits :=
    match text.toList with
    | '+' :: rest => rest
    | chars => chars
  if digits = [] ∨ digits.all Char.isDigit = false then none
  else if value digits ≤ usizeMax then some (value digits)
  else none

def parseOffset (offset : Option String) : Result Nat := okOr .invalidLayout (offset.bind parseUsize)

/-- What a collector does with its state at an entry, on entering a directory and at a leaf. -/
structure Rules (σ : Type) where
  register : String → σ → Result σ
  enter : Nat → Bool → Result Unit
  leaf : String → InputLeaf → σ → Result σ

section

variable {σ : Type} (limits : AsarLimits) (rules : Rules σ)

mutual

def walkEntry (path : String) (depth : Nat) : InputEntry → σ → Result σ
  | .node files, state => do
    rules.enter (depth + 1) files.isEmpty
    walkFiles path (depth + 1) files state
  | .leaf leaf, state => rules.leaf path leaf state

def walkFiles (parent : String) (depth : Nat) : InputDirectory → σ → Result σ
  | [], state => .ok state
  | file :: rest, state => do
    let state ← walkFile parent depth file state
    walkFiles parent depth rest state

def walkFile (parent : String) (depth : Nat) : String × InputEntry → σ → Result σ
  | (name, entry), state => do
    validateMemberName name
    let path := childPath parent name
    if path.utf8ByteSize > limits.maxPathBytes.toNat then throw .invalidMemberName
    let state ← rules.register path state
    walkEntry path depth entry state

end

def collect (root : InputDirectory) (state : σ) : Result σ := do
  rules.enter 0 root.isEmpty
  walkFiles limits rules "" 0 root state

def visit (state : σ) (item : List String × NameTree.Kind InputLeaf) : Result σ := do
  validateMemberName (item.1.getLast?.getD "")
  let path := pathText item.1
  if path.utf8ByteSize > limits.maxPathBytes.toNat then throw .invalidMemberName
  let state ← rules.register path state
  match item.2 with
  | .directory isEmpty => do
    rules.enter item.1.length isEmpty
    return state
  | .leaf leaf => rules.leaf path leaf state

/-- Walking the files of a directory visits the items below it. -/
def WalksItems (files : InputDirectory) : Prop :=
  ∀ (parent : List String) (state : σ), walkFiles limits rules (pathText parent) parent.length files state =
    ((NameTree.items (.node files)).map (NameTree.under parent)).foldlM (visit limits rules) state

theorem map_under_childItems (parent : List String) (name : String) (entry : InputEntry) :
    (NameTree.childItems (name, entry)).map (NameTree.under parent) =
      (parent ++ [name], entry.kind) :: entry.items.map (NameTree.under (parent ++ [name])) := by
  rw [NameTree.childItems, List.map_cons, List.map_map]
  congr 1
  refine List.map_congr_left fun item _ => ?_
  simp [NameTree.under]

theorem walkFile_eq {entry : InputEntry} (h : ∀ files, entry = .node files → WalksItems limits rules files)
    (parent : List String) (name : String) (state : σ) :
    walkFile limits rules (pathText parent) parent.length (name, entry) state =
      ((NameTree.childItems (name, entry)).map (NameTree.under parent)).foldlM (visit limits rules) state := by
  rw [map_under_childItems, List.foldlM_cons, walkFile, visit]
  simp only [List.getLast?_concat, Option.getD_some, pathText_concat, bind_assoc, List.length_append,
    List.length_singleton]
  apply bind_congr
  intro _
  split
  · rfl
  rw [bind_assoc]
  apply bind_congr
  intro state
  cases entry with
  | leaf leaf => simp [walkEntry, NameTree.kind, NameTree.items]
  | node files =>
    rw [walkEntry]
    simp only [NameTree.kind, bind_assoc, pure_bind]
    apply bind_congr
    intro _
    have hFiles := h files rfl (parent ++ [name]) state
    rw [pathText_concat, List.length_append, List.length_singleton] at hFiles
    exact hFiles

theorem walkFiles_eq (files : InputDirectory) : WalksItems limits rules files := by
  induction hTree : (NameTree.node files : InputEntry) using NameTree.induct generalizing files with
  | hLeaf leaf => cases hTree
  | hNode children ih =>
    cases hTree
    induction children with
    | nil =>
      intro parent state
      rfl
    | cons file rest ihRest =>
      rw [List.forall_mem_cons] at ih
      intro parent state
      obtain ⟨name, entry⟩ := file
      have hFile := walkFile_eq limits rules (fun files hEntry => ih.1 files hEntry.symm) parent name state
      rw [walkFiles, hFile, NameTree.items, NameTree.childrenItems, List.map_append, List.foldlM_append]
      apply bind_congr
      intro state
      exact ihRest ih.2 parent state

theorem collect_eq (root : InputDirectory) (state : σ) : collect limits rules root state =
      (do rules.enter 0 root.isEmpty; (NameTree.items (.node root)).foldlM (visit limits rules) state) := by
  have hRoot := walkFiles_eq limits rules root [] state
  have hUnder : (NameTree.under [] : List String × NameTree.Kind InputLeaf → _) = id := rfl
  rw [hUnder, List.map_id] at hRoot
  rw [collect]
  apply bind_congr
  intro _
  exact hRoot

end

/-! ### The two collectors -/

structure CollectionState where
  files : OrderedMap String PendingFile
  counters : Counters

def CollectionState.new : CollectionState := ⟨.empty, .new⟩

structure ReadOnlyCollectionState where
  packedFiles : OrderedMap String PendingFile
  counters : Counters
  unpackedFileCount : Nat

def ReadOnlyCollectionState.new : ReadOnlyCollectionState := ⟨.empty, .new, 0⟩

variable (limits : AsarLimits)

/-- `collect_entries` at a leaf: a link is refused whether it is empty or not. -/
def collectLeaf (path : String) (leaf : InputLeaf) (state : CollectionState) : Result CollectionState :=
  match leaf with
  | .file file => do
    if file.unpacked then throw .unsupportedEntry
    let offset ← parseOffset file.offset
    let counters ← state.counters.registerFileSize limits file.size
    let integrity ← okOr .integrityMismatch file.integrity
    return ⟨state.files.insert path ⟨offset, file.size.toNat, file.executable, integrity⟩, counters⟩
  | .link link => if link = "" then .error .invalidMemberName else .error .unsupportedEntry

def strictRules : Rules CollectionState where
  register path state := do
    let counters ← state.counters.registerEntry limits path
    return { state with counters }
  enter depth isEmpty := do
    if depth > limits.maxDepth.toNat then throw .tooDeep
    if depth > 0 ∧ isEmpty then throw .unsupportedEntry
  leaf := collectLeaf limits

def collectEntries (root : InputDirectory) (state : CollectionState) : Result CollectionState :=
  collect limits (strictRules limits) root state

/-- `collect_read_only_entries` at a leaf. -/
def collectReadOnlyLeaf (path : String) (leaf : InputLeaf) (state : ReadOnlyCollectionState) :
    Result ReadOnlyCollectionState :=
  match leaf with
  | .file file => do
    let counters ← state.counters.registerFileSize limits file.size
    if file.unpacked then
      if file.offset.isSome then throw .invalidLayout
      let unpackedFileCount ← okOr .tooManyEntries (checkedAdd usizeMax state.unpackedFileCount 1)
      return { state with counters, unpackedFileCount }
    else
      let offset ← parseOffset file.offset
      let integrity ← okOr .integrityMismatch file.integrity
      return { state with
        counters, packedFiles := state.packedFiles.insert path ⟨offset, file.size.toNat, file.executable, integrity⟩ }
  | .link link => do
    let _ ← canonicalArchivePath link limits
    return state

def readOnlyRules : Rules ReadOnlyCollectionState where
  register path state := do
    let counters ← state.counters.registerEntry limits path
    return { state with counters }
  enter depth _ := do
    if depth > limits.maxDepth.toNat then throw .tooDeep
  leaf := collectReadOnlyLeaf limits

def collectReadOnlyEntries (root : InputDirectory) (state : ReadOnlyCollectionState) :
    Result ReadOnlyCollectionState :=
  collect limits (readOnlyRules limits) root state

end Weregopher.Asar
