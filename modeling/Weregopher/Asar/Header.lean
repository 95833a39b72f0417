import Weregopher.Digest
import Weregopher.Lib.JsonReader
import Weregopher.Lib.NameTree
import Weregopher.Asar.Path

/-! # Archive headers and their JSON

A header is a tree of directories. An entry is read as a directory, else as a file,
else as a link, whichever accepts the value first.
-/
namespace Weregopher.Asar
open Lib Lib.Json

/-- The libraries behind the archive code: JSON text, which nests at most `maxDepth` deep when it is
read, and SHA-256. -/
structure AsarLibrary where
  toVec : Json → Option (List UInt8)
  fromSlice : List UInt8 → Option Json
  maxDepth : Nat
  sha256 : Sha256

/-- `InputIntegrity` and `OutputIntegrity` alike. -/
structure Integrity where
  (algorithm hash : String)
  blockSize : UInt64
  blocks : List String
  deriving DecidableEq

namespace Integrity

def names : List String := ["algorithm", "hash", "blockSize", "blocks"]

def toJson (integrity : Integrity) : Json :=
  .object [("algorithm", .string integrity.algorithm), ("hash", .string integrity.hash),
    ("blockSize", .integer integrity.blockSize.toNat), ("blocks", .array (integrity.blocks.map .string))]

def fromJson (json : Json) : Option Integrity := do
  let [algorithm, hash, blockSize, blocks] ← structMembers names json | none
  let algorithm ← text algorithm
  let hash ← text hash
  let blockSize ← natural (2 ^ 64) blockSize
  let blocks ← sequence text blocks
  return ⟨algorithm, hash, UInt64.ofNat blockSize, blocks⟩

end Integrity

structure InputFile where
  size : UInt64
  offset : Option String
  executable : Bool
  unpacked : Bool
  integrity : Option Integrity

/-- A field that may be left out, with what stands for it then. -/
def fieldOr {α : Type} (default : α) (read : Json → Option α) : Option Json → Option α
  | none => some default
  | some json => read json

namespace InputFile

def names : List String := ["size", "offset", "executable", "unpacked", "integrity"]

def fromJson (json : Json) : Option InputFile := do
  let [some size, offset, executable, unpacked, integrity] ← structFields names json | none
  let size ← natural (2 ^ 64) size
  let offset ← fieldOr none (nullable text) offset
  let executable ← fieldOr false boolean executable
  let unpacked ← fieldOr false boolean unpacked
  let integrity ← fieldOr none (nullable Integrity.fromJson) integrity
  return ⟨UInt64.ofNat size, offset, executable, unpacked, integrity⟩

end InputFile

inductive InputLeaf
  | file (file : InputFile)
  | link (link : String)

def linkFromJson (json : Json) : Option String := do
  let [link] ← structMembers ["link"] json | none
  text link

def InputLeaf.fromJson (json : Json) : Option InputLeaf :=
  ((InputFile.fromJson json).map .file).or ((linkFromJson json).map .link)

abbrev InputEntry := NameTree String InputLeaf

abbrev InputDirectory := List (String × InputEntry)

/-- `deserialize_unique_files` on one more member. -/
def insertUnique (file : String × InputEntry) (files : InputDirectory) : Option InputDirectory :=
  if file.1 ∈ files.map Prod.fst then none else some (insertEntry file.1 file.2 files)

mutual

def entryFromJson : Json → Option InputEntry
  | .object members =>
    ((directoryOfMembers members).map .node).or ((InputLeaf.fromJson (.object members)).map .leaf)
  | .array items => ((directoryOfItems items).map .node).or ((InputLeaf.fromJson (.array items)).map .leaf)
  | _ => none

def directoryOfMembers : List (String × Json) → Option InputDirectory
  | [member] => directoryOfMember member
  | _ => none

def directoryOfMember : String × Json → Option InputDirectory
  | (name, files) => if name = "files" then filesFromJson files else none

def directoryOfItems : List Json → Option InputDirectory
  | [files] => filesFromJson files
  | _ => none

def filesFromJson : Json → Option InputDirectory
  | .object members => readFiles members
  | _ => none

def readFiles : List (String × Json) → Option InputDirectory
  | [] => some []
  | member :: rest => do
    let file ← readFile member
    let files ← readFiles rest
    insertUnique file files

def readFile : String × Json → Option (String × InputEntry)
  | (name, entry) => (entryFromJson entry).map (name, ·)

end

structure OutputFile where
  size : UInt64
  offset : String
  executable : Bool
  integrity : Integrity

def OutputFile.toJson (file : OutputFile) : Json :=
  .object ([("size", .integer file.size.toNat), ("offset", .string file.offset)] ++
    (if file.executable then [("executable", .bool true)] else []) ++ [("integrity", file.integrity.toJson)])

abbrev OutputEntry := NameTree String OutputFile

abbrev OutputDirectory := List (String × OutputEntry)

mutual

def entryToJson : OutputEntry → Json
  | .node files => .object [("files", .object (filesToJson files))]
  | .leaf file => file.toJson

def filesToJson : OutputDirectory → List (String × Json)
  | [] => []
  | file :: rest => fileToJson file :: filesToJson rest

def fileToJson : String × OutputEntry → String × Json
  | (name, entry) => (name, entryToJson entry)

end

variable {entry : OutputEntry} {json : Json} {file : InputFile} {files : InputDirectory}

/-! ### Nesting -/

theorem Integrity.depth_fromJson {integrity : Integrity} (h : fromJson json = some integrity) : 2 ≤ json.depth := by
  rw [fromJson] at h
  obtain ⟨parts, hParts, h⟩ := Option.bind_eq_some_iff.mp h
  split at h
  · next algorithm hash blockSize blocks =>
    simp only [Option.bind_eq_bind, Option.bind_eq_some_iff] at h
    obtain ⟨_, -, _, -, _, -, _, hBlocks, -⟩ := h
    have hDepth := depth_structMembers hParts (show blocks ∈ [algorithm, hash, blockSize, blocks] by simp)
    cases blocks with
    | array items =>
      rw [depth] at hDepth
      omega
    | _ => cases hBlocks
  · cases h

theorem InputFile.depth_fromJson (h : fromJson json = some file)
    (hIntegrity : file.integrity ≠ none) : 3 ≤ json.depth := by
  rw [fromJson] at h
  obtain ⟨fields, hFields, h⟩ := Option.bind_eq_some_iff.mp h
  split at h
  · next size offset executable unpacked integrity =>
    simp only [Option.bind_eq_bind, Option.bind_eq_some_iff] at h
    obtain ⟨_, -, _, -, _, -, _, -, read, hRead, ⟨⟩⟩ := h
    cases integrity with
    | none =>
      cases hRead
      exact absurd rfl hIntegrity
    | some part =>
      have hDepth := depth_structFields hFields
        (show some part ∈ [some size, offset, executable, unpacked, some part] by simp)
      have hPart : 2 ≤ part.depth := by
        rw [fieldOr, nullable.eq_def] at hRead
        split at hRead
        · cases hRead
          exact absurd rfl hIntegrity
        · obtain ⟨integrity, hInner, -⟩ := Option.map_eq_some_iff.mp hRead
          exact Integrity.depth_fromJson hInner
      omega
  · cases h

theorem insertUnique_perm {file : String × InputEntry} {result : InputDirectory}
    (h : insertUnique file files = some result) : result.Perm (file :: files) := by
  rw [insertUnique, Option.ite_none_left_eq_some] at h
  obtain ⟨hNew, h⟩ := h
  cases h
  exact insertEntry_perm fun entry hEntry hSame => hNew (List.mem_map.mpr ⟨entry, hEntry, hSame⟩)

theorem readFiles_mem {members : List (String × Json)} (h : readFiles members = some files)
    {file : String × InputEntry} (hFile : file ∈ files) :
    ∃ member ∈ members, entryFromJson member.2 = some file.2 ∧ member.1 = file.1 := by
  induction members generalizing files with
  | nil =>
    cases h
    cases hFile
  | cons member rest ih =>
    rw [readFiles] at h
    obtain ⟨first, hFirst, h⟩ := Option.bind_eq_some_iff.mp h
    obtain ⟨others, hOthers, h⟩ := Option.bind_eq_some_iff.mp h
    rcases List.mem_cons.mp ((insertUnique_perm h).mem_iff.mp hFile) with rfl | hMem
    · obtain ⟨name, json⟩ := member
      obtain ⟨entry, hEntry, rfl⟩ := Option.map_eq_some_iff.mp hFirst
      exact ⟨_, List.mem_cons_self, hEntry, rfl⟩
    · obtain ⟨other, hOther, hRead⟩ := ih hOthers hMem
      exact ⟨other, List.mem_cons_of_mem _ hOther, hRead⟩

theorem filesFromJson_some (h : filesFromJson json = some files) :
    ∃ members, readFiles members = some files ∧ json.depth = 1 + membersDepth members := by
  cases json with
  | object members => exact ⟨members, h, by rw [depth]⟩
  | _ => cases h

theorem entryFromJson_node (h : entryFromJson json = some (.node files)) :
    ∃ members, readFiles members = some files ∧ 2 + membersDepth members ≤ json.depth := by
  have hLeaf (leaf : Option InputLeaf) : leaf.map NameTree.leaf ≠ some (NameTree.node files) := by
    cases leaf <;> simp
  cases json with
  | object members =>
    rw [entryFromJson, Option.or_eq_some_iff] at h
    obtain hDirectory | ⟨-, h⟩ := h
    · obtain ⟨_, hMember, hSame⟩ := Option.map_eq_some_iff.mp hDirectory
      cases hSame
      obtain _ | ⟨⟨name, value⟩, _ | _⟩ := members
      · cases hMember
      · rw [directoryOfMembers, directoryOfMember, Option.ite_none_right_eq_some] at hMember
        obtain ⟨inner, hInner, hDepth⟩ := filesFromJson_some hMember.2
        refine ⟨inner, hInner, ?_⟩
        rw [depth, membersDepth, memberDepth]
        omega
      · cases hMember
    · exact absurd h (hLeaf _)
  | array items =>
    rw [entryFromJson, Option.or_eq_some_iff] at h
    obtain hDirectory | ⟨-, h⟩ := h
    · obtain ⟨_, hItem, hSame⟩ := Option.map_eq_some_iff.mp hDirectory
      cases hSame
      obtain _ | ⟨value, _ | _⟩ := items
      · cases hItem
      · rw [directoryOfItems] at hItem
        obtain ⟨inner, hInner, hDepth⟩ := filesFromJson_some hItem
        refine ⟨inner, hInner, ?_⟩
        rw [depth, itemsDepth]
        omega
      · cases hItem
    · exact absurd h (hLeaf _)
  | _ => cases h

theorem entryFromJson_leaf {leaf : InputLeaf} (h : entryFromJson json = some (.leaf leaf)) :
    InputLeaf.fromJson json = some leaf := by
  have hNode (files : Option InputDirectory) : files.map NameTree.node ≠ some (NameTree.leaf leaf) := by
    cases files <;> nofun
  cases json with
  | object _ | array _ =>
    rw [entryFromJson, Option.or_eq_some_iff] at h
    obtain hDirectory | ⟨-, h⟩ := h
    · exact absurd hDirectory (hNode _)
    · obtain ⟨_, hRead, hSame⟩ := Option.map_eq_some_iff.mp h
      cases hSame
      exact hRead
  | _ => cases h

theorem InputLeaf.fromJson_file (h : InputLeaf.fromJson json = some (.file file)) :
    InputFile.fromJson json = some file := by
  rw [InputLeaf.fromJson, Option.or_eq_some_iff] at h
  obtain hFile | ⟨-, hLink⟩ := h
  · obtain ⟨_, hRead, hSame⟩ := Option.map_eq_some_iff.mp hFile
    cases hSame
    exact hRead
  · obtain ⟨_, -, hSame⟩ := Option.map_eq_some_iff.mp hLink
    cases hSame

theorem depth_entryFromJson {entry : InputEntry} (h : entryFromJson json = some entry) {path : List String}
    (hFile : (path, NameTree.Kind.leaf (.file file)) ∈ entry.items)
    (hIntegrity : file.integrity ≠ none) : 2 * path.length + 3 ≤ json.depth := by
  induction entry using NameTree.induct generalizing json path with
  | hLeaf leaf => cases hFile
  | hNode files ih =>
    obtain ⟨members, hRead, hDepth⟩ := entryFromJson_node h
    obtain ⟨child, hChild, hBelow⟩ := NameTree.mem_items_node.mp hFile
    obtain ⟨member, hMember, hEntry, -⟩ := readFiles_mem hRead hChild
    have hMemberDepth := depth_le_membersDepth hMember
    rcases hBelow with ⟨rfl, hKind⟩ | ⟨rest, rfl, hRest⟩
    · obtain ⟨name, entry⟩ := child
      cases entry with
      | node below => cases hKind
      | leaf leaf =>
        cases hKind
        have hOwn := InputFile.depth_fromJson (InputLeaf.fromJson_file (entryFromJson_leaf hEntry)) hIntegrity
        rw [List.length_singleton]
        omega
    · have hInner := ih child hChild hEntry hRest
      rw [List.length_cons]
      omega

end Weregopher.Asar
