import Weregopher.Lib.Checked
import Weregopher.Lib.Outcome
import Weregopher.Lib.SlashPath

/-! # Member names and archive paths -/
namespace Weregopher.Asar
open Lib Lib.Checked Lib.Outcome

structure AsarLimits where
  (maxArchiveBytes maxHeaderBytes maxEntries maxFileBytes maxTotalFileBytes maxPathBytes maxDepth : UInt64)

def AsarLimits.initial : AsarLimits where
  maxArchiveBytes := 1024 * 1024 * 1024
  maxHeaderBytes := 16 * 1024 * 1024
  maxEntries := 100000
  maxFileBytes := 512 * 1024 * 1024
  maxTotalFileBytes := 1024 * 1024 * 1024
  maxPathBytes := 4096
  maxDepth := 128

inductive AsarError
  | archiveTooLarge
  | headerTooLarge
  | invalidHeader
  | invalidHeaderJson
  | invalidMemberName
  | tooManyEntries
  | tooDeep
  | pathBudgetExceeded
  | unsupportedEntry
  | invalidLayout
  | fileTooLarge
  | aggregateTooLarge
  | integrityMismatch
  | memberNotFound
  | serializeHeader
  deriving DecidableEq

abbrev Result (α : Type) := Except AsarError α

def forbidden (character : Char) : Bool :=
  character.toNat ≤ 0x1f || ['/', '\\', ':', '<', '>', '"', '|', '?', '*'].contains character

def reservedStems : List String :=
  ["con", "prn", "aux", "nul", "com1", "com2", "com3", "com4", "com5", "com6", "com7", "com8", "com9",
    "lpt1", "lpt2", "lpt3", "lpt4", "lpt5", "lpt6", "lpt7", "lpt8", "lpt9"]

def stem (name : String) : String := String.ofList ((name.toList.takeWhile (· ≠ '.')).map Char.toLower)

def validMemberName (name : String) : Bool :=
  !(name == "" || name == "." || name == ".." || name.toList.getLast?.any (['.', ' '].contains ·) ||
      name.toList.any forbidden) &&
    !reservedStems.contains (stem name)

def validateMemberName (name : String) : Result Unit :=
  if validMemberName name then .ok () else .error .invalidMemberName

def childPath (parent name : String) : String := if parent = "" then name else parent ++ "/" ++ name

def pathText (components : List String) : String := components.foldl childPath ""

def splitPath (path : String) : List String := (path.toList.splitOn '/').map String.ofList

def validateComponents (limits : AsarLimits) : Nat → List String → Result Unit
  | _, [] => .ok ()
  | count, component :: rest => do
    validateMemberName component
    let count ← okOr .tooDeep (checkedAdd usizeMax count 1)
    if count > limits.maxDepth.toNat then throw .tooDeep
    validateComponents limits count rest

def canonicalArchivePath (path : String) (limits : AsarLimits) : Result String := do
  if path = "" ∨ path.utf8ByteSize > limits.maxPathBytes.toNat ∨ path.toList.head? = some '/' then
    throw .invalidMemberName
  validateComponents limits 0 (splitPath path)
  return path

variable {name : String}

theorem validateMemberName_ok : validateMemberName name = .ok () ↔ validMemberName name = true := by
  rw [validateMemberName]
  split <;> simp_all

theorem ne_empty_of_valid (h : validMemberName name = true) : name ≠ "" := by
  rintro rfl
  exact absurd h (by decide)

theorem slash_notMem_of_valid (h : validMemberName name = true) : '/' ∉ name.toList := by
  intro hSlash
  have hForbidden : name.toList.any forbidden = true := List.any_eq_true.mpr ⟨'/', hSlash, by decide⟩
  simp [validMemberName, hForbidden] at h

theorem pathText_concat (components : List String) (name : String) :
    pathText (components ++ [name]) = childPath (pathText components) name := SlashPath.join_concat components name

theorem splitPath_append (front back : String) :
    splitPath (front ++ "/" ++ back) = splitPath front ++ splitPath back := SlashPath.split_append front back

theorem splitPath_pathText {components : List String} (hNil : components ≠ [])
    (h : ∀ name ∈ components, validMemberName name = true) : splitPath (pathText components) = components :=
  SlashPath.split_join hNil fun name hName => ⟨ne_empty_of_valid (h name hName), slash_notMem_of_valid (h name hName)⟩

theorem canonicalArchivePath_ok {path canonical : String} {limits : AsarLimits}
    (h : canonicalArchivePath path limits = .ok canonical) : canonical = path := by
  rw [canonicalArchivePath, guard_ok, check_ok, pure_ok] at h
  exact h.2.2.symm

end Weregopher.Asar
