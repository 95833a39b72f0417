import Weregopher.Digest
import Weregopher.Lib.Checked
import Weregopher.Lib.NameTree
import Weregopher.Lib.Outcome
import Weregopher.Lib.SelfDelimiting
import Weregopher.Lib.SlashPath

/-! # Package manifests and their tree root

Records are sorted by path, checked one after the other and put as leaves into a tree
of directories, whose hash is the root. SHA-256 and the lower case of a text are
parameters.
-/
namespace Weregopher.Fingerprint
open Lib Lib.Bytes Lib.Checked Lib.Outcome

def packageTreeFormatVersion : UInt16 := 1

def maxNormalizedPackagePathChars : Nat := 32767

def maxNormalizedPackagePathComponents : Nat := 256

def maxPackageFileRecords : Nat := 65536

def maxPackageRecordPathBytes : Nat := 16 * 1024 * 1024

inductive PackageFileKind
  | regular
  | asar
  | nativeModule
  | executable
  | symbolicLink
  deriving DecidableEq

def PackageFileKind.tag : PackageFileKind → UInt8
  | regular => 1
  | asar => 2
  | nativeModule => 3
  | executable => 4
  | symbolicLink => 5

@[ext]
structure PackageFileRecord where
  normalizedPath : String
  size : UInt64
  sha256 : Sha256Digest
  executable : Bool
  kind : PackageFileKind
  signerThumbprint : Option Sha256Digest
  deriving DecidableEq

structure PackageTreeManifest where
  formatVersion : UInt16
  packageTreeMerkle : Sha256Digest
  files : List PackageFileRecord
  deriving DecidableEq

inductive ManifestError
  | fileLimitExceeded (actual max : Nat)
  | pathBytesExceeded (actual max : Nat)
  | invalidPath (path : String)
  | caseInsensitiveCollision (first second : String)
  | executableKindMismatch (path : String)
  | pathConflict (path : String)
  deriving DecidableEq

abbrev Result (α : Type) := Except ManifestError α

def aggregatePathBytes (files : List PackageFileRecord) : Option Nat :=
  files.foldlM (fun total record => checkedAdd usizeMax total record.normalizedPath.utf8ByteSize) 0

def validateResourceBounds (files : List PackageFileRecord) : Result Unit := do
  if files.length > maxPackageFileRecords then
    throw (.fileLimitExceeded files.length maxPackageFileRecords)
  let pathBytes ← okOr (.pathBytesExceeded usizeMax maxPackageRecordPathBytes) (aggregatePathBytes files)
  if pathBytes > maxPackageRecordPathBytes then
    throw (.pathBytesExceeded pathBytes maxPackageRecordPathBytes)

def validateExecutableKind (record : PackageFileRecord) : Result Unit :=
  let expected := record.kind = .nativeModule ∨ record.kind = .executable
  if record.executable = decide expected then .ok () else .error (.executableKindMismatch record.normalizedPath)

def isControl (character : Char) : Bool :=
  character.toNat ≤ 0x1f || (0x7f ≤ character.toNat && character.toNat ≤ 0x9f)

def validateNormalizedPath (path : String) : Result Unit :=
  let invalidLength := path.length > maxNormalizedPackagePathChars
  let invalidDepth := (SlashPath.split path).length > maxNormalizedPackagePathComponents
  let invalidCharacter := path.toList.any fun character => isControl character || ['\\', ':'].contains character
  let invalidSegment := (SlashPath.split path).any fun component => component == "" || [".", ".."].contains component
  if invalidLength ∨ invalidDepth ∨ invalidCharacter ∨ invalidSegment then .error (.invalidPath path) else .ok ()

section

variable (sha256 : Sha256) (lowercase : String → String)

/-- The prefix so far and the spelling first seen of every prefix, under its lower case. -/
structure CaseScan where
  current : String
  observed : OrderedMap String String

def CaseScan.step (scan : CaseScan) (component : String) : Result CaseScan :=
  let current := SlashPath.child scan.current component
  let folded := lowercase current
  match scan.observed.find? folded with
  | some first =>
    if first ≠ current then .error (.caseInsensitiveCollision first current) else .ok ⟨current, scan.observed⟩
  | none => .ok ⟨current, scan.observed.insert folded current⟩

def rejectCaseCollision (observed : OrderedMap String String) (normalizedPath : String) :
    Result (OrderedMap String String) := do
  let scan ← (SlashPath.split normalizedPath).foldlM (CaseScan.step lowercase) ⟨"", observed⟩
  return scan.observed

def fileHashDomain : List UInt8 := utf8Bytes "weregopher.package.file.v1\x00"

def directoryHashDomain : List UInt8 := utf8Bytes "weregopher.package.directory.v1\x00"

def signerBytes : Option Sha256Digest → List UInt8
  | some signer => 1 :: signer.bytes.toList
  | none => [0]

def fileDocument (record : PackageFileRecord) : List UInt8 :=
  fileHashDomain ++ (lengthPrefixed 8 (utf8Bytes record.normalizedPath) ++ (toLeBytes 8 record.size.toNat ++
    (record.sha256.bytes.toList ++ ([record.executable.toUInt8, record.kind.tag] ++
      signerBytes record.signerThumbprint))))

def hashFileRecord (record : PackageFileRecord) : Sha256Digest := sha256 (fileDocument record)

structure TreeLeaf where
  hash : Sha256Digest
  kind : PackageFileKind

abbrev TreeChild := NameTree String TreeLeaf

abbrev DirectoryNode := List (String × TreeChild)

/-- Goes down to a directory, making those that are missing, and changes it there. -/
def directoryMut (change : DirectoryNode → Result DirectoryNode) (fullPath : String) :
    List String → DirectoryNode → Result DirectoryNode
  | [], directory => change directory
  | component :: rest, directory =>
    match (lookupEntry component directory).getD (.node []) with
    | .node below => do
      let changed ← directoryMut change fullPath rest below
      return insertEntry component (.node changed) directory
    | .leaf _ => .error (.pathConflict fullPath)

def insertLeaf (root : DirectoryNode) (normalizedPath : String) (hash : Sha256Digest) (kind : PackageFileKind) :
    Result DirectoryNode :=
  let components := SlashPath.split normalizedPath
  let filename := components.getLast?.getD ""
  let occupy (parent : DirectoryNode) : Result DirectoryNode :=
    match lookupEntry filename parent with
    | none => .ok (insertEntry filename (.leaf ⟨hash, kind⟩) parent)
    | some _ => .error (.pathConflict normalizedPath)
  directoryMut occupy normalizedPath components.dropLast root

def childTag : TreeChild → List UInt8
  | .node _ => [1]
  | .leaf leaf => [2, leaf.kind.tag]

mutual

/-- The hash of a directory at its path; a file carries its own. -/
def hashTree : TreeChild → String → Sha256Digest
  | .node children, path =>
    sha256 (directoryHashDomain ++ (lengthPrefixed 8 (utf8Bytes path) ++ (toLeBytes 8 children.length ++
      hashedChildren children path)))
  | .leaf leaf, _ => leaf.hash

def hashedChildren : List (String × TreeChild) → String → List UInt8
  | [], _ => []
  | child :: rest, path => hashedChild child path ++ hashedChildren rest path

def hashedChild : String × TreeChild → String → List UInt8
  | (name, child), path =>
    lengthPrefixed 8 (utf8Bytes name) ++ (childTag child ++ (hashTree child (SlashPath.child path name)).bytes.toList)

end

def directoryDocument (children : DirectoryNode) (path : String) : List UInt8 :=
  directoryHashDomain ++ (lengthPrefixed 8 (utf8Bytes path) ++ (toLeBytes 8 children.length ++
    hashedChildren sha256 children path))

structure BuildState where
  tree : DirectoryNode
  caseFoldedPaths : OrderedMap String String

def BuildState.start : BuildState := ⟨[], .empty⟩

def BuildState.add (state : BuildState) (record : PackageFileRecord) : Result BuildState := do
  validateNormalizedPath record.normalizedPath
  validateExecutableKind record
  let caseFoldedPaths ← rejectCaseCollision lowercase state.caseFoldedPaths record.normalizedPath
  let tree ← insertLeaf state.tree record.normalizedPath (hashFileRecord sha256 record) record.kind
  return ⟨tree, caseFoldedPaths⟩

/-- `sort_by` on the paths, which is stable. -/
def sortRecords (files : List PackageFileRecord) : List PackageFileRecord :=
  files.insertionSort fun left right => left.normalizedPath ≤ right.normalizedPath

def buildPackageManifest (files : List PackageFileRecord) : Result PackageTreeManifest := do
  validateResourceBounds files
  let sorted := sortRecords files
  let state ← sorted.foldlM (BuildState.add sha256 lowercase) .start
  return ⟨packageTreeFormatVersion, hashTree sha256 (.node state.tree) "", sorted⟩

inductive ManifestReadError
  | unsupportedFormatVersion
  | notInCanonicalOrder
  | manifest (error : ManifestError)
  | rootMismatch

/-- The checks of `Deserialize`, after the fields were read. -/
def readPackageManifest (unchecked : PackageTreeManifest) : Except ManifestReadError PackageTreeManifest := do
  if unchecked.formatVersion ≠ packageTreeFormatVersion then throw .unsupportedFormatVersion
  if ¬unchecked.files.IsChain fun left right => left.normalizedPath < right.normalizedPath then
    throw .notInCanonicalOrder
  let manifest ← (buildPackageManifest sha256 lowercase unchecked.files).mapError .manifest
  if manifest.packageTreeMerkle ≠ unchecked.packageTreeMerkle then throw .rootMismatch
  return manifest

end

end Weregopher.Fingerprint
