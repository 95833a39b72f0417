import Weregopher.Asar.Collect
import Weregopher.Lib.Transition

/-! # Reading, changing and writing archives -/
namespace Weregopher.Asar
open Lib Lib.Json Lib.Bytes Lib.Checked Lib.Outcome Lib.Stateful

variable (library : AsarLibrary)

def asarMagic : Nat := 4

def integrityBlockSize : UInt64 := 4 * 1024 * 1024

variable (bytes : List UInt8)

/-- `slice::get` on a range. -/
def slice (start stop : Nat) : Option (List UInt8) :=
  if start ≤ stop ∧ stop ≤ bytes.length then some ((bytes.drop start).take (stop - start)) else none

def readU32 (offset : Nat) : Result Nat := okOr .invalidHeader ((slice bytes offset (offset + 4)).map fromLeBytes)

structure ParsedHeader where
  root : InputDirectory
  dataStart : Nat

def readRoot (json : List UInt8) : Result InputDirectory :=
  match (library.fromSlice json).bind entryFromJson with
  | some (.node root) => .ok root
  | some (.leaf _) => .error .invalidHeader
  | none => .error .invalidHeaderJson

def parseHeader (limits : AsarLimits) : Result ParsedHeader := do
  if bytes.length < 16 then throw .invalidHeader
  let magic ← readU32 bytes 0
  let outerSize ← readU32 bytes 4
  let innerSize ← readU32 bytes 8
  let jsonSize ← readU32 bytes 12
  if magic ≠ asarMagic ∨ outerSize ≠ saturatingAdd u32Max innerSize 4 then throw .invalidHeader
  if innerSize < 4 then throw .invalidHeader
  let paddedSize := innerSize - 4
  if paddedSize % 4 ≠ 0 ∨ jsonSize > paddedSize then throw .invalidHeader
  let dataStart ← okOr .invalidHeader (checkedAdd usizeMax 16 paddedSize)
  if dataStart > bytes.length ∨ dataStart > limits.maxHeaderBytes.toNat then throw .headerTooLarge
  let jsonEnd ← okOr .invalidHeader (checkedAdd usizeMax 16 jsonSize)
  let json ← okOr .invalidHeader (slice bytes 16 jsonEnd)
  let padding ← okOr .invalidHeader (slice bytes jsonEnd dataStart)
  if padding.any (· ≠ 0) then throw .invalidHeader
  let root ← readRoot library json
  return ⟨root, dataStart⟩

def hexDigest : String := String.ofList (Sha256Digest.encodeHex (library.sha256 bytes).bytes.toList)

def Integrity.forBytes : Integrity where
  algorithm := "SHA256"
  hash := hexDigest library bytes
  blockSize := integrityBlockSize
  blocks := (bytes.toChunks integrityBlockSize.toNat).map (hexDigest library)

def verifyIntegrity (integrity : Integrity) : Result Unit :=
  if integrity.algorithm ≠ "SHA256" ∨ integrity.blockSize ≠ integrityBlockSize ∨
      integrity.hash ≠ hexDigest library bytes then
    .error .integrityMismatch
  else if integrity.blocks ≠ (bytes.toChunks integrityBlockSize.toNat).map (hexDigest library) then
    .error .integrityMismatch
  else
    .ok ()

/-- By offset, and by path among equal offsets. -/
def comesBefore (a b : String × PendingFile) : Prop := a.2.offset < b.2.offset ∨ a.2.offset = b.2.offset ∧ a.1 ≤ b.1

instance (a b : String × PendingFile) : Decidable (comesBefore a b) := inferInstanceAs (Decidable (_ ∨ _))

def checkContiguous : Nat → List (String × PendingFile) → Result Nat
  | cursor, [] => .ok cursor
  | cursor, (_, file) :: rest => do
    if file.offset ≠ cursor then throw .invalidLayout
    let cursor ← okOr .invalidLayout (checkedAdd usizeMax cursor file.size)
    checkContiguous cursor rest

/-- The part of `finish` that both collectors share: the body of the archive, covered exactly by the
files in the order of their offsets. -/
def checkLayout (archive : List UInt8) (dataStart : Nat) (files : List (String × PendingFile)) :
    Result (List UInt8) := do
  let body ← okOr .invalidLayout (slice archive dataStart archive.length)
  let cursor ← checkContiguous 0 (files.mergeSort (comesBefore · ·))
  if cursor ≠ body.length then throw .invalidLayout
  return body

def memberBytes (body : List UInt8) (file : PendingFile) : Result (List UInt8) := do
  let stop ← okOr .invalidLayout (checkedAdd usizeMax file.offset file.size)
  let bytes ← okOr .invalidLayout (slice body file.offset stop)
  verifyIntegrity library bytes file.integrity
  return bytes

/-- The final map, built file by file from the verified bytes. -/
def finishFiles {α : Type} (body : List UInt8) (make : PendingFile → List UInt8 → α) :
    List (String × PendingFile) → OrderedMap String α → Result (OrderedMap String α)
  | [], files => .ok files
  | (path, file) :: rest, files => do
    let bytes ← memberBytes library body file
    finishFiles body make rest (files.insert path (make file bytes))

structure PackedFile where
  bytes : List UInt8
  executable : Bool

structure AsarArchive where
  files : OrderedMap String PackedFile
  limits : AsarLimits

def CollectionState.finish (archive : List UInt8) (dataStart : Nat) (limits : AsarLimits) (state : CollectionState) :
    Result AsarArchive := do
  let body ← checkLayout archive dataStart state.files.entries
  let files ← finishFiles library body (fun file bytes => ⟨bytes, file.executable⟩) state.files.entries .empty
  return ⟨files, limits⟩

structure IndexedFile where
  offset : Nat
  size : Nat

structure AsarReadOnlyIndex where
  archive : List UInt8
  dataStart : Nat
  packedFiles : OrderedMap String IndexedFile
  unpackedFileCount : Nat
  limits : AsarLimits

def ReadOnlyCollectionState.finish (archive : List UInt8) (dataStart : Nat) (limits : AsarLimits)
    (state : ReadOnlyCollectionState) : Result AsarReadOnlyIndex := do
  let body ← checkLayout archive dataStart state.packedFiles.entries
  let packedFiles ←
    finishFiles library body (fun file _ => ⟨file.offset, file.size⟩) state.packedFiles.entries .empty
  return ⟨archive, dataStart, packedFiles, state.unpackedFileCount, limits⟩

namespace AsarReadOnlyIndex

def parse (bytes : List UInt8) (limits : AsarLimits) : Result AsarReadOnlyIndex := do
  if bytes.length > limits.maxArchiveBytes.toNat then throw .archiveTooLarge
  let header ← parseHeader library bytes limits
  let state ← collectReadOnlyEntries limits header.root .new
  state.finish library bytes header.dataStart limits

variable (index : AsarReadOnlyIndex)

def fileBytes (file : IndexedFile) : Option (List UInt8) := do
  let start ← checkedAdd usizeMax index.dataStart file.offset
  let stop ← checkedAdd usizeMax start file.size
  slice index.archive start stop

def packedFile (path : String) : Option (List UInt8) := do
  let canonical ← (canonicalArchivePath path index.limits).toOption
  let file ← index.packedFiles.find? canonical
  index.fileBytes file

def packedFilePaths : List String := index.packedFiles.keys

end AsarReadOnlyIndex

def checkedTotal : Nat → List (String × PackedFile) → Option Nat
  | total, [] => some total
  | total, (_, file) :: rest => (checkedAdd usizeMax total file.bytes.length).bind (checkedTotal · rest)

def insertOutputComponents (current : OutputDirectory) : List String → OutputFile → Result OutputDirectory
  | [], _ => .error .invalidMemberName
  | [component], entry =>
    match lookupEntry component current with
    | some _ => .error .invalidLayout
    | none => .ok (insertEntry component (.leaf entry) current)
  | component :: remaining, entry =>
    match (lookupEntry component current).getD (.node []) with
    | .leaf _ => .error .invalidLayout
    | .node directory => do
      let files ← insertOutputComponents directory remaining entry
      return insertEntry component (.node files) current

def insertOutputEntry (root : OutputDirectory) (path : String) (entry : OutputFile) : Result OutputDirectory :=
  insertOutputComponents root (splitPath path) entry

structure Output where
  root : OutputDirectory
  body : List UInt8

def writeFile (output : Output) (member : String × PackedFile) : Result Output := do
  let (path, file) := member
  if file.bytes.length > u64Max then throw .fileTooLarge
  let root ← insertOutputEntry output.root path
    { size := UInt64.ofNat file.bytes.length
      offset := String.ofList (naturalText output.body.length)
      executable := file.executable
      integrity := Integrity.forBytes library file.bytes }
  return ⟨root, output.body ++ file.bytes⟩

def pad (json : List UInt8) : List UInt8 := json ++ List.replicate ((4 - json.length % 4) % 4) 0

namespace AsarArchive

def parse (bytes : List UInt8) (limits : AsarLimits) : Result AsarArchive := do
  if bytes.length > limits.maxArchiveBytes.toNat then throw .archiveTooLarge
  let header ← parseHeader library bytes limits
  let state ← collectEntries limits header.root .new
  state.finish library bytes header.dataStart limits

variable (archive : AsarArchive)

def file (path : String) : Option (List UInt8) := do
  let canonical ← (canonicalArchivePath path archive.limits).toOption
  let file ← archive.files.find? canonical
  return file.bytes

def filePaths : List String := archive.files.keys

/-- The one update comes last, after every check. -/
def replaceFile (path : String) (replacement : List UInt8) : Transition AsarArchive AsarError Unit := do
  let archive ← get
  let canonical ← liftM (canonicalArchivePath path archive.limits)
  if replacement.length > archive.limits.maxFileBytes.toNat then throw .fileTooLarge
  let previous ← liftM (okOr AsarError.memberNotFound (archive.files.find? canonical))
  let currentTotal ← liftM (okOr AsarError.aggregateTooLarge (checkedTotal 0 archive.files.entries))
  let rest ← liftM (okOr AsarError.aggregateTooLarge (checkedSub currentTotal previous.bytes.length))
  let replacementTotal ← liftM (okOr AsarError.aggregateTooLarge (checkedAdd usizeMax rest replacement.length))
  if replacementTotal > archive.limits.maxTotalFileBytes.toNat then throw .aggregateTooLarge
  let file ← liftM (okOr AsarError.memberNotFound (archive.files.find? canonical))
  modify fun archive => { archive with files := archive.files.insert canonical { file with bytes := replacement } }

def frame (limits : AsarLimits) (json body : List UInt8) : Result (List UInt8) := do
  if json.length > limits.maxHeaderBytes.toNat then throw .headerTooLarge
  if json.length > u32Max then throw .headerTooLarge
  let padded := pad json
  if padded.length > u32Max then throw .headerTooLarge
  let outerSize ← okOr .headerTooLarge (checkedAdd u32Max padded.length 8)
  let innerSize ← okOr .headerTooLarge (checkedAdd u32Max padded.length 4)
  let framedSize ← okOr .archiveTooLarge (checkedAdd usizeMax 16 padded.length)
  let outputSize ← okOr .archiveTooLarge (checkedAdd usizeMax framedSize body.length)
  if outputSize > limits.maxArchiveBytes.toNat then throw .archiveTooLarge
  return toLeBytes 4 asarMagic ++ toLeBytes 4 outerSize ++ toLeBytes 4 innerSize ++ toLeBytes 4 json.length ++
    padded ++ body

def toBytes : Result (List UInt8) := do
  let output ← archive.files.entries.foldlM (writeFile library) ⟨[], []⟩
  if output.body.length > archive.limits.maxTotalFileBytes.toNat then throw .aggregateTooLarge
  let json ← okOr .serializeHeader (library.toVec (entryToJson (.node output.root)))
  frame archive.limits json output.body

end AsarArchive

end Weregopher.Asar
