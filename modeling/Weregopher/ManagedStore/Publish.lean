import Weregopher.Digest
import Weregopher.Ids
import Weregopher.Lib.Checked
import Weregopher.Lib.Outcome
import Weregopher.Lib.SharedDisk

/-! # Publication in the managed store

Every call is the program of one thread. Content is staged under a temporary name,
hashed, verified and linked to the path of its digest. Share modes are left out: they
only make operations fail, and every operation may fail. What a path of the store names
is a directory or a regular file as it was made.
-/
namespace Weregopher.ManagedStore
open Lib.Bytes Lib.Checked Lib.Outcome Lib.SharedDisk

/-- The components of a path below the root of the store. -/
abbrev Path := List (List Char)

inductive MaterializationStoreError
  | io (operation : String) (path : Path) (reason : Failure)
  | reparsePoint (path : Path)
  | invalidBlobObject (digest : Sha256Digest)
  | existingBlobMismatch (digest : Sha256Digest)
  | totalByteCountOverflow
  | blobCountOverflow
  | temporaryCleanupFailed (path : Path)
  | temporaryNameAttemptsExhausted (digest : Sha256Digest) (attempts : Nat)
  | publicationIdentityMismatch (digest : Sha256Digest)
  | contentPathConstructionFailed (digest : Sha256Digest)

inductive ReaderPublicationError
  | sourceRead
  | sourceLengthMismatch
  | sourceDigestMismatch
  | store (source : MaterializationStoreError)

inductive Publication
  | created
  | reused
  deriving DecidableEq

/-- A call has found out how the content of a digest came to be in the store. -/
inductive Event (τ : Type)
  | published (thread : τ) (digest : Sha256Digest) (publication : Publication)
  deriving DecidableEq

variable {τ α : Type}

abbrev Steps (τ α : Type) := Program τ Path (Event τ) α

abbrev Fallible (τ δ α : Type) := ExceptT δ (Program τ Path (Event τ)) α

def ofResult {δ : Type} (result : Except δ α) : Fallible τ δ α := ExceptT.mk (pure result)

def perform {δ : Type} (program : Steps τ α) : Fallible τ δ α := ExceptT.lift program

def orFail (operation : String) (path : Path) (program : Steps τ (Except Failure α)) :
    Fallible τ MaterializationStoreError α :=
  ExceptT.mk do
    match ← program with
    | .ok value => return .ok value
    | .error reason => return .error (.io operation path reason)

def asStore (program : Fallible τ MaterializationStoreError α) : Fallible τ ReaderPublicationError α :=
  ExceptT.mk do
    let outcome ← program.run
    return outcome.mapError .store

/-! ## Paths -/

/-- `content_path`: the first byte is set off by a slash. -/
def contentPath (digest : Sha256Digest) : List Char :=
  let bytes := digest.bytes.toList
  "sha256/".toList ++ Sha256Digest.encodeHex (bytes.take 1) ++ '/' :: Sha256Digest.encodeHex (bytes.drop 1)

def slice (text : List Char) (start stop : Nat) : Option (List Char) :=
  if start ≤ stop ∧ stop ≤ text.length then some ((text.take stop).drop start) else none

def contentRootPath : Path := ["sha256".toList]

def blobPaths (digest : Sha256Digest) : Except MaterializationStoreError (Path × Path) := do
  let relative := contentPath digest
  let fanout ← okOr (.contentPathConstructionFailed digest) (slice relative 7 9)
  let filename ← okOr (.contentPathConstructionFailed digest) (slice relative 10 relative.length)
  let fanoutPath := contentRootPath ++ [fanout]
  return (fanoutPath, fanoutPath ++ [filename])

/-- A random name, from 128 random bits. -/
def temporaryPath (directory : Path) (drawn : Nat) : Path :=
  directory ++ [".weregopher-".toList ++ Sha256Digest.encodeHex (toBeBytes 16 drawn) ++ ".tmp".toList]

/-! ## Directories and files -/

def fileAttributeReparsePoint : Nat := 0x400

variable (path : Path)

/-- The identity of a directory is its path, as nothing renames directories. -/
def openDirectDirectory : Fallible τ MaterializationStoreError Path := do
  orFail "open direct directory" path (openDirectory path)
  let attributes ← orFail "read direct-directory metadata" path (look fun choice _ => .ok choice.attributes)
  if attributes &&& fileAttributeReparsePoint ≠ 0 then throw (.reparsePoint path)
  orFail "read direct-directory identity" path (look fun _ _ => .ok path)

def verifyRootPath : Fallible τ MaterializationStoreError Unit := do
  let current ← openDirectDirectory []
  if current ≠ [] then throw (.io "verify managed root identity" [] .other)

def ensureDirectDirectory : Fallible τ MaterializationStoreError Path := do
  match ← perform (createDirectory path) with
  | .ok () | .error .alreadyExists => openDirectDirectory path
  | .error reason => throw (.io "create managed directory" path reason)

def validateRegularFile (file : Nat) (path : Path) (digest : Sha256Digest) :
    Fallible τ MaterializationStoreError Metadata := do
  let metadata ← orFail "read content-file metadata" path (metadata file)
  if metadata.attributes &&& fileAttributeReparsePoint ≠ 0 then throw (.invalidBlobObject digest)
  return metadata

def openExistingBlob (digest : Sha256Digest) : Fallible τ MaterializationStoreError (Option Nat) := do
  match ← perform (openFile path) with
  | .ok file =>
    let _ ← validateRegularFile file path digest
    return some file
  | .error .notFound => return none
  | .error reason => throw (.io "open content-addressed blob" path reason)

/-- It shares more than `open_existing_blob`, which makes no difference here. -/
def openPublishedLink (digest : Sha256Digest) : Fallible τ MaterializationStoreError (Option Nat) :=
  openExistingBlob path digest

def bufferBytes : Nat := 16 * 1024

/-- The loop of `hash_exact`, with the bytes that the hasher has been given. -/
def hashLoop (file : Nat) (path : Path) (expectedBytes : Nat) (bytes : List UInt8) :
    Fallible τ MaterializationStoreError (List UInt8) :=
  if bytes.length < expectedBytes then do
    let request := min (expectedBytes - bytes.length) bufferBytes
    let read ← orFail "read content-addressed blob" path (readAt file bytes.length request)
    if _hRead : read = [] then throw (.io "read complete content-addressed blob" path .other)
    else
      let _ ← ofResult (okOr .totalByteCountOverflow (checkedAdd u64Max bytes.length read.length))
      hashLoop file path expectedBytes (bytes ++ read)
  else return bytes
termination_by expectedBytes - bytes.length
decreasing_by
  have hLength := List.length_pos_iff.mpr _hRead
  rw [List.length_append]
  omega

section

variable (sha256 : Sha256)

def hashExact (file : Nat) (path : Path) (expectedBytes : Nat) : Fallible τ MaterializationStoreError Sha256Digest := do
  orFail "rewind content-addressed blob" path settle
  let bytes ← hashLoop file path expectedBytes []
  return sha256 bytes

def verifyBlob (file : Nat) (path : Path) (expectedDigest : Sha256Digest) (expectedBytes : Nat) :
    Fallible τ MaterializationStoreError Nat := do
  if expectedBytes > u64Max then throw (.existingBlobMismatch expectedDigest)
  let before ← validateRegularFile file path expectedDigest
  if before.size ≠ expectedBytes then throw (.existingBlobMismatch expectedDigest)
  let first ← hashExact sha256 file path expectedBytes
  let second ← hashExact sha256 file path expectedBytes
  let after ← validateRegularFile file path expectedDigest
  if before ≠ after ∨ first ≠ second ∨ first ≠ expectedDigest then throw (.existingBlobMismatch expectedDigest)
  return file

/-! ## Staging -/

/-- A reader over bytes in memory, or any other. -/
inductive Source
  | cursor (rest : List UInt8)
  | reader

def Source.read (request : Nat) : Source → Steps τ (Except Failure (List UInt8 × Source))
  | cursor rest => return .ok (rest.take request, cursor (rest.drop request))
  | reader => do
    match ← supply request with
    | .ok bytes => return .ok (bytes, reader)
    | .error reason => return .error reason

def writeAll (file : Nat) (path : Path) (bytes : List UInt8) : Fallible τ MaterializationStoreError Unit :=
  if bytes = [] then return ()
  else do
    let count ← orFail "write temporary content file" path (append file bytes)
    if _hCount : count = 0 then throw (.io "write temporary content file" path .other)
    else writeAll file path (bytes.drop count)
termination_by bytes.length
decreasing_by
  have hLength : 0 < bytes.length := List.length_pos_iff.mpr ‹_›
  rw [List.length_drop]
  omega

/-- The loop of `copy_exact`, with the bytes that the hasher has been given. -/
def copyLoop (file : Nat) (path : Path) (source : Source) (remaining : Nat) (bytes : List UInt8) :
    Fallible τ ReaderPublicationError (Source × List UInt8) :=
  if remaining = 0 then return (source, bytes)
  else do
    match ← perform (source.read (min remaining bufferBytes)) with
    | .error _ => throw .sourceRead
    | .ok (read, source) =>
      if _hRead : read = [] then throw .sourceLengthMismatch
      else
        asStore (writeAll file path read)
        copyLoop file path source (remaining - read.length) (bytes ++ read)
termination_by remaining
decreasing_by
  have hLength := List.length_pos_iff.mpr _hRead
  omega

def copyExact (file : Nat) (path : Path) (source : Source) (expectedBytes : Nat) (expectedDigest : Sha256Digest) :
    Fallible τ ReaderPublicationError Unit := do
  let (source, bytes) ← copyLoop file path source expectedBytes []
  match ← perform (source.read 1) with
  | .error _ => throw .sourceRead
  | .ok (extra, _) =>
    if extra ≠ [] then throw .sourceLengthMismatch
    if sha256 bytes ≠ expectedDigest then throw .sourceDigestMismatch

/-- The loop of `create_temporary_file`, with the attempts that are left. -/
def createTemporaryFile (thread : τ) (directory : Path) (digest : Sha256Digest) (attempts : Nat) :
    Nat → Fallible τ MaterializationStoreError (Path × Nat)
  | 0 => throw (.temporaryNameAttemptsExhausted digest attempts)
  | left + 1 => do
    let drawn ← perform draw
    let path := temporaryPath directory drawn
    match ← perform (createNew thread path) with
    | .ok file =>
      match ← perform (validateRegularFile file path digest).run with
      | .ok _ => return (path, file)
      | .error error =>
        match ← perform (remove path) with
        | .ok () => throw error
        | .error _ => throw (.temporaryCleanupFailed path)
    | .error .alreadyExists => createTemporaryFile thread directory digest attempts left
    | .error reason => throw (.io "create temporary content file" path reason)

def publishLockedTemporary (path destination : Path) (expectedDigest : Sha256Digest) (expectedBytes : Nat)
    (temporaryIdentity : Nat) : Fallible τ MaterializationStoreError Publication := do
  match ← perform (link path destination) with
  | .ok () =>
    match ← openExistingBlob destination expectedDigest with
    | none => throw (.io "open newly published content file" destination .notFound)
    | some published =>
      let published ← verifyBlob sha256 published destination expectedDigest expectedBytes
      let publishedIdentity ← orFail "read published content identity" destination (identify published)
      if temporaryIdentity ≠ publishedIdentity then throw (.publicationIdentityMismatch expectedDigest)
      return .created
  | .error .alreadyExists =>
    match ← openExistingBlob destination expectedDigest with
    | none => throw (.io "open concurrently published content file" destination .notFound)
    | some existing =>
      let _ ← verifyBlob sha256 existing destination expectedDigest expectedBytes
      return .reused
  | .error reason => throw (.io "atomically publish content-addressed blob" destination reason)

/-- The temporary file is verified, closed for writing, opened again and verified once more. -/
def lockTemporary (file : Nat) (path : Path) (expectedDigest : Sha256Digest) (expectedBytes : Nat) :
    Fallible τ MaterializationStoreError Nat := do
  orFail "flush temporary content file" path settle
  let file ← verifyBlob sha256 file path expectedDigest expectedBytes
  match ← openPublishedLink path expectedDigest with
  | none => throw (.io "open temporary content for handle transition" path .notFound)
  | some transition =>
    let writeIdentity ← orFail "read temporary content identity" path (identify file)
    let transitionIdentity ← orFail "read temporary transition identity" path (identify transition)
    if writeIdentity ≠ transitionIdentity then throw (.publicationIdentityMismatch expectedDigest)
    match ← openExistingBlob path expectedDigest with
    | none => throw (.io "lock temporary content for publication" path .notFound)
    | some locked =>
      let locked ← verifyBlob sha256 locked path expectedDigest expectedBytes
      let temporaryIdentity ← orFail "read locked temporary content identity" path (identify locked)
      if transitionIdentity ≠ temporaryIdentity then throw (.publicationIdentityMismatch expectedDigest)
      return temporaryIdentity

def stageAndPublishInner (file : Nat) (path destination : Path) (expectedDigest : Sha256Digest) (source : Source)
    (expectedBytes : Nat) : Fallible τ ReaderPublicationError Publication := do
  copyExact sha256 file path source expectedBytes expectedDigest
  let temporaryIdentity ← asStore (lockTemporary sha256 file path expectedDigest expectedBytes)
  asStore (publishLockedTemporary sha256 path destination expectedDigest expectedBytes temporaryIdentity)

variable (thread : τ)

def stageAndPublishReader (directory destination : Path) (expectedDigest : Sha256Digest) (source : Source)
    (expectedBytes tempAttempts : Nat) : Fallible τ ReaderPublicationError Publication := do
  let (path, file) ← asStore (createTemporaryFile thread directory expectedDigest tempAttempts tempAttempts)
  let result ← perform (stageAndPublishInner sha256 file path destination expectedDigest source expectedBytes).run
  match ← perform (remove path) with
  | .ok () => ofResult result
  | .error _ => throw (.store (.temporaryCleanupFailed path))

def ReaderPublicationError.intoStoreError (path : Path) (digest : Sha256Digest) :
    ReaderPublicationError → MaterializationStoreError
  | sourceRead => .io "read materialization source" path .other
  | sourceLengthMismatch => .io "read exact materialization source" path .other
  | sourceDigestMismatch => .existingBlobMismatch digest
  | store source => source

def stageAndPublish (directory destination : Path) (expectedDigest : Sha256Digest) (bytes : List UInt8)
    (tempAttempts : Nat) : Fallible τ MaterializationStoreError Publication :=
  ExceptT.mk do
    let outcome ←
      (stageAndPublishReader sha256 thread directory destination expectedDigest (.cursor bytes) bytes.length
        tempAttempts).run
    return outcome.mapError (·.intoStoreError destination expectedDigest)

/-! ## The calls -/

def publishReader (digest : Sha256Digest) (expectedBytes : Nat) (source : Source) (tempAttempts : Nat) :
    Fallible τ ReaderPublicationError Publication := do
  asStore verifyRootPath
  let _ ← asStore (ensureDirectDirectory contentRootPath)
  let (fanoutPath, destination) ← asStore (ofResult (blobPaths digest))
  let _ ← asStore (ensureDirectDirectory fanoutPath)
  let publication ←
    match ← asStore (openExistingBlob destination digest) with
    | some file => do
      let _ ← asStore (verifyBlob sha256 file destination digest expectedBytes)
      pure Publication.reused
    | none => stageAndPublishReader sha256 thread fanoutPath destination digest source expectedBytes tempAttempts
  perform (record (.published thread digest publication))
  asStore verifyRootPath
  return publication

def materializeBlob (tempAttempts : Nat) (digest : Sha256Digest) (bytes : List UInt8) :
    Fallible τ MaterializationStoreError Publication := do
  let (fanoutPath, destination) ← ofResult (blobPaths digest)
  let _ ← ensureDirectDirectory fanoutPath
  let publication ←
    match ← openExistingBlob destination digest with
    | some file => do
      let _ ← verifyBlob sha256 file destination digest bytes.length
      pure Publication.reused
    | none => stageAndPublish sha256 thread fanoutPath destination digest bytes tempAttempts
  perform (record (.published thread digest publication))
  return publication

/-- The counts of created and of reused blobs. -/
def materializeBlobs (tempAttempts : Nat) :
    List (Sha256Digest × List UInt8) → (created reused : Nat) → Fallible τ MaterializationStoreError (Nat × Nat)
  | [], created, reused => return (created, reused)
  | (digest, bytes) :: rest, created, reused => do
    match ← materializeBlob sha256 thread tempAttempts digest bytes with
    | .created =>
      let created ← ofResult (okOr .blobCountOverflow (checkedAdd usizeMax created 1))
      materializeBlobs tempAttempts rest created reused
    | .reused =>
      let reused ← ofResult (okOr .blobCountOverflow (checkedAdd usizeMax reused 1))
      materializeBlobs tempAttempts rest created reused

structure MaterializationReceipt where
  manifestDigest : Sha256Digest
  (createdBlobs reusedBlobs totalBlobBytes : Nat)

def materialize (manifestDigest : Sha256Digest) (blobs : List (Sha256Digest × List UInt8))
    (tempAttempts totalBytes : Nat) : Fallible τ MaterializationStoreError MaterializationReceipt := do
  verifyRootPath
  let _ ← ensureDirectDirectory contentRootPath
  let (created, reused) ← materializeBlobs sha256 thread tempAttempts blobs 0 0
  verifyRootPath
  return ⟨manifestDigest, created, reused, totalBytes⟩

end

inductive Call
  | publishReader (digest : Sha256Digest) (expectedBytes : Nat) (source : Source) (tempAttempts : Nat)
  | materialize (manifestDigest : Sha256Digest) (blobs : List (Sha256Digest × List UInt8))
      (tempAttempts totalBytes : Nat)

def Call.program (sha256 : Sha256) (thread : τ) : Call → Steps τ Unit
  | publishReader digest expectedBytes source tempAttempts => do
    let _ ← (ManagedStore.publishReader sha256 thread digest expectedBytes source tempAttempts).run
  | materialize manifestDigest blobs tempAttempts totalBytes => do
    let _ ← (ManagedStore.materialize sha256 thread manifestDigest blobs tempAttempts totalBytes).run

end Weregopher.ManagedStore
