import Weregopher.Ledger.Document

/-! # The ledger directory

A directory is the list of its entries in the order of enumeration, which is
arbitrary. Reading is assumed to succeed; creating and writing a record may not.
-/
namespace Weregopher.LocalCertificationLedger
open Lib

/-- A name that is not Unicode is known by its raw form only. -/
inductive OsName
  | text (value : String)
  | raw (bytes : List UInt8)
  deriving DecidableEq

inductive EntryKind
  | file
  | directory
  /-- A symbolic link or a reparse point. -/
  | link
  | other
  deriving DecidableEq

structure DirectoryEntry where
  name : OsName
  kind : EntryKind
  content : List UInt8
  deriving DecidableEq

inductive LedgerRoot
  | missing
  /-- A link, or not a directory. -/
  | unsafeRoot
  | directory (entries : List DirectoryEntry)
  deriving DecidableEq

inductive LedgerError
  | ledgerRootAlreadyExists
  | createLedgerRoot
  | inspectLedgerRoot
  | unsafeLedgerRoot
  | unsafeLedgerEntry (name : OsName)
  | unknownLedgerEntry (name : OsName)
  | tooManyRecords
  | missingGenesis
  | unexpectedGenesis
  | sequenceGap (expected actual : UInt64)
  | recordTooLarge (sequence : UInt64)
  | totalRecordBytesExceeded
  | invalidRecord (sequence : UInt64) (source : DocumentError)
  | nonCanonicalRecord (sequence : UInt64)
  | recordSequenceMismatch (filenameSequence recordSequence : UInt64)
  | previousRecordMismatch (sequence : UInt64)
  | canonicalRecordUnavailable
  | headMismatch (expected actual : RecordDigest)
  | staleWriter (expected actual : RecordDigest)
  | recordAlreadyExists (sequence : UInt64)
  | createRecord (sequence : UInt64)
  | writeRecord (sequence : UInt64)
  | syncRecord (sequence : UInt64)
  | contract (source : ContractError)
  | controlPolicyMismatch
  | runnerPolicyRevoked
  | certificationPolicyRevoked
  | freshnessChallengeReplayed
  | policyGenerationExhausted
  | nonMonotonicPolicyGeneration (expectedRunner actualRunner expectedCertification actualCertification : UInt64)

def recordFileDigits : Nat := 20

def recordFileSuffix : List Char := ['.', 'j', 's', 'o', 'n']

variable (sequence : UInt64)

def recordFilename : String := String.ofList (Decimal.padded recordFileDigits sequence.toNat ++ recordFileSuffix)

def stripSuffix (suffix chars : List Char) : Option (List Char) :=
  if suffix.isSuffixOf chars then some (chars.take (chars.length - suffix.length)) else none

def OsName.toStr : OsName → Option String
  | text value => some value
  | raw _ => none

def parseRecordFilename (name : OsName) : Option UInt64 := do
  let name ← name.toStr
  let digits ← stripSuffix recordFileSuffix name.toList
  if (digits.map Char.utf8Size).sum ≠ recordFileDigits ∨ !digits.all Char.isDigit then none
  else if 2 ^ 64 ≤ Decimal.value digits then none
  else
    let sequence := UInt64.ofNat (Decimal.value digits)
    if sequence = 0 ∨ recordFilename sequence ≠ name then none else some sequence

def validateLedgerRoot : LedgerRoot → Except LedgerError (List DirectoryEntry)
  | .missing => .error .inspectLedgerRoot
  | .unsafeRoot => .error .unsafeLedgerRoot
  | .directory entries => .ok entries

def LedgerRoot.contents : LedgerRoot → List (List UInt8)
  | directory entries => entries.map DirectoryEntry.content
  | _ => []

/-- The enumeration: every entry must be a plain file with a record's name. -/
def scanEntries : List DirectoryEntry → List (UInt64 × DirectoryEntry) →
    Except LedgerError (List (UInt64 × DirectoryEntry))
  | [], entries => .ok entries
  | entry :: rest, entries =>
    if entry.kind = .link ∨ entry.kind ≠ .file then .error (.unsafeLedgerEntry entry.name)
    else
      match parseRecordFilename entry.name with
      | none => .error (.unknownLedgerEntry entry.name)
      | some sequence =>
        if entries.length ≥ maxRecords then .error .tooManyRecords
        else scanEntries rest (entries ++ [(sequence, entry)])

def readRecordBytes (entry : DirectoryEntry) : Except LedgerError (List UInt8) :=
  if entry.kind = .link ∨ entry.kind ≠ .file then .error (.unsafeLedgerEntry entry.name)
  else if entry.content.length > maxRecordBytes then .error (.recordTooLarge sequence)
  else .ok entry.content

def sortEntries (entries : List (UInt64 × DirectoryEntry)) : List (UInt64 × DirectoryEntry) :=
  entries.insertionSort fun a b => a.1 ≤ b.1

def recordEntry (bytes : List UInt8) : DirectoryEntry := ⟨.text (recordFilename sequence), .file, bytes⟩

theorem stripSuffix_append (front suffix : List Char) : stripSuffix suffix (front ++ suffix) = some front := by
  rw [stripSuffix, if_pos (by simp), List.length_append, Nat.add_sub_cancel, List.take_left]

theorem parseRecordFilename_recordFilename {sequence : UInt64} (h : sequence ≠ 0) :
    parseRecordFilename (.text (recordFilename sequence)) = some sequence := by
  let digits := Decimal.padded recordFileDigits sequence.toNat
  have hBound := sequence.toNat_lt
  have hValue : Decimal.value digits = sequence.toNat := Decimal.value_padded (by simp [recordFileDigits]; omega)
  have hStrip : stripSuffix recordFileSuffix (recordFilename sequence).toList = some digits := by
    rw [recordFilename, String.toList_ofList, stripSuffix_append]
  have hSizes : digits.map Char.utf8Size = List.replicate recordFileDigits 1 := by
    rw [List.eq_replicate_iff, List.length_map]
    refine ⟨Decimal.length_padded _ _, ?_⟩
    intro size hSize
    obtain ⟨c, hMember, rfl⟩ := List.mem_map.1 hSize
    exact (Decimal.isDigit_padded hMember).2
  have hDigits : ∀ c ∈ digits, c.isDigit = true := fun c hMember => (Decimal.isDigit_padded hMember).1
  simpa [parseRecordFilename, OsName.toStr, hStrip, hSizes, hValue, h, Nat.not_le.2 hBound] using hDigits

theorem parseRecordFilename_eq_some {name : OsName} {sequence : UInt64} :
    parseRecordFilename name = some sequence ↔ sequence ≠ 0 ∧ name = .text (recordFilename sequence) := by
  constructor
  · intro h
    cases name with
    | raw bytes => cases h
    | text value =>
      simp only [parseRecordFilename, OsName.toStr, Option.bind_eq_bind, Option.bind_some] at h
      obtain ⟨digits, -, h⟩ := Option.bind_eq_some_iff.1 h
      split at h
      · cases h
      · split at h
        · cases h
        · split at h
          · cases h
          · next hNamed =>
            cases h
            rw [not_or, not_not] at hNamed
            exact ⟨hNamed.1, congrArg OsName.text hNamed.2.symm⟩
  · rintro ⟨hZero, rfl⟩
    exact parseRecordFilename_recordFilename hZero

theorem recordFilename_injective {sequence other : UInt64} (hSequence : sequence ≠ 0) (hOther : other ≠ 0)
    (h : recordFilename sequence = recordFilename other) : sequence = other := by
  have hParse := parseRecordFilename_recordFilename hSequence
  rw [h, parseRecordFilename_recordFilename hOther] at hParse
  exact (Option.some.inj hParse).symm

end Weregopher.LocalCertificationLedger
