import Weregopher.Certification.Documents
import Weregopher.Fingerprint.Acceptance

/-! # Manifest documents

The JSON form of a manifest. Reading builds the manifest again, under bounds on the
records and on the bytes of their paths that are checked record by record.
-/
namespace Weregopher.Fingerprint
open Lib Lib.Checked Lib.Json

def PackageFileKind.variants : List (String × PackageFileKind) :=
  [("regular", regular), ("asar", asar), ("native_module", nativeModule), ("executable", executable),
    ("symbolic_link", symbolicLink)]

theorem PackageFileKind.fromJson_toJson (kind : PackageFileKind) :
    unitVariant variants (variantToJson variants kind) = some kind := by
  cases kind <;> rfl

namespace PackageFileRecord

def names : List String := ["normalized_path", "size", "sha256", "executable", "kind", "signer_thumbprint"]

def toJson (record : PackageFileRecord) : Json :=
  .object [("normalized_path", .string record.normalizedPath), ("size", u64ToJson record.size),
    ("sha256", record.sha256.toJson), ("executable", .bool record.executable),
    ("kind", variantToJson PackageFileKind.variants record.kind),
    ("signer_thumbprint", (record.signerThumbprint.map Sha256Digest.toJson).getD .null)]

/-- An object may leave an optional field out, an array has all of them. -/
def fields : Json → Option (List (Option Json))
  | .array items => (structMembers names (.array items)).map fun parts => parts.map some
  | json => structFields names json

def fromJson (json : Json) : Option PackageFileRecord := do
  let [some path, some size, some sha256, some executable, some kind, signer] ← fields json | none
  let path ← text path
  let size ← u64FromJson size
  let sha256 ← Sha256Digest.fromJson sha256
  let executable ← boolean executable
  let kind ← unitVariant PackageFileKind.variants kind
  let signer ← nullable Sha256Digest.fromJson (signer.getD .null)
  return ⟨path, size, sha256, executable, kind, signer⟩

theorem fromJson_toJson (record : PackageFileRecord) : fromJson record.toJson = some record := by
  have hFields : structFields names record.toJson = some [_, _, _, _, _, _] :=
    structFields_object rfl (by decide)
  have hObject : fields record.toJson = structFields names record.toJson := rfl
  have hSigner : nullable Sha256Digest.fromJson
      ((record.signerThumbprint.map Sha256Digest.toJson).getD .null) = some record.signerThumbprint := by
    cases record.signerThumbprint with
    | none => rfl
    | some digest => exact congrArg (Option.map some) digest.fromJson_toJson
  simp only [fromJson, hObject, hFields, Option.bind_eq_bind, Option.bind_some, text, boolean, u64FromJson_toJson,
    Sha256Digest.fromJson_toJson, PackageFileKind.fromJson_toJson, Option.getD_some, hSigner]
  rfl

/-- Reads the items while there is room for one more record, with the bytes of the paths so far. -/
def visitSeq : Nat → Nat → List Json → Option (List PackageFileRecord)
  | _, _, [] => some []
  | 0, _, _ :: _ => none
  | room + 1, pathBytes, item :: items => do
    let record ← fromJson item
    let pathBytes ← checkedAdd usizeMax pathBytes record.normalizedPath.utf8ByteSize
    if pathBytes > maxPackageRecordPathBytes then none
    else (visitSeq room pathBytes items).map (record :: ·)

theorem visitSeq_toJson {files : List PackageFileRecord} {room pathBytes : Nat} (hRoom : files.length ≤ room)
    (hBytes : pathBytes + (files.map fun record => record.normalizedPath.utf8ByteSize).sum ≤
      maxPackageRecordPathBytes) :
    visitSeq room pathBytes (files.map toJson) = some files := by
  induction files generalizing room pathBytes with
  | nil => cases room <;> rfl
  | cons record files ih =>
    obtain ⟨room, rfl⟩ := Nat.exists_eq_add_one.mpr (Nat.lt_of_lt_of_le (Nat.succ_pos _) hRoom)
    rw [List.map_cons, List.sum_cons, ← Nat.add_assoc] at hBytes
    have hNext := Nat.le_trans (Nat.le_add_right _ _) hBytes
    have hAdd : checkedAdd usizeMax pathBytes record.normalizedPath.utf8ByteSize = some _ :=
      checkedAdd_eq_some.mpr ⟨Nat.le_trans hNext (by decide), rfl⟩
    simp only [List.map_cons, visitSeq, fromJson_toJson, hAdd, Option.bind_eq_bind, Option.bind_some,
      if_neg (Nat.not_lt.mpr hNext), ih (Nat.le_of_succ_le_succ hRoom) hBytes, Option.map_some]

end PackageFileRecord

namespace PackageTreeManifest

def names : List String := ["format_version", "package_tree_merkle", "files"]

def toJson (manifest : PackageTreeManifest) : Json :=
  .object [("format_version", .integer manifest.formatVersion.toNat),
    ("package_tree_merkle", manifest.packageTreeMerkle.toJson),
    ("files", .array (manifest.files.map PackageFileRecord.toJson))]

def uncheckedFromJson (json : Json) : Option PackageTreeManifest := do
  let [version, root, .array files] ← structMembers names json | none
  let version ← natural (2 ^ 16) version
  let root ← Sha256Digest.fromJson root
  let files ← PackageFileRecord.visitSeq maxPackageFileRecords 0 files
  return ⟨UInt16.ofNat version, root, files⟩

section

variable (sha256 : Sha256) (lowercase : String → String)

def fromJson (json : Json) : Option PackageTreeManifest := do
  let unchecked ← uncheckedFromJson json
  (readPackageManifest sha256 lowercase unchecked).toOption

variable {sha256 lowercase} {manifest : PackageTreeManifest}

theorem uncheckedFromJson_toJson (h : Acceptable lowercase manifest.files) :
    uncheckedFromJson manifest.toJson = some manifest := by
  have hMembers : structMembers names manifest.toJson = some [_, _, .array _] :=
    structMembers_object rfl (by decide)
  have hFiles := PackageFileRecord.visitSeq_toJson h.count (Nat.le_trans (Nat.zero_add _).le h.pathBytes)
  simp only [uncheckedFromJson, hMembers, Option.bind_eq_bind, Option.bind_some,
    natural_integer manifest.formatVersion.toNat_lt, Sha256Digest.fromJson_toJson, hFiles, UInt16.ofNat_toNat]
  rfl

theorem fromJson_eq_some {json : Json} :
    fromJson sha256 lowercase json = some manifest ↔ uncheckedFromJson json = some manifest ∧
      buildPackageManifest sha256 lowercase manifest.files = .ok manifest := by
  rw [fromJson, Option.bind_eq_bind, Option.bind_eq_some_iff]
  constructor
  · rintro ⟨unchecked, hUnchecked, hRead⟩
    cases hResult : readPackageManifest sha256 lowercase unchecked with
    | error => simp [hResult, Except.toOption] at hRead
    | ok result =>
      obtain ⟨rfl, hBuild⟩ := readPackageManifest_ok.mp hResult
      obtain rfl : result = manifest := by simpa [hResult, Except.toOption] using hRead
      exact ⟨hUnchecked, hBuild⟩
  · rintro ⟨hUnchecked, hBuild⟩
    exact ⟨manifest, hUnchecked, by rw [readPackageManifest_ok.mpr ⟨rfl, hBuild⟩]; rfl⟩

end

/-- A built manifest is read back from its document. A document is accepted where its records are in the
builder's order and its root is the one built from them. -/
theorem document_accepted_iff_built (sha256 : Sha256) (lowercase : String → String) :
    (∀ files manifest, buildPackageManifest sha256 lowercase files = .ok manifest →
      fromJson sha256 lowercase manifest.toJson = some manifest) ∧
    ∀ json manifest, fromJson sha256 lowercase json = some manifest →
      uncheckedFromJson json = some manifest ∧ sortRecords manifest.files = manifest.files ∧
        buildPackageManifest sha256 lowercase manifest.files = .ok manifest := by
  constructor
  · intro files manifest hBuild
    have hFiles : manifest.files = sortRecords files := by
      obtain ⟨-, state, -, rfl⟩ := buildPackageManifest_ok.mp hBuild
      rfl
    have hAgain : buildPackageManifest sha256 lowercase manifest.files = .ok manifest := by
      rw [hFiles]
      exact buildPackageManifest_perm (sortRecords_perm files).symm hBuild
    exact fromJson_eq_some.mpr ⟨uncheckedFromJson_toJson (acceptable_iff.mp ⟨manifest, hAgain⟩), hAgain⟩
  · intro json manifest hRead
    obtain ⟨hUnchecked, hBuild⟩ := fromJson_eq_some.mp hRead
    obtain ⟨-, state, -, hManifest⟩ := buildPackageManifest_ok.mp hBuild
    exact ⟨hUnchecked, congrArg PackageTreeManifest.files hManifest, hBuild⟩

theorem sample_read_back :
    fromJson Sample.sha256 String.toLower Sample.manifest.toJson = some Sample.manifest ∧
      sortRecords Sample.manifest.files = Sample.manifest.files := by
  have hBuild : buildPackageManifest Sample.sha256 String.toLower [Sample.readme, Sample.tool] =
      .ok Sample.manifest := by
    decide +kernel
  have hDocuments := document_accepted_iff_built Sample.sha256 String.toLower
  have hRead := hDocuments.1 _ _ hBuild
  exact ⟨hRead, (hDocuments.2 _ _ hRead).2.1⟩

end PackageTreeManifest

end Weregopher.Fingerprint
