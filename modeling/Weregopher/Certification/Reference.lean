import Weregopher.Certification.Documents
import Weregopher.Lib.JsonReader

/-! # The libraries that write and read documents

Compact JSON text and hyphenated UUIDs, with SHA-256 left as a parameter. No
document has a fraction in it.
-/
namespace Weregopher
open Lib.Json Lib.Bytes
namespace Uuid

def hyphenate (hex : List Char) : List Char :=
  hex.take 8 ++ '-' :: ((hex.drop 8).take 4 ++ '-' :: ((hex.drop 12).take 4 ++ '-' :: ((hex.drop 16).take 4 ++
    '-' :: hex.drop 20)))

def toText (uuid : Uuid) : String := String.ofList (hyphenate (Sha256Digest.encodeHex (toBeBytes 16 uuid.toNat)))

def fromText (text : String) : Option Uuid :=
  let hex := text.toList.filter (· ≠ '-')
  if hyphenate hex ≠ text.toList then none
  else
    match Sha256Digest.decodeHex hex with
    | none => none
    | some bytes => if bytes.length ≠ 16 then none else some (BitVec.ofNat 128 (fromBeBytes bytes))

theorem filter_hyphenate {hex : List Char} (h : ∀ c ∈ hex, c ≠ '-') : (hyphenate hex).filter (· ≠ '-') = hex := by
  have hKeep : ∀ part : List Char, (∀ c ∈ part, c ∈ hex) → part.filter (· ≠ '-') = part := by
    intro part hPart
    refine List.filter_eq_self.2 fun c hc => ?_
    simpa using h c (hPart c hc)
  have hTake : ∀ m n, ((hex.drop m).take n).filter (· ≠ '-') = (hex.drop m).take n :=
    fun m n => hKeep _ fun c hc => List.mem_of_mem_drop (List.mem_of_mem_take hc)
  have hHead : (hex.take 8).filter (· ≠ '-') = hex.take 8 := hKeep _ fun c hc => List.mem_of_mem_take hc
  have hTail : (hex.drop 20).filter (· ≠ '-') = hex.drop 20 := hKeep _ fun c hc => List.mem_of_mem_drop hc
  have hDrop : ∀ m n, (hex.drop m).take n ++ hex.drop (m + n) = hex.drop m := by
    intro m n
    rw [← List.drop_drop, List.take_append_drop]
  simp only [hyphenate, List.filter_append, List.filter_cons, hHead, hTake, hTail, ne_eq, not_true_eq_false,
    decide_false, Bool.false_eq_true, if_false]
  rw [hDrop 16 4, hDrop 12 4, hDrop 8 4, List.take_append_drop]

theorem encodeHex_ne_hyphen (bytes : List UInt8) : ∀ c ∈ Sha256Digest.encodeHex bytes, c ≠ '-' := by
  have hDigit : ∀ n < 16, Lib.Decimal.hexDigit n ≠ '-' := by decide
  intro c hc
  obtain ⟨byte, -, hByte⟩ := List.mem_flatMap.1 hc
  have hBound := byte.toNat_lt
  rcases List.mem_cons.1 hByte with rfl | hByte
  · exact hDigit _ (by omega)
  · rw [List.mem_singleton.1 hByte]
    exact hDigit _ (by omega)

theorem fromText_toText (uuid : Uuid) : fromText uuid.toText = some uuid := by
  have hFilter := filter_hyphenate (encodeHex_ne_hyphen (toBeBytes 16 uuid.toNat))
  rw [fromText, toText, String.toList_ofList]
  simp only [hFilter, ne_eq, not_true_eq_false, if_false, Sha256Digest.decodeHex_encodeHex, toBeBytes_length]
  rw [fromBeBytes_toBeBytes (Nat.lt_of_lt_of_eq uuid.isLt (by decide)), BitVec.ofNat_toNat, BitVec.setWidth_eq]

end Uuid

def referenceLibrary (sha256 : Sha256) : DocumentLibrary where
  toVec json := some (compactBytes json)
  fromSlice := readBytes
  uuidToText := Uuid.toText
  uuidFromText := Uuid.fromText
  sha256

theorem uuidFromText_uuidToText (sha256 : Sha256) (uuid : Uuid) :
    (referenceLibrary sha256).uuidFromText ((referenceLibrary sha256).uuidToText uuid) = some uuid := by
  dsimp only [referenceLibrary]
  exact Uuid.fromText_toText uuid

@[simp] theorem plain_variantToJson {α : Type} [DecidableEq α] (variants : List (String × α)) (value : α) :
    plain (variantToJson variants value) = true := by
  rw [variantToJson]
  cases variants.find? _ <;> rfl

theorem Sha256Digest.textBound_toJson (digest : Sha256Digest) : textBound digest.toJson = 428 := by
  rw [toJson, textBound, toText, String.length_ofList, List.length_append, length_encodeHex, Vector.length_toList]
  rfl

@[simp] theorem CertificationArtifactRef.plain_toJson (reference : CertificationArtifactRef) :
    plain reference.toJson = true := by
  simp [toJson, plain, plainMembers, Sha256Digest.toJson]

@[simp] theorem CertificationControlPolicy.plain_toJson (policy : CertificationControlPolicy) :
    plain policy.toJson = true := by
  simp [toJson, CertificationRunRunnerIdentity.toJson, CertificationTarget.toJson, plain, plainMembers,
    Sha256Digest.toJson, u64ToJson]

@[simp] theorem LocalCertificationRunAttestation.plain_toJson {library : DocumentLibrary}
    (attestation : LocalCertificationRunAttestation) : plain (attestation.toJson library) = true := by
  simp [toJson, CertificationRunFreshness.toJson, CertificationRunRunnerIdentity.toJson,
    CertificationRunResultIdentity.toJson, CertificationTarget.toJson, plain, plainMembers, Sha256Digest.toJson,
    uuidToJson, u64ToJson, u32ToJson, formatVersion]

end Weregopher
