import Weregopher.Lib.Bytes
import Weregopher.Lib.Decimal

/-! # SHA-256 identities

The hash itself is a parameter of every model that uses it. Where a result
needs that hashes tell documents apart, it asks so only of the documents at
hand: no function into 32 bytes is injective on all byte strings.
-/
namespace Weregopher
open Lib.Decimal

structure Sha256Digest where
  bytes : Vector UInt8 32
  deriving DecidableEq

abbrev Sha256 := List UInt8 → Sha256Digest

def Sha256Digest.ofNat (value : Nat) : Sha256Digest := ⟨⟨(Lib.Bytes.toBeBytes 32 value).toArray, by simp⟩⟩

def CollisionFreeOn (sha256 : Sha256) (documents : Set (List UInt8)) : Prop := Set.InjOn sha256 documents

inductive Sha256DigestError
  | missingPrefix
  | invalidLength (actual : Nat)
  | uppercaseHex
  | invalidHex

namespace Sha256Digest

def textPrefix : List Char := ['s', 'h', 'a', '2', '5', '6', ':']

variable (bytes : List UInt8)

def encodeHex : List Char := bytes.flatMap fun byte => [hexDigit (byte.toNat / 16), hexDigit (byte.toNat % 16)]

def decodeHex : List Char → Option (List UInt8)
  | [] => some []
  | [_] => none
  | high :: low :: rest => do
    let h ← hexValue high
    let l ← hexValue low
    let bytes ← decodeHex rest
    return UInt8.ofNat (16 * h + l) :: bytes

/-- `Display`, which is also the serialized form. -/
def toText (digest : Sha256Digest) : String := String.ofList (textPrefix ++ encodeHex digest.bytes.toList)

/-- `FromStr`. Lengths are in bytes of the text. -/
def fromStr (value : String) : Except Sha256DigestError Sha256Digest :=
  if textPrefix.isPrefixOf value.toList then
    let hex := value.toList.drop textPrefix.length
    let length := (hex.map Char.utf8Size).sum
    if length ≠ 64 then .error (.invalidLength length)
    else if hex.any Char.isUpper then .error .uppercaseHex
    else
      match decodeHex hex with
      | none => .error .invalidHex
      | some bytes => if h : bytes.length = 32 then .ok ⟨⟨bytes.toArray, h⟩⟩ else .error .invalidHex
  else
    .error .missingPrefix

theorem decodeHex_encodeHex : decodeHex (encodeHex bytes) = some bytes := by
  induction bytes with
  | nil => rfl
  | cons byte rest ih =>
    have hByte := byte.toNat_lt
    obtain ⟨hHigh, -⟩ := hexDigit_spec (byte.toNat / 16) (by omega)
    obtain ⟨hLow, -⟩ := hexDigit_spec (byte.toNat % 16) (by omega)
    have hJoin : 16 * (byte.toNat / 16) + byte.toNat % 16 = byte.toNat := Nat.div_add_mod ..
    change decodeHex (hexDigit (byte.toNat / 16) :: hexDigit (byte.toNat % 16) :: encodeHex rest) = _
    simp only [decodeHex, hHigh, hLow, ih, Option.bind_eq_bind, Option.bind_some, hJoin, UInt8.ofNat_toNat]
    rfl

theorem length_encodeHex : (encodeHex bytes).length = 2 * bytes.length := by
  induction bytes with
  | nil => rfl
  | cons byte rest ih =>
    rw [encodeHex, List.flatMap_cons, List.length_append]
    change 2 + (encodeHex rest).length = _
    rw [ih, List.length_cons]
    omega

theorem encodeHex_ascii :
    ((encodeHex bytes).map Char.utf8Size).sum = 2 * bytes.length ∧ (encodeHex bytes).any Char.isUpper = false := by
  induction bytes with
  | nil => exact ⟨rfl, rfl⟩
  | cons byte rest ih =>
    have hByte := byte.toNat_lt
    obtain ⟨-, hHigh⟩ := hexDigit_spec (byte.toNat / 16) (by omega)
    obtain ⟨-, hLow⟩ := hexDigit_spec (byte.toNat % 16) (by omega)
    change ((hexDigit (byte.toNat / 16) :: hexDigit (byte.toNat % 16) :: encodeHex rest).map _).sum = _ ∧
      (hexDigit (byte.toNat / 16) :: hexDigit (byte.toNat % 16) :: encodeHex rest).any _ = _
    simp only [List.map_cons, List.sum_cons, List.any_cons, hHigh, hLow, ih, List.length_cons, Bool.or_self]
    exact ⟨by omega, trivial⟩

theorem fromStr_toText (digest : Sha256Digest) : fromStr digest.toText = .ok digest := by
  have hLength : digest.bytes.toList.length = 32 := by simp
  obtain ⟨hSize, hLower⟩ := encodeHex_ascii digest.bytes.toList
  have hPrefix : textPrefix.isPrefixOf (textPrefix ++ encodeHex digest.bytes.toList) = true := by
    simp
  have hArray : digest.bytes.toList.toArray = digest.bytes.toArray := digest.bytes.toArray.toArray_toList
  simp only [fromStr, toText, String.toList_ofList, hPrefix, if_true, List.drop_left, hSize, hLength, hLower,
    decodeHex_encodeHex, hArray]
  rfl

end Sha256Digest

end Weregopher
