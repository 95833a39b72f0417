import Weregopher.Asar.Layout

/-! # The frame around a header

The text of a header stands between its lengths and the bytes of the members.
-/
namespace Weregopher.Asar
open Lib Lib.Json Lib.Bytes Lib.Outcome

def framed (json body : List UInt8) : List UInt8 :=
  toLeBytes 4 asarMagic ++ toLeBytes 4 ((pad json).length + 8) ++ toLeBytes 4 ((pad json).length + 4) ++
    toLeBytes 4 json.length ++ pad json ++ body

variable (sha256 : Sha256)

/-- JSON text without blanks, read up to the nesting the JSON reader allows. -/
def referenceLibrary : AsarLibrary where
  toVec json := some (Json.compactBytes json)
  fromSlice bytes := (Json.readBytes bytes).filter (Json.depth · ≤ 127)
  maxDepth := 127
  sha256 := sha256

theorem referenceLibrary_shallow (bytes : List UInt8) (json : Json)
    (h : (referenceLibrary sha256).fromSlice bytes = some json) : json.depth ≤ 127 :=
  of_decide_eq_true (Option.filter_eq_some_iff.mp h).2

theorem referenceLibrary_compactBytes {json : Json} (hPlain : json.plain = true)
    (hDepth : json.depth ≤ 127) : (referenceLibrary sha256).fromSlice (Json.compactBytes json) = some json := by
  simp [referenceLibrary, Json.readBytes_compactBytes hPlain, Option.filter_some, hDepth]

theorem verifyIntegrity_forBytes (library : AsarLibrary) (bytes : List UInt8) :
    verifyIntegrity library bytes (Integrity.forBytes library bytes) = .ok () := by
  simp [verifyIntegrity, Integrity.forBytes]

/-- A reader that knows more texts reads the header of no archive differently. -/
theorem parseHeader_of_reads {library other : AsarLibrary} {bytes : List UInt8} {limits : AsarLimits}
    {header : ParsedHeader}
    (hReads : ∀ text json, other.fromSlice text = some json → library.fromSlice text = some json)
    (hOther : parseHeader other bytes limits = .ok header) : parseHeader library bytes limits = .ok header := by
  have hRoot {text : List UInt8} {root : InputDirectory} (hRead : readRoot other text = .ok root) :
      readRoot library text = .ok root := by
    rw [readRoot] at hRead ⊢
    cases hText : other.fromSlice text with
    | none => simp [hText] at hRead
    | some json =>
      rw [hText] at hRead
      rw [hReads text json hText]
      exact hRead
  rw [parseHeader] at hOther ⊢
  simp only [guard_ok, bind_ok] at hOther ⊢
  obtain ⟨hLong, magic, hMagic, outer, hOuter, inner, hInner, json, hJson, hSizes, hFour, hPadded, start, hStart,
    hRoom, stop, hStop, text, hText, padding, hPadding, hZero, root, hRead, hHeader⟩ := hOther
  exact ⟨hLong, magic, hMagic, outer, hOuter, inner, hInner, json, hJson, hSizes, hFour, hPadded, start, hStart,
    hRoom, stop, hStop, text, hText, padding, hPadding, hZero, root, hRoot hRead, hHeader⟩

namespace Sample

def emptyDigest : Sha256Digest := .ofNat 0xe3b0c44298fc1c149afbf4c8996fb92427ae41e4649b934ca495991b7852b855

def letterDigest : Sha256Digest := .ofNat 0xca978112ca1bbdcafac231b39a23dc4da786eff8147c4e72b9807785afee48bb

/-- The library, on archives whose members are empty or the letter `a`. -/
def letterLibrary : AsarLibrary := referenceLibrary fun bytes => if bytes = [] then emptyDigest else letterDigest

def outputFile (offset : Nat) (bytes : List UInt8) : OutputFile where
  size := UInt64.ofNat bytes.length
  offset := String.ofList (naturalText offset)
  executable := false
  integrity := Integrity.forBytes letterLibrary bytes

end Sample

end Weregopher.Asar
