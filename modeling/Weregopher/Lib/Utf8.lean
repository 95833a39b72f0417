import Weregopher.Lib.Bytes
import Weregopher.Lib.TextPosition

/-! # Texts and their UTF-8 bytes

A byte below 128 stands for the character with its number and is part of no other
character.
-/
namespace Lib.Bytes

variable (chars : List Char)

theorem utf8Bytes_ofList : utf8Bytes (String.ofList chars) = chars.flatMap String.utf8EncodeChar := by
  rw [utf8Bytes, String.toByteArray_ofList, List.utf8Encode]
  simp

theorem utf8Bytes_eq (text : String) : utf8Bytes text = text.toList.flatMap String.utf8EncodeChar := by
  rw [← utf8Bytes_ofList, String.ofList_toList]

theorem utf8Bytes_append (front back : String) : utf8Bytes (front ++ back) = utf8Bytes front ++ utf8Bytes back := by
  rw [utf8Bytes_eq, utf8Bytes_eq, utf8Bytes_eq, String.toList_append, List.flatMap_append]

theorem length_utf8Bytes (text : String) : (utf8Bytes text).length = text.utf8ByteSize := rfl

variable {byte : UInt8} {text : String} {bytes : List UInt8}

theorem mem_utf8EncodeChar {c : Char} (hByte : byte.toNat < 128) :
    byte ∈ String.utf8EncodeChar c ↔ c.toNat = byte.toNat := by
  have hChar : c.val.toNat = c.toNat := rfl
  simp only [String.utf8EncodeChar, hChar]
  split_ifs with hOne hTwo hThree
  · rw [List.mem_singleton, ← UInt8.toNat_inj, UInt8.toNat_ofNat']
    omega
  all_goals
    simp only [List.mem_cons, List.not_mem_nil, or_false, ← UInt8.toNat_inj, UInt8.toNat_ofNat']
    omega

theorem mem_utf8Bytes_ascii (hByte : byte.toNat < 128) :
    byte ∈ utf8Bytes text ↔ ∃ c ∈ text.toList, c.toNat = byte.toNat := by
  rw [utf8Bytes_eq, List.mem_flatMap]
  simp only [mem_utf8EncodeChar hByte]

def charBytes : List UInt8 := utf8Bytes (String.ofList chars)

theorem charBytes_append (front back : List Char) : charBytes (front ++ back) = charBytes front ++ charBytes back := by
  rw [charBytes, String.ofList_append, utf8Bytes_append]
  rfl

theorem length_charBytes : (charBytes chars).length = TextPosition.byteLength chars := by
  rw [charBytes, utf8Bytes_ofList, List.length_flatMap]
  simp only [String.length_utf8EncodeChar]
  rfl

theorem fromUTF8?_eq_some : String.fromUTF8? ⟨bytes.toArray⟩ = some text ↔ bytes = utf8Bytes text := by
  constructor
  · intro h
    rw [String.fromUTF8?] at h
    split at h
    · cases h
      rfl
    · cases h
  · rintro rfl
    exact dif_pos text.isValidUTF8

/-- `str::from_utf8`, as a list of characters. -/
def chars? (bytes : List UInt8) : Option (List Char) := (String.fromUTF8? ⟨bytes.toArray⟩).map String.toList

theorem chars?_charBytes : chars? (charBytes chars) = some chars := by
  rw [chars?, charBytes, fromUTF8?_eq_some.mpr rfl, Option.map_some, String.toList_ofList]

theorem chars?_eq_some {text : List Char} (h : chars? bytes = some text) : bytes = charBytes text := by
  rw [chars?, Option.map_eq_some_iff] at h
  obtain ⟨read, hRead, rfl⟩ := h
  rw [fromUTF8?_eq_some.mp hRead, charBytes, String.ofList_toList]

theorem charBytes_injective : Function.Injective charBytes := by
  intro front back h
  exact String.ofList_injective (utf8Bytes_injective h)

end Lib.Bytes
