import Weregopher.Lib.MsgPack

/-! # Reading and writing MessagePack heads

No byte string has two values: a head is determined by the bytes it begins.
Every value whose lengths fit has an encoding, in the shortest formats.
-/
namespace Lib.MsgPack
open Lib.Bytes

def parseUnsigned (width : Nat) (bytes : List UInt8) : Nat × List UInt8 :=
  (fromBeBytes (bytes.take width), bytes.drop width)

def parseBody (width : Nat) (bytes : List UInt8) : List UInt8 × List UInt8 :=
  let (length, rest) := parseUnsigned width bytes
  (rest.take length, rest.drop length)

/-- An extension of the given length: its type, then its body. -/
def parseExtension (length : Nat) (bytes : List UInt8) : Option (Head × List UInt8) :=
  bytes.head?.map fun type => (.ext type (bytes.tail.take length), bytes.tail.drop length)

namespace Head

def parse : List UInt8 → Option (Head × List UInt8)
  | [] => none
  | marker :: rest =>
    let m := marker.toNat
    if m < 0x80 then some (.int m, rest)
    else if m < 0x90 then some (.map (m - 0x80), rest)
    else if m < 0xa0 then some (.array (m - 0x90), rest)
    else if m < 0xc0 then some (.str (rest.take (m - 0xa0)), rest.drop (m - 0xa0))
    else if m < 0xc1 then some (.nil, rest)
    else if m < 0xc2 then none
    else if m < 0xc4 then some (.bool (m = 0xc3), rest)
    else if m < 0xc7 then
      let (body, rest) := parseBody (2 ^ (m - 0xc4)) rest
      some (.bin body, rest)
    else if m < 0xca then
      let (length, rest) := parseUnsigned (2 ^ (m - 0xc7)) rest
      parseExtension length rest
    else if m < 0xcc then
      let width := 4 * 2 ^ (m - 0xca)
      some (.float (rest.take width), rest.drop width)
    else if m < 0xd0 then
      let (value, rest) := parseUnsigned (2 ^ (m - 0xcc)) rest
      some (.int value, rest)
    else if m < 0xd4 then
      let (value, rest) := parseUnsigned (2 ^ (m - 0xd0)) rest
      some (.int (twosComplement (2 ^ (m - 0xd0)) value), rest)
    else if m < 0xd9 then
      parseExtension (2 ^ (m - 0xd4)) rest
    else if m < 0xdc then
      let (body, rest) := parseBody (2 ^ (m - 0xd9)) rest
      some (.str body, rest)
    else if m < 0xde then
      let (length, rest) := parseUnsigned (2 * 2 ^ (m - 0xdc)) rest
      some (.array length, rest)
    else if m < 0xe0 then
      let (entries, rest) := parseUnsigned (2 * 2 ^ (m - 0xde)) rest
      some (.map entries, rest)
    else some (.int ((m - 0xe0 : Nat) - 32), rest)

end Head

section

variable {rest body : List UInt8} {width n : Nat}

theorem parseUnsigned_append (h : n < 256 ^ width) :
    parseUnsigned width (toBeBytes width n ++ rest) = (n, rest) := by
  have hLength := toBeBytes_length width n
  rw [parseUnsigned, List.take_left' hLength, List.drop_left' hLength, fromBeBytes_toBeBytes h]

theorem parseBody_append (h : body.length < 256 ^ width) :
    parseBody width (toBeBytes width body.length ++ (body ++ rest)) = (body, rest) := by
  rw [parseBody, parseUnsigned_append h]
  exact Prod.ext List.take_left List.drop_left

theorem parseExtension_append {type : UInt8} {length : Nat} (h : body.length = length) :
    parseExtension length (type :: (body ++ rest)) = some (.ext type body, rest) := by
  subst h
  simp only [parseExtension, List.head?_cons, Option.map_some, List.tail_cons, List.take_left, List.drop_left]

end

namespace LengthFamily

theorem Header.parse_append {family : LengthFamily} {n : Nat} {header rest : List UInt8} {head : Head}
    {tail : List UInt8} (h : family.Header n header)
    (hShort : n < family.shortCount → Head.parse (UInt8.ofNat (family.shortBase + n) :: rest) = some (head, tail))
    (hWide : ∀ marker width, family.Wide marker width → n < 256 ^ width →
      Head.parse (marker :: (toBeBytes width n ++ rest)) = some (head, tail)) :
    Head.parse (header ++ rest) = some (head, tail) := by
  rcases header_iff.mp h with ⟨hn, rfl⟩ | ⟨marker, width, hMarker, hn, rfl⟩
  · exact hShort hn
  · exact hWide marker width hMarker hn

end LengthFamily

namespace Head

theorem toNat_short {base n count : Nat} (h : n < count) (hCount : base + count ≤ 256) :
    (UInt8.ofNat (base + n)).toNat = base + n := by
  rw [UInt8.toNat_ofNat']
  omega

theorem parse_wide {family : LengthFamily} {marker : UInt8} {width : Nat} {bytes : List UInt8}
    (arm : Nat → Option (Head × List UInt8)) (h : family.Wide marker width)
    (hByte : ∀ marker, family.byte = some marker → parse (marker :: bytes) = arm 1)
    (hWord : parse (family.word :: bytes) = arm 2) (hLong : parse (family.long :: bytes) = arm 4) :
    parse (marker :: bytes) = arm width := by
  rcases h with ⟨hMarker, rfl⟩ | ⟨rfl, rfl⟩ | ⟨rfl, rfl⟩
  · exact hByte marker hMarker
  · exact hWord
  · exact hLong

variable {body header rest front : List UInt8} {head : Head}

theorem parse_str (h : LengthFamily.str.Header body.length header) :
    parse (header ++ (body ++ rest)) = some (.str body, rest) := by
  refine h.parse_append (fun hShort => ?_) fun marker width hWide hLength => ?_
  · have hBound : body.length < 32 := hShort
    have hMarker : (UInt8.ofNat (0xa0 + body.length)).toNat = 0xa0 + body.length := toNat_short hBound (by decide)
    change parse (UInt8.ofNat (0xa0 + body.length) :: (body ++ rest)) = _
    simp only [parse, hMarker]
    rw [if_neg (by omega), if_neg (by omega), if_neg (by omega), if_pos (by omega), Nat.add_sub_cancel_left,
      List.take_left, List.drop_left]
  · rw [parse_wide (fun width => some (.str (parseBody width _).1, (parseBody width _).2)) hWide ?_ rfl rfl,
      parseBody_append hLength]
    rintro _ ⟨⟩
    rfl

theorem parse_bin (h : LengthFamily.bin.Header body.length header) :
    parse (header ++ (body ++ rest)) = some (.bin body, rest) := by
  refine h.parse_append (fun hShort => absurd hShort (Nat.not_lt_zero _)) fun marker width hWide hLength => ?_
  rw [parse_wide (fun width => some (.bin (parseBody width _).1, (parseBody width _).2)) hWide ?_ rfl rfl,
    parseBody_append hLength]
  rintro _ ⟨⟩
  rfl

theorem parse_ext {type : UInt8} (h : LengthFamily.ext.Header body.length header) :
    parse (header ++ (type :: (body ++ rest))) = some (.ext type body, rest) := by
  refine h.parse_append (fun hShort => absurd hShort (Nat.not_lt_zero _)) fun marker width hWide hLength => ?_
  have hArm (bytes : List UInt8) : parse (marker :: bytes) =
      parseExtension (parseUnsigned width bytes).1 (parseUnsigned width bytes).2 := by
    refine parse_wide (fun width => parseExtension (parseUnsigned width bytes).1 (parseUnsigned width bytes).2)
      hWide ?_ rfl rfl
    rintro _ ⟨⟩
    rfl
  rw [hArm, parseUnsigned_append hLength, parseExtension_append rfl]

theorem parse_array {length : Nat} (h : LengthFamily.array.Header length header) :
    parse (header ++ rest) = some (.array length, rest) := by
  refine h.parse_append (fun hShort => ?_) fun marker width hWide hLength => ?_
  · have hBound : length < 16 := hShort
    have hMarker : (UInt8.ofNat (0x90 + length)).toNat = 0x90 + length := toNat_short hBound (by decide)
    change parse (UInt8.ofNat (0x90 + length) :: rest) = _
    simp only [parse, hMarker]
    rw [if_neg (by omega), if_neg (by omega), if_pos (by omega), Nat.add_sub_cancel_left]
  · rw [parse_wide (fun width => some (.array (parseUnsigned width _).1, (parseUnsigned width _).2)) hWide nofun
      rfl rfl, parseUnsigned_append hLength]

theorem parse_map {entries : Nat} (h : LengthFamily.map.Header entries header) :
    parse (header ++ rest) = some (.map entries, rest) := by
  refine h.parse_append (fun hShort => ?_) fun marker width hWide hLength => ?_
  · have hBound : entries < 16 := hShort
    have hMarker : (UInt8.ofNat (0x80 + entries)).toNat = 0x80 + entries := toNat_short hBound (by decide)
    change parse (UInt8.ofNat (0x80 + entries) :: rest) = _
    simp only [parse, hMarker]
    rw [if_neg (by omega), if_pos (by omega), Nat.add_sub_cancel_left]
  · rw [parse_wide (fun width => some (.map (parseUnsigned width _).1, (parseUnsigned width _).2)) hWide nofun
      rfl rfl, parseUnsigned_append hLength]

theorem Encodes.parse_append (h : head.Encodes front)
    (rest : List UInt8) : parse (front ++ rest) = some (head, rest) := by
  cases h with
  | nil | false | true => rfl
  | positiveFixint n h =>
    have hMarker : (UInt8.ofNat n).toNat = n := by rw [UInt8.toNat_ofNat']; omega
    simp only [List.singleton_append, parse, hMarker, if_pos h]
  | negativeFixint n h =>
    interval_cases n <;> rfl
  | uint e n he h =>
    have hNumber : parseUnsigned (2 ^ e) (toBeBytes (2 ^ e) n ++ rest) = (n, rest) := parseUnsigned_append h
    have hArm : parse (UInt8.ofNat (0xcc + e) :: (toBeBytes (2 ^ e) n ++ rest)) =
        some (.int (parseUnsigned (2 ^ e) (toBeBytes (2 ^ e) n ++ rest)).1,
          (parseUnsigned (2 ^ e) (toBeBytes (2 ^ e) n ++ rest)).2) := by
      interval_cases e <;> rfl
    rw [List.cons_append, hArm, hNumber]
  | int e n he h =>
    have hNumber : parseUnsigned (2 ^ e) (toBeBytes (2 ^ e) n ++ rest) = (n, rest) := parseUnsigned_append h
    have hArm : parse (UInt8.ofNat (0xd0 + e) :: (toBeBytes (2 ^ e) n ++ rest)) =
        some (.int (twosComplement (2 ^ e) (parseUnsigned (2 ^ e) (toBeBytes (2 ^ e) n ++ rest)).1),
          (parseUnsigned (2 ^ e) (toBeBytes (2 ^ e) n ++ rest)).2) := by
      interval_cases e <;> rfl
    rw [List.cons_append, hArm, hNumber]
  | float e bits he h =>
    have hArm : parse (UInt8.ofNat (0xca + e) :: (bits ++ rest)) =
        some (.float ((bits ++ rest).take (4 * 2 ^ e)), (bits ++ rest).drop (4 * 2 ^ e)) := by
      interval_cases e <;> rfl
    rw [List.cons_append, hArm, List.take_left' h, List.drop_left' h]
  | str h => rw [List.append_assoc, parse_str h]
  | bin h => rw [List.append_assoc, parse_bin h]
  | fixext e type body he h =>
    have hArm : parse (UInt8.ofNat (0xd4 + e) :: type :: (body ++ rest)) =
        parseExtension (2 ^ e) (type :: (body ++ rest)) := by
      interval_cases e <;> rfl
    rw [List.cons_append, List.cons_append, hArm, parseExtension_append h]
  | ext type h => rw [List.append_assoc, List.cons_append, parse_ext h]
  | array h => exact parse_array h
  | map h => exact parse_map h

theorem Encodes.unique {head' : Head} {front' rest' : List UInt8} (h : head.Encodes front)
    (h' : head'.Encodes front') (hBytes : front ++ rest = front' ++ rest') :
    head = head' ∧ front = front' ∧ rest = rest' := by
  have hParse := h.parse_append rest
  rw [hBytes, h'.parse_append rest'] at hParse
  cases hParse
  exact ⟨rfl, List.append_cancel_right hBytes, rfl⟩

end Head

mutual

theorem Encodes.unique : ∀ {value value' : Value} {front front' rest rest' : List UInt8},
    Encodes value front → Encodes value' front' → front ++ rest = front' ++ rest' →
      value = value' ∧ front = front' ∧ rest = rest'
  | _, _, _, _, _, _, .node hHead hArity hChildren, .node hHead' hArity' hChildren', hBytes => by
    rw [List.append_assoc, List.append_assoc] at hBytes
    obtain ⟨rfl, rfl, hBack⟩ := hHead.unique hHead' hBytes
    obtain ⟨rfl, rfl, rfl⟩ := hChildren.unique hChildren' (hArity.trans hArity'.symm) hBack
    exact ⟨rfl, rfl, rfl⟩

theorem EncodesAll.unique : ∀ {values values' : List Value} {front front' rest rest' : List UInt8},
    EncodesAll values front → EncodesAll values' front' → values.length = values'.length →
      front ++ rest = front' ++ rest' → values = values' ∧ front = front' ∧ rest = rest'
  | _, _, _, _, _, _, .nil, .nil, _, hBytes => ⟨rfl, rfl, hBytes⟩
  | _, _, _, _, _, _, .cons hValue hRest, .cons hValue' hRest', hLength, hBytes => by
    rw [List.append_assoc, List.append_assoc] at hBytes
    obtain ⟨rfl, rfl, hBack⟩ := hValue.unique hValue' hBytes
    obtain ⟨rfl, rfl, rfl⟩ := hRest.unique hRest' (Nat.succ.inj hLength) hBack
    exact ⟨rfl, rfl, rfl⟩

end

end Lib.MsgPack
