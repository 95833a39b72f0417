import Weregopher.Lib.MsgPack
import Weregopher.Lib.Outcome
import Weregopher.Protocol.Inspect

/-! # One value of the preflight against the MessagePack formats

A cursor operation succeeds exactly when the unread bytes begin with what it reads.
Reading one value succeeds exactly on the formats of a head that the limits permit,
and announces the children of that head.
-/
namespace Weregopher.Protocol
open Lib.Bytes Lib.Checked Lib.MsgPack Lib.Outcome
namespace MessagePackCursor

def unread (cursor : MessagePackCursor) : List UInt8 := cursor.bytes.drop cursor.offset

structure Reads (cursor : MessagePackCursor) (front : List UInt8) (next : MessagePackCursor) : Prop where
  bytes_eq : next.bytes = cursor.bytes
  offset_eq : next.offset = cursor.offset + front.length
  unread_eq : cursor.unread = front ++ next.unread

variable {cursor next : MessagePackCursor} {front back : List UInt8} {limits : ProtocolLimits}

theorem length_unread : cursor.unread.length = cursor.bytes.length - cursor.offset := List.length_drop

theorem exists_reads {rest : List UInt8} (h : cursor.unread = front ++ rest) :
    ∃ next, cursor.Reads front next ∧ next.unread = rest := by
  have hLength := congrArg List.length h
  have hOffset := cursor.offset_le
  rw [length_unread, List.length_append] at hLength
  have hRest : cursor.bytes.drop (cursor.offset + front.length) = rest := by
    rw [← List.drop_drop, ← unread, h, List.drop_left]
  refine ⟨⟨cursor.bytes, cursor.offset + front.length, by omega, cursor.length_le⟩, ⟨rfl, rfl, ?_⟩, hRest⟩
  rw [h, unread, hRest]

variable {last middle : MessagePackCursor} {byte : UInt8} {length children entries : Nat} {body header : List UInt8}
  {head : Head}

theorem Reads.trans (hFront : cursor.Reads front next)
    (hBack : next.Reads back last) : cursor.Reads (front ++ back) last where
  bytes_eq := hBack.bytes_eq.trans hFront.bytes_eq
  offset_eq := by rw [hBack.offset_eq, hFront.offset_eq, List.length_append, Nat.add_assoc]
  unread_eq := by rw [hFront.unread_eq, hBack.unread_eq, List.append_assoc]

theorem reads_append :
    cursor.Reads (front ++ back) last ↔ ∃ next, cursor.Reads front next ∧ next.Reads back last := by
  constructor
  · intro h
    have hUnread := h.unread_eq
    rw [List.append_assoc] at hUnread
    obtain ⟨next, hFront, hRest⟩ := exists_reads hUnread
    refine ⟨next, hFront, h.bytes_eq.trans hFront.bytes_eq.symm, ?_, hRest⟩
    rw [h.offset_eq, hFront.offset_eq, List.length_append, Nat.add_assoc]
  · rintro ⟨next, hFront, hBack⟩
    exact hFront.trans hBack

theorem reads_cons :
    cursor.Reads (byte :: back) next ↔ ∃ middle, cursor.Reads [byte] middle ∧ middle.Reads back next := by
  rw [← List.singleton_append, reads_append]

theorem reads_nil : cursor.Reads [] next ↔ next = cursor := by
  constructor
  · rintro ⟨hBytes, hOffset, -⟩
    cases cursor
    cases next
    simp_all
  · rintro rfl
    exact ⟨rfl, rfl, rfl⟩

theorem take_ok : cursor.take length = .ok (front, next) ↔ front.length = length ∧ cursor.Reads front next := by
  unfold take checkedAdd
  constructor
  · intro h
    split at h
    · cases h
    · rename_i stop hStop
      split at hStop
      · cases hStop
        split at h
        · rename_i hEnd
          cases h
          have hLength : ((cursor.bytes.drop cursor.offset).take length).length = length := by
            rw [List.length_take, List.length_drop]
            omega
          refine ⟨hLength, rfl, by rw [hLength], ?_⟩
          simp only [unread]
          rw [← List.drop_drop, List.take_append_drop]
        · cases h
      · cases hStop
  · rintro ⟨rfl, hReads⟩
    have hEnd : cursor.offset + front.length ≤ cursor.bytes.length := by
      rw [← hReads.offset_eq, ← hReads.bytes_eq]
      exact next.offset_le
    have hFront : (cursor.bytes.drop cursor.offset).take front.length = front := by
      rw [← unread, hReads.unread_eq, List.take_left]
    obtain ⟨bytes, offset, hOffset, hLength⟩ := next
    obtain ⟨rfl, rfl, -⟩ := hReads
    rw [if_pos (Nat.le_trans hEnd cursor.length_le)]
    simp only [hEnd, dite_true, hFront]

theorem skip_ok : cursor.skip length = .ok next ↔ ∃ front, front.length = length ∧ cursor.Reads front next := by
  simp only [skip, bind_ok, pure_ok, Prod.exists, take_ok]
  grind

theorem readU8_ok : cursor.readU8 = .ok (byte, next) ↔ cursor.Reads [byte] next := by
  simp only [readU8, bind_ok, Prod.exists, take_ok]
  constructor
  · rintro ⟨bytes, middle, ⟨hLength, hReads⟩, hByte⟩
    obtain ⟨first, rfl⟩ := List.length_eq_one_iff.mp hLength
    cases hByte
    exact hReads
  · intro hReads
    exact ⟨[byte], next, ⟨rfl, hReads⟩, rfl⟩

theorem readUnsigned_ok {width n : Nat} :
    cursor.readUnsigned width = .ok (n, next) ↔ n < 256 ^ width ∧ cursor.Reads (toBeBytes width n) next := by
  simp only [readUnsigned, bind_ok, Prod.exists, take_ok]
  constructor
  · rintro ⟨bytes, middle, ⟨rfl, hReads⟩, hPair⟩
    cases hPair
    rw [toBeBytes_fromBeBytes]
    exact ⟨fromBeBytes_lt bytes, hReads⟩
  · rintro ⟨hn, hReads⟩
    refine ⟨_, next, ⟨toBeBytes_length width n, hReads⟩, ?_⟩
    rw [fromBeBytes_toBeBytes hn]
    rfl

theorem readString_ok :
    cursor.readString length limits = .ok next ↔ length ≤ limits.maxStringBytes.toNat ∧
      ∃ body, body.length = length ∧ isUtf8 body = true ∧ cursor.Reads body next := by
  unfold readString
  by_cases hLimit : length > limits.maxStringBytes.toNat
  · simp [hLimit, bind_ok, throw_ok]
  · simp only [hLimit, if_false, bind_ok, Prod.exists, take_ok, pure_ok, ite_ok_throw]
    grind

theorem readBinary_ok :
    cursor.readBinary length limits = .ok next ↔ length ≤ limits.maxInlineBufferBytes.toNat ∧
      ∃ body, body.length = length ∧ cursor.Reads body next := by
  unfold readBinary
  by_cases hLimit : length > limits.maxInlineBufferBytes.toNat
  · simp [hLimit, bind_ok, throw_ok]
  · simp only [hLimit, if_false, skip_ok]
    grind

theorem mapChildren_ok (h : entries < 256 ^ 4) : mapChildren entries = .ok children ↔ 2 * entries = children := by
  have hFits : entries * 2 ≤ u64Max := by unfold u64Max; omega
  simp [mapChildren, checkedMul, hFits, Nat.mul_comm]

namespace MarkerForm

def Marks (marker : UInt8) : MarkerForm → Prop
  | scalar width => ScalarMarker marker width
  | fixMap entries => Short .map marker entries
  | fixArray length => Short .array marker length
  | fixStr length => Short .str marker length
  | reserved => marker = 0xc1
  | bin width => LengthFamily.bin.Wide marker width
  | extension => marker.toNat ∈ [0xc7, 0xc8, 0xc9, 0xd4, 0xd5, 0xd6, 0xd7, 0xd8]
  | str width => LengthFamily.str.Wide marker width
  | array width => LengthFamily.array.Wide marker width
  | map width => LengthFamily.map.Wide marker width
where
  Short (family : LengthFamily) (marker : UInt8) (n : Nat) : Prop :=
    n < family.shortCount ∧ marker = UInt8.ofNat (family.shortBase + n)

instance (marker : UInt8) : (form : MarkerForm) → Decidable (form.Marks marker)
  | scalar width => inferInstanceAs (Decidable (ScalarMarker marker width))
  | fixMap _ | fixArray _ | fixStr _ => inferInstanceAs (Decidable (_ ∧ _))
  | reserved => inferInstanceAs (Decidable (_ = _))
  | extension => inferInstanceAs (Decidable (_ ∈ _))
  | bin width => inferInstanceAs (Decidable (LengthFamily.bin.Wide marker width))
  | str width => inferInstanceAs (Decidable (LengthFamily.str.Wide marker width))
  | array width => inferInstanceAs (Decidable (LengthFamily.array.Wide marker width))
  | map width => inferInstanceAs (Decidable (LengthFamily.map.Wide marker width))

theorem marks_markerForm (marker : UInt8) : (markerForm marker).Marks marker := by
  obtain ⟨⟨byte⟩⟩ := marker
  revert byte
  decide +kernel

variable {family : LengthFamily} {marker : UInt8} {width : Nat}

theorem markerForm_of_short {n : Nat} (form : Nat → MarkerForm) (h : Marks.Short family marker n)
    (hForm : ∀ n < family.shortCount, markerForm (UInt8.ofNat (family.shortBase + n)) = form n) :
    markerForm marker = form n := by
  obtain ⟨hShort, rfl⟩ := h
  exact hForm n hShort

theorem markerForm_of_wide (form : Nat → MarkerForm) (h : family.Wide marker width)
    (hByte : ∀ marker, family.byte = some marker → markerForm marker = form 1)
    (hWord : markerForm family.word = form 2) (hLong : markerForm family.long = form 4) :
    markerForm marker = form width := by
  rcases h with ⟨hMarker, rfl⟩ | ⟨rfl, rfl⟩ | ⟨rfl, rfl⟩
  · exact hByte marker hMarker
  · exact hWord
  · exact hLong

theorem markerForm_of_scalar (h : ScalarMarker marker width) : markerForm marker = .scalar width := by
  rcases h with ⟨rfl, hMarker⟩ | ⟨e, he, rfl, hMarker⟩ | ⟨e, he, rfl, rfl⟩
  · obtain ⟨⟨byte⟩⟩ := marker
    revert byte
    decide +kernel
  · rcases hMarker with rfl | rfl <;> revert e <;> decide +kernel
  · revert e
    decide +kernel

end MarkerForm

def Permitted (limits : ProtocolLimits) : Head → Prop
  | .str body => body.length ≤ limits.maxStringBytes.toNat ∧ ByteArray.IsValidUTF8 ⟨body.toArray⟩
  | .bin body => body.length ≤ limits.maxInlineBufferBytes.toNat
  | .ext _ _ => False
  | _ => True

theorem isUtf8_iff : isUtf8 body = true ↔ ByteArray.IsValidUTF8 ⟨body.toArray⟩ := ByteArray.validateUTF8_eq_true_iff

theorem permitted_of_scalar (h : head.IsScalar) : Permitted limits head ∧ head.arity = 0 := by
  cases head <;> first | exact ⟨trivial, rfl⟩ | exact h.elim

def ReadsHead (limits : ProtocolLimits) (cursor : MessagePackCursor) (head : Head)
    (next : MessagePackCursor) : Prop :=
  ∃ front, head.Encodes front ∧ Permitted limits head ∧ cursor.Reads front next

theorem readValue_sound (h : cursor.readValue limits = .ok (children, next)) :
    ∃ head, head.arity = children ∧ ReadsHead limits cursor head next := by
  simp only [readValue, bind_ok, Prod.exists, readU8_ok] at h
  obtain ⟨marker, middle, hMarker, h⟩ := h
  have hMarks := MarkerForm.marks_markerForm marker
  -- A header is one marker, or a marker and the bytes of a length.
  have hShort {family : LengthFamily} {n : Nat} (h : MarkerForm.Marks.Short family marker n) :
      family.Header n [marker] := LengthFamily.header_iff.mpr (.inl ⟨h.1, by rw [h.2]⟩)
  have hWide {family : LengthFamily} {n width : Nat} (h : family.Wide marker width) (hn : n < 256 ^ width) :
      family.Header n (marker :: toBeBytes width n) :=
    LengthFamily.header_iff.mpr (.inr ⟨marker, width, h, hn, rfl⟩)
  cases hForm : markerForm marker <;> simp only [hForm, readForm, bind_ok, pure_ok, throw_ok, Prod.exists,
    Prod.mk.injEq, skip_ok, readUnsigned_ok, readString_ok, readBinary_ok] at h hMarks
  case scalar width =>
    obtain ⟨middle', ⟨operand, rfl, hOperand⟩, rfl, rfl⟩ := h
    obtain ⟨head, hScalar, hEncodes⟩ := exists_scalar hMarks
    obtain ⟨hPermitted, hArity⟩ : Permitted limits head ∧ head.arity = 0 := permitted_of_scalar hScalar
    exact ⟨head, hArity, _, hEncodes, hPermitted, hMarker.trans hOperand⟩
  case fixMap entries =>
    obtain ⟨children, hChildren, rfl, rfl⟩ := h
    have hEntries : entries < 16 := hMarks.1
    exact ⟨.map entries, (mapChildren_ok (by omega)).mp hChildren, _, .map (hShort hMarks), trivial, hMarker⟩
  case fixArray length =>
    obtain ⟨rfl, rfl⟩ := h
    exact ⟨.array length, rfl, _, .array (hShort hMarks), trivial, hMarker⟩
  case fixStr length =>
    obtain ⟨middle', ⟨hLimit, body, rfl, hUtf8, hBody⟩, rfl, rfl⟩ := h
    exact ⟨.str body, rfl, _, .str (hShort hMarks), ⟨hLimit, isUtf8_iff.mp hUtf8⟩, hMarker.trans hBody⟩
  case bin width =>
    obtain ⟨length, middle', ⟨hLength, hHeader⟩, last, ⟨hLimit, body, rfl, hBody⟩, rfl, rfl⟩ := h
    exact ⟨.bin body, rfl, _, .bin (hWide hMarks hLength), hLimit, (hMarker.trans hHeader).trans hBody⟩
  case str width =>
    obtain ⟨length, middle', ⟨hLength, hHeader⟩, last, ⟨hLimit, body, rfl, hUtf8, hBody⟩, rfl, rfl⟩ := h
    exact ⟨.str body, rfl, _, .str (hWide hMarks hLength), ⟨hLimit, isUtf8_iff.mp hUtf8⟩,
      (hMarker.trans hHeader).trans hBody⟩
  case array width =>
    exact ⟨.array children, rfl, _, .array (hWide hMarks h.1), trivial, hMarker.trans h.2⟩
  case map width =>
    obtain ⟨entries, middle', ⟨hEntries, hHeader⟩, children, hChildren, rfl, rfl⟩ := h
    have hBound := Nat.lt_of_lt_of_le hEntries (Nat.pow_le_pow_right (by decide) (LengthFamily.Wide.width_le hMarks))
    exact ⟨.map entries, (mapChildren_ok hBound).mp hChildren, _, .map (hWide hMarks hEntries), trivial,
      hMarker.trans hHeader⟩

theorem readValue_marker {marker : UInt8} {form : MarkerForm}
    (hMarker : cursor.Reads [marker] middle) (hForm : markerForm marker = form)
    (hArm : middle.readForm limits marker form = .ok (children, next)) :
    cursor.readValue limits = .ok (children, next) := by
  rw [readValue, bind_ok]
  subst hForm
  exact ⟨(marker, middle), readU8_ok.mpr hMarker, hArm⟩

theorem readValue_scalar {front : List UInt8} (hEncodes : head.Encodes front)
    (hScalar : head.IsScalar) (hReads : cursor.Reads front next) :
    cursor.readValue limits = .ok (0, next) := by
  obtain ⟨marker, operand, rfl, hOperand⟩ := hEncodes.scalar hScalar
  obtain ⟨middle, hMarker, hRest⟩ := reads_cons.mp hReads
  apply readValue_marker hMarker (MarkerForm.markerForm_of_scalar hOperand)
  simp only [readForm, bind_ok, skip_ok]
  exact ⟨next, ⟨operand, rfl, hRest⟩, rfl⟩

theorem readValue_str
    (hHeader : LengthFamily.str.Header body.length header) (hReads : cursor.Reads header middle)
    (hBody : middle.readString body.length limits = .ok next) :
    cursor.readValue limits = .ok (0, next) := by
  rcases LengthFamily.header_iff.mp hHeader with ⟨hShort, rfl⟩ | ⟨marker, width, hWide, hLength, rfl⟩
  · apply readValue_marker hReads (MarkerForm.markerForm_of_short .fixStr ⟨hShort, rfl⟩ (by decide +kernel))
    simp only [readForm, bind_ok]
    exact ⟨next, hBody, rfl⟩
  · obtain ⟨middle', hMarker, hRest⟩ := reads_cons.mp hReads
    apply readValue_marker hMarker (MarkerForm.markerForm_of_wide .str hWide (by decide +kernel) rfl rfl)
    simp only [readForm, bind_ok, Prod.exists, readUnsigned_ok]
    exact ⟨body.length, middle, ⟨hLength, hRest⟩, next, hBody, rfl⟩

theorem readValue_bin
    (hHeader : LengthFamily.bin.Header body.length header) (hReads : cursor.Reads header middle)
    (hBody : middle.readBinary body.length limits = .ok next) :
    cursor.readValue limits = .ok (0, next) := by
  rcases LengthFamily.header_iff.mp hHeader with ⟨hShort, -⟩ | ⟨marker, width, hWide, hLength, rfl⟩
  · exact absurd hShort (Nat.not_lt_zero _)
  · obtain ⟨middle', hMarker, hRest⟩ := reads_cons.mp hReads
    apply readValue_marker hMarker (MarkerForm.markerForm_of_wide .bin hWide (by decide +kernel) rfl rfl)
    simp only [readForm, bind_ok, Prod.exists, readUnsigned_ok]
    exact ⟨body.length, middle, ⟨hLength, hRest⟩, next, hBody, rfl⟩

theorem readValue_array
    (hHeader : LengthFamily.array.Header length header) (hReads : cursor.Reads header next) :
    cursor.readValue limits = .ok (length, next) := by
  rcases LengthFamily.header_iff.mp hHeader with ⟨hShort, rfl⟩ | ⟨marker, width, hWide, hLength, rfl⟩
  · exact readValue_marker hReads (MarkerForm.markerForm_of_short .fixArray ⟨hShort, rfl⟩ (by decide +kernel)) rfl
  · obtain ⟨middle, hMarker, hRest⟩ := reads_cons.mp hReads
    exact readValue_marker hMarker (MarkerForm.markerForm_of_wide .array hWide nofun rfl rfl)
      (readUnsigned_ok.mpr ⟨hLength, hRest⟩)

theorem readValue_map
    (hHeader : LengthFamily.map.Header entries header) (hReads : cursor.Reads header next) :
    cursor.readValue limits = .ok (2 * entries, next) := by
  rcases LengthFamily.header_iff.mp hHeader with ⟨hShort, rfl⟩ | ⟨marker, width, hWide, hEntries, rfl⟩
  · have hBound : entries < 16 := hShort
    apply readValue_marker hReads (MarkerForm.markerForm_of_short .fixMap ⟨hShort, rfl⟩ (by decide +kernel))
    simp only [readForm, bind_ok]
    exact ⟨_, (mapChildren_ok (by omega)).mpr rfl, rfl⟩
  · have hBound := Nat.lt_of_lt_of_le hEntries (Nat.pow_le_pow_right (by decide) hWide.width_le)
    obtain ⟨middle, hMarker, hRest⟩ := reads_cons.mp hReads
    apply readValue_marker hMarker (MarkerForm.markerForm_of_wide .map hWide nofun rfl rfl)
    simp only [readForm, bind_ok, Prod.exists, readUnsigned_ok]
    exact ⟨entries, next, ⟨hEntries, hRest⟩, _, (mapChildren_ok hBound).mpr rfl, rfl⟩

theorem readValue_complete (h : ReadsHead limits cursor head next) :
    cursor.readValue limits = .ok (head.arity, next) := by
  obtain ⟨front, hEncodes, hPermitted, hReads⟩ := h
  cases head with
  | nil | bool _ | int _ | float _ => exact readValue_scalar hEncodes trivial hReads
  | str body =>
    cases hEncodes with
    | str hHeader =>
      obtain ⟨middle, hFront, hBody⟩ := reads_append.mp hReads
      obtain ⟨hLimit, hUtf8⟩ := hPermitted
      exact readValue_str hHeader hFront
        (readString_ok.mpr ⟨hLimit, body, rfl, isUtf8_iff.mpr hUtf8, hBody⟩)
  | bin body =>
    cases hEncodes with
    | bin hHeader =>
      obtain ⟨middle, hFront, hBody⟩ := reads_append.mp hReads
      exact readValue_bin hHeader hFront (readBinary_ok.mpr ⟨hPermitted, body, rfl, hBody⟩)
  | ext type body => exact hPermitted.elim
  | array length =>
    cases hEncodes with
    | array hHeader => exact readValue_array hHeader hReads
  | map entries =>
    cases hEncodes with
    | map hHeader => exact readValue_map hHeader hReads

end MessagePackCursor

end Weregopher.Protocol
