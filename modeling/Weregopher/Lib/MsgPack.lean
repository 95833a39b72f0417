import Weregopher.Lib.Bytes

/-! # The MessagePack format

A value is a head with as many children as the head announces: an array its
items, a map its keys and values in turn. `Encodes` lists the formats of the
specification; a value may have several encodings.
-/
namespace Lib.MsgPack
open Lib.Bytes

inductive Head
  | nil
  | bool (value : Bool)
  | int (value : Int)
  | float (bits : List UInt8)
  | str (body : List UInt8)
  | bin (body : List UInt8)
  | ext (type : UInt8) (body : List UInt8)
  | array (length : Nat)
  | map (entries : Nat)
  deriving DecidableEq

def Head.arity : Head → Nat
  | array length => length
  | map entries => 2 * entries
  | _ => 0

/-- The markers of one family of length-prefixed formats. -/
structure LengthFamily where
  shortBase : Nat
  shortCount : Nat
  byte : Option UInt8
  (word long : UInt8)

namespace LengthFamily

def str : LengthFamily := ⟨0xa0, 32, some 0xd9, 0xda, 0xdb⟩

def bin : LengthFamily := ⟨0, 0, some 0xc4, 0xc5, 0xc6⟩

def ext : LengthFamily := ⟨0, 0, some 0xc7, 0xc8, 0xc9⟩

def array : LengthFamily := ⟨0x90, 16, none, 0xdc, 0xdd⟩

def map : LengthFamily := ⟨0x80, 16, none, 0xde, 0xdf⟩

/-- Short lengths are part of the marker, others follow it in big-endian order. -/
inductive Header (family : LengthFamily) : Nat → List UInt8 → Prop
  | short {n : Nat} (h : n < family.shortCount) : Header family n [UInt8.ofNat (family.shortBase + n)]
  | byte {n : Nat} {marker : UInt8} (hMarker : family.byte = some marker) (h : n < 256 ^ 1) :
      Header family n (marker :: toBeBytes 1 n)
  | word {n : Nat} (h : n < 256 ^ 2) : Header family n (family.word :: toBeBytes 2 n)
  | long {n : Nat} (h : n < 256 ^ 4) : Header family n (family.long :: toBeBytes 4 n)

/-- The marker announces a length of `width` bytes. -/
def Wide (family : LengthFamily) (marker : UInt8) (width : Nat) : Prop :=
  (family.byte = some marker ∧ width = 1) ∨ (marker = family.word ∧ width = 2) ∨
    (marker = family.long ∧ width = 4)

instance (family : LengthFamily) (marker : UInt8) (width : Nat) : Decidable (family.Wide marker width) :=
  inferInstanceAs (Decidable (_ ∨ _))

theorem Wide.width_le {family : LengthFamily} {marker : UInt8} {width : Nat} (h : family.Wide marker width) :
    width ≤ 4 := by
  rcases h with ⟨-, rfl⟩ | ⟨-, rfl⟩ | ⟨-, rfl⟩ <;> decide

theorem header_iff {family : LengthFamily} {n : Nat} {header : List UInt8} : family.Header n header ↔
      (n < family.shortCount ∧ header = [UInt8.ofNat (family.shortBase + n)]) ∨
        ∃ marker width, family.Wide marker width ∧ n < 256 ^ width ∧ header = marker :: toBeBytes width n := by
  constructor
  · rintro (h | ⟨hMarker, h⟩ | h | h)
    · exact .inl ⟨h, rfl⟩
    · exact .inr ⟨_, 1, .inl ⟨hMarker, rfl⟩, h, rfl⟩
    · exact .inr ⟨_, 2, .inr (.inl ⟨rfl, rfl⟩), h, rfl⟩
    · exact .inr ⟨_, 4, .inr (.inr ⟨rfl, rfl⟩), h, rfl⟩
  · rintro (⟨h, rfl⟩ | ⟨marker, width, ⟨hMarker, rfl⟩ | ⟨rfl, rfl⟩ | ⟨rfl, rfl⟩, h, rfl⟩)
    · exact .short h
    · exact .byte hMarker h
    · exact .word h
    · exact .long h

end LengthFamily

def twosComplement (width n : Nat) : Int := if 2 * n < 256 ^ width then n else n - 256 ^ width

/-- The formats of a head. Exponents select the operand widths 1, 2, 4, 8 and 16. -/
inductive Head.Encodes : Head → List UInt8 → Prop
  | nil : Encodes .nil [0xc0]
  | false : Encodes (.bool false) [0xc2]
  | true : Encodes (.bool true) [0xc3]
  | positiveFixint (n : Nat) (h : n < 128) : Encodes (.int n) [UInt8.ofNat n]
  | negativeFixint (n : Nat) (h : n < 32) : Encodes (.int (n - 32)) [UInt8.ofNat (0xe0 + n)]
  | uint (e n : Nat) (he : e < 4) (h : n < 256 ^ 2 ^ e) :
      Encodes (.int n) (UInt8.ofNat (0xcc + e) :: toBeBytes (2 ^ e) n)
  | int (e n : Nat) (he : e < 4) (h : n < 256 ^ 2 ^ e) :
      Encodes (.int (twosComplement (2 ^ e) n)) (UInt8.ofNat (0xd0 + e) :: toBeBytes (2 ^ e) n)
  | float (e : Nat) (bits : List UInt8) (he : e < 2) (h : bits.length = 4 * 2 ^ e) :
      Encodes (.float bits) (UInt8.ofNat (0xca + e) :: bits)
  | str {body header : List UInt8} (h : LengthFamily.str.Header body.length header) :
      Encodes (.str body) (header ++ body)
  | bin {body header : List UInt8} (h : LengthFamily.bin.Header body.length header) :
      Encodes (.bin body) (header ++ body)
  | fixext (e : Nat) (type : UInt8) (body : List UInt8) (he : e < 5) (h : body.length = 2 ^ e) :
      Encodes (.ext type body) (UInt8.ofNat (0xd4 + e) :: type :: body)
  | ext (type : UInt8) {body header : List UInt8} (h : LengthFamily.ext.Header body.length header) :
      Encodes (.ext type body) (header ++ type :: body)
  | array {length : Nat} {header : List UInt8} (h : LengthFamily.array.Header length header) :
      Encodes (.array length) header
  | map {entries : Nat} {header : List UInt8} (h : LengthFamily.map.Header entries header) :
      Encodes (.map entries) header

/-- The formats that carry neither a length nor children. -/
def Head.IsScalar : Head → Prop
  | nil | bool _ | int _ | float _ => True
  | _ => False

/-- The marker is followed by `width` operand bytes and nothing else. -/
def ScalarMarker (marker : UInt8) (width : Nat) : Prop :=
  (width = 0 ∧ (marker.toNat < 128 ∨ 0xe0 ≤ marker.toNat ∨ marker ∈ [0xc0, 0xc2, 0xc3])) ∨
    (∃ e < 4, width = 2 ^ e ∧ (marker = UInt8.ofNat (0xcc + e) ∨ marker = UInt8.ofNat (0xd0 + e))) ∨
      (∃ e < 2, width = 4 * 2 ^ e ∧ marker = UInt8.ofNat (0xca + e))

instance (marker : UInt8) (width : Nat) : Decidable (ScalarMarker marker width) :=
  inferInstanceAs (Decidable (_ ∨ _))

theorem exists_scalar {marker : UInt8} {operand : List UInt8} (h : ScalarMarker marker operand.length) :
    ∃ head : Head, head.IsScalar ∧ head.Encodes (marker :: operand) := by
  rcases h with ⟨hWidth, hMarker⟩ | ⟨e, he, hWidth, rfl | rfl⟩ | ⟨e, he, hWidth, rfl⟩
  · obtain rfl := List.eq_nil_of_length_eq_zero hWidth
    rcases hMarker with hLow | hHigh | hMarker
    · refine ⟨.int marker.toNat, trivial, ?_⟩
      simpa only [UInt8.ofNat_toNat] using Head.Encodes.positiveFixint marker.toNat hLow
    · have hByte := marker.toNat_lt
      have hSplit : 0xe0 + (marker.toNat - 0xe0) = marker.toNat := by omega
      refine ⟨.int ((marker.toNat - 0xe0 : Nat) - 32), trivial, ?_⟩
      have hEncodes := Head.Encodes.negativeFixint (marker.toNat - 0xe0) (by omega)
      rwa [hSplit, UInt8.ofNat_toNat] at hEncodes
    · simp only [List.mem_cons, List.not_mem_nil, or_false] at hMarker
      rcases hMarker with rfl | rfl | rfl
      · exact ⟨.nil, trivial, .nil⟩
      · exact ⟨.bool false, trivial, .false⟩
      · exact ⟨.bool true, trivial, .true⟩
  · refine ⟨.int (fromBeBytes operand), trivial, ?_⟩
    have hEncodes := Head.Encodes.uint e (fromBeBytes operand) he (hWidth ▸ fromBeBytes_lt operand)
    rwa [← hWidth, toBeBytes_fromBeBytes] at hEncodes
  · refine ⟨.int (twosComplement (2 ^ e) (fromBeBytes operand)), trivial, ?_⟩
    have hEncodes := Head.Encodes.int e (fromBeBytes operand) he (hWidth ▸ fromBeBytes_lt operand)
    rwa [← hWidth, toBeBytes_fromBeBytes, hWidth] at hEncodes
  · exact ⟨.float operand, trivial, .float e operand he hWidth⟩

theorem Head.Encodes.scalar {head : Head} {bytes : List UInt8} (h : head.Encodes bytes)
    (hScalar : head.IsScalar) :
    ∃ marker operand, bytes = marker :: operand ∧ ScalarMarker marker operand.length := by
  cases h with
  | nil | false | true => exact ⟨_, [], rfl, by decide⟩
  | positiveFixint n h =>
    refine ⟨_, [], rfl, .inl ⟨rfl, .inl ?_⟩⟩
    rw [UInt8.toNat_ofNat']
    omega
  | negativeFixint n h =>
    refine ⟨_, [], rfl, .inl ⟨rfl, .inr (.inl ?_)⟩⟩
    rw [UInt8.toNat_ofNat']
    omega
  | uint e n he h => exact ⟨_, _, rfl, .inr (.inl ⟨e, he, toBeBytes_length _ _, .inl rfl⟩)⟩
  | int e n he h => exact ⟨_, _, rfl, .inr (.inl ⟨e, he, toBeBytes_length _ _, .inr rfl⟩)⟩
  | float e bits he h => exact ⟨_, _, rfl, .inr (.inr ⟨e, he, h, rfl⟩)⟩
  | str | bin | fixext | ext | array | map => exact hScalar.elim

inductive Value
  | node (head : Head) (children : List Value)

namespace Value

def absent : Value := .node .nil []

def boolean (value : Bool) : Value := .node (.bool value) []

def integer (value : Int) : Value := .node (.int value) []

def text (value : String) : Value := .node (.str (utf8Bytes value)) []

def binary (body : List UInt8) : Value := .node (.bin body) []

def sequence (items : List Value) : Value := .node (.array items.length) items

/-- A map with text keys, in the given order. -/
def record (fields : List (String × Value)) : Value :=
  .node (.map fields.length) (fields.flatMap fun field => [text field.1, field.2])

def optional {α : Type} (render : α → Value) : Option α → Value
  | none => absent
  | some value => render value

end Value

mutual

inductive Encodes : Value → List UInt8 → Prop
  | node {head : Head} {children : List Value} {front back : List UInt8} (hHead : head.Encodes front)
      (hArity : children.length = head.arity) (hChildren : EncodesAll children back) :
      Encodes (.node head children) (front ++ back)

inductive EncodesAll : List Value → List UInt8 → Prop
  | nil : EncodesAll [] []
  | cons {value : Value} {rest : List Value} {front back : List UInt8} (hValue : Encodes value front)
      (hRest : EncodesAll rest back) : EncodesAll (value :: rest) (front ++ back)

end

mutual

def nodes : Value → Nat
  | .node _ children => nodesAll children + 1

def nodesAll : List Value → Nat
  | [] => 0
  | value :: rest => nodes value + nodesAll rest

end

mutual

/-- A scalar or an empty container has depth one. -/
def depth : Value → Nat
  | .node _ children => depthAll children + 1

def depthAll : List Value → Nat
  | [] => 0
  | value :: rest => max (depth value) (depthAll rest)

end

mutual

def EveryHead (P : Head → Prop) : Value → Prop
  | .node head children => P head ∧ EveryHeadAll P children

def EveryHeadAll (P : Head → Prop) : List Value → Prop
  | [] => True
  | value :: rest => EveryHead P value ∧ EveryHeadAll P rest

end

theorem Head.Encodes.length_pos {head : Head} {bytes : List UInt8} (h : head.Encodes bytes) : 0 < bytes.length := by
  have hHeader {family : LengthFamily} {n : Nat} {header : List UInt8} (h : family.Header n header) :
      0 < header.length := by cases h <;> simp
  cases h with
  | array h | map h => exact hHeader h
  | str h | bin h | ext _ h =>
    have := hHeader h
    simp only [List.length_append]
    omega
  | _ => simp

theorem depth_pos (value : Value) : 0 < depth value := by
  cases value
  simp [depth]

mutual

theorem depth_le_nodes : ∀ value : Value, depth value ≤ nodes value
  | .node _ children => by
    rw [depth, nodes]
    exact Nat.succ_le_succ (depthAll_le_nodesAll children)

theorem depthAll_le_nodesAll : ∀ values : List Value, depthAll values ≤ nodesAll values
  | [] => Nat.le_refl 0
  | value :: rest => by
    have hValue := depth_le_nodes value
    have hRest := depthAll_le_nodesAll rest
    rw [depthAll, nodesAll]
    omega

end

mutual

theorem Encodes.nodes_le_length : ∀ {value : Value} {bytes : List UInt8},
    Encodes value bytes → nodes value ≤ bytes.length
  | _, _, .node hHead _ hChildren => by
    have hFront := hHead.length_pos
    have hBack := hChildren.nodesAll_le_length
    rw [nodes, List.length_append]
    omega

theorem EncodesAll.nodesAll_le_length : ∀ {values : List Value} {bytes : List UInt8},
    EncodesAll values bytes → nodesAll values ≤ bytes.length
  | _, _, .nil => Nat.le_refl 0
  | _, _, .cons hValue hRest => by
    have hFront := hValue.nodes_le_length
    have hBack := hRest.nodesAll_le_length
    rw [nodesAll, List.length_append]
    omega

end

/-! Pending values: an iterative reader keeps a stack of sequences still to be read, the innermost
first. -/

inductive PendingEncodes : List (List Value) → List UInt8 → Prop
  | nil : PendingEncodes [] []
  | cons {values : List Value} {below : List (List Value)} {front back : List UInt8}
      (hValues : EncodesAll values front) (hBelow : PendingEncodes below back) :
      PendingEncodes (values :: below) (front ++ back)

def pendingNodes (pending : List (List Value)) : Nat := (pending.map nodesAll).sum

/-- The deepest level among the pending values, counting the sequences below as levels. -/
def pendingPeak : List (List Value) → Nat
  | [] => 0
  | [] :: below => pendingPeak below
  | values :: below => max (below.length + depthAll values) (pendingPeak below)

def PendingEvery (P : Head → Prop) (pending : List (List Value)) : Prop := ∀ values ∈ pending, EveryHeadAll P values

section

variable {head : Head} {children values : List Value} {below : List (List Value)} {bytes : List UInt8}
  {P : Head → Prop}

theorem pendingEncodes_nil_cons : PendingEncodes ([] :: below) bytes ↔ PendingEncodes below bytes := by
  constructor
  · rintro (_ | ⟨hValues, hBelow⟩)
    cases hValues
    exact hBelow
  · exact fun h => .cons .nil h

theorem pendingEncodes_node : PendingEncodes ((.node head children :: values) :: below) bytes ↔
    ∃ front back, bytes = front ++ back ∧ head.Encodes front ∧ children.length = head.arity ∧
      PendingEncodes (children :: values :: below) back := by
  constructor
  · rintro (_ | ⟨hValues, hBelow⟩)
    obtain _ | ⟨hValue, hRest⟩ := hValues
    obtain ⟨hHead, hArity, hChildren⟩ := hValue
    exact ⟨_, _, by simp, hHead, hArity, .cons hChildren (.cons hRest hBelow)⟩
  · rintro ⟨front, back, rfl, hHead, hArity, hPending⟩
    obtain _ | ⟨hChildren, hPending⟩ := hPending
    obtain _ | ⟨hRest, hBelow⟩ := hPending
    have hNode := PendingEncodes.cons (.cons (.node hHead hArity hChildren) hRest) hBelow
    simpa only [List.append_assoc] using hNode

theorem pendingNodes_nil_cons : pendingNodes ([] :: below) = pendingNodes below := by
  simp [pendingNodes, nodesAll]

theorem pendingNodes_node : pendingNodes ((.node head children :: values) :: below) =
    pendingNodes (children :: values :: below) + 1 := by
  simp only [pendingNodes, List.map_cons, List.sum_cons, nodesAll, nodes]
  omega

theorem pendingPeak_node : pendingPeak ((.node head children :: values) :: below) =
    max (below.length + 1) (pendingPeak (children :: values :: below)) := by
  cases children <;> cases values <;>
    simp only [pendingPeak, depthAll, depth, List.length_cons] <;> omega

theorem pendingEvery_node : PendingEvery P ((.node head children :: values) :: below) ↔
    P head ∧ PendingEvery P (children :: values :: below) := by
  simp only [PendingEvery, List.forall_mem_cons, EveryHeadAll, EveryHead]
  tauto

theorem pendingEncodes_singleton {value : Value} : PendingEncodes [[value]] bytes ↔ Encodes value bytes := by
  constructor
  · rintro (_ | ⟨hValues, hBelow⟩)
    obtain _ | ⟨hValue, hRest⟩ := hValues
    cases hRest
    cases hBelow
    simpa using hValue
  · intro h
    simpa using PendingEncodes.cons (.cons h .nil) .nil

theorem pendingEvery_singleton {value : Value} : PendingEvery P [[value]] ↔ EveryHead P value := by
  simp [PendingEvery, EveryHeadAll]

end

end Lib.MsgPack
