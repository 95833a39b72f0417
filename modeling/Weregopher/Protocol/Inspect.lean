import Weregopher.Lib.Bytes
import Weregopher.Lib.Checked
import Weregopher.Protocol.Limits

/-! # The structural MessagePack preflight

The reader walks the payload with a stack of counters: the values still to be
read at each nesting level, the innermost first. Reserving it is assumed to
succeed.
-/
namespace Weregopher.Protocol
open Lib.Bytes Lib.Checked

inductive MessagePackError
  | empty
  | truncated (offset : Nat)
  | trailingBytes (offset : Nat)
  | extensionType (marker : UInt8)
  | reservedMarker
  | invalidUtf8 (offset : Nat)
  | childCountOverflow
  | frameBytesExceeded (maximum : UInt32) (actual : Nat)
  | nodesExceeded (maximum : UInt32) (actual : Nat)
  | depthExceeded (maximum : UInt16) (actual : Nat)
  | stringBytesExceeded (maximum : UInt32) (actual : Nat)
  | binaryBytesExceeded (maximum : UInt32) (actual : Nat)
  | budgetAllocationFailed
  | invalidObservedBudget
  | invalidLimits (source : ProtocolLimitError)
  deriving DecidableEq

structure MessagePackBudget where
  nodes : Nat
  maximumDepth : Nat
  nodes_pos : 0 < nodes
  maximumDepth_pos : 0 < maximumDepth
  maximumDepth_le : maximumDepth ≤ nodes

def MessagePackBudget.new (nodes maximumDepth : Nat) : Except MessagePackError MessagePackBudget :=
  if h : nodes = 0 ∨ maximumDepth = 0 ∨ maximumDepth > nodes then
    .error .invalidObservedBudget
  else
    .ok ⟨nodes, maximumDepth, by omega, by omega, by omega⟩

structure MessagePackCursor where
  bytes : List UInt8
  offset : Nat
  offset_le : offset ≤ bytes.length
  length_le : bytes.length ≤ usizeMax

namespace MessagePackCursor

def new (bytes : List UInt8) (length_le : bytes.length ≤ usizeMax) : MessagePackCursor :=
  ⟨bytes, 0, Nat.zero_le _, length_le⟩

variable (cursor : MessagePackCursor) (length : Nat)

def take : Except MessagePackError (List UInt8 × MessagePackCursor) :=
  match checkedAdd usizeMax cursor.offset length with
  | none => .error (.truncated cursor.offset)
  | some stop =>
    if h : stop ≤ cursor.bytes.length then
      .ok ((cursor.bytes.drop cursor.offset).take length, { cursor with offset := stop, offset_le := h })
    else
      .error (.truncated cursor.offset)

def skip : Except MessagePackError MessagePackCursor := do
  let (_, cursor) ← cursor.take length
  return cursor

def readU8 : Except MessagePackError (UInt8 × MessagePackCursor) := do
  let (bytes, cursor) ← cursor.take 1
  match bytes.head? with
  | some byte => return (byte, cursor)
  | none => throw (.truncated cursor.offset)

/-- `read_u16` and `read_u32`, and the length bytes that `read_u8` supplies. -/
def readUnsigned (width : Nat) : Except MessagePackError (Nat × MessagePackCursor) := do
  let (bytes, cursor) ← cursor.take width
  return (fromBeBytes bytes, cursor)

def isUtf8 (bytes : List UInt8) : Bool := ByteArray.validateUTF8 ⟨bytes.toArray⟩

variable (limits : ProtocolLimits)

def readString : Except MessagePackError MessagePackCursor := do
  if length > limits.maxStringBytes.toNat then
    throw (.stringBytesExceeded limits.maxStringBytes length)
  let start := cursor.offset
  let (bytes, cursor) ← cursor.take length
  if isUtf8 bytes then return cursor else throw (.invalidUtf8 start)

def readBinary : Except MessagePackError MessagePackCursor := do
  if length > limits.maxInlineBufferBytes.toNat then
    throw (.binaryBytesExceeded limits.maxInlineBufferBytes length)
  cursor.skip length

def mapChildren (entries : Nat) : Except MessagePackError Nat :=
  match checkedMul u64Max entries 2 with
  | some children => .ok children
  | none => .error .childCountOverflow

/-- The arms of the marker match. Widths are the bytes of the operand that follows. -/
inductive MarkerForm
  | scalar (width : Nat)
  | fixMap (entries : Nat)
  | fixArray (length : Nat)
  | fixStr (length : Nat)
  | reserved
  | bin (width : Nat)
  | extension
  | str (width : Nat)
  | array (width : Nat)
  | map (width : Nat)
  deriving DecidableEq

def markerForm (marker : UInt8) : MarkerForm :=
  let m := marker.toNat
  if m ≤ 0x7f ∨ 0xe0 ≤ m ∨ m = 0xc0 ∨ m = 0xc2 ∨ m = 0xc3 then .scalar 0
  else if 0x80 ≤ m ∧ m ≤ 0x8f then .fixMap (marker &&& 0x0f).toNat
  else if 0x90 ≤ m ∧ m ≤ 0x9f then .fixArray (marker &&& 0x0f).toNat
  else if 0xa0 ≤ m ∧ m ≤ 0xbf then .fixStr (marker &&& 0x1f).toNat
  else if m = 0xc1 then .reserved
  else if m = 0xc4 then .bin 1
  else if m = 0xc5 then .bin 2
  else if m = 0xc6 then .bin 4
  else if (0xc7 ≤ m ∧ m ≤ 0xc9) ∨ (0xd4 ≤ m ∧ m ≤ 0xd8) then .extension
  else if m = 0xca ∨ m = 0xce ∨ m = 0xd2 then .scalar 4
  else if m = 0xcb ∨ m = 0xcf ∨ m = 0xd3 then .scalar 8
  else if m = 0xcc ∨ m = 0xd0 then .scalar 1
  else if m = 0xcd ∨ m = 0xd1 then .scalar 2
  else if m = 0xd9 then .str 1
  else if m = 0xda then .str 2
  else if m = 0xdb then .str 4
  else if m = 0xdc then .array 2
  else if m = 0xdd then .array 4
  else if m = 0xde then .map 2
  else .map 4

def readForm (marker : UInt8) : MarkerForm → Except MessagePackError (Nat × MessagePackCursor)
  | .scalar width => do
    let cursor ← cursor.skip width
    return (0, cursor)
  | .fixMap entries => do
    let children ← mapChildren entries
    return (children, cursor)
  | .fixArray length => return (length, cursor)
  | .fixStr length => do
    let cursor ← cursor.readString length limits
    return (0, cursor)
  | .reserved => throw .reservedMarker
  | .bin width => do
    let (length, cursor) ← cursor.readUnsigned width
    let cursor ← cursor.readBinary length limits
    return (0, cursor)
  | .extension => throw (.extensionType marker)
  | .str width => do
    let (length, cursor) ← cursor.readUnsigned width
    let cursor ← cursor.readString length limits
    return (0, cursor)
  | .array width => cursor.readUnsigned width
  | .map width => do
    let (entries, cursor) ← cursor.readUnsigned width
    let children ← mapChildren entries
    return (children, cursor)

def readValue : Except MessagePackError (Nat × MessagePackCursor) := do
  let (marker, cursor) ← cursor.readU8
  cursor.readForm limits marker (markerForm marker)

end MessagePackCursor

/-- `remaining` is the stack of counters, innermost first. -/
structure Traversal where
  cursor : MessagePackCursor
  remaining : List Nat
  nodes : Nat
  maximumDepth : Nat

/-- The bounds on one more node at the given depth, before its value is read. -/
def claimNode (limits : ProtocolLimits) (depth nodes : Nat) : Except MessagePackError Unit := do
  if depth > u16Max then throw (.depthExceeded limits.maxObjectDepth u16Max)
  if depth > limits.maxObjectDepth.toNat then throw (.depthExceeded limits.maxObjectDepth depth)
  match checkedAdd u32Max nodes 1 with
  | none => throw .childCountOverflow
  | some nodes =>
    if nodes > limits.maxGraphNodes.toNat then throw (.nodesExceeded limits.maxGraphNodes nodes)

def claimChildren (limits : ProtocolLimits) (depth : Nat) : Except MessagePackError Unit :=
  match checkedAdd u16Max depth 1 with
  | none => .error (.depthExceeded limits.maxObjectDepth u16Max)
  | some childDepth =>
    if childDepth > limits.maxObjectDepth.toNat then
      .error (.depthExceeded limits.maxObjectDepth childDepth)
    else
      .ok ()

/-- The main loop. Every round reads at least one byte, so that more rounds than unread bytes are
never needed. -/
def traverse (limits : ProtocolLimits) : Nat → Traversal → Except MessagePackError Traversal
  | 0, state => .error (.truncated state.cursor.offset)
  | rounds + 1, state =>
    match state.remaining.dropWhile (· = 0) with
    | [] => .ok { state with remaining := [] }
    | top :: below => do
      let depth := below.length + 1
      claimNode limits depth state.nodes
      let (children, cursor) ← state.cursor.readValue limits
      let next : Traversal :=
        ⟨cursor, (top - 1) :: below, state.nodes + 1, max state.maximumDepth depth⟩
      if children ≠ 0 then
        claimChildren limits depth
        traverse limits rounds { next with remaining := children :: next.remaining }
      else
        traverse limits rounds next

def inspectMessagepack (payload : List UInt8) (limits : ProtocolLimits) :
    Except MessagePackError MessagePackBudget := do
  match limits.validate with
  | .error source => throw (.invalidLimits source)
  | .ok () =>
    if h : payload.length > limits.maxFrameBytes.toNat then
      throw (.frameBytesExceeded limits.maxFrameBytes payload.length)
    else
      if payload = [] then throw .empty
      have length_le : payload.length ≤ usizeMax := by
        have := limits.maxFrameBytes.toNat_lt
        unfold usizeMax u64Max
        omega
      let final ← traverse limits (payload.length + 1) ⟨.new payload length_le, [1], 0, 0⟩
      if final.cursor.offset ≠ payload.length then throw (.trailingBytes final.cursor.offset)
      MessagePackBudget.new final.nodes final.maximumDepth

example : (inspectMessagepack [0x92, 0x01, 0xa1, 0x61] .secureDefault).toOption.map
    (fun budget => (budget.nodes, budget.maximumDepth)) = some (3, 2) := by decide +kernel

end Weregopher.Protocol
