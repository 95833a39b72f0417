import Weregopher.Lib.Checked
import Weregopher.Protocol.Limits
import Weregopher.Protocol.WireValue

/-! # The iterative validator of wire-value graphs

The work list holds values with their depths, the next one first. Children are
put before what was already waiting, in their own order. Reserving the list is
assumed to succeed.
-/
namespace Weregopher.Protocol
open Lib.Bytes Lib.Checked

inductive RuntimeProtocolContractError
  | zeroProtocolMajor
  | versionRangeMajorMismatch
  | invertedVersionRange
  | emptyText (field : String)
  | textExceeded (field : String) (maximum actual : Nat)
  | zeroNonceProof
  | limits (source : ProtocolLimitError)
  | zeroHeartbeatDuration
  | invertedHeartbeatPolicy
  | heartbeatTimeoutExceeded
  | zeroRequestId
  | zeroCallDeadline
  | callDeadlineExceeded
  | frameWithoutRenderer
  | frameRendererMismatch
  | worldWithoutFrame
  | worldFrameMismatch
  | graphNodesExceeded (maximum : UInt32) (actual : Nat)
  | graphNodeCountOverflow
  | graphDepthExceeded (maximum : UInt16) (actual : Nat)
  | graphDepthOverflow
  | inlineBytesExceeded (maximum actual : Nat)
  | duplicateObjectKey (key : String)
  | nonCanonicalFloat
  | nonCanonicalBigInt
  | invalidRegularExpressionFlags
  | crossApplicationHandle
  | remoteHandleCountOverflow
  | remoteHandlesExceeded (maximum : UInt32) (actual : Nat)
  | typedArrayRangeOverflow
  | typedArrayRangeExceeded
  | zeroStreamCredit
  | zeroStreamSequence
  | emptyStreamData
  deriving DecidableEq

abbrev Checked (α : Type) := Except RuntimeProtocolContractError α

def checkLimits (limits : ProtocolLimits) : Checked Unit :=
  match limits.validate with
  | .ok () => .ok ()
  | .error source => .error (.limits source)

def validateBoundedText (field value : String) (maximum : Nat) : Checked Unit :=
  if value.utf8ByteSize > maximum then .error (.textExceeded field maximum value.utf8ByteSize) else .ok ()

def validateText (field value : String) (maximum : Nat) : Checked Unit :=
  if value.isEmpty then .error (.emptyText field) else validateBoundedText field value maximum

def validateInlineBytes (bytes : List UInt8) (maximum : Nat) : Checked Unit :=
  if bytes.length > maximum then .error (.inlineBytesExceeded maximum bytes.length) else .ok ()

/-- `pending` values wait already and `additional` ones are to be added. -/
def reservePending (pending additional remainingNodes : Nat) (maximumNodes : UInt32) : Checked Unit :=
  match checkedAdd usizeMax pending additional with
  | none => .error .graphNodeCountOverflow
  | some required =>
    if required > remainingNodes then
      match checkedAdd u32Max maximumNodes.toNat 1 with
      | none => .error .graphNodeCountOverflow
      | some actual => .error (.graphNodesExceeded maximumNodes actual)
    else
      .ok ()

def childDepth (depth : Nat) (limits : ProtocolLimits) (hasNoChildren : Bool) : Checked Nat :=
  if hasNoChildren then
    .ok depth
  else
    match checkedAdd u16Max depth 1 with
    | none => .error .graphDepthOverflow
    | some childDepth =>
      if childDepth > limits.maxObjectDepth.toNat then
        .error (.graphDepthExceeded limits.maxObjectDepth childDepth)
      else
        .ok childDepth

def validateRemoteHandle (actualApp : AppInstanceId) (expectedApp : Option AppInstanceId)
    (remoteHandles : Nat) (limits : ProtocolLimits) : Checked Nat :=
  if expectedApp.any (actualApp ≠ ·) then
    .error .crossApplicationHandle
  else
    match checkedAdd u32Max remoteHandles 1 with
    | none => .error .remoteHandleCountOverflow
    | some remoteHandles =>
      if remoteHandles > limits.maxRemoteHandles.toNat then
        .error (.remoteHandlesExceeded limits.maxRemoteHandles remoteHandles)
      else
        .ok remoteHandles

/-- `keys` are those of the entries already seen. -/
def validateObjectEntries (maximumString : Nat) : List String → List (String × WireValue) → Checked Unit
  | _, [] => .ok ()
  | keys, (key, _) :: rest => do
    validateBoundedText "wire object key" key maximumString
    if key ∈ keys then throw (.duplicateObjectKey key)
    validateObjectEntries maximumString (key :: keys) rest

def regularExpressionFlags : List UInt8 := utf8Bytes "dgimsuvy"

def validateFlags (previous : Option Nat) (unicode unicodeSets : Bool) : List UInt8 → Checked Unit
  | [] => if unicode && unicodeSets then .error .invalidRegularExpressionFlags else .ok ()
  | flag :: rest =>
    match regularExpressionFlags.findIdx? (· = flag) with
    | none => .error .invalidRegularExpressionFlags
    | some position =>
      if previous.any (position ≤ ·) then
        .error .invalidRegularExpressionFlags
      else
        validateFlags (some position) (unicode || flag == 117) (unicodeSets || flag == 118) rest

def elementBytes : TypedArrayKind → Nat
  | .int8 | .uint8 | .uint8Clamped => 1
  | .int16 | .uint16 => 2
  | .int32 | .uint32 | .float32 => 4
  | .float64 | .bigInt64 | .bigUint64 => 8

def typedArrayBytes (arrayKind : TypedArrayKind) (byteOffset elementCount : UInt64) : Option Nat :=
  (checkedMul u64Max elementCount.toNat (elementBytes arrayKind)).bind fun length =>
    checkedAdd u64Max byteOffset.toNat length

def validateOptionalText (maximumString : Nat) (field : String) : Option String → Checked Unit
  | none => .ok ()
  | some value => validateBoundedText field value maximumString

def validateDataKeys (maximumString : Nat) : List (String × WireValue) → Checked Unit
  | [] => .ok ()
  | (key, _) :: rest => do
    validateBoundedText "wire error data key" key maximumString
    validateDataKeys maximumString rest

abbrev Pending := List (WireValue × Nat)

/-- The values behind the pushes, the one pushed last first. -/
def pushChildren (children : List WireValue) (depth : Nat) (pending : Pending) : Pending :=
  children.map (·, depth) ++ pending

/-- The keys of an error's data are checked from the last to the first, as they are pushed. -/
def validateWireError (name message : String) (stack code kind : Option String) (cause : Option WireValue)
    (data : List (String × WireValue)) (pending : Pending) (depth : Nat) (limits : ProtocolLimits)
    (remainingNodes : Nat) : Checked Pending := do
  let maximumString := limits.maxStringBytes.toNat
  validateBoundedText "wire error name" name maximumString
  validateBoundedText "wire error message" message maximumString
  validateOptionalText maximumString "wire error stack" stack
  validateOptionalText maximumString "wire error code" code
  validateOptionalText maximumString "wire error kind" kind
  match checkedAdd usizeMax data.length cause.toList.length with
  | none => throw .graphNodeCountOverflow
  | some children => do
    reservePending pending.length children remainingNodes limits.maxGraphNodes
    let depth ← childDepth depth limits (children = 0)
    validateDataKeys maximumString data.reverse
    return pushChildren (cause.toList ++ data.map Prod.snd) depth pending

def validateTypedArray (arrayKind : TypedArrayKind) (byteOffset elementCount : UInt64)
    (storage : BufferStorage) (limits : ProtocolLimits) (remoteHandles : Nat)
    (expectedApp : Option AppInstanceId) : Checked Nat :=
  match typedArrayBytes arrayKind byteOffset elementCount with
  | none => .error .typedArrayRangeOverflow
  | some byteLen =>
    match storage with
    | .inline value => do
      validateInlineBytes value limits.maxInlineBufferBytes.toNat
      if byteLen > value.length then throw .typedArrayRangeExceeded
      return remoteHandles
    | .shared handle | .stream handle => validateRemoteHandle handle.app expectedApp remoteHandles limits
    | .blob _ => .ok remoteHandles

def validateWireValue (value : WireValue) (depth : Nat) (limits : ProtocolLimits) (pending : Pending)
    (remoteHandles remainingNodes : Nat) (expectedApp : Option AppInstanceId) : Checked (Pending × Nat) :=
  let maximumString := limits.maxStringBytes.toNat
  let maximumInline := limits.maxInlineBufferBytes.toNat
  match value with
  | .undefined | .null | .bool _ | .integer _ | .negativeZero | .nan | .positiveInfinity
  | .negativeInfinity | .reference _ | .dateMillis _ => .ok (pending, remoteHandles)
  | .float value =>
    if value.isFinite && value.hasFraction then .ok (pending, remoteHandles) else .error .nonCanonicalFloat
  | .bigInt negative magnitudeBe => do
    if magnitudeBe = [] ∨ magnitudeBe.head? = some 0 ∨ (negative ∧ magnitudeBe.all (· = 0)) then
      throw .nonCanonicalBigInt
    validateInlineBytes magnitudeBe maximumInline
    return (pending, remoteHandles)
  | .string value => do
    validateBoundedText "wire string" value maximumString
    return (pending, remoteHandles)
  | .bytes value => do
    validateInlineBytes value maximumInline
    return (pending, remoteHandles)
  | .array values => do
    reservePending pending.length values.length remainingNodes limits.maxGraphNodes
    let depth ← childDepth depth limits values.isEmpty
    return (pushChildren values depth pending, remoteHandles)
  | .object entries => do
    validateObjectEntries maximumString [] entries
    reservePending pending.length entries.length remainingNodes limits.maxGraphNodes
    let depth ← childDepth depth limits entries.isEmpty
    return (pushChildren (entries.map Prod.snd) depth pending, remoteHandles)
  | .regExp source flags => do
    validateBoundedText "regular expression source" source maximumString
    validateBoundedText "regular expression flags" flags maximumString
    validateFlags none false false (utf8Bytes flags)
    return (pending, remoteHandles)
  | .error name message stack code kind cause data => do
    let pending ← validateWireError name message stack code kind cause data pending depth limits remainingNodes
    return (pending, remoteHandles)
  | .handle value => do
    let remoteHandles ← validateRemoteHandle value.app expectedApp remoteHandles limits
    return (pending, remoteHandles)
  | .function value | .promise value | .messagePort value => do
    let remoteHandles ← validateRemoteHandle value.app expectedApp remoteHandles limits
    return (pending, remoteHandles)
  | .typedArray arrayKind byteOffset elementCount storage => do
    let remoteHandles ←
      validateTypedArray arrayKind byteOffset elementCount storage limits remoteHandles expectedApp
    return (pending, remoteHandles)

structure WireValueBudget where
  (nodes maximumDepth remoteHandles : Nat)
  deriving DecidableEq

/-- The loop. Every round claims a node, so that it ends within one more round than nodes are
allowed. -/
def validatePending (limits : ProtocolLimits) (expectedApp : Option AppInstanceId) :
    Nat → Pending → WireValueBudget → Checked WireValueBudget
  | 0, _, _ => .error .graphNodeCountOverflow
  | _ + 1, [], budget => .ok budget
  | rounds + 1, (value, depth) :: pending, budget =>
    match checkedAdd u32Max budget.nodes 1 with
    | none => .error .graphNodeCountOverflow
    | some nodes => do
      if nodes > limits.maxGraphNodes.toNat then throw (.graphNodesExceeded limits.maxGraphNodes nodes)
      if depth > limits.maxObjectDepth.toNat then throw (.graphDepthExceeded limits.maxObjectDepth depth)
      let (pending, remoteHandles) ← validateWireValue value depth limits pending budget.remoteHandles
        (limits.maxGraphNodes.toNat - nodes) expectedApp
      validatePending limits expectedApp rounds pending
        ⟨nodes, max budget.maximumDepth depth, remoteHandles⟩

variable (roots : List WireValue)

def validateWireValueGraphWithApp (limits : ProtocolLimits)
    (expectedApp : Option AppInstanceId) : Checked WireValueBudget := do
  checkLimits limits
  if roots.length > u32Max then throw .graphNodeCountOverflow
  if roots.length > limits.maxGraphNodes.toNat then
    throw (.graphNodesExceeded limits.maxGraphNodes roots.length)
  validatePending limits expectedApp (limits.maxGraphNodes.toNat + 2) (pushChildren roots 1 []) ⟨0, 0, 0⟩

def validateWireValueGraph (limits : ProtocolLimits) : Checked WireValueBudget :=
  validateWireValueGraphWithApp roots limits none

def validateWireValueGraphForApp (limits : ProtocolLimits) (app : AppInstanceId) : Checked WireValueBudget :=
  validateWireValueGraphWithApp roots limits (some app)

end Weregopher.Protocol
