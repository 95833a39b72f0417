import Weregopher.Transform.Emission

/-! # Emission of source maps

A mapping stands at every start of a line of the transformed source and on both sides of
every replacement. Texts are lists of characters with their byte offsets; the
allocations, which can only fail, are left out.
-/
namespace Weregopher.Transform
open Lib.Bytes Lib.Checked Lib.Outcome Lib.TextPosition

inductive SourceMapError
  | invalidLimits
  | sourceTooLarge (actualBytes maxBytes : Nat)
  | transformedSourceTooLarge (actualBytes maxBytes : Nat)
  | sourceDigestMismatch
  | sourceNotUtf8
  | transformedSourceNotUtf8
  | segmentCountOverflow
  | segmentLimitExceeded (requiredSegments maxSegments : Nat)
  | offsetOverflow
  | positionOverflow
  | invalidEditRange
  | lineStartCountMismatch (expected actual : Nat)
  | lineStartCollectionFailed
  | ambiguousGeneratedAnchor (generatedByte : Nat)
  | invalidAnchorOffset (offset : Nat)
  | positionResolutionFailed
  | positionCountMismatch
  | mappingOrderInvalid
  | positionDeltaOutOfRange
  | vlqEncodingFailed
  | sourceMapLengthOverflow
  | sourceMapTooLarge (actualBytes maxBytes : Nat)
  | emittedLengthMismatch (expectedBytes actualBytes : Nat)
  deriving DecidableEq

structure SourceMapLimits where
  (sourceBytes transformedSourceBytes segments sourceMapBytes : Nat)
  nonzero : sourceBytes ≠ 0 ∧ transformedSourceBytes ≠ 0 ∧ segments ≠ 0 ∧ sourceMapBytes ≠ 0

def SourceMapLimits.new (maxSourceBytes maxTransformedSourceBytes maxSegments maxSourceMapBytes : Nat) :
    Except SourceMapError SourceMapLimits :=
  if h : maxSourceBytes ≠ 0 ∧ maxTransformedSourceBytes ≠ 0 ∧ maxSegments ≠ 0 ∧ maxSourceMapBytes ≠ 0 then
    .ok ⟨maxSourceBytes, maxTransformedSourceBytes, maxSegments, maxSourceMapBytes, h⟩
  else .error .invalidLimits

structure ByteAnchor where
  generated : Nat
  original : Nat
  deriving DecidableEq

def ByteAnchor.le (a b : ByteAnchor) : Bool :=
  a.generated < b.generated || (a.generated == b.generated && a.original ≤ b.original)

abbrev LineColumn := Position

/-! ## Line starts -/

def charIndicesFrom (offset : Nat) : List Char → List (Nat × Char)
  | [] => []
  | c :: rest => (offset, c) :: charIndicesFrom (offset + c.utf8Size) rest

variable (text : List Char)

def charIndices : List (Nat × Char) := charIndicesFrom 0 text

def countStep : Nat × Bool → Char → Except SourceMapError (Nat × Bool)
  | (count, previousWasCr), c => do
    if c = '\r' then
      return (← okOr .segmentCountOverflow (checkedAdd usizeMax count 1), true)
    else if c = '\n' ∧ previousWasCr then
      return (count, false)
    else if c = '\n' ∨ c = '\u2028' ∨ c = '\u2029' then
      return (← okOr .segmentCountOverflow (checkedAdd usizeMax count 1), false)
    else
      return (count, false)

def countLineStarts : Except SourceMapError Nat := do
  let (count, _) ← text.foldlM countStep (1, false)
  return count

def collectStep : List Nat × Bool → Nat × Char → Except SourceMapError (List Nat × Bool)
  | (starts, previousWasCr), (index, c) => do
    if c = '\r' then
      return (starts ++ [← okOr .offsetOverflow (checkedAdd usizeMax index c.utf8Size)], true)
    else if c = '\n' ∧ previousWasCr then
      if starts = [] then throw .lineStartCollectionFailed
      return (starts.dropLast ++ [← okOr .offsetOverflow (checkedAdd usizeMax index c.utf8Size)], false)
    else if c = '\n' ∨ c = '\u2028' ∨ c = '\u2029' then
      return (starts ++ [← okOr .offsetOverflow (checkedAdd usizeMax index c.utf8Size)], false)
    else
      return (starts, false)

def collectLineStarts (count : Nat) : Except SourceMapError (List Nat) := do
  let (starts, _) ← (charIndices text).foldlM collectStep ([0], false)
  if starts.length ≠ count then throw (.lineStartCountMismatch count starts.length)
  return starts

/-! ## Anchors -/

/-- The edits from `edit_index` on, with the ends of the last one before them in both texts. -/
structure EditCursor where
  edits : List TextEdit
  sourceCursor : Nat
  generatedCursor : Nat

def generatedRange (sourceBytes sourceCursor generatedCursor : Nat) (edit : TextEdit) :
    Except SourceMapError (Nat × Nat) := do
  if edit.startByte < sourceCursor ∨ edit.endByte < edit.startByte ∨ edit.endByte > sourceBytes then
    throw .invalidEditRange
  let generatedStart ← okOr .offsetOverflow (checkedAdd usizeMax generatedCursor (edit.startByte - sourceCursor))
  let generatedEnd ←
    okOr .offsetOverflow (checkedAdd usizeMax generatedStart (charBytes edit.replacement).length)
  return (generatedStart, generatedEnd)

def originalOfLineStart (sourceBytes generated : Nat) :
    (edits : List TextEdit) → (sourceCursor generatedCursor : Nat) → Except SourceMapError (Nat × EditCursor)
  | [], sourceCursor, generatedCursor => do
    let unchanged ← okOr .invalidEditRange (checkedSub generated generatedCursor)
    let original ← okOr .offsetOverflow (checkedAdd usizeMax sourceCursor unchanged)
    if original > sourceBytes then throw (.invalidAnchorOffset original)
    return (original, ⟨[], sourceCursor, generatedCursor⟩)
  | edit :: rest, sourceCursor, generatedCursor => do
    let (generatedStart, generatedEnd) ← generatedRange sourceBytes sourceCursor generatedCursor edit
    if generated < generatedStart then
      let unchanged ← okOr .invalidEditRange (checkedSub generated generatedCursor)
      let original ← okOr .offsetOverflow (checkedAdd usizeMax sourceCursor unchanged)
      return (original, ⟨edit :: rest, sourceCursor, generatedCursor⟩)
    else if generated < generatedEnd then
      return (edit.startByte, ⟨edit :: rest, sourceCursor, generatedCursor⟩)
    else originalOfLineStart sourceBytes generated rest edit.endByte generatedEnd

def generatedLineAnchors (sourceBytes : Nat) :
    (lineStarts : List Nat) → EditCursor → Except SourceMapError (List ByteAnchor)
  | [], _ => return []
  | generated :: rest, cursor => do
    let (original, cursor) ←
      originalOfLineStart sourceBytes generated cursor.edits cursor.sourceCursor cursor.generatedCursor
    let anchors ← generatedLineAnchors sourceBytes rest cursor
    return ⟨generated, original⟩ :: anchors

def editAnchors (sourceBytes : Nat) :
    (edits : List TextEdit) → (sourceCursor generatedCursor : Nat) → Except SourceMapError (List ByteAnchor)
  | [], _, _ => return []
  | edit :: rest, sourceCursor, generatedCursor => do
    let (generatedStart, generatedEnd) ← generatedRange sourceBytes sourceCursor generatedCursor edit
    let anchors ← editAnchors sourceBytes rest edit.endByte generatedEnd
    return ⟨generatedStart, edit.startByte⟩ :: ⟨generatedEnd, edit.endByte⟩ :: anchors

/-- `sort_unstable` and `dedup`. -/
def sortAnchors (anchors : List ByteAnchor) : List ByteAnchor :=
  (anchors.insertionSort fun a b => a.le b).destutter (· ≠ ·)

/-- The loop over `windows(2)`. -/
def checkAnchors : List ByteAnchor → Except SourceMapError Unit
  | first :: second :: rest => do
    if first.generated = second.generated ∧ first.original ≠ second.original then
      throw (.ambiguousGeneratedAnchor first.generated)
    checkAnchors (second :: rest)
  | _ => return ()

/-! ## Positions -/

structure Scan where
  (byteCursor line column : Nat)
  previousWasCr : Bool

def Scan.position (scan : Scan) : LineColumn := ⟨scan.line, scan.column⟩

def Scan.read (scan : Scan) (nextCursor : Nat) (c : Char) : Except SourceMapError Scan := do
  if c = '\r' then
    return ⟨nextCursor, ← okOr .positionOverflow (checkedAdd usizeMax scan.line 1), 0, true⟩
  else if c = '\n' ∧ scan.previousWasCr then
    return ⟨nextCursor, scan.line, 0, false⟩
  else if c = '\n' ∨ c = '\u2028' ∨ c = '\u2029' then
    return ⟨nextCursor, ← okOr .positionOverflow (checkedAdd usizeMax scan.line 1), 0, false⟩
  else
    return ⟨nextCursor, scan.line, ← okOr .positionOverflow (checkedAdd usizeMax scan.column (utf16Length c)), false⟩

def scanTo (target : Nat) :
    (characters : List (Nat × Char)) → Scan → Except SourceMapError (List (Nat × Char) × Scan)
  | [], scan => if scan.byteCursor < target then throw .positionResolutionFailed else return ([], scan)
  | (index, c) :: rest, scan =>
    if scan.byteCursor < target then do
      if index ≠ scan.byteCursor then throw .positionResolutionFailed
      let nextCursor ← okOr .offsetOverflow (checkedAdd usizeMax index c.utf8Size)
      if nextCursor > target then throw (.invalidAnchorOffset target)
      let scan ← scan.read nextCursor c
      scanTo target rest scan
    else return ((index, c) :: rest, scan)

def isCharBoundary (offset : Nat) : Bool :=
  offset == byteLength text || (charIndices text).any fun (index, _) => index == offset

def resolveFrom (text : List Char) :
    (targets : List Nat) → (previousTarget : Nat) → List (Nat × Char) → Scan → Except SourceMapError (List LineColumn)
  | [], _, _, _ => return []
  | target :: rest, previousTarget, characters, scan => do
    if target < previousTarget ∨ target > byteLength text ∨ !isCharBoundary text target then
      throw (.invalidAnchorOffset target)
    let (characters, scan) ← scanTo target characters scan
    let positions ← resolveFrom text rest target characters scan
    return scan.position :: positions

def resolvePositions (anchors : List ByteAnchor) (offset : ByteAnchor → Nat) :
    Except SourceMapError (List LineColumn) :=
  resolveFrom text (anchors.map offset) 0 (charIndices text) ⟨0, 0, 0, false⟩

/-! ## Mappings -/

structure MappingCursor where
  (generatedLine generatedColumn originalLine originalColumn : Nat)
  hasSegment : Bool

def MappingCursor.new : MappingCursor := ⟨0, 0, 0, 0, false⟩

structure MappingStep where
  newLines : Nat
  comma : Bool
  deltas : List Int

def i64Max : Nat := 2 ^ 63 - 1

def signedDelta (current previous : Nat) : Except SourceMapError Int :=
  if current ≥ previous then
    if current - previous ≤ i64Max then .ok (current - previous : Nat) else .error .positionDeltaOutOfRange
  else
    if previous - current ≤ i64Max then .ok (-(previous - current : Nat)) else .error .positionDeltaOutOfRange

def MappingCursor.step (cursor : MappingCursor) (generated original : LineColumn) :
    Except SourceMapError (MappingStep × MappingCursor) := do
  if generated.line < cursor.generatedLine then throw .mappingOrderInvalid
  let newLines := generated.line - cursor.generatedLine
  let cursor : MappingCursor :=
    if newLines > 0 then { cursor with generatedLine := generated.line, generatedColumn := 0, hasSegment := false }
    else cursor
  if generated.column < cursor.generatedColumn then throw .mappingOrderInvalid
  let column ← signedDelta generated.column cursor.generatedColumn
  let line ← signedDelta original.line cursor.originalLine
  let originalColumn ← signedDelta original.column cursor.originalColumn
  return (⟨newLines, cursor.hasSegment, [column, 0, line, originalColumn]⟩,
    ⟨cursor.generatedLine, generated.column, original.line, original.column, true⟩)

def saturatingMul (maximum a b : Nat) : Nat := min (a * b) maximum

def vlqValue (value : Int) : Nat := saturatingMul u64Max value.natAbs 2 ||| (if value < 0 then 1 else 0)

def vlqLengthLoop (remaining : Nat) : Nat := if remaining ≥ 32 then vlqLengthLoop (remaining >>> 5) + 1 else 1
decreasing_by
  rw [Nat.shiftRight_eq_div_pow]
  omega

def vlqLength (value : Int) : Nat := vlqLengthLoop (vlqValue value)

def base64 : List UInt8 := utf8Bytes "ABCDEFGHIJKLMNOPQRSTUVWXYZabcdefghijklmnopqrstuvwxyz0123456789+/"

def vlqDigits (remaining : Nat) : Except SourceMapError (List UInt8) := do
  let next := remaining >>> 5
  let digit := if next > 0 then remaining &&& 31 ||| 32 else remaining &&& 31
  let byte ← okOr .vlqEncodingFailed base64[digit]?
  if _hNext : next = 0 then return [byte]
  else
    let rest ← vlqDigits next
    return byte :: rest
decreasing_by
  have _hShift : next = remaining / 2 ^ 5 := Nat.shiftRight_eq_div_pow remaining 5
  omega

def appendVlq (value : Int) : Except SourceMapError (List UInt8) := vlqDigits (vlqValue value)

def addLength (length : Nat) (more : Nat) : Except SourceMapError Nat :=
  okOr .sourceMapLengthOverflow (checkedAdd usizeMax length more)

def addComma (length : Nat) (comma : Bool) : Except SourceMapError Nat :=
  if comma then addLength length 1 else return length

def mappingsLengthFrom : List (LineColumn × LineColumn) → MappingCursor → (length : Nat) → Except SourceMapError Nat
  | [], _, length => return length
  | (generated, original) :: rest, cursor, length => do
    let (step, cursor) ← cursor.step generated original
    let length ← addLength length step.newLines
    let length ← addComma length step.comma
    let length ← step.deltas.foldlM (fun length delta => addLength length (vlqLength delta)) length
    mappingsLengthFrom rest cursor length

def mappingsLength (generated original : List LineColumn) : Except SourceMapError Nat := do
  if generated.length ≠ original.length then throw .positionCountMismatch
  mappingsLengthFrom (generated.zip original) .new 0

def appendMappingsFrom : List (LineColumn × LineColumn) → MappingCursor → Except SourceMapError (List UInt8)
  | [], _ => return []
  | (generated, original) :: rest, cursor => do
    let (step, cursor) ← cursor.step generated original
    let numbers ← step.deltas.mapM appendVlq
    let output ← appendMappingsFrom rest cursor
    return List.replicate step.newLines 0x3b ++ (if step.comma then [0x2c] else []) ++ numbers.flatten ++ output

def appendMappings (generated original : List LineColumn) : Except SourceMapError (List UInt8) := do
  if generated.length ≠ original.length then throw .positionCountMismatch
  appendMappingsFrom (generated.zip original) .new

/-! ## The document -/

def mapPrefix : List UInt8 := utf8Bytes "\x7b\"version\":3,\"sources\":[\""

def mapMappings : List UInt8 := utf8Bytes "\"],\"names\":[],\"mappings\":\""

def mapExtension : List UInt8 := utf8Bytes "\",\"x_weregopher\":\x7b\"format_version\":\"1\",\"rule_id\":\""

def mapRuleDigest : List UInt8 := utf8Bytes "\",\"rule_digest\":\""

def mapSourceDigest : List UInt8 := utf8Bytes "\",\"source_digest\":\""

def mapTransformedDigest : List UInt8 := utf8Bytes "\",\"transformed_source_digest\":\""

def mapSuffix : List UInt8 := utf8Bytes "\"\x7d\x7d"

def digestTextLength : Nat := 71

def digestText (digest : Sha256Digest) : List UInt8 :=
  utf8Bytes "sha256:" ++ charBytes (Sha256Digest.encodeHex digest.bytes.toList)

def sourceMapLength (mappingsLength sourceIdLength ruleIdLength : Nat) : Except SourceMapError Nat := do
  let length ←
    [mapPrefix, mapMappings, mapExtension, mapRuleDigest, mapSourceDigest, mapTransformedDigest, mapSuffix].foldlM
      (fun length fixed => addLength length fixed.length) 0
  [sourceIdLength, mappingsLength, ruleIdLength, digestTextLength, digestTextLength, digestTextLength].foldlM
    addLength length

structure EmittedSourceMap where
  transformedSource : EmittedTransformedSource
  bytes : List UInt8
  digest : Sha256Digest
  segmentCount : Nat
  deriving DecidableEq

def sourceMapBytes (transformedSource : EmittedTransformedSource) (mappings : List UInt8) : List UInt8 :=
  let plan := transformedSource.plan
  mapPrefix ++ utf8Bytes plan.source.unitId.value ++ mapMappings ++ mappings ++ mapExtension ++
    utf8Bytes plan.ruleId.value ++ mapRuleDigest ++ digestText plan.ruleDigest ++ mapSourceDigest ++
    digestText plan.source.sourceDigest ++ mapTransformedDigest ++
    digestText transformedSource.transformedSourceDigest ++ mapSuffix

def collectAnchors (transformedText : List Char) (edits : List TextEdit) (sourceBytes : Nat)
    (limits : SourceMapLimits) : Except SourceMapError (List ByteAnchor) := do
  let lineCount ← countLineStarts transformedText
  let editSegments ← okOr .segmentCountOverflow (checkedMul usizeMax edits.length 2)
  let requiredSegments ← okOr .segmentCountOverflow (checkedAdd usizeMax lineCount editSegments)
  if requiredSegments > limits.segments then throw (.segmentLimitExceeded requiredSegments limits.segments)
  let lineStarts ← collectLineStarts transformedText lineCount
  let lineAnchors ← generatedLineAnchors sourceBytes lineStarts ⟨edits, 0, 0⟩
  let edits ← editAnchors sourceBytes edits 0 0
  let anchors := sortAnchors (lineAnchors ++ edits)
  checkAnchors anchors
  return anchors

def emitSourceMap (sha256 : Sha256) (transformedSource : EmittedTransformedSource)
    (source : List UInt8) (limits : SourceMapLimits) : Except SourceMapError EmittedSourceMap := do
  if source.length > limits.sourceBytes then throw (.sourceTooLarge source.length limits.sourceBytes)
  if transformedSource.transformedSource.length > limits.transformedSourceBytes then
    throw (.transformedSourceTooLarge transformedSource.transformedSource.length limits.transformedSourceBytes)
  let plan := transformedSource.plan
  if sha256 source ≠ plan.source.sourceDigest then throw .sourceDigestMismatch
  let sourceText ← okOr .sourceNotUtf8 (chars? source)
  let transformedText ← okOr .transformedSourceNotUtf8 (chars? transformedSource.transformedSource)
  let anchors ← collectAnchors transformedText plan.edits source.length limits
  let generatedPositions ← resolvePositions transformedText anchors ByteAnchor.generated
  let originalPositions ← resolvePositions sourceText anchors ByteAnchor.original
  let mappingsLength ← mappingsLength generatedPositions originalPositions
  let mapLength ←
    sourceMapLength mappingsLength (utf8Bytes plan.source.unitId.value).length (utf8Bytes plan.ruleId.value).length
  if mapLength > limits.sourceMapBytes then throw (.sourceMapTooLarge mapLength limits.sourceMapBytes)
  let mappings ← appendMappings generatedPositions originalPositions
  let bytes := sourceMapBytes transformedSource mappings
  if bytes.length ≠ mapLength then throw (.emittedLengthMismatch mapLength bytes.length)
  return ⟨transformedSource, bytes, sha256 bytes, anchors.length⟩

end Weregopher.Transform
