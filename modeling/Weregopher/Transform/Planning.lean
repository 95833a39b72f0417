import Weregopher.Transform.Overlay

/-! # Planning of static import rewrites

A rule replaces a module specifier by another one. The parser is a parameter: it gives the
statements of a module with the literals of its imports and exports. Indices into a text
are below its length, so that adding to them does not overflow.
-/
namespace Weregopher.Transform
open Lib.Bytes Lib.Checked Lib.Outcome Lib.TextPosition

inductive StaticImportSpecifier
  | from
  | to
  deriving DecidableEq

inductive TransformPlanError
  | emptySpecifier (side : StaticImportSpecifier)
  | equivalentSpecifiers
  | controlCharacterInSpecifier (side : StaticImportSpecifier)
  | specifierTooLong (side : StaticImportSpecifier) (actualBytes : Nat)
  | expectedMatchCountExceedsLimit (expected maxEdits : Nat)
  | matchSpecifierTooLarge (actualBytes maxBytes : Nat)
  | replacementLengthOverflow
  | replacementTooLarge (actualBytes maxBytes : Nat)
  | sourceByteLimitExceedsParserCapacity (requestedBytes maxBytes : Nat)
  | invalidLimits
  | sourceTooLarge (actualBytes maxBytes : Nat)
  | unknownRule (ruleId : TransformRuleId)
  | ruleDigestMismatch (ruleId : TransformRuleId)
  | sourceDigestMismatch
  | invalidUtf8
  | parseFailed (diagnosticCount : Nat)
  | invalidParserSpan (startByte endByte : Nat)
  | loneSurrogateEscape (startByte : Nat)
  | matchCountMismatch (expected actual : Nat)
  deriving DecidableEq

/-! ## Rules -/

def isControl (c : Char) : Bool := c.toNat < 0x20 || (0x7f ≤ c.toNat && c.toNat < 0xa0)

variable (specifier : List Char)

def validateSpecifier (side : StaticImportSpecifier) : Except TransformPlanError Nat :=
  if specifier = [] then .error (.emptySpecifier side)
  else if byteLength specifier > u32Max then .error (.specifierTooLong side (byteLength specifier))
  else if specifier.any isControl then .error (.controlCharacterInSpecifier side)
  else .ok (byteLength specifier)

structure StaticImportRewrite where
  (source target : List Char)
  exactMatchCount : Nat
  sourceValid : validateSpecifier source .from = .ok (byteLength source)
  targetValid : validateSpecifier target .to = .ok (byteLength target)
  distinct : source ≠ target
  counted : exactMatchCount ≠ 0 ∧ exactMatchCount < 2 ^ 16

def staticImportRewriteDomain : List UInt8 := utf8Bytes "weregopher.static-import-rewrite.v1" ++ [0]

def StaticImportRewrite.canonicalDocument (rule : StaticImportRewrite) : List UInt8 :=
  staticImportRewriteDomain ++ toBeBytes 4 (byteLength rule.source) ++ charBytes rule.source ++
    toBeBytes 4 (byteLength rule.target) ++ charBytes rule.target ++ toBeBytes 2 rule.exactMatchCount

def StaticImportRewrite.canonicalDigest (sha256 : Sha256) (rule : StaticImportRewrite) :
    Sha256Digest := sha256 rule.canonicalDocument

structure SourceUnitInput where
  source : SourceUnitRef
  bytes : List UInt8

structure PlannerLimits where
  (sourceBytes edits replacementBytes : Nat)
  nonzero : sourceBytes ≠ 0 ∧ edits ≠ 0 ∧ replacementBytes ≠ 0
  capacity : sourceBytes ≤ u32Max

def PlannerLimits.new (maxSourceBytes maxEdits maxReplacementBytes : Nat) : Except TransformPlanError PlannerLimits :=
  if hZero : maxSourceBytes ≠ 0 ∧ maxEdits ≠ 0 ∧ maxReplacementBytes ≠ 0 then
    if hCapacity : maxSourceBytes ≤ u32Max then .ok ⟨maxSourceBytes, maxEdits, maxReplacementBytes, hZero, hCapacity⟩
    else .error (.sourceByteLimitExceedsParserCapacity maxSourceBytes u32Max)
  else .error .invalidLimits

/-! ## The replacement literal -/

def encodedLength (c : Char) : Nat :=
  if c = '"' ∨ c = '\\' then 2 else if c = '\u2028' ∨ c = '\u2029' then 6 else c.utf8Size

def canonicalReplacementByteLength : Option Nat :=
  specifier.foldlM (fun length c => checkedAdd usizeMax length (encodedLength c)) 2

def quoteChar (c : Char) : List Char :=
  if c = '"' then ['\\', '"']
  else if c = '\\' then ['\\', '\\']
  else if c = '\u2028' then "\\u2028".toList
  else if c = '\u2029' then "\\u2029".toList
  else [c]

def quoteSpecifier : List Char := '"' :: (specifier.flatMap quoteChar ++ ['"'])

/-! ## Lone surrogates -/

def hexDigit? (digit : UInt8) : Option Nat :=
  if 0x30 ≤ digit ∧ digit ≤ 0x39 then some (digit.toNat - 0x30)
  else if 0x61 ≤ digit ∧ digit ≤ 0x66 then some (digit.toNat - 0x61 + 10)
  else if 0x41 ≤ digit ∧ digit ≤ 0x46 then some (digit.toNat - 0x41 + 10)
  else none

def parseHexDigits (digits : List UInt8) : Option Nat :=
  if digits = [] then none
  else digits.foldlM (fun value digit => do
    let shifted ← checkedMul u32Max value 16
    checkedAdd u32Max shifted (← hexDigit? digit)) 0

def unicodeEscapeAt (bytes : List UInt8) (slash literalEnd : Nat) : Option (Nat × Nat) :=
  if bytes[slash]? ≠ some 0x5c ∨ bytes[slash + 1]? ≠ some 0x75 then none
  else if bytes[slash + 2]? = some 0x7b then do
    let valueStart := slash + 3
    let range ← byteRange bytes valueStart literalEnd
    let closeOffset ← range.findIdx? (· = 0x7d)
    let close := valueStart + closeOffset
    let digits ← byteRange bytes valueStart close
    let value ← parseHexDigits digits
    return (value, close + 1)
  else if slash + 6 > literalEnd then none
  else do
    let digits ← byteRange bytes (slash + 2) (slash + 6)
    let value ← parseHexDigits digits
    return (value, slash + 6)

theorem unicodeEscapeAt_lt {bytes : List UInt8} {slash literalEnd value next : Nat}
    (h : unicodeEscapeAt bytes slash literalEnd = some (value, next)) : slash < next := by
  rw [unicodeEscapeAt] at h
  split_ifs at h
  · simp only [Option.bind_eq_bind, Option.bind_eq_some_iff] at h
    obtain ⟨_, -, offset, -, _, -, _, -, h⟩ := h
    cases h
    omega
  · simp only [Option.bind_eq_bind, Option.bind_eq_some_iff] at h
    obtain ⟨_, -, _, -, h⟩ := h
    cases h
    omega

/-- One pass of the loop: where the next one starts, unless a lone surrogate is found. -/
def surrogateStep (bytes : List UInt8) (literalEnd cursor : Nat) : Option Nat :=
  if bytes[cursor]? ≠ some 0x5c then some (cursor + 1)
  else
    match unicodeEscapeAt bytes cursor literalEnd with
    | none => some (cursor + 2)
    | some (value, nextCursor) =>
      if 0xd800 ≤ value ∧ value ≤ 0xdbff then
        match unicodeEscapeAt bytes nextCursor literalEnd with
        | none => none
        | some (lowSurrogate, afterPair) =>
          if ¬(0xdc00 ≤ lowSurrogate ∧ lowSurrogate ≤ 0xdfff) then none else some afterPair
      else if 0xdc00 ≤ value ∧ value ≤ 0xdfff then none
      else some nextCursor

theorem surrogateStep_lt {bytes : List UInt8} {literalEnd cursor next : Nat}
    (h : surrogateStep bytes literalEnd cursor = some next) : cursor < next := by
  rw [surrogateStep] at h
  split_ifs at h
  · cases h
    omega
  · split at h
    · cases h
      omega
    · rename_i hEscape
      have hCursor := unicodeEscapeAt_lt hEscape
      split_ifs at h
      · split at h
        · cases h
        · rename_i hLow
          have hPair := unicodeEscapeAt_lt hLow
          split_ifs at h
          cases h
          omega
      · cases h
        exact hCursor

def loneSurrogateFrom (bytes : List UInt8) (literalEnd cursor : Nat) : Bool :=
  if cursor < literalEnd then
    match _hStep : surrogateStep bytes literalEnd cursor with
    | none => true
    | some next => loneSurrogateFrom bytes literalEnd next
  else false
termination_by literalEnd - cursor
decreasing_by
  have := surrogateStep_lt _hStep
  omega

def containsLoneSurrogateEscape (literal : List Char) : Bool :=
  let bytes := charBytes literal
  loneSurrogateFrom bytes (bytes.length - 1) 1

/-! ## Plans -/

structure StringLiteral where
  startByte : Nat
  endByte : Nat
  value : List Char

inductive Statement
  | importDeclaration (source : StringLiteral)
  | exportNamedDeclaration (source : Option StringLiteral)
  | exportAllDeclaration (source : StringLiteral)
  | other

structure ParsedModule where
  diagnosticCount : Nat
  body : List Statement

def staticModuleSpecifier : Statement → Option StringLiteral
  | .importDeclaration source => some source
  | .exportNamedDeclaration source => source
  | .exportAllDeclaration source => some source
  | .other => none

/-- `str::get` of a range. -/
def textRange (text : List Char) (start stop : Nat) : Option (List Char) :=
  if isCharBoundary text start && isCharBoundary text stop then (byteRange (charBytes text) start stop).bind chars?
  else none

def planStatement (sourceText : List Char) (rule : StaticImportRewrite) (replacement : List Char)
    (edits : List TextEdit) (statement : Statement) : Except TransformPlanError (List TextEdit) :=
  match staticModuleSpecifier statement with
  | none => .ok edits
  | some literal => do
    let rawLiteral ← okOr (.invalidParserSpan literal.startByte literal.endByte)
      (textRange sourceText literal.startByte literal.endByte)
    if containsLoneSurrogateEscape rawLiteral then throw (.loneSurrogateEscape literal.startByte)
    if literal.value ≠ rule.source then return edits
    if edits.length = rule.exactMatchCount then
      throw (.matchCountMismatch rule.exactMatchCount (rule.exactMatchCount + 1))
    return edits ++ [⟨literal.startByte, literal.endByte, replacement⟩]

def planStaticImportRewrite (sha256 : Sha256) (parse : List Char → ParsedModule)
    (authority : AdapterTransformAuthority) (ruleId : TransformRuleId) (rule : StaticImportRewrite)
    (source : SourceUnitInput) (limits : PlannerLimits) : Except TransformPlanError TransformPlan := do
  if rule.exactMatchCount > limits.edits then
    throw (.expectedMatchCountExceedsLimit rule.exactMatchCount limits.edits)
  if byteLength rule.source > limits.sourceBytes then
    throw (.matchSpecifierTooLarge (byteLength rule.source) limits.sourceBytes)
  let replacementByteLength ← okOr .replacementLengthOverflow (canonicalReplacementByteLength rule.target)
  if replacementByteLength > limits.replacementBytes then
    throw (.replacementTooLarge replacementByteLength limits.replacementBytes)
  if source.bytes.length > limits.sourceBytes then throw (.sourceTooLarge source.bytes.length limits.sourceBytes)
  let ruleDigest := rule.canonicalDigest sha256
  let authorizedRule ← okOr (.unknownRule ruleId) (authority.rules.find? ruleId)
  if authorizedRule ≠ ruleDigest then throw (.ruleDigestMismatch ruleId)
  if sha256 source.bytes ≠ source.source.sourceDigest then throw .sourceDigestMismatch
  let sourceText ← okOr .invalidUtf8 (chars? source.bytes)
  let parsed := parse sourceText
  if parsed.diagnosticCount ≠ 0 then throw (.parseFailed parsed.diagnosticCount)
  let edits ← parsed.body.foldlM (planStatement sourceText rule (quoteSpecifier rule.target)) []
  if edits.length ≠ rule.exactMatchCount then throw (.matchCountMismatch rule.exactMatchCount edits.length)
  return ⟨ruleId, ruleDigest, source.source, edits⟩

end Weregopher.Transform
