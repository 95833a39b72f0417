import Weregopher.Digest
import Weregopher.Ids
import Weregopher.Lib.Checked
import Weregopher.Lib.Outcome
import Weregopher.Lib.Utf8

/-! # Emission of transformed source

The edits of a plan are applied to the source, in order. The offsets of edits are of 32
bits, which every address can hold.
-/
namespace Weregopher.Transform
open Lib.Bytes Lib.Checked Lib.Outcome

abbrev SourceUnitId := StableId "source unit"

abbrev TransformRuleId := StableId "transform rule"

structure SourceUnitRef where
  unitId : SourceUnitId
  sourceDigest : Sha256Digest
  deriving DecidableEq

structure TextEdit where
  startByte : Nat
  endByte : Nat
  replacement : List Char
  deriving DecidableEq

structure TransformPlan where
  ruleId : TransformRuleId
  ruleDigest : Sha256Digest
  source : SourceUnitRef
  edits : List TextEdit
  deriving DecidableEq

inductive TransformEmissionError
  | invalidLimits
  | sourceTooLarge (actualBytes maxBytes : Nat)
  | sourceDigestMismatch
  | invalidEditRange (startByte endByte previousEnd sourceBytes : Nat)
  | invalidTailOffset (sourceCursor sourceBytes : Nat)
  | transformedSourceLengthOverflow
  | transformedSourceTooLarge (actualBytes maxBytes : Nat)
  | emittedLengthMismatch (expectedBytes actualBytes : Nat)
  deriving DecidableEq

structure TransformEmissionLimits where
  sourceBytes : Nat
  transformedSourceBytes : Nat
  nonzero : sourceBytes ≠ 0 ∧ transformedSourceBytes ≠ 0

def TransformEmissionLimits.new (maxSourceBytes maxTransformedSourceBytes : Nat) :
    Except TransformEmissionError TransformEmissionLimits :=
  if h : maxSourceBytes = 0 ∨ maxTransformedSourceBytes = 0 then .error .invalidLimits
  else .ok ⟨maxSourceBytes, maxTransformedSourceBytes, not_or.mp h⟩

structure EmittedTransformedSource where
  plan : TransformPlan
  transformedSource : List UInt8
  transformedSourceDigest : Sha256Digest
  deriving DecidableEq

/-- `slice::get` of a range. -/
def byteRange (bytes : List UInt8) (start stop : Nat) : Option (List UInt8) :=
  if start ≤ stop ∧ stop ≤ bytes.length then some ((bytes.take stop).drop start) else none

def transformedLength (sourceBytes : Nat) (length previousEnd : Nat) : List TextEdit → Except TransformEmissionError Nat
  | [] => return length
  | edit :: rest => do
    if edit.startByte < previousEnd ∨ edit.endByte < edit.startByte ∨ edit.endByte > sourceBytes then
      throw (.invalidEditRange edit.startByte edit.endByte previousEnd sourceBytes)
    let shorter ← okOr .transformedSourceLengthOverflow (checkedSub length (edit.endByte - edit.startByte))
    let length ←
      okOr .transformedSourceLengthOverflow (checkedAdd usizeMax shorter (charBytes edit.replacement).length)
    transformedLength sourceBytes length edit.endByte rest

def applyEdits (source : List UInt8) (sourceCursor : Nat) : List TextEdit → Except TransformEmissionError (List UInt8)
  | [] => okOr (.invalidTailOffset sourceCursor source.length) (byteRange source sourceCursor source.length)
  | edit :: rest => do
    let unchanged ←
      okOr (.invalidEditRange edit.startByte edit.endByte sourceCursor source.length)
        (byteRange source sourceCursor edit.startByte)
    let transformed ← applyEdits source edit.endByte rest
    return unchanged ++ charBytes edit.replacement ++ transformed

def emitTransformedSource (sha256 : Sha256) (plan : TransformPlan) (source : List UInt8)
    (limits : TransformEmissionLimits) : Except TransformEmissionError EmittedTransformedSource := do
  if source.length > limits.sourceBytes then throw (.sourceTooLarge source.length limits.sourceBytes)
  if sha256 source ≠ plan.source.sourceDigest then throw .sourceDigestMismatch
  let length ← transformedLength source.length source.length 0 plan.edits
  if length > limits.transformedSourceBytes then
    throw (.transformedSourceTooLarge length limits.transformedSourceBytes)
  let transformed ← applyEdits source 0 plan.edits
  if transformed.length ≠ length then throw (.emittedLengthMismatch length transformed.length)
  return ⟨plan, transformed, sha256 transformed⟩

end Weregopher.Transform
