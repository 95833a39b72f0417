import Weregopher.Protocol.Validate

/-! # Wire-value graphs by recursion

What the validator's work list is to compute, by recursion on the value: the number
of values, the nesting depth and the remote handles, and whether every value in it
passes its own check.
-/
namespace Weregopher.Protocol
open Lib.Bytes Lib.Checked
namespace WireValue

def children : WireValue → List WireValue
  | .array values => values
  | .object entries => entries.map Prod.snd
  | .error _ _ _ _ _ cause data => cause.toList ++ data.map Prod.snd
  | _ => []

mutual

/-- Recursion over a value: `combine` is given the value and the results for its children. -/
def fold {α : Type} (combine : WireValue → List α → α) : WireValue → α
  | .array values => combine (.array values) (foldValues combine values)
  | .object entries => combine (.object entries) (foldEntries combine entries)
  | .error name message stack code kind cause data =>
    combine (.error name message stack code kind cause data)
      (foldCause combine cause ++ foldEntries combine data)
  | value => combine value []

def foldValues {α : Type} (combine : WireValue → List α → α) : List WireValue → List α
  | [] => []
  | value :: rest => fold combine value :: foldValues combine rest

def foldEntries {α : Type} (combine : WireValue → List α → α) : List (String × WireValue) → List α
  | [] => []
  | entry :: rest => foldEntry combine entry :: foldEntries combine rest

def foldEntry {α : Type} (combine : WireValue → List α → α) : String × WireValue → α
  | (_, value) => fold combine value

def foldCause {α : Type} (combine : WireValue → List α → α) : Option WireValue → List α
  | none => []
  | some value => [fold combine value]

end

section

variable {α : Type} (combine : WireValue → List α → α)

theorem foldValues_eq (values : List WireValue) : foldValues combine values = values.map (fold combine) := by
  induction values with
  | nil => rfl
  | cons value rest ih => rw [foldValues, ih, List.map_cons]

theorem foldEntries_eq (entries : List (String × WireValue)) :
    foldEntries combine entries = (entries.map Prod.snd).map (fold combine) := by
  induction entries with
  | nil => rfl
  | cons entry rest ih => rw [foldEntries, ih, foldEntry, List.map_cons, List.map_cons]

theorem foldCause_eq (cause : Option WireValue) : foldCause combine cause = cause.toList.map (fold combine) := by
  cases cause <;> rfl

theorem fold_eq (value : WireValue) : value.fold combine = combine value (value.children.map (fold combine)) := by
  cases value with
  | array values => rw [fold, foldValues_eq, children]
  | object entries => rw [fold, foldEntries_eq, children]
  | error name message stack code kind cause data =>
    rw [fold, foldCause_eq, foldEntries_eq, children, List.map_append]
  | _ => rfl

end

def greatest (numbers : List Nat) : Nat := numbers.foldr max 0

def owners : WireValue → List AppInstanceId
  | .handle value => [value.app]
  | .function value | .promise value | .messagePort value => [value.app]
  | .typedArray _ _ _ (.shared storage) | .typedArray _ _ _ (.stream storage) => [storage.app]
  | _ => []

def nodeCount : WireValue → Nat := fold fun _ below => 1 + below.sum

def depth : WireValue → Nat := fold fun _ below => 1 + greatest below

def handleCount : WireValue → Nat := fold fun value below => value.owners.length + below.sum

/-- Known flags in the order of the table, none twice, and not both `u` and `v`. -/
structure CanonicalFlags (flags : List UInt8) : Prop where
  known : ∀ flag ∈ flags, flag ∈ regularExpressionFlags
  ordered : flags.Pairwise fun a b => regularExpressionFlags.findIdx (· = a) < regularExpressionFlags.findIdx (· = b)
  unicode : ¬(117 ∈ flags ∧ 118 ∈ flags)

variable (limits : ProtocolLimits)

def SpanFits (span : Nat) : BufferStorage → Prop
  | .inline value => value.length ≤ limits.maxInlineBufferBytes.toNat ∧ span ≤ value.length
  | .shared _ | .stream _ | .blob _ => True

/-- A value without regard to its children and to the owners of its handles. -/
def WellFormed : WireValue → Prop
  | .float value => value.isFinite ∧ value.hasFraction
  | .bigInt _ magnitudeBe =>
    magnitudeBe ≠ [] ∧ magnitudeBe.head? ≠ some 0 ∧ magnitudeBe.length ≤ limits.maxInlineBufferBytes.toNat
  | .string value => value.utf8ByteSize ≤ limits.maxStringBytes.toNat
  | .bytes value => value.length ≤ limits.maxInlineBufferBytes.toNat
  | .object entries =>
    (∀ key ∈ entries.map Prod.fst, key.utf8ByteSize ≤ limits.maxStringBytes.toNat) ∧
      (entries.map Prod.fst).Nodup
  | .regExp source flags =>
    source.utf8ByteSize ≤ limits.maxStringBytes.toNat ∧ flags.utf8ByteSize ≤ limits.maxStringBytes.toNat ∧
      CanonicalFlags (utf8Bytes flags)
  | .error name message stack code kind _ data =>
    ∀ text ∈ name :: message :: (stack.toList ++ code.toList ++ kind.toList ++ data.map Prod.fst),
      text.utf8ByteSize ≤ limits.maxStringBytes.toNat
  | .typedArray arrayKind byteOffset elementCount storage =>
    let span := byteOffset.toNat + elementCount.toNat * elementBytes arrayKind
    span ≤ u64Max ∧ SpanFits limits span storage
  | _ => True

/-- The check of a value by itself, with the owner of its handles when one is given. -/
structure PassesAlone (limits : ProtocolLimits) (expectedApp : Option AppInstanceId) (value : WireValue) :
    Prop where
  wellFormed : value.WellFormed limits
  owned : ∀ owner ∈ value.owners, ∀ app ∈ expectedApp, owner = app

def Passes (expectedApp : Option AppInstanceId) : WireValue → Prop :=
  fold fun value below => value.PassesAlone limits expectedApp ∧ ∀ passes ∈ below, passes

variable (value : WireValue)

theorem nodeCount_eq : value.nodeCount = 1 + (value.children.map nodeCount).sum := fold_eq _ value

theorem depth_eq : value.depth = 1 + greatest (value.children.map depth) := fold_eq _ value

theorem handleCount_eq :
    value.handleCount = value.owners.length + (value.children.map handleCount).sum := fold_eq _ value

theorem passes_iff {limits : ProtocolLimits} {expectedApp : Option AppInstanceId} {value : WireValue} :
    value.Passes limits expectedApp ↔
      value.PassesAlone limits expectedApp ∧ ∀ child ∈ value.children, child.Passes limits expectedApp := by
  rw [Passes, fold_eq]
  simp only [List.mem_map, forall_exists_index, and_imp, forall_apply_eq_imp_iff₂]

theorem children_ne_nil_depth {value : WireValue} (h : value.children ≠ []) : 2 ≤ value.depth := by
  obtain ⟨child, rest, hChildren⟩ := List.exists_cons_of_ne_nil h
  have hChild := depth_eq child
  rw [depth_eq, hChildren]
  simp only [List.map_cons, greatest, List.foldr_cons]
  omega

end WireValue

open WireValue

variable (roots : List WireValue)

def graphNodes : Nat := (roots.map nodeCount).sum

def graphDepth : Nat := greatest (roots.map depth)

def graphHandles : Nat := (roots.map handleCount).sum

def graphBudget : WireValueBudget := ⟨graphNodes roots, graphDepth roots, graphHandles roots⟩

structure GraphFits (limits : ProtocolLimits) (expectedApp : Option AppInstanceId) (roots : List WireValue) :
    Prop where
  nodes : graphNodes roots ≤ limits.maxGraphNodes.toNat
  depth : graphDepth roots ≤ limits.maxObjectDepth.toNat
  handles : graphHandles roots ≤ limits.maxRemoteHandles.toNat
  passes : ∀ root ∈ roots, root.Passes limits expectedApp

end Weregopher.Protocol
