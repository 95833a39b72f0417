import Weregopher.Lib.Outcome
import Weregopher.Protocol.Graph

/-! # What the check of one value accepts

Each check of the validator is read as a condition on the value: what one step needs
for the value itself, for its place in the work list and for the handle count.
-/
namespace Weregopher.Protocol
open Lib.Bytes Lib.Checked Lib.Outcome WireValue

theorem toNat_le_u32Max (n : UInt32) : n.toNat ≤ u32Max := by
  have h := n.toNat_lt
  simp only [u32Max]
  omega

theorem toNat_le_u16Max (n : UInt16) : n.toNat ≤ u16Max := by
  have h := n.toNat_lt
  simp only [u16Max]
  omega

theorem checkLimits_ok {limits : ProtocolLimits} : checkLimits limits = .ok () ↔ limits.validate = .ok () := by
  rw [checkLimits]
  split <;> simp_all

section

variable {field : String} {maximum : Nat} {flags : List UInt8}

theorem validateBoundedText_ok {value : String} :
    validateBoundedText field value maximum = .ok () ↔ value.utf8ByteSize ≤ maximum := by
  rw [validateBoundedText, ite_error_ok]
  simp

theorem validateInlineBytes_ok {bytes : List UInt8} :
    validateInlineBytes bytes maximum = .ok () ↔ bytes.length ≤ maximum := by
  rw [validateInlineBytes, ite_error_ok]
  simp

theorem validateOptionalText_ok {value : Option String} :
    validateOptionalText maximum field value = .ok () ↔ ∀ text ∈ value.toList, text.utf8ByteSize ≤ maximum := by
  cases value with
  | none => simp [validateOptionalText]
  | some text => simp [validateOptionalText, validateBoundedText_ok]

theorem validateDataKeys_ok {data : List (String × WireValue)} :
    validateDataKeys maximum data = .ok () ↔ ∀ key ∈ data.map Prod.fst, key.utf8ByteSize ≤ maximum := by
  induction data with
  | nil => simp [validateDataKeys]
  | cons entry rest ih =>
    rw [validateDataKeys, check_ok, validateBoundedText_ok, ih, List.map_cons, List.forall_mem_cons]

theorem validateObjectEntries_ok {keys : List String} {entries : List (String × WireValue)} :
    validateObjectEntries maximum keys entries = .ok () ↔
      (∀ key ∈ entries.map Prod.fst, key.utf8ByteSize ≤ maximum) ∧ (entries.map Prod.fst).Nodup ∧
        ∀ key ∈ entries.map Prod.fst, key ∉ keys := by
  induction entries generalizing keys with
  | nil => simp [validateObjectEntries]
  | cons entry rest ih =>
    rw [validateObjectEntries, check_ok, validateBoundedText_ok, guard_ok, ih]
    simp only [List.map_cons, List.forall_mem_cons, List.nodup_cons]
    simp only [List.mem_cons, not_or]
    constructor
    · rintro ⟨hSize, hFresh, hSizes, hNodup, hKeys⟩
      exact ⟨⟨hSize, hSizes⟩, ⟨fun hMem => (hKeys _ hMem).1 rfl, hNodup⟩, hFresh, fun key hKey => (hKeys key hKey).2⟩
    · rintro ⟨⟨hSize, hSizes⟩, ⟨hNew, hNodup⟩, hFresh, hKeys⟩
      refine ⟨hSize, hFresh, hSizes, hNodup, fun key hKey => ⟨?_, hKeys key hKey⟩⟩
      rintro rfl
      exact hNew hKey

theorem findIdx?_flag {flag : UInt8} {position : Nat} :
    regularExpressionFlags.findIdx? (· = flag) = some position ↔
      flag ∈ regularExpressionFlags ∧ regularExpressionFlags.findIdx (· = flag) = position := by
  rw [List.findIdx?_eq_some_iff_findIdx_eq]
  constructor
  · rintro ⟨hLt, rfl⟩
    refine ⟨?_, rfl⟩
    have hFound := List.findIdx_lt_length.mp hLt
    simpa using hFound
  · rintro ⟨hMem, rfl⟩
    exact ⟨List.findIdx_lt_length.mpr ⟨flag, hMem, by simp⟩, rfl⟩

theorem validateFlags_ok {previous : Option Nat} {unicode unicodeSets : Bool} :
    validateFlags previous unicode unicodeSets flags = .ok () ↔
      (∀ flag ∈ flags, flag ∈ regularExpressionFlags) ∧
        (flags.Pairwise fun a b =>
          regularExpressionFlags.findIdx (· = a) < regularExpressionFlags.findIdx (· = b)) ∧
        (∀ position ∈ previous, ∀ flag ∈ flags, position < regularExpressionFlags.findIdx (· = flag)) ∧
        ¬((unicode ∨ 117 ∈ flags) ∧ (unicodeSets ∨ 118 ∈ flags)) := by
  induction flags generalizing previous unicode unicodeSets with
  | nil =>
    rw [validateFlags, ite_error_ok]
    simp
  | cons flag rest ih =>
    rw [validateFlags]
    cases hFound : regularExpressionFlags.findIdx? (· = flag) with
    | none =>
      have hUnknown : flag ∉ regularExpressionFlags := fun hMem => by
        rw [findIdx?_flag.mpr ⟨hMem, rfl⟩] at hFound
        cases hFound
      simp [hUnknown]
    | some position =>
      obtain ⟨hKnown, hPosition⟩ := findIdx?_flag.mp hFound
      simp only [ite_error_ok, ih, Option.any_eq_true, List.forall_mem_cons, List.pairwise_cons, hPosition,
        Option.mem_def, Option.some.injEq, forall_eq', Bool.or_eq_true, beq_iff_eq, not_exists, not_and,
        decide_eq_true_eq, not_le]
      simp only [List.mem_cons]
      -- The loop compares with the last flag only; the rest follows by transitivity.
      constructor
      · rintro ⟨hAfter, hKnowns, hOrdered, hLater, hUnicode⟩
        refine ⟨⟨hKnown, hKnowns⟩, ⟨hLater, hOrdered⟩, fun p hp => ⟨hAfter p hp, fun f hf => ?_⟩, ?_⟩
        · exact (hAfter p hp).trans (hLater f hf)
        · grind
      · rintro ⟨⟨-, hKnowns⟩, ⟨hLater, hOrdered⟩, hAfter, hUnicode⟩
        exact ⟨fun p hp => (hAfter p hp).1, hKnowns, hOrdered, hLater, by grind⟩

theorem validateFlags_canonical : validateFlags none false false flags = .ok () ↔ CanonicalFlags flags := by
  rw [validateFlags_ok]
  constructor
  · rintro ⟨hKnown, hOrdered, -, hUnicode⟩
    exact ⟨hKnown, hOrdered, by simpa using hUnicode⟩
  · rintro ⟨hKnown, hOrdered, hUnicode⟩
    exact ⟨hKnown, hOrdered, by simp, by simpa using hUnicode⟩

theorem typedArrayBytes_eq {arrayKind : TypedArrayKind} {byteOffset elementCount : UInt64} {span : Nat} :
    typedArrayBytes arrayKind byteOffset elementCount = some span ↔
      span = byteOffset.toNat + elementCount.toNat * elementBytes arrayKind ∧ span ≤ u64Max := by
  simp only [typedArrayBytes, checkedMul, checkedAdd, Option.bind_eq_some_iff, Option.ite_none_right_eq_some,
    Option.some.injEq]
  constructor
  · rintro ⟨_, ⟨-, rfl⟩, hSpan, rfl⟩
    exact ⟨rfl, hSpan⟩
  · rintro ⟨rfl, hSpan⟩
    exact ⟨_, ⟨by omega, rfl⟩, hSpan, rfl⟩

end

section

variable {limits : ProtocolLimits} {expectedApp : Option AppInstanceId}

variable {remainingNodes depth result remoteHandles : Nat} {hasNoChildren : Bool} {pending : Pending}
  {owner : AppInstanceId}

theorem reservePending_ok {pending additional : Nat} {maximumNodes : UInt32} (hRemaining : remainingNodes ≤ u32Max) :
    reservePending pending additional remainingNodes maximumNodes = .ok () ↔
      pending + additional ≤ remainingNodes := by
  have hWord : u32Max ≤ usizeMax := by decide
  rw [reservePending, checkedAdd]
  by_cases hFits : pending + additional ≤ usizeMax
  · simp only [hFits, if_true]
    split
    · split <;> simp_all
    · simp_all
  · simp only [hFits, if_false, reduceCtorEq, false_iff]
    omega

theorem childDepth_ok : childDepth depth limits hasNoChildren = .ok result ↔
      if hasNoChildren then depth = result else depth + 1 ≤ limits.maxObjectDepth.toNat ∧ depth + 1 = result := by
  have hDepth := toNat_le_u16Max limits.maxObjectDepth
  cases hasNoChildren with
  | true => simp [childDepth]
  | false =>
    simp only [childDepth, Bool.false_eq_true, if_false, checkedAdd]
    by_cases hFits : depth + 1 ≤ u16Max
    · simp [hFits, ite_error_ok]
    · simp only [hFits, if_false, reduceCtorEq, false_iff, not_and]
      omega

theorem childDepth_push {α : Type} {below : List WireValue}
    {result : α} (use : Pending → α) (hBelow : hasNoChildren = true ↔ below = []) :
    (∃ deeper, childDepth depth limits hasNoChildren = .ok deeper ∧
        use (pushChildren below deeper pending) = result) ↔
      (below ≠ [] → depth + 1 ≤ limits.maxObjectDepth.toNat) ∧
        use (pushChildren below (depth + 1) pending) = result := by
  simp only [childDepth_ok]
  cases hasNoChildren with
  | true =>
    have hNil : below = [] := hBelow.mp rfl
    simp [hNil, pushChildren]
  | false =>
    have hSome : below ≠ [] := fun h => Bool.false_ne_true (hBelow.mpr h)
    simp only [Bool.false_eq_true, if_false, hSome, ne_eq, not_false_eq_true, true_imp_iff]
    constructor
    · rintro ⟨_, ⟨hDepth, rfl⟩, hUse⟩
      exact ⟨hDepth, hUse⟩
    · rintro ⟨hDepth, hUse⟩
      exact ⟨_, ⟨hDepth, rfl⟩, hUse⟩

theorem validateRemoteHandle_ok :
    validateRemoteHandle owner expectedApp remoteHandles limits = .ok result ↔
      (∀ app ∈ expectedApp, owner = app) ∧ remoteHandles + 1 ≤ limits.maxRemoteHandles.toNat ∧
        remoteHandles + 1 = result := by
  have hHandles := toNat_le_u32Max limits.maxRemoteHandles
  have hOwner : (expectedApp.any (owner ≠ ·)) = true ↔ ¬∀ app ∈ expectedApp, owner = app := by
    cases expectedApp <;> simp
  rw [validateRemoteHandle, ite_error_ok, hOwner, not_not, checkedAdd]
  refine and_congr_right fun _ => ?_
  by_cases hFits : remoteHandles + 1 ≤ u32Max
  · simp [hFits, ite_error_ok]
  · simp only [hFits, if_false, reduceCtorEq, false_iff, not_and]
    omega

theorem validateWireError_ok {name message : String} {stack code kind : Option String} {cause : Option WireValue}
    {data : List (String × WireValue)} {result : Pending} (hRemaining : remainingNodes ≤ u32Max) :
    validateWireError name message stack code kind cause data pending depth limits remainingNodes = .ok result ↔
      (WireValue.error name message stack code kind cause data).WellFormed limits ∧
        let below := cause.toList ++ data.map Prod.snd
        pending.length + below.length ≤ remainingNodes ∧
          (below ≠ [] → depth + 1 ≤ limits.maxObjectDepth.toNat) ∧
            pushChildren below (depth + 1) pending = result := by
  have hWord : u32Max ≤ usizeMax := by decide
  have hCount : data.length + cause.toList.length = (cause.toList ++ data.map Prod.snd).length := by
    rw [List.length_append, List.length_map, Nat.add_comm]
  have hBelow : decide (data.length + cause.toList.length = 0) = true ↔
      cause.toList ++ data.map Prod.snd = [] := by
    rw [hCount, decide_eq_true_iff, List.length_eq_zero_iff]
  rw [validateWireError]
  simp only [check_ok, validateBoundedText_ok, validateOptionalText_ok, checkedAdd]
  by_cases hFits : data.length + cause.toList.length ≤ usizeMax
  · simp only [hFits, if_true, check_ok, reservePending_ok hRemaining, WellFormed, List.forall_mem_cons,
      List.forall_mem_append]
    rw [bind_ok, ← hCount]
    simp only [check_ok, validateDataKeys_ok, pure_ok, List.map_reverse, List.mem_reverse]
    constructor
    · rintro ⟨hName, hMessage, hStack, hCode, hKind, hRoom, deeper, hDeeper, hKeys, hPush⟩
      exact ⟨⟨hName, hMessage, ⟨⟨hStack, hCode⟩, hKind⟩, hKeys⟩, hRoom,
        (childDepth_push id hBelow).mp ⟨deeper, hDeeper, hPush⟩⟩
    · rintro ⟨⟨hName, hMessage, ⟨⟨hStack, hCode⟩, hKind⟩, hKeys⟩, hRoom, hDepth, hPush⟩
      obtain ⟨deeper, hDeeper, hPush⟩ := (childDepth_push id hBelow).mpr ⟨hDepth, hPush⟩
      exact ⟨hName, hMessage, hStack, hCode, hKind, hRoom, deeper, hDeeper, hKeys, hPush⟩
  · simp only [hFits, if_false, throw_ok, and_false, false_iff]
    rintro ⟨-, hRoom, -⟩
    omega

theorem owned_singleton :
    (∀ o ∈ [owner], ∀ app ∈ expectedApp, o = app) ↔ ∀ app ∈ expectedApp, owner = app := List.forall_mem_singleton

theorem passesAlone_iff {value : WireValue} : value.PassesAlone limits expectedApp ↔
      value.WellFormed limits ∧ ∀ owner ∈ value.owners, ∀ app ∈ expectedApp, owner = app :=
  ⟨fun h => ⟨h.wellFormed, h.owned⟩, fun h => ⟨h.1, h.2⟩⟩

theorem validateTypedArray_ok {arrayKind : TypedArrayKind} {byteOffset elementCount : UInt64}
    {storage : BufferStorage} (hHandles : remoteHandles ≤ limits.maxRemoteHandles.toNat) :
    validateTypedArray arrayKind byteOffset elementCount storage limits remoteHandles expectedApp = .ok result ↔
      let value := WireValue.typedArray arrayKind byteOffset elementCount storage
      value.PassesAlone limits expectedApp ∧
        remoteHandles + value.owners.length ≤ limits.maxRemoteHandles.toNat ∧
          remoteHandles + value.owners.length = result := by
  simp only [passesAlone_iff, WellFormed]
  rw [validateTypedArray]
  cases hSpan : typedArrayBytes arrayKind byteOffset elementCount with
  | none =>
    have hOverflow : ¬byteOffset.toNat + elementCount.toNat * elementBytes arrayKind ≤ u64Max := fun hFits => by
      rw [typedArrayBytes_eq.mpr ⟨rfl, hFits⟩] at hSpan
      cases hSpan
    simp [hOverflow]
  | some span =>
    obtain ⟨rfl, hFits⟩ := typedArrayBytes_eq.mp hSpan
    cases storage with
    | inline value =>
      simp only [check_ok, validateInlineBytes_ok, guard_ok, pure_ok, not_lt, owners, SpanFits, hFits]
      simp [hHandles, and_assoc]
    | shared handle | stream handle =>
      simp only [validateRemoteHandle_ok, owners, SpanFits, hFits, owned_singleton]
      simp
    | blob id => simp [owners, SpanFits, hFits, hHandles]

/-- One value by itself: its own check, room for its children, and one more level if it has any. -/
def StepsTo (limits : ProtocolLimits) (expectedApp : Option AppInstanceId) (value : WireValue) (depth : Nat)
    (pending : Pending) (remoteHandles remainingNodes : Nat) (result : Pending × Nat) : Prop :=
  value.PassesAlone limits expectedApp ∧ pending.length + value.children.length ≤ remainingNodes ∧
    (value.children ≠ [] → depth + 1 ≤ limits.maxObjectDepth.toNat) ∧
    remoteHandles + value.owners.length ≤ limits.maxRemoteHandles.toNat ∧
    (pushChildren value.children (depth + 1) pending, remoteHandles + value.owners.length) = result

section

variable {value : WireValue} {result : Pending × Nat}

theorem stepsTo_leaf (hPending : pending.length ≤ remainingNodes)
    (hHandles : remoteHandles ≤ limits.maxRemoteHandles.toNat) (hChildren : value.children = [])
    (hOwners : value.owners = []) :
    StepsTo limits expectedApp value depth pending remoteHandles remainingNodes result ↔
      value.WellFormed limits ∧ (pending, remoteHandles) = result := by
  simp [StepsTo, passesAlone_iff, hChildren, hOwners, hPending, hHandles, pushChildren]

theorem stepsTo_handle {owner : AppInstanceId} (hPending : pending.length ≤ remainingNodes)
    (hChildren : value.children = []) (hOwners : value.owners = [owner]) (hWellFormed : value.WellFormed limits) :
    StepsTo limits expectedApp value depth pending remoteHandles remainingNodes result ↔
      ∃ handles, validateRemoteHandle owner expectedApp remoteHandles limits = .ok handles ∧
        (pending, handles) = result := by
  simp only [StepsTo, passesAlone_iff, hChildren, hOwners, hWellFormed, owned_singleton, validateRemoteHandle_ok]
  simp [hPending, pushChildren, and_assoc]

theorem stepsTo_container (hHandles : remoteHandles ≤ limits.maxRemoteHandles.toNat) (hOwners : value.owners = []) :
    StepsTo limits expectedApp value depth pending remoteHandles remainingNodes result ↔
      value.WellFormed limits ∧ pending.length + value.children.length ≤ remainingNodes ∧
        (value.children ≠ [] → depth + 1 ≤ limits.maxObjectDepth.toNat) ∧
        (pushChildren value.children (depth + 1) pending, remoteHandles) = result := by
  simp [StepsTo, passesAlone_iff, hOwners, hHandles]

theorem validateWireValue_ok (hRemaining : remainingNodes ≤ u32Max) (hPending : pending.length ≤ remainingNodes)
    (hHandles : remoteHandles ≤ limits.maxRemoteHandles.toNat) :
    validateWireValue value depth limits pending remoteHandles remainingNodes expectedApp = .ok result ↔
      StepsTo limits expectedApp value depth pending remoteHandles remainingNodes result := by
  cases value with
  | float value =>
    rw [validateWireValue, stepsTo_leaf hPending hHandles rfl rfl, ite_eq_iff]
    simp [WellFormed]
  | bigInt negative magnitudeBe =>
    rw [validateWireValue, stepsTo_leaf hPending hHandles rfl rfl, guard_ok, check_ok, validateInlineBytes_ok,
      pure_ok, WellFormed, ← and_assoc, ← and_assoc]
    refine and_congr_left fun _ => and_congr_left fun _ => ?_
    cases magnitudeBe with
    | nil => simp
    | cons byte rest => simp +contextual
  | string value =>
    rw [validateWireValue, stepsTo_leaf hPending hHandles rfl rfl, check_ok, validateBoundedText_ok, pure_ok,
      WellFormed]
  | bytes value =>
    rw [validateWireValue, stepsTo_leaf hPending hHandles rfl rfl, check_ok, validateInlineBytes_ok, pure_ok,
      WellFormed]
  | array values =>
    have hBelow : values.isEmpty = true ↔ values = [] := List.isEmpty_iff
    rw [validateWireValue, stepsTo_container hHandles rfl, check_ok, reservePending_ok hRemaining, bind_ok]
    simp only [pure_ok, WellFormed, true_and, children]
    exact and_congr_right fun _ => childDepth_push (·, remoteHandles) hBelow
  | object entries =>
    have hBelow : entries.isEmpty = true ↔ entries.map Prod.snd = [] := by simp
    rw [validateWireValue, stepsTo_container hHandles rfl, check_ok, check_ok, validateObjectEntries_ok,
      reservePending_ok hRemaining, bind_ok]
    simp only [pure_ok, WellFormed, children, List.length_map, List.not_mem_nil, not_false_eq_true, implies_true,
      and_true]
    exact and_congr_right fun _ => and_congr_right fun _ => childDepth_push (·, remoteHandles) hBelow
  | regExp source flags =>
    rw [validateWireValue, stepsTo_leaf hPending hHandles rfl rfl, check_ok, check_ok, check_ok,
      validateBoundedText_ok, validateBoundedText_ok, validateFlags_canonical, pure_ok, WellFormed]
    tauto
  | error name message stack code kind cause data =>
    rw [validateWireValue, stepsTo_container hHandles rfl, bind_ok]
    simp only [validateWireError_ok hRemaining, pure_ok, children]
    constructor
    · rintro ⟨_, ⟨hWellFormed, hRoom, hDepth, rfl⟩, hResult⟩
      exact ⟨hWellFormed, hRoom, hDepth, hResult⟩
    · rintro ⟨hWellFormed, hRoom, hDepth, hResult⟩
      exact ⟨_, ⟨hWellFormed, hRoom, hDepth, rfl⟩, hResult⟩
  | handle value | function value | promise value | messagePort value =>
    simp only [validateWireValue, bind_ok, pure_ok]
    exact Iff.symm (stepsTo_handle hPending rfl rfl trivial)
  | typedArray arrayKind byteOffset elementCount storage =>
    rw [validateWireValue, bind_ok, StepsTo]
    simp only [validateTypedArray_ok hHandles, pure_ok, children, pushChildren]
    constructor
    · rintro ⟨_, ⟨hPasses, hCount, rfl⟩, hResult⟩
      exact ⟨hPasses, hPending, by simp, hCount, hResult⟩
    · rintro ⟨hPasses, -, -, hCount, hResult⟩
      exact ⟨_, ⟨hPasses, hCount, rfl⟩, hResult⟩
  | _ =>
    rw [validateWireValue, stepsTo_leaf hPending hHandles rfl rfl, Except.ok.injEq]
    simp [WellFormed]

end

end

/-! ## Big integers -/

/-- The integer that a sign and a magnitude stand for. -/
def bigIntOf (negative : Bool) (magnitudeBe : List UInt8) : Int :=
  if negative then -(fromBeBytes magnitudeBe) else fromBeBytes magnitudeBe

section

variable (limits : ProtocolLimits) (depth : Nat) (pending : Pending) (remoteHandles remainingNodes : Nat)
  (expectedApp : Option AppInstanceId) (value : Int)

/-- A sign and a magnitude that are accepted and stand for the integer. -/
def EncodesBigInt (encoding : Bool × List UInt8) : Prop := bigIntOf encoding.1 encoding.2 = value ∧ ∃ result,
  validateWireValue (.bigInt encoding.1 encoding.2) depth limits pending remoteHandles remainingNodes expectedApp =
    .ok result

variable {limits depth pending remoteHandles remainingNodes expectedApp value}

theorem encodesBigInt_iff {encoding : Bool × List UInt8} (h : value.natAbs < 256 ^ limits.maxInlineBufferBytes.toNat) :
    EncodesBigInt limits depth pending remoteHandles remainingNodes expectedApp value encoding ↔
      value ≠ 0 ∧ encoding = (decide (value < 0), toBeBytes (Nat.log 256 value.natAbs + 1) value.natAbs) := by
  obtain ⟨negative, magnitudeBe⟩ := encoding
  have hAccepted : (∃ result, validateWireValue (.bigInt negative magnitudeBe) depth limits pending remoteHandles
      remainingNodes expectedApp = .ok result) ↔
      magnitudeBe ≠ [] ∧ magnitudeBe.head? ≠ some 0 ∧ magnitudeBe.length ≤ limits.maxInlineBufferBytes.toNat := by
    simp only [validateWireValue, guard_ok, check_ok, validateInlineBytes_ok, pure_ok, exists_and_left, exists_eq']
    cases magnitudeBe with
    | nil => simp
    | cons byte rest => simp +contextual
  have hShortest := @fromBeBytes_eq_iff magnitudeBe value.natAbs
  simp only [EncodesBigInt, hAccepted, bigIntOf]
  constructor
  · rintro ⟨hValue, hEmpty, hHead, -⟩
    have hSame : fromBeBytes magnitudeBe = value.natAbs := by split at hValue <;> omega
    obtain ⟨hNonzero, hBytes⟩ := hShortest.mp ⟨hEmpty, hHead, hSame⟩
    refine ⟨Int.natAbs_ne_zero.mp hNonzero, Prod.ext ?_ hBytes⟩
    cases negative <;> simp at hValue ⊢ <;> omega
  · rintro ⟨hNonzero, hPair⟩
    obtain ⟨rfl, hBytes⟩ := Prod.mk.inj hPair
    have hMagnitude := Int.natAbs_ne_zero.mpr hNonzero
    obtain ⟨hEmpty, hHead, hSame⟩ := hShortest.mpr ⟨hMagnitude, hBytes⟩
    refine ⟨?_, hEmpty, hHead, ?_⟩
    · simp only [hSame, decide_eq_true_eq]
      split <;> omega
    · rw [hBytes, toBeBytes_length]
      exact Nat.log_lt_of_lt_pow hMagnitude h

theorem bigInt_encoded_once_iff (h : value.natAbs < 256 ^ limits.maxInlineBufferBytes.toNat) :
    (∃! encoding, EncodesBigInt limits depth pending remoteHandles remainingNodes expectedApp value encoding) ↔
      value ≠ 0 := by
  simp only [encodesBigInt_iff h]
  constructor
  · rintro ⟨_, ⟨hValue, -⟩, -⟩
    exact hValue
  · intro hValue
    exact ⟨_, ⟨hValue, rfl⟩, fun _ hOther => hOther.2⟩

end

theorem minus_one_encoded_once : ∃! encoding, EncodesBigInt .secureDefault 1 [] 0 0 none (-1) encoding :=
  (bigInt_encoded_once_iff (Nat.one_lt_pow (by decide) (by decide))).mpr (by decide)

theorem zero_not_encoded : (0 : Int).natAbs < 256 ^ ProtocolLimits.secureDefault.maxInlineBufferBytes.toNat ∧
    ¬∃! encoding, EncodesBigInt .secureDefault 1 [] 0 0 none 0 encoding := by
  refine ⟨Nat.pow_pos (by decide), ?_⟩
  rintro ⟨encoding, hEncodes, -⟩
  exact ((encodesBigInt_iff (Nat.pow_pos (by decide))).mp hEncodes).1 rfl

end Weregopher.Protocol
