import Weregopher.Protocol.ReadValue

/-! # The preflight accepts exactly the well-formed payloads within the limits

The stack of counters stands for sequences of values still to be read. A round
reads the head of the next value and makes its children the innermost sequence,
so the loop succeeds exactly when the unread bytes begin with such values.
-/
namespace Weregopher.Protocol
open Lib.Checked Lib.MsgPack Lib.Outcome MessagePackCursor

variable {limits : ProtocolLimits}

theorem claimNode_ok {depth nodes : Nat} : claimNode limits depth nodes = .ok () ↔
    depth ≤ limits.maxObjectDepth.toNat ∧ nodes + 1 ≤ limits.maxGraphNodes.toNat := by
  have hDepth := limits.maxObjectDepth.toNat_lt
  have hNodes := limits.maxGraphNodes.toNat_lt
  unfold claimNode checkedAdd u16Max u32Max
  constructor
  · intro h
    repeat' split at h
    all_goals simp_all [bind, Except.bind, throw, throwThe, MonadExceptOf.throw]
  · rintro ⟨hDepthLe, hNodesLe⟩
    rw [if_neg (by omega), if_neg (by omega), if_pos (by omega)]
    exact if_neg (by omega)

theorem claimChildren_ok {depth : Nat} :
    claimChildren limits depth = .ok () ↔ depth + 1 ≤ limits.maxObjectDepth.toNat := by
  have hDepth := limits.maxObjectDepth.toNat_lt
  unfold claimChildren checkedAdd u16Max
  split <;> grind

variable {rounds : Nat} {budget : MessagePackBudget}

theorem traverse_zero_cons {cursor : MessagePackCursor} {remaining : List Nat} {nodes maximumDepth : Nat} :
    traverse limits rounds ⟨cursor, 0 :: remaining, nodes, maximumDepth⟩ =
      traverse limits rounds ⟨cursor, remaining, nodes, maximumDepth⟩ := by
  cases rounds <;> rfl

theorem traverse_succ_cons {n : Nat} {cursor : MessagePackCursor} {below : List Nat}
    {nodes maximumDepth : Nat} {final : Traversal} :
    traverse limits (rounds + 1) ⟨cursor, (n + 1) :: below, nodes, maximumDepth⟩ = .ok final ↔
      below.length + 1 ≤ limits.maxObjectDepth.toNat ∧ nodes + 1 ≤ limits.maxGraphNodes.toNat ∧
        ∃ children next, cursor.readValue limits = .ok (children, next) ∧
          (children ≠ 0 → below.length + 1 + 1 ≤ limits.maxObjectDepth.toNat) ∧
          traverse limits rounds ⟨next, children :: n :: below, nodes + 1,
            max maximumDepth (below.length + 1)⟩ = .ok final := by
  have hDrop : ((n + 1) :: below).dropWhile (· = 0) = (n + 1) :: below := by simp
  simp only [traverse, hDrop, check_ok, claimNode_ok, and_assoc]
  simp only [bind_ok, Prod.exists, Nat.add_sub_cancel]
  refine and_congr_right fun _ => and_congr_right fun _ => exists_congr fun children =>
    exists_congr fun next => and_congr_right fun _ => ?_
  by_cases hChildren : children = 0
  · simp [hChildren, traverse_zero_cons]
  · simp [hChildren, check_ok, claimChildren_ok]

/-- The unread bytes from one state of the loop to the final one are the pending values, each within
the limits, and the counters grow by theirs. -/
structure Walks (limits : ProtocolLimits) (state : Traversal) (pending : List (List Value))
    (final : Traversal) : Prop where
  counts : pending.map List.length = state.remaining
  reads : ∃ front, PendingEncodes pending front ∧ state.cursor.Reads front final.cursor
  permitted : PendingEvery (Permitted limits) pending
  nodes_le : pendingNodes pending ≠ 0 → state.nodes + pendingNodes pending ≤ limits.maxGraphNodes.toNat
  peak_le : pendingPeak pending ≤ limits.maxObjectDepth.toNat
  remaining_eq : final.remaining = []
  nodes_eq : final.nodes = state.nodes + pendingNodes pending
  maximumDepth_eq : final.maximumDepth = max state.maximumDepth (pendingPeak pending)

section

variable {cursor : MessagePackCursor} {remaining : List Nat} {nodes maximumDepth : Nat}
  {head : Head} {children values : List Value} {below : List (List Value)} {final : Traversal}

theorem walks_nil : Walks limits ⟨cursor, remaining, nodes, maximumDepth⟩ [] final ↔
    remaining = [] ∧ final = ⟨cursor, [], nodes, maximumDepth⟩ := by
  constructor
  · rintro ⟨hCounts, ⟨front, hEncodes, hReads⟩, -, -, -, hRemaining, hNodes, hDepth⟩
    cases hEncodes
    have hCursor := reads_nil.mp hReads
    refine ⟨hCounts.symm, ?_⟩
    cases final
    simp_all [pendingNodes, pendingPeak]
  · rintro ⟨rfl, rfl⟩
    exact ⟨rfl, ⟨[], .nil, reads_nil.mpr rfl⟩, by simp [PendingEvery], fun h => absurd rfl h,
      Nat.zero_le _, rfl, rfl, (Nat.max_zero _).symm⟩

theorem walks_zero_cons :
    Walks limits ⟨cursor, 0 :: remaining, nodes, maximumDepth⟩ ([] :: below) final ↔
      Walks limits ⟨cursor, remaining, nodes, maximumDepth⟩ below final := by
  constructor
  · rintro ⟨hCounts, hReads, hPermitted, hNodesLe, hPeak, hRemaining, hNodes, hDepth⟩
    simp only [pendingEncodes_nil_cons, pendingNodes_nil_cons] at hReads hNodesLe hNodes
    exact ⟨List.tail_eq_of_cons_eq hCounts, hReads, (List.forall_mem_cons.mp hPermitted).2, hNodesLe,
      hPeak, hRemaining, hNodes, hDepth⟩
  · rintro ⟨hCounts, hReads, hPermitted, hNodesLe, hPeak, hRemaining, hNodes, hDepth⟩
    refine ⟨congrArg (0 :: ·) hCounts, ?_, List.forall_mem_cons.mpr ⟨trivial, hPermitted⟩, ?_, hPeak,
      hRemaining, ?_, hDepth⟩
    · simpa only [pendingEncodes_nil_cons] using hReads
    · simpa only [pendingNodes_nil_cons] using hNodesLe
    · simpa only [pendingNodes_nil_cons] using hNodes

theorem walks_node : Walks limits ⟨cursor, (values.length + 1) :: remaining, nodes, maximumDepth⟩
        ((.node head children :: values) :: below) final ↔
      remaining.length + 1 ≤ limits.maxObjectDepth.toNat ∧ nodes + 1 ≤ limits.maxGraphNodes.toNat ∧
        children.length = head.arity ∧ ∃ next, ReadsHead limits cursor head next ∧
          Walks limits ⟨next, head.arity :: values.length :: remaining, nodes + 1,
            max maximumDepth (remaining.length + 1)⟩ (children :: values :: below) final := by
  constructor
  · rintro ⟨hCounts, ⟨bytes, hEncodes, hReads⟩, hPermitted, hNodesLe, hPeak, hRemaining, hNodes, hDepth⟩
    rw [pendingNodes_node] at hNodesLe hNodes
    rw [pendingPeak_node] at hPeak hDepth
    dsimp only at hNodesLe hNodes hDepth
    obtain ⟨hHead, hRest⟩ := pendingEvery_node.mp hPermitted
    obtain ⟨front, back, rfl, hFront, hArity, hBack⟩ := pendingEncodes_node.mp hEncodes
    obtain ⟨next, hReadsFront, hReadsBack⟩ := reads_append.mp hReads
    have hBelow : below.map List.length = remaining := List.tail_eq_of_cons_eq hCounts
    have hLength : below.length = remaining.length := by rw [← hBelow, List.length_map]
    refine ⟨by omega, by omega, hArity, next, ⟨front, hFront, hHead, hReadsFront⟩, ?_⟩
    exact ⟨by simp [hBelow, hArity], ⟨back, hBack, hReadsBack⟩, hRest, by dsimp only; omega, by omega,
      hRemaining, by dsimp only; omega, by dsimp only; omega⟩
  · rintro ⟨hDepthLe, hNodeLe, hArity, next, ⟨front, hFront, hHead, hReadsFront⟩,
      ⟨hCounts, ⟨back, hBack, hReadsBack⟩, hRest, hNodesLe, hPeak, hRemaining, hNodes, hDepth⟩⟩
    have hBelow : below.map List.length = remaining :=
      List.tail_eq_of_cons_eq (List.tail_eq_of_cons_eq hCounts)
    have hLength : below.length = remaining.length := by rw [← hBelow, List.length_map]
    have hEncodes := pendingEncodes_node.mpr ⟨front, back, rfl, hFront, hArity, hBack⟩
    dsimp only at hNodesLe hNodes hDepth
    refine ⟨by simp [hBelow], ⟨front ++ back, hEncodes, hReadsFront.trans hReadsBack⟩,
      pendingEvery_node.mpr ⟨hHead, hRest⟩, ?_, ?_, hRemaining, ?_, ?_⟩
    · rw [pendingNodes_node]
      dsimp only
      omega
    · rw [pendingPeak_node]
      omega
    · rw [pendingNodes_node]
      dsimp only
      omega
    · rw [pendingPeak_node]
      dsimp only
      omega

theorem Walks.children_depth {state : Traversal} (h : Walks limits state (children :: values :: below) final)
    (hChildren : children ≠ []) : below.length + 1 + 1 ≤ limits.maxObjectDepth.toNat := by
  have hPeak := h.peak_le
  obtain _ | ⟨child, rest⟩ := children
  · exact absurd rfl hChildren
  · have hPos := depth_pos child
    simp only [pendingPeak, depthAll, List.length_cons] at hPeak
    omega

theorem exists_walks_zero {rounds : Nat} : (∃ pending, pendingNodes pending < rounds ∧
      Walks limits ⟨cursor, 0 :: remaining, nodes, maximumDepth⟩ pending final) ↔
    ∃ pending, pendingNodes pending < rounds ∧
      Walks limits ⟨cursor, remaining, nodes, maximumDepth⟩ pending final := by
  constructor
  · rintro ⟨pending, hNodes, hWalks⟩
    obtain ⟨values, pending, rfl, hValues, -⟩ := List.map_eq_cons_iff.mp hWalks.counts
    obtain rfl := List.eq_nil_of_length_eq_zero hValues
    exact ⟨pending, by rwa [pendingNodes_nil_cons] at hNodes, walks_zero_cons.mp hWalks⟩
  · rintro ⟨pending, hNodes, hWalks⟩
    exact ⟨[] :: pending, by rwa [pendingNodes_nil_cons], walks_zero_cons.mpr hWalks⟩

theorem exists_walks_succ {rounds n : Nat} : (∃ pending, pendingNodes pending < rounds + 1 ∧
      Walks limits ⟨cursor, (n + 1) :: remaining, nodes, maximumDepth⟩ pending final) ↔
    remaining.length + 1 ≤ limits.maxObjectDepth.toNat ∧ nodes + 1 ≤ limits.maxGraphNodes.toNat ∧
      ∃ children next, cursor.readValue limits = .ok (children, next) ∧
        (children ≠ 0 → remaining.length + 1 + 1 ≤ limits.maxObjectDepth.toNat) ∧
        ∃ pending, pendingNodes pending < rounds ∧
          Walks limits ⟨next, children :: n :: remaining, nodes + 1,
            max maximumDepth (remaining.length + 1)⟩ pending final := by
  constructor
  · rintro ⟨pending, hNodes, hWalks⟩
    obtain ⟨values, below, rfl, hValues, hBelow⟩ := List.map_eq_cons_iff.mp hWalks.counts
    obtain _ | ⟨⟨head, children⟩, values⟩ := values
    · cases hValues
    · obtain rfl := Nat.succ.inj hValues
      obtain ⟨hDepth, hNode, hArity, next, hHead, hRest⟩ := walks_node.mp hWalks
      rw [pendingNodes_node] at hNodes
      refine ⟨hDepth, hNode, head.arity, next, readValue_complete hHead, ?_, _, Nat.lt_of_succ_lt_succ hNodes, hRest⟩
      intro hChildren
      have hLength : below.length = remaining.length := by rw [← hBelow, List.length_map]
      rw [← hLength]
      exact hRest.children_depth (List.ne_nil_of_length_pos (by omega))
  · rintro ⟨hDepth, hNode, children, next, hValue, -, pending, hNodes, hWalks⟩
    obtain ⟨head, rfl, hHead⟩ := readValue_sound hValue
    obtain ⟨children, pending, rfl, hChildren, hRest⟩ := List.map_eq_cons_iff.mp hWalks.counts
    obtain ⟨values, pending, rfl, rfl, -⟩ := List.map_eq_cons_iff.mp hRest
    refine ⟨(.node head children :: values) :: pending, ?_, ?_⟩
    · rw [pendingNodes_node]
      exact Nat.succ_lt_succ hNodes
    · exact walks_node.mpr ⟨hDepth, hNode, hChildren, next, hHead, hWalks⟩

end

/-- The loop succeeds exactly when the unread bytes begin with pending values within the limits that
need fewer rounds than there are. -/
theorem traverse_ok_iff {state final : Traversal} : traverse limits rounds state = .ok final ↔
      ∃ pending, pendingNodes pending < rounds ∧ Walks limits state pending final := by
  induction rounds generalizing state with
  | zero => simp [traverse]
  | succ rounds ih =>
    obtain ⟨cursor, remaining, nodes, maximumDepth⟩ := state
    -- Exhausted counters are popped one by one.
    induction remaining with
    | nil =>
      constructor
      · rintro ⟨⟩
        exact ⟨[], Nat.succ_pos _, walks_nil.mpr ⟨rfl, rfl⟩⟩
      · rintro ⟨pending, -, hWalks⟩
        obtain rfl := List.map_eq_nil_iff.mp hWalks.counts
        rw [(walks_nil.mp hWalks).2]
        rfl
    | cons n below ihBelow =>
      cases n with
      | zero => rw [traverse_zero_cons, ihBelow, exists_walks_zero]
      | succ n => simp only [traverse_succ_cons, exists_walks_succ, ih]

theorem budget_ok {nodes maximumDepth : Nat} : MessagePackBudget.new nodes maximumDepth = .ok budget ↔
      budget.nodes = nodes ∧ budget.maximumDepth = maximumDepth := by
  obtain ⟨nodes', maximumDepth', hNodes, hDepth, hLe⟩ := budget
  unfold MessagePackBudget.new
  split <;> simp <;> omega

variable {payload : List UInt8}

theorem walks_root {hLength : payload.length ≤ usizeMax} {pending : List (List Value)} {final : Traversal} :
    Walks limits ⟨.new payload hLength, [1], 0, 0⟩ pending final ∧ final.cursor.offset = payload.length ↔
      ∃ value, pending = [[value]] ∧ Encodes value payload ∧ EveryHead (Permitted limits) value ∧
        nodes value ≤ limits.maxGraphNodes.toNat ∧ depth value ≤ limits.maxObjectDepth.toNat ∧
        final = ⟨⟨payload, payload.length, Nat.le_refl _, hLength⟩, [], nodes value, depth value⟩ := by
  have hNodes (value : Value) : pendingNodes [[value]] = nodes value := by simp [pendingNodes, nodesAll]
  have hPeak (value : Value) : pendingPeak [[value]] = depth value := by simp [pendingPeak, depthAll]
  constructor
  · rintro ⟨hWalks, hEnd⟩
    obtain ⟨values, pending, rfl, hValues, hBelow⟩ := List.map_eq_cons_iff.mp hWalks.counts
    obtain ⟨value, rfl⟩ := List.length_eq_one_iff.mp hValues
    obtain rfl := List.map_eq_nil_iff.mp hBelow
    obtain ⟨-, ⟨front, hEncodes, hReads⟩, hPermitted, hNodesLe, hPeakLe, hRemaining, hFinal, hDepth⟩ := hWalks
    obtain ⟨⟨bytes, offset, hOffset, hBytes⟩, remaining, finalNodes, finalDepth⟩ := final
    obtain ⟨hBytesEq, hStart, hUnread⟩ := hReads
    obtain rfl : payload = bytes := hBytesEq.symm
    obtain rfl : offset = payload.length := hEnd
    have hFront : payload = front := by simpa [unread, new] using hUnread
    rw [hNodes] at hNodesLe hFinal
    rw [hPeak] at hPeakLe hDepth
    rw [pendingEncodes_singleton, ← hFront] at hEncodes
    refine ⟨value, rfl, hEncodes, pendingEvery_singleton.mp hPermitted, ?_, hPeakLe, ?_⟩
    · have hPositive := Nat.lt_of_lt_of_le (depth_pos value) (depth_le_nodes value)
      simpa using hNodesLe (by omega)
    · simp_all [new]
  · rintro ⟨value, rfl, hEncodes, hPermitted, hNodesLe, hDepthLe, rfl⟩
    refine ⟨⟨rfl, ⟨payload, pendingEncodes_singleton.mpr hEncodes, rfl, ?_, ?_⟩,
      pendingEvery_singleton.mpr hPermitted, ?_, by rwa [hPeak], rfl, ?_, ?_⟩, rfl⟩
    · simp [new]
    · simp [unread, new]
    · simpa [hNodes] using fun _ => hNodesLe
    · simp [hNodes]
    · simp [hPeak]

theorem inspectMessagepack_ok_iff : inspectMessagepack payload limits = .ok budget ↔
      limits.validate = .ok () ∧ payload.length ≤ limits.maxFrameBytes.toNat ∧
        ∃ value, Encodes value payload ∧ EveryHead (Permitted limits) value ∧
          nodes value ≤ limits.maxGraphNodes.toNat ∧ depth value ≤ limits.maxObjectDepth.toNat ∧
          budget.nodes = nodes value ∧ budget.maximumDepth = depth value := by
  unfold inspectMessagepack
  cases hValidate : limits.validate with
  | error source => simp [throw_ok]
  | ok valid =>
    by_cases hFrame : payload.length > limits.maxFrameBytes.toNat
    · simp [hFrame, throw_ok, Nat.not_le.mpr hFrame]
    · simp only [hFrame, dite_false, guard_ok, bind_ok, traverse_ok_iff, ne_eq, not_not, budget_ok, true_and,
        Nat.not_lt.mp hFrame]
      constructor
      · rintro ⟨-, final, ⟨pending, -, hWalks⟩, hEnd, hNodes, hDepth⟩
        obtain ⟨value, -, hEncodes, hPermitted, hNodesLe, hDepthLe, rfl⟩ := walks_root.mp ⟨hWalks, hEnd⟩
        exact ⟨value, hEncodes, hPermitted, hNodesLe, hDepthLe, hNodes, hDepth⟩
      · rintro ⟨value, hEncodes, hPermitted, hNodesLe, hDepthLe, hNodes, hDepth⟩
        have hLength := hEncodes.nodes_le_length
        have hPositive := Nat.lt_of_lt_of_le (depth_pos value) (depth_le_nodes value)
        obtain ⟨hWalks, hEnd⟩ :=
          walks_root.mpr ⟨value, rfl, hEncodes, hPermitted, hNodesLe, hDepthLe, rfl⟩
        refine ⟨List.ne_nil_of_length_pos (by omega), _, ⟨[[value]], ?_, hWalks⟩, hEnd, hNodes, hDepth⟩
        simp only [pendingNodes, nodesAll, List.map_cons, List.map_nil, List.sum_cons, List.sum_nil]
        omega

/-! No step before the last one reports an inconsistent budget, and the last one cannot: the loop has
counted at least the root. -/

namespace MessagePackCursor

variable {cursor : MessagePackCursor} {length : Nat}

theorem take_ne_budget : cursor.take length ≠ .error .invalidObservedBudget := by
  unfold take
  repeat' split
  all_goals simp

theorem skip_ne_budget : cursor.skip length ≠ .error .invalidObservedBudget := bind_ne_error take_ne_budget nofun

theorem readUnsigned_ne_budget {width : Nat} : cursor.readUnsigned width ≠ .error .invalidObservedBudget :=
  bind_ne_error take_ne_budget nofun

theorem mapChildren_ne_budget {entries : Nat} : mapChildren entries ≠ .error .invalidObservedBudget := by
  unfold mapChildren
  split <;> simp

theorem readString_ne_budget : cursor.readString length limits ≠ .error .invalidObservedBudget := by
  unfold readString
  split
  · nofun
  · refine bind_ne_error take_ne_budget fun pair _ => ?_
    cases h : isUtf8 pair.1 <;> simp [h, throw, throwThe, MonadExceptOf.throw, pure, Except.pure]

theorem readBinary_ne_budget : cursor.readBinary length limits ≠ .error .invalidObservedBudget := by
  unfold readBinary
  split
  · nofun
  · exact skip_ne_budget

theorem readForm_ne_budget {marker : UInt8} {form : MarkerForm} :
    cursor.readForm limits marker form ≠ .error .invalidObservedBudget := by
  cases form with
  | scalar width => exact bind_ne_error skip_ne_budget nofun
  | fixMap entries => exact bind_ne_error mapChildren_ne_budget nofun
  | fixArray length | reserved | extension => nofun
  | fixStr length => exact bind_ne_error readString_ne_budget nofun
  | bin width =>
    exact bind_ne_error readUnsigned_ne_budget fun _ _ => bind_ne_error readBinary_ne_budget nofun
  | str width =>
    exact bind_ne_error readUnsigned_ne_budget fun _ _ => bind_ne_error readString_ne_budget nofun
  | array width => exact readUnsigned_ne_budget
  | map width =>
    exact bind_ne_error readUnsigned_ne_budget fun _ _ => bind_ne_error mapChildren_ne_budget nofun

theorem readValue_ne_budget : cursor.readValue limits ≠ .error .invalidObservedBudget := by
  refine bind_ne_error (bind_ne_error take_ne_budget fun pair _ => ?_) fun _ _ => readForm_ne_budget
  cases h : pair.1.head? <;> simp [h, throw, throwThe, MonadExceptOf.throw, pure, Except.pure]

end MessagePackCursor

theorem claimNode_ne_budget {depth nodes : Nat} : claimNode limits depth nodes ≠ .error .invalidObservedBudget := by
  unfold claimNode
  repeat' split
  all_goals nofun

theorem claimChildren_ne_budget {depth : Nat} : claimChildren limits depth ≠ .error .invalidObservedBudget := by
  unfold claimChildren
  repeat' split
  all_goals simp

theorem traverse_ne_budget {state : Traversal} : traverse limits rounds state ≠ .error .invalidObservedBudget := by
  induction rounds generalizing state with
  | zero => simp [traverse]
  | succ rounds ih =>
    unfold traverse
    split
    · simp
    · refine bind_ne_error claimNode_ne_budget fun _ _ => bind_ne_error readValue_ne_budget fun _ _ => ?_
      dsimp only
      split
      · exact bind_ne_error claimChildren_ne_budget fun _ _ => ih
      · exact ih

theorem inspectMessagepack_ne_budget : inspectMessagepack payload limits ≠ .error .invalidObservedBudget := by
  unfold inspectMessagepack
  split
  · nofun
  · split
    · nofun
    · split
      · nofun
      · refine bind_ne_error traverse_ne_budget fun final hFinal => ?_
        split
        · nofun
        · rename_i hEnd
          obtain ⟨pending, -, hWalks⟩ := traverse_ok_iff.mp hFinal
          obtain ⟨value, -, -, -, -, -, rfl⟩ := walks_root.mp ⟨hWalks, not_not.mp hEnd⟩
          have hDepth := depth_pos value
          have hNodes := depth_le_nodes value
          unfold MessagePackBudget.new
          rw [dif_neg (by dsimp only; omega)]
          simp

/-- The preflight accepts a payload exactly when its limits are valid and it is one MessagePack
value, with nothing after it, within them; the budget it then reports is that of the value. -/
theorem preflight_exact (payload : List UInt8) (limits : ProtocolLimits) :
    (∀ budget, inspectMessagepack payload limits = .ok budget ↔
      limits.validate = .ok () ∧ payload.length ≤ limits.maxFrameBytes.toNat ∧
        ∃ value, Encodes value payload ∧ EveryHead (Permitted limits) value ∧
          nodes value ≤ limits.maxGraphNodes.toNat ∧ depth value ≤ limits.maxObjectDepth.toNat ∧
          budget.nodes = nodes value ∧ budget.maximumDepth = depth value) ∧
      inspectMessagepack payload limits ≠ .error .invalidObservedBudget :=
  ⟨fun _ => inspectMessagepack_ok_iff, inspectMessagepack_ne_budget⟩

end Weregopher.Protocol
