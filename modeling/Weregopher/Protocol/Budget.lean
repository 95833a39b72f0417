import Weregopher.Protocol.OwnCheck

/-! # The work list computes the recursive totals

Every round moves the first waiting value to the budget and puts its children in its
place. What is counted together with what the waiting values come to by recursion is
therefore the same before and after the round.
-/
namespace Weregopher.Protocol
open Lib.Checked Lib.Outcome WireValue WireValueBudget

def pendingNodes (pending : Pending) : Nat := (pending.map (·.1.nodeCount)).sum

def pendingDepth (pending : Pending) : Nat := greatest (pending.map fun waiting => waiting.2 + waiting.1.depth - 1)

def pendingHandles (pending : Pending) : Nat := (pending.map (·.1.handleCount)).sum

def WireValueBudget.after (budget : WireValueBudget) (pending : Pending) : WireValueBudget :=
  ⟨budget.nodes + pendingNodes pending, max budget.maximumDepth (pendingDepth pending),
    budget.remoteHandles + pendingHandles pending⟩

structure PendingFits (limits : ProtocolLimits) (expectedApp : Option AppInstanceId) (budget : WireValueBudget)
    (pending : Pending) : Prop where
  nodes : (budget.after pending).nodes ≤ limits.maxGraphNodes.toNat
  depth : (budget.after pending).maximumDepth ≤ limits.maxObjectDepth.toNat
  handles : (budget.after pending).remoteHandles ≤ limits.maxRemoteHandles.toNat
  passes : ∀ waiting ∈ pending, waiting.1.Passes limits expectedApp

section

variable {limits : ProtocolLimits} {expectedApp : Option AppInstanceId} {budget : WireValueBudget}
  {value : WireValue} {depth : Nat} {pending : Pending}

theorem length_le_pendingNodes (pending : Pending) : pending.length ≤ pendingNodes pending := by
  induction pending with
  | nil => exact Nat.le_refl 0
  | cons waiting rest ih =>
    have hNode := nodeCount_eq waiting.1
    simp only [pendingNodes, List.length_cons, List.map_cons, List.sum_cons] at ih ⊢
    omega

variable (below : List WireValue)

theorem pendingNodes_push (depth : Nat) (pending : Pending) :
    pendingNodes (pushChildren below depth pending) = (below.map nodeCount).sum + pendingNodes pending := by
  simp [pendingNodes, pushChildren, Function.comp_def]

theorem pendingHandles_push (depth : Nat) (pending : Pending) :
    pendingHandles (pushChildren below depth pending) = (below.map handleCount).sum + pendingHandles pending := by
  simp [pendingHandles, pushChildren, Function.comp_def]

theorem pendingDepth_push (depth : Nat) (pending : Pending) :
    max depth (pendingDepth (pushChildren below (depth + 1) pending)) =
      max (depth + greatest (below.map WireValue.depth)) (pendingDepth pending) := by
  induction below with
  | nil => simp [pushChildren, greatest]
  | cons child rest ih =>
    simp only [pendingDepth, pushChildren, greatest, List.map_cons, List.cons_append, List.foldr_cons] at ih ⊢
    omega

def WireValueBudget.take (budget : WireValueBudget) (value : WireValue) (depth : Nat) : WireValueBudget :=
  ⟨budget.nodes + 1, max budget.maximumDepth depth, budget.remoteHandles + value.owners.length⟩

theorem after_take : (budget.take value depth).after (pushChildren value.children (depth + 1) pending) =
      budget.after ((value, depth) :: pending) := by
  have hDepth := pendingDepth_push value.children depth pending
  have hOwn : pendingDepth ((value, depth) :: pending) =
      max (depth + greatest (value.children.map WireValue.depth)) (pendingDepth pending) := by
    simp only [pendingDepth, List.map_cons, greatest, List.foldr_cons, depth_eq value]
    omega
  simp only [after, take, pendingNodes_push, pendingHandles_push,
    mk.injEq]
  refine ⟨?_, ?_, ?_⟩
  · simp only [pendingNodes, List.map_cons, List.sum_cons, nodeCount_eq value]
    omega
  · rw [max_assoc, hDepth, hOwn]
  · simp only [pendingHandles, List.map_cons, List.sum_cons, handleCount_eq value]
    omega

theorem pendingFits_cons : PendingFits limits expectedApp budget ((value, depth) :: pending) ↔
      value.PassesAlone limits expectedApp ∧
        PendingFits limits expectedApp (budget.take value depth)
          (pushChildren value.children (depth + 1) pending) := by
  constructor
  · rintro ⟨hNodes, hDepth, hHandles, hPasses⟩
    rw [List.forall_mem_cons, passes_iff] at hPasses
    obtain ⟨⟨hAlone, hChildren⟩, hRest⟩ := hPasses
    rw [← after_take] at hNodes hDepth hHandles
    refine ⟨hAlone, hNodes, hDepth, hHandles, ?_⟩
    rw [pushChildren, List.forall_mem_append, List.forall_mem_map]
    exact ⟨hChildren, hRest⟩
  · rintro ⟨hAlone, hNodes, hDepth, hHandles, hPasses⟩
    rw [after_take] at hNodes hDepth hHandles
    rw [pushChildren, List.forall_mem_append, List.forall_mem_map] at hPasses
    refine ⟨hNodes, hDepth, hHandles, ?_⟩
    rw [List.forall_mem_cons, passes_iff]
    exact ⟨⟨hAlone, hPasses.1⟩, hPasses.2⟩

theorem PendingFits.stepsTo (hFits : PendingFits limits expectedApp budget ((value, depth) :: pending)) :
    StepsTo limits expectedApp value depth pending budget.remoteHandles
      (limits.maxGraphNodes.toNat - (budget.nodes + 1))
      (pushChildren value.children (depth + 1) pending, (budget.take value depth).remoteHandles) := by
  obtain ⟨hAlone, hNodes, -, hHandles, -⟩ := pendingFits_cons.mp hFits
  have hLength := length_le_pendingNodes (pushChildren value.children (depth + 1) pending)
  have hDepth := hFits.depth
  simp only [after, take] at hNodes hHandles hDepth
  refine ⟨hAlone, ?_, ?_, ?_, rfl⟩
  · simp only [pushChildren, List.length_append, List.length_map] at hLength hNodes
    omega
  · intro hChildren
    have hDeep := children_ne_nil_depth hChildren
    simp only [pendingDepth, List.map_cons, greatest, List.foldr_cons] at hDepth
    omega
  · omega

theorem PendingFits.depth_le (hFits : PendingFits limits expectedApp budget ((value, depth) :: pending)) :
    depth ≤ limits.maxObjectDepth.toNat := by
  have hDepth := (pendingFits_cons.mp hFits).2.depth
  simp only [after, take] at hDepth
  omega

/-- Enough rounds are left when the budget can never reach the limit within them. -/
theorem validatePending_ok {rounds : Nat} {result : WireValueBudget}
    (hRounds : limits.maxGraphNodes.toNat < rounds + budget.nodes)
    (hNodes : budget.nodes + pending.length ≤ limits.maxGraphNodes.toNat)
    (hDepth : budget.maximumDepth ≤ limits.maxObjectDepth.toNat)
    (hHandles : budget.remoteHandles ≤ limits.maxRemoteHandles.toNat) :
    validatePending limits expectedApp rounds pending budget = .ok result ↔
      PendingFits limits expectedApp budget pending ∧ budget.after pending = result := by
  have hWord := toNat_le_u32Max limits.maxGraphNodes
  induction rounds generalizing pending budget with
  | zero => omega
  | succ rounds ih =>
    cases pending with
    | nil =>
      have hAfter : budget.after [] = budget := by simp [after, pendingNodes, pendingDepth,
        pendingHandles, greatest]
      have hFits : PendingFits limits expectedApp budget [] := by
        refine ⟨?_, ?_, ?_, by simp⟩ <;> rw [hAfter]
        · exact hNodes
        · exact hDepth
        · exact hHandles
      rw [validatePending, hAfter, Except.ok.injEq]
      exact ⟨fun h => ⟨hFits, h⟩, fun h => h.2⟩
    | cons waiting pending =>
      obtain ⟨value, depth⟩ := waiting
      rw [List.length_cons] at hNodes
      have hCount : checkedAdd u32Max budget.nodes 1 = some (budget.nodes + 1) := by
        rw [checkedAdd, if_pos (by omega)]
      have hRoom : pending.length ≤ limits.maxGraphNodes.toNat - (budget.nodes + 1) := by omega
      rw [validatePending, hCount]
      simp only [guard_ok, bind_ok, validateWireValue_ok (Nat.le_trans (Nat.sub_le _ _) hWord) hRoom hHandles]
      -- The hypotheses of the next round hold as soon as this one has made its checks.
      have hNext : depth ≤ limits.maxObjectDepth.toNat →
          pending.length + value.children.length ≤ limits.maxGraphNodes.toNat - (budget.nodes + 1) →
          budget.remoteHandles + value.owners.length ≤ limits.maxRemoteHandles.toNat →
          (validatePending limits expectedApp rounds (pushChildren value.children (depth + 1) pending)
              (budget.take value depth) = .ok result ↔
            PendingFits limits expectedApp (budget.take value depth)
                (pushChildren value.children (depth + 1) pending) ∧
              budget.after ((value, depth) :: pending) = result) := by
        intro hLevel hReserved hOwned
        rw [← after_take]
        apply ih
        · simp only [take]
          omega
        · simp only [take, pushChildren, List.length_append, List.length_map]
          omega
        · exact max_le hDepth hLevel
        · exact hOwned
      constructor
      · rintro ⟨-, hLevel, _, ⟨hAlone, hReserved, -, hOwned, rfl⟩, hRest⟩
        obtain ⟨hFits, hResult⟩ := (hNext (not_lt.mp hLevel) hReserved hOwned).mp hRest
        exact ⟨pendingFits_cons.mpr ⟨hAlone, hFits⟩, hResult⟩
      · rintro ⟨hFits, hResult⟩
        have hLevel := hFits.depth_le
        have hStep := hFits.stepsTo
        refine ⟨by omega, not_lt.mpr hLevel, _, hStep, ?_⟩
        exact (hNext hLevel hStep.2.1 hStep.2.2.2.1).mpr ⟨(pendingFits_cons.mp hFits).2, hResult⟩

end

variable (roots : List WireValue)

theorem pendingDepth_roots : pendingDepth (pushChildren roots 1 []) = graphDepth roots := by
  simp [pendingDepth, pushChildren, graphDepth, Function.comp_def]

theorem after_roots : (mk 0 0 0).after (pushChildren roots 1 []) = graphBudget roots := by
  rw [after, pendingNodes_push, pendingHandles_push, pendingDepth_roots]
  simp [graphBudget, graphNodes, graphHandles, pendingNodes, pendingHandles]

theorem pendingFits_roots {limits : ProtocolLimits} {expectedApp : Option AppInstanceId} {roots : List WireValue} :
    PendingFits limits expectedApp ⟨0, 0, 0⟩ (pushChildren roots 1 []) ↔ GraphFits limits expectedApp roots := by
  have hPasses : (∀ waiting ∈ pushChildren roots 1 [], waiting.1.Passes limits expectedApp) ↔
      ∀ root ∈ roots, root.Passes limits expectedApp := by
    rw [pushChildren, List.append_nil, List.forall_mem_map]
  have hAfter := after_roots roots
  constructor
  · rintro ⟨hNodes, hDepth, hHandles, hAll⟩
    rw [hAfter] at hNodes hDepth hHandles
    exact ⟨hNodes, hDepth, hHandles, hPasses.mp hAll⟩
  · rintro ⟨hNodes, hDepth, hHandles, hAll⟩
    refine ⟨?_, ?_, ?_, hPasses.mpr hAll⟩ <;> rw [hAfter]
    · exact hNodes
    · exact hDepth
    · exact hHandles

theorem length_le_graphNodes : roots.length ≤ graphNodes roots := by
  have h := length_le_pendingNodes (pushChildren roots 1 [])
  rw [pendingNodes_push] at h
  simpa [pushChildren, pendingNodes, graphNodes] using h

theorem validateWireValueGraphWithApp_ok (limits : ProtocolLimits)
    (expectedApp : Option AppInstanceId) (budget : WireValueBudget) :
    validateWireValueGraphWithApp roots limits expectedApp = .ok budget ↔
      limits.validate = .ok () ∧ GraphFits limits expectedApp roots ∧ budget = graphBudget roots := by
  have hWord := toNat_le_u32Max limits.maxGraphNodes
  rw [validateWireValueGraphWithApp, check_ok, checkLimits_ok, guard_ok, guard_ok]
  refine and_congr_right fun _ => ?_
  have hLoop (hLength : roots.length ≤ limits.maxGraphNodes.toNat) :
      validatePending limits expectedApp (limits.maxGraphNodes.toNat + 2) (pushChildren roots 1 []) ⟨0, 0, 0⟩ =
          .ok budget ↔ GraphFits limits expectedApp roots ∧ budget = graphBudget roots := by
    rw [validatePending_ok, pendingFits_roots, after_roots, eq_comm]
    · simp
    · simpa [pushChildren] using hLength
    · exact Nat.zero_le _
    · exact Nat.zero_le _
  constructor
  · rintro ⟨-, hLength, hRun⟩
    exact (hLoop (not_lt.mp hLength)).mp hRun
  · rintro ⟨hFits, hBudget⟩
    have hLength := (length_le_graphNodes roots).trans hFits.nodes
    exact ⟨by omega, not_lt.mpr hLength, (hLoop hLength).mpr ⟨hFits, hBudget⟩⟩

/-- The iterative validator accepts exactly the graphs that fit by recursion and returns their recursive
totals. The last part is about the errors of the early reservation. -/
theorem validator_refines_recursion (limits : ProtocolLimits)
    (expectedApp : Option AppInstanceId) (hLimits : limits.validate = .ok ()) :
    ((∃ budget, validateWireValueGraphWithApp roots limits expectedApp = .ok budget) ↔
        GraphFits limits expectedApp roots) ∧
      (∀ budget, validateWireValueGraphWithApp roots limits expectedApp = .ok budget →
        budget.nodes = graphNodes roots ∧ budget.maximumDepth = graphDepth roots ∧
          budget.remoteHandles = graphHandles roots) ∧
      (GraphFits limits expectedApp roots → ∀ maximum actual,
        validateWireValueGraphWithApp roots limits expectedApp ≠ .error (.graphNodesExceeded maximum actual) ∧
          validateWireValueGraphWithApp roots limits expectedApp ≠ .error .graphNodeCountOverflow) := by
  have hAccepts := validateWireValueGraphWithApp_ok roots limits expectedApp
  have hFit (hFits : GraphFits limits expectedApp roots) :
      validateWireValueGraphWithApp roots limits expectedApp = .ok (graphBudget roots) :=
    (hAccepts _).mpr ⟨hLimits, hFits, rfl⟩
  refine ⟨⟨?_, fun hFits => ⟨_, hFit hFits⟩⟩, ?_, ?_⟩
  · rintro ⟨budget, hRun⟩
    exact ((hAccepts budget).mp hRun).2.1
  · intro budget hRun
    obtain ⟨-, -, rfl⟩ := (hAccepts budget).mp hRun
    exact ⟨rfl, rfl, rfl⟩
  · intro hFits maximum actual
    rw [hFit hFits]
    exact ⟨nofun, nofun⟩

def sampleRoots : List WireValue :=
  [.error "Error" "m" none none none (some (.array [.null, .function ⟨2, 1, 1⟩])) [("data", .bigInt true [1])]]

theorem sample_refines_recursion :
    validateWireValueGraphWithApp sampleRoots .secureDefault (some 2) = .ok ⟨5, 3, 1⟩ ∧
      GraphFits .secureDefault (some 2) sampleRoots := by
  have hRun : validateWireValueGraphWithApp sampleRoots .secureDefault (some 2) = .ok ⟨5, 3, 1⟩ := by
    decide +kernel
  exact ⟨hRun, (validator_refines_recursion sampleRoots .secureDefault (some 2) (by decide)).1.mp ⟨_, hRun⟩⟩

end Weregopher.Protocol
