import Weregopher.Lib.RunSystem
import Weregopher.Lib.Transition
import Weregopher.Protocol.Ownership
import Weregopher.Renderer.Origin

/-! # The authority of a navigation over the messages of its page

A page chooses a nonce, an identifier, a method and arguments. Everything else of its
call comes from the authority, which only remembers the identifiers it has accepted.
-/
namespace Weregopher.Renderer
open Lib Lib.Outcome Lib.Stateful Protocol

inductive RendererContractError
  | zeroBridgeNonce
  | zeroNavigationGeneration
  | frameRendererMismatch
  | frameNavigationMismatch
  | worldFrameMismatch
  | worldNavigationMismatch
  | zeroBridgeRequestId
  | emptyText (field : String)
  | textExceeded (field : String) (maximum actual : Nat)
  | wire (source : RuntimeProtocolContractError)
  deriving DecidableEq

abbrev Contracted (α : Type) := Except RendererContractError α

/-- `validate_text` of the renderer contracts, with errors of its own. -/
def validateContractText (field value : String) (maximum : Nat) : Contracted Unit :=
  if value.isEmpty then .error (.emptyText field)
  else if value.utf8ByteSize > maximum then .error (.textExceeded field maximum value.utf8ByteSize)
  else .ok ()

structure RendererBridgeNonce where
  bytes : Vector UInt8 16
  nonzero : bytes ≠ Vector.replicate 16 0
  deriving DecidableEq

def RendererBridgeNonce.new (bytes : Vector UInt8 16) : Contracted RendererBridgeNonce :=
  if h : bytes = Vector.replicate 16 0 then .error .zeroBridgeNonce else .ok ⟨bytes, h⟩

structure RendererEnvelope where
  app : AppInstanceId
  renderer : RendererId
  frame : FrameIdentity
  world : WorldIdentity
  navigationGeneration : UInt32
  nonce : RendererBridgeNonce
  payload : WireValue

def validateRendererAuthority (renderer : RendererId) (frame : FrameIdentity) (world : WorldIdentity)
    (navigationGeneration : UInt32) (limits : ProtocolLimits) : Contracted Unit := do
  if navigationGeneration = 0 then throw .zeroNavigationGeneration
  if frame.renderer ≠ renderer then throw .frameRendererMismatch
  if frame.generation ≠ navigationGeneration then throw .frameNavigationMismatch
  if world.frame ≠ frame then throw .worldFrameMismatch
  if world.generation ≠ navigationGeneration then throw .worldNavigationMismatch
  validateContractText "renderer origin" frame.origin.serialized limits.maxStringBytes.toNat

def RendererEnvelope.new (app : AppInstanceId) (renderer : RendererId) (frame : FrameIdentity)
    (world : WorldIdentity) (navigationGeneration : UInt32) (nonce : RendererBridgeNonce) (payload : WireValue)
    (limits : ProtocolLimits) : Contracted RendererEnvelope := do
  validateRendererAuthority renderer frame world navigationGeneration limits
  let _ ← (validateWireValueGraphForApp [payload] limits app).mapError .wire
  return ⟨app, renderer, frame, world, navigationGeneration, nonce, payload⟩

/-- What a page sends. It was checked against the limits of whoever decoded it. -/
structure RendererBridgeInvocation where
  nonce : RendererBridgeNonce
  requestId : UInt64
  method : String
  args : List WireValue
  requestId_ne : requestId ≠ 0
  method_valid : validateContractText "renderer bridge method" method 255 = .ok ()

def RendererBridgeInvocation.new (nonce : RendererBridgeNonce) (requestId : UInt64) (method : String)
    (args : List WireValue) (limits : ProtocolLimits) : Contracted RendererBridgeInvocation :=
  if hId : requestId = 0 then .error .zeroBridgeRequestId
  else
    match hMethod : validateContractText "renderer bridge method" method 255 with
    | .error error => .error error
    | .ok () => do
      let _ ← (validateWireValueGraph args limits).mapError .wire
      return ⟨nonce, requestId, method, args, hId, hMethod⟩

inductive RendererBridgeError
  | zeroNavigationGeneration
  | sourceMismatch
  | nonceMismatch
  | requestReplay (requestId : UInt64)
  | requestBudgetExceeded (maximum : UInt32)
  | renderer (source : RendererContractError)
  | runtime (source : RuntimeProtocolContractError)
  | limits (source : ProtocolLimitError)

structure AuthorizedRendererCall where
  pageRequestId : UInt64
  envelope : RendererEnvelope
  call : RuntimeCall

structure RendererBridgeAuthority where
  app : AppInstanceId
  renderer : RendererId
  origin : PrivateOrigin
  navigationGeneration : UInt32
  nonce : RendererBridgeNonce
  service : String
  limits : ProtocolLimits
  acceptedRequests : Finset UInt64
  generation_ne : navigationGeneration ≠ 0
  limits_valid : limits.validate = .ok ()
  service_valid : CallTarget.rebuild (.service service) = .ok ()

namespace RendererBridgeAuthority

def new (app : AppInstanceId) (renderer : RendererId) (origin : PrivateOrigin) (navigationGeneration : UInt32)
    (nonce : RendererBridgeNonce) (service : String) (limits : ProtocolLimits) :
    Except RendererBridgeError RendererBridgeAuthority :=
  if hGeneration : navigationGeneration = 0 then .error .zeroNavigationGeneration
  else
    match hLimits : limits.validate with
    | .error source => .error (.limits source)
    | .ok () =>
      match hService : CallTarget.rebuild (.service service) with
      | .error source => .error (.runtime source)
      | .ok () =>
        .ok ⟨app, renderer, origin, navigationGeneration, nonce, service, limits, ∅, hGeneration, hLimits, hService⟩

variable (authority : RendererBridgeAuthority)

def frame : FrameIdentity where
  renderer := authority.renderer
  frameId := 1
  generation := authority.navigationGeneration
  parentFrameId := none
  origin := ⟨authority.origin.identitySerialized, false⟩
  isMainFrame := true

def world : WorldIdentity where
  frame := authority.frame
  worldId := 1
  generation := authority.navigationGeneration
  kind := .main

def context : CallContext where
  app := authority.app
  renderer := some authority.renderer
  frame := some authority.frame
  world := some authority.world
  authority := ⟨none, none⟩
  deadlineMs := some 5000
  traceParent := none

def accept (requestId : UInt64) (authority : RendererBridgeAuthority) : RendererBridgeAuthority :=
  { authority with acceptedRequests := insert requestId authority.acceptedRequests }

def authorize (observedSource : String) (invocation : RendererBridgeInvocation) :
    Transition RendererBridgeAuthority RendererBridgeError AuthorizedRendererCall := do
  let self ← get
  let _ ← liftM ((self.origin.requestPath observedSource .g1Fixture).mapError fun _ =>
    RendererBridgeError.sourceMismatch)
  if invocation.nonce ≠ self.nonce then throw .nonceMismatch
  if invocation.requestId ∈ self.acceptedRequests then throw (.requestReplay invocation.requestId)
  if self.acceptedRequests.card ≥ self.limits.maxPendingRequests.toNat then
    throw (.requestBudgetExceeded self.limits.maxPendingRequests)
  let envelope ← liftM ((RendererEnvelope.new self.app self.renderer self.frame self.world self.navigationGeneration
    self.nonce (.array invocation.args) self.limits).mapError RendererBridgeError.renderer)
  let target ← liftM ((CallTarget.ofService self.service).mapError RendererBridgeError.runtime)
  let call ← liftM ((RuntimeCall.new target invocation.method invocation.args self.context self.limits).mapError
    RendererBridgeError.runtime)
  modify (accept invocation.requestId)
  return ⟨invocation.requestId, envelope, call⟩

def bridge : RunSystem RendererBridgeAuthority (String × RendererBridgeInvocation) AuthorizedRendererCall where
  next authority message := (exec (authorize message.1 message.2) authority).2
  emit authority message := (exec (authorize message.1 message.2) authority).1.toOption.toList

end RendererBridgeAuthority

open RendererBridgeAuthority

/-- The call takes nothing but an identifier, a method and arguments from the page. -/
structure Confined (authority : RendererBridgeAuthority) (authorized : AuthorizedRendererCall) : Prop where
  context : authorized.call.context = authority.context
  target : authorized.call.target = .service authority.service
  envelope : authorized.envelope = ⟨authority.app, authority.renderer, authority.frame, authority.world,
    authority.navigationGeneration, authority.nonce, .array authorized.call.args⟩
  owned : ∀ handle, authorized.call.Reaches handle → handle.app = authority.app

variable {app : AppInstanceId} {generation : UInt32} {limits : ProtocolLimits} {renderer : RendererId}
  {name method : String} {target : CallTarget} {args : List WireValue} {calls : List AuthorizedRendererCall}

theorem RendererEnvelope.new_ok {frame : FrameIdentity}
    {world : WorldIdentity} {nonce : RendererBridgeNonce} {payload : WireValue} {envelope : RendererEnvelope}
    (h : RendererEnvelope.new app renderer frame world generation nonce payload limits = .ok envelope) :
    envelope = ⟨app, renderer, frame, world, generation, nonce, payload⟩ := by
  rw [RendererEnvelope.new, check_ok, bind_ok] at h
  obtain ⟨-, _, -, hEnvelope⟩ := h
  exact (pure_ok.mp hEnvelope).symm

theorem ofService_ok (h : CallTarget.ofService name = .ok target) : target = .service name := by
  rw [CallTarget.ofService, check_ok] at h
  exact (pure_ok.mp h.2).symm

theorem runtimeCall_new_ok {context : CallContext} {call : RuntimeCall}
    (h : RuntimeCall.new target method args context limits = .ok call) :
    call = ⟨target, method, args, context⟩ ∧ call.validate limits = .ok () := by
  rw [RuntimeCall.new, check_ok] at h
  obtain rfl := pure_ok.mp h.2
  exact ⟨rfl, h.1⟩

/-- What the target is a service of carries no handle, so the arguments do. -/
theorem reaches_service {context : CallContext}
    {handle : RemoteHandle} (h : RuntimeCall.Reaches ⟨.service name, method, args, context⟩ handle) :
    ∃ argument ∈ args, ∃ value, Within argument value ∧ Carries value handle := by
  cases h with
  | target hTarget => cases hTarget
  | argument hArgument hWithin hCarries => exact ⟨_, hArgument, _, hWithin, hCarries⟩

theorem authorize_spec (source : String) (invocation : RendererBridgeInvocation) (self : RendererBridgeAuthority) :
    wp (authorize source invocation) self
      (fun authorized next => next = self.accept invocation.requestId ∧
        authorized.pageRequestId = invocation.requestId ∧ invocation.requestId ∉ self.acceptedRequests ∧
        self.acceptedRequests.card < self.limits.maxPendingRequests.toNat ∧ Confined self authorized)
      (fun _ next => next = self) := by
  simp only [authorize, wp_bind, wp_get, wp_ite, wp_throw, wp_lift, wp_modify, wp_pure, mapError_ok, implies_true,
    true_and, and_true]
  intro _ _ hNonce hFresh hRoom envelope hEnvelope target hTarget call hCall
  obtain rfl := RendererEnvelope.new_ok hEnvelope
  obtain rfl := ofService_ok hTarget
  obtain ⟨rfl, hValid⟩ := runtimeCall_new_ok hCall
  refine ⟨hFresh, Nat.not_le.mp hRoom, rfl, rfl, rfl, ?_⟩
  intro handle hReaches
  obtain ⟨argument, hArgument, value, hWithin, hCarries⟩ := reaches_service hReaches
  exact hCarries.app_eq ((RuntimeCall.validate_ok hValid).2.2.2.passes _ hArgument) hWithin

theorem validateText_ok {field value : String} {maximum : Nat} :
    validateText field value maximum = .ok () ↔ value ≠ "" ∧ value.utf8ByteSize ≤ maximum := by
  rw [validateText, ite_error_ok, validateBoundedText, ite_error_ok, String.isEmpty_iff]
  simp

theorem validateContractText_ok {field value : String} {maximum : Nat} :
    validateContractText field value maximum = .ok () ↔ value ≠ "" ∧ value.utf8ByteSize ≤ maximum := by
  rw [validateContractText, ite_error_ok, ite_error_ok, String.isEmpty_iff]
  simp

/-- An array costs one value and one level more than what it holds. -/
theorem graphFits_array {expectedApp : Option AppInstanceId} :
    GraphFits limits expectedApp [.array args] ↔
      GraphFits limits expectedApp args ∧ graphNodes args < limits.maxGraphNodes.toNat ∧
        graphDepth args < limits.maxObjectDepth.toNat := by
  have hNodes : graphNodes [.array args] = 1 + graphNodes args := by
    simp [graphNodes, WireValue.nodeCount_eq (.array args), WireValue.children]
  have hDepth : graphDepth [.array args] = 1 + graphDepth args := by
    simp [graphDepth, WireValue.depth_eq (.array args), WireValue.children, WireValue.greatest]
  have hHandles : graphHandles [.array args] = graphHandles args := by
    simp [graphHandles, WireValue.handleCount_eq (.array args), WireValue.children, WireValue.owners]
  have hPasses : (∀ root ∈ [WireValue.array args], root.Passes limits expectedApp) ↔
      ∀ root ∈ args, root.Passes limits expectedApp := by
    rw [List.forall_mem_singleton, WireValue.passes_iff]
    exact and_iff_right ⟨trivial, by rintro _ ⟨⟩⟩
  constructor
  · rintro ⟨hN, hD, hH, hP⟩
    rw [hNodes] at hN
    rw [hDepth] at hD
    rw [hHandles] at hH
    exact ⟨⟨by omega, by omega, hH, hPasses.mp hP⟩, by omega, by omega⟩
  · rintro ⟨⟨-, -, hH, hP⟩, hN, hD⟩
    exact ⟨by omega, by omega, hHandles ▸ hH, hPasses.mpr hP⟩

theorem identitySerialized_ne (origin : PrivateOrigin) : origin.identitySerialized ≠ "" := by
  obtain ⟨app, hHost, hBase⟩ := origin.derived
  have hScheme : 'h' ∈ origin.baseUrl.toList := by
    simp [hBase]
  intro hEmpty
  rw [PrivateOrigin.identitySerialized, String.ofList_eq_empty_iff, List.reverse_eq_nil_iff] at hEmpty
  have hSlash := List.dropWhile_eq_nil_iff.mp hEmpty 'h' (List.mem_reverse.mpr hScheme)
  exact absurd hSlash (by decide)

structure TextsFit (authority : RendererBridgeAuthority) (method : String) : Prop where
  origin : authority.origin.identitySerialized.utf8ByteSize ≤ authority.limits.maxStringBytes.toNat
  service : authority.service.utf8ByteSize ≤ authority.limits.maxStringBytes.toNat
  method : method.utf8ByteSize ≤ authority.limits.maxStringBytes.toNat

section

variable (self : RendererBridgeAuthority) (invocation : RendererBridgeInvocation)

theorem validateWireValueGraphForApp_ok (roots : List WireValue) :
    (∃ budget, validateWireValueGraphForApp roots self.limits app = .ok budget) ↔
      GraphFits self.limits (some app) roots := by
  simp [validateWireValueGraphForApp, validateWireValueGraphWithApp_ok, self.limits_valid]

theorem envelope_new_iff (payload : WireValue) :
    (∃ envelope, RendererEnvelope.new self.app self.renderer self.frame self.world self.navigationGeneration
        self.nonce payload self.limits = .ok envelope) ↔
      self.origin.identitySerialized.utf8ByteSize ≤ self.limits.maxStringBytes.toNat ∧
        GraphFits self.limits (some self.app) [payload] := by
  have hAuthority : validateRendererAuthority self.renderer self.frame self.world self.navigationGeneration
        self.limits = .ok () ↔
      self.origin.identitySerialized.utf8ByteSize ≤ self.limits.maxStringBytes.toNat := by
    rw [validateRendererAuthority, guard_ok, guard_ok, guard_ok, guard_ok, guard_ok, validateContractText_ok]
    simp [frame, world, self.generation_ne, identitySerialized_ne]
  rw [← validateWireValueGraphForApp_ok, ← hAuthority]
  simp only [RendererEnvelope.new, check_ok]
  simp [map_ok, mapError_ok]

theorem call_new_iff :
    (∃ call, RuntimeCall.new (.service self.service) invocation.method invocation.args self.context
        self.limits = .ok call) ↔
      self.service.utf8ByteSize ≤ self.limits.maxStringBytes.toNat ∧
        invocation.method.utf8ByteSize ≤ self.limits.maxStringBytes.toNat ∧
        self.origin.identitySerialized.utf8ByteSize ≤ self.limits.maxStringBytes.toNat ∧
        GraphFits self.limits (some self.app) invocation.args := by
  have hService := validateText_ok.mp self.service_valid
  have hMethod := validateContractText_ok.mp invocation.method_valid
  rw [← validateWireValueGraphForApp_ok]
  simp only [RuntimeCall.new, RuntimeCall.validate, CallTarget.validate, validateCallContext, validateDeadline,
    validateFrame, validateWorld, context, frame, world, check_ok, checkLimits_ok]
  simp [validateText_ok, hService, hMethod.1, self.limits_valid, identitySerialized_ne, map_ok, pure_ok]

/-- Arguments within the limits are authorized when the array around them is within the limits too. -/
theorem fitting_arguments_authorized_iff (authority : RendererBridgeAuthority) (source path : String)
    (invocation : RendererBridgeInvocation)
    (hSource : authority.origin.requestPath source .g1Fixture = .ok path)
    (hNonce : invocation.nonce = authority.nonce) (hFresh : invocation.requestId ∉ authority.acceptedRequests)
    (hRoom : authority.acceptedRequests.card < authority.limits.maxPendingRequests.toNat)
    (hArgs : GraphFits authority.limits (some authority.app) invocation.args) :
    (∃ authorized, (exec (authorize source invocation) authority).1 = .ok authorized) ↔
      graphNodes invocation.args < authority.limits.maxGraphNodes.toNat ∧
        graphDepth invocation.args < authority.limits.maxObjectDepth.toNat ∧
        TextsFit authority invocation.method := by
  have hTarget : CallTarget.ofService authority.service = .ok (.service authority.service) := by
    rw [CallTarget.ofService, check_ok]
    exact ⟨authority.service_valid, rfl⟩
  have hEnvelope := envelope_new_iff authority (.array invocation.args)
  have hCall := call_new_iff authority invocation
  rw [exec_ok_iff]
  simp only [authorize, wp_bind, wp_get, wp_ite, wp_throw, wp_lift_total, wp_modify, wp_pure, mapError_ok,
    hSource, hTarget, Except.ok.injEq, exists_eq_left', ne_eq, hNonce, not_true_eq_false, hFresh, Nat.not_le.mpr hRoom,
    ge_iff_le, not_false_eq_true, false_implies, true_implies, true_and, and_true]
  rw [exists_and_right, hEnvelope, hCall, graphFits_array]
  constructor
  · rintro ⟨⟨hOrigin, -, hNodes, hDepth⟩, hService, hMethod, -, -⟩
    exact ⟨hNodes, hDepth, hOrigin, hService, hMethod⟩
  · rintro ⟨hNodes, hDepth, hOrigin, hService, hMethod⟩
    exact ⟨⟨hOrigin, hArgs, hNodes, hDepth⟩, hService, hMethod, hOrigin, hArgs⟩

end

structure Accepts (authority : RendererBridgeAuthority) (calls : List AuthorizedRendererCall)
    (reached : RendererBridgeAuthority) : Prop where
  remembers : reached = { authority with acceptedRequests := (calls.map AuthorizedRendererCall.pageRequestId).toFinset }
  distinct : (calls.map AuthorizedRendererCall.pageRequestId).Nodup
  bounded : calls.length ≤ authority.limits.maxPendingRequests.toNat
  confined : ∀ authorized ∈ calls, Confined authority authorized

theorem Accepts.concat {authority reached : RendererBridgeAuthority}
    {authorized : AuthorizedRendererCall} (h : Accepts authority calls reached)
    (hFresh : authorized.pageRequestId ∉ reached.acceptedRequests)
    (hRoom : reached.acceptedRequests.card < reached.limits.maxPendingRequests.toNat)
    (hConfined : Confined reached authorized) :
    Accepts authority (calls ++ [authorized]) (reached.accept authorized.pageRequestId) := by
  obtain ⟨rfl, hDistinct, hBounded, hEach⟩ := h
  dsimp only at hFresh hRoom
  rw [List.toFinset_card_of_nodup hDistinct, List.length_map] at hRoom
  rw [List.mem_toFinset] at hFresh
  constructor
  · simp [accept]
  · rw [List.map_append, List.map_singleton]
    exact hDistinct.append (List.nodup_singleton _) (by simpa using hFresh)
  · rw [List.length_append]
    exact hRoom
  · intro other hOther
    rcases List.mem_append.mp hOther with hOther | hOther
    · exact hEach other hOther
    · rw [List.mem_singleton.mp hOther]
      -- the context of a call does not depend on the requests accepted so far
      exact ⟨hConfined.context, hConfined.target, hConfined.envelope, hConfined.owned⟩

theorem rejected_unchanged {authority : RendererBridgeAuthority} {source : String}
    {invocation : RendererBridgeInvocation} {error : RendererBridgeError}
    (h : (exec (authorize source invocation) authority).1 = .error error) :
    (exec (authorize source invocation) authority).2 = authority := by
  have hState := of_exec_error (authorize_spec source invocation authority) (exec_eq_of_fst h)
  exact hState

theorem accepts_step {authority reached : RendererBridgeAuthority}
    (h : Accepts authority calls reached) (message : String × RendererBridgeInvocation) :
    Accepts authority (calls ++ bridge.emit reached message) (bridge.next reached message) := by
  simp only [bridge]
  cases hOutcome : (exec (authorize message.1 message.2) reached).1 with
  | error error =>
    rw [rejected_unchanged hOutcome]
    exact (List.append_nil calls).symm ▸ h
  | ok authorized =>
    have hSpec := of_exec_ok (authorize_spec message.1 message.2 reached) (exec_eq_of_fst hOutcome)
    obtain ⟨hNext, hId, hFresh, hRoom, hConfined⟩ := hSpec
    rw [hNext, ← hId]
    rw [← hId] at hFresh
    exact h.concat hFresh hRoom hConfined

theorem new_ok {origin : PrivateOrigin}
    {nonce : RendererBridgeNonce} {service : String} {authority : RendererBridgeAuthority}
    (h : RendererBridgeAuthority.new app renderer origin generation nonce service limits = .ok authority) :
    authority.app = app ∧ authority.renderer = renderer ∧ authority.origin = origin ∧
      authority.navigationGeneration = generation ∧ authority.nonce = nonce ∧ authority.service = service ∧
      authority.limits = limits ∧ authority.acceptedRequests = ∅ := by
  rw [RendererBridgeAuthority.new] at h
  split at h
  · cases h
  · split at h
    · cases h
    · split at h
      · cases h
      · cases h
        exact ⟨rfl, rfl, rfl, rfl, rfl, rfl, rfl, rfl⟩

theorem accepts_run {authority : RendererBridgeAuthority} (h : authority.acceptedRequests = ∅)
    (messages : List (String × RendererBridgeInvocation)) :
    Accepts authority (bridge.log authority messages) (bridge.reach authority messages) := by
  have hFirst : Accepts authority [] authority := by
    refine ⟨?_, List.nodup_nil, Nat.zero_le _, fun _ hCall => nomatch hCall⟩
    rw [List.map_nil, List.toFinset_nil, ← h]
  exact bridge.history_invariant (P := Accepts authority) (A := fun _ => True) hFirst
    (fun _ _ message _ hAccepts => accepts_step hAccepts message) messages fun _ _ => trivial

theorem messages_gain_no_authority (app : AppInstanceId) (renderer : RendererId) (origin : PrivateOrigin)
    (generation : UInt32) (nonce : RendererBridgeNonce) (service : String) (limits : ProtocolLimits)
    (authority : RendererBridgeAuthority)
    (h : RendererBridgeAuthority.new app renderer origin generation nonce service limits = .ok authority)
    (messages : List (String × RendererBridgeInvocation)) :
    let frame : FrameIdentity := ⟨renderer, 1, generation, none, ⟨origin.identitySerialized, false⟩, true⟩
    let context : CallContext :=
      ⟨app, some renderer, some frame, some ⟨frame, 1, generation, .main⟩, ⟨none, none⟩, some 5000, none⟩
    let calls := bridge.log authority messages
    let reached := bridge.reach authority messages
    (calls.map AuthorizedRendererCall.pageRequestId).Nodup ∧ calls.length ≤ limits.maxPendingRequests.toNat ∧
      reached.acceptedRequests = (calls.map AuthorizedRendererCall.pageRequestId).toFinset ∧
      (∀ source invocation error, (exec (authorize source invocation) reached).1 = .error error →
        (exec (authorize source invocation) reached).2 = reached) ∧
      (∀ authorized ∈ calls, authorized.call.context = context ∧ authorized.call.target = .service service ∧
        authorized.envelope = ⟨app, renderer, frame, ⟨frame, 1, generation, .main⟩, generation, nonce,
          .array authorized.call.args⟩ ∧
        ∀ handle, authorized.call.Reaches handle → handle.app = app) ∧
      ∀ otherMessages, ∀ authorized ∈ calls, ∀ other ∈ bridge.log authority otherMessages,
        authorized.call.context = other.call.context ∧ authorized.call.target = other.call.target := by
  obtain ⟨rfl, rfl, rfl, rfl, rfl, rfl, rfl, hEmpty⟩ := new_ok h
  have hRun := accepts_run hEmpty
  have hAccepts := hRun messages
  refine ⟨hAccepts.distinct, hAccepts.bounded, ?_, fun _ _ _ => rejected_unchanged, ?_, ?_⟩
  · exact congrArg RendererBridgeAuthority.acceptedRequests hAccepts.remembers
  · intro authorized hCall
    have hConfined := hAccepts.confined authorized hCall
    exact ⟨hConfined.context, hConfined.target, hConfined.envelope, hConfined.owned⟩
  · intro otherMessages authorized hCall other hOther
    have hConfined := hAccepts.confined authorized hCall
    have hOtherConfined := (hRun otherMessages).confined other hOther
    exact ⟨hConfined.context.trans hOtherConfined.context.symm, hConfined.target.trans hOtherConfined.target.symm⟩

namespace Sample

def nonce : RendererBridgeNonce := ⟨Vector.replicate 16 1, by decide⟩

theorem one_ne : (1 : UInt32) ≠ 0 := by decide

def authority : RendererBridgeAuthority :=
  ⟨2, 4, .forApp 2, 1, nonce, "shell", .secureDefault, ∅, one_ne, by decide, by decide⟩

def invocation (requestId : UInt64) (h : requestId ≠ 0) : RendererBridgeInvocation where
  nonce := nonce
  requestId := requestId
  method := "open"
  args := [.array [.typedArray .uint8 0 16 (.stream ⟨2, 9, 1⟩)]]
  requestId_ne := h
  method_valid := by decide

def messages : List (String × RendererBridgeInvocation) :=
  [(authority.origin.baseUrl, invocation 5 (by decide)), (authority.origin.baseUrl, invocation 5 (by decide)),
    ("https://localhost/", invocation 6 (by decide)), (authority.origin.baseUrl, invocation 7 (by decide))]

def deepest : RendererBridgeInvocation where
  nonce := nonce
  requestId := 5
  method := "open"
  args := [Nat.repeat (fun value => .array [value]) 63 .null]
  requestId_ne := by decide
  method_valid := by decide

theorem stream_argument_authorized :
    ∃ authorized, (exec (authorize authority.origin.baseUrl (invocation 5 (by decide)))
      authority).1 = .ok authorized := by
  have hArgs : GraphFits .secureDefault (some 2) (invocation 5 (by decide)).args :=
    (validateWireValueGraphForApp_ok authority _).mp ⟨⟨2, 2, 1⟩, by decide +kernel⟩
  refine (fitting_arguments_authorized_iff authority _ "index.html" _ (by decide +kernel) rfl (by decide)
    (by decide) hArgs).mpr ⟨?_, ?_, ?_, ?_, ?_⟩
  all_goals decide +kernel

/-- The call would carry the arguments, the envelope around it would be one level too deep. -/
theorem deepest_arguments_refused :
    validateWireValueGraphForApp deepest.args .secureDefault 2 = .ok ⟨64, 64, 0⟩ ∧
      (exec (authorize authority.origin.baseUrl deepest) authority).1 =
        .error (.renderer (.wire (.graphDepthExceeded 64 65))) :=
  ⟨by decide +kernel, rfl⟩

theorem sample_messages_confined :
    (bridge.log authority messages).map AuthorizedRendererCall.pageRequestId = [5, 7] ∧
      ∀ authorized ∈ bridge.log authority messages, authorized.call.context.app = 2 ∧
        ∀ handle, authorized.call.Reaches handle → handle.app = 2 := by
  have hNew : RendererBridgeAuthority.new 2 4 (.forApp 2) 1 nonce "shell" .secureDefault =
      .ok authority := rfl
  obtain ⟨-, -, -, -, hCalls, -⟩ := messages_gain_no_authority 2 4 (.forApp 2) 1 nonce "shell" .secureDefault
    authority hNew messages
  refine ⟨by decide +kernel, ?_⟩
  intro authorized hCall
  obtain ⟨hContext, -, -, hOwned⟩ := hCalls authorized hCall
  rw [hContext]
  exact ⟨rfl, hOwned⟩

end Sample

end Weregopher.Renderer
