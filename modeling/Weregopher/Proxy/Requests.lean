import Weregopher.Lib.Lifecycle
import Weregopher.Proxy.Traffic

/-! # The life of a request identity

Per direction, the log of a run is that of an abstract lifecycle: an identity is
admitted, started by its release and finished by completion or expiry. The maps and
digest sets represent the phase of every identity, as long as hashing tells these
identities apart.
-/
namespace Weregopher.Proxy
open Lib Lib.Lifecycle TransparentAppServerProxy ProxyEvent
namespace ProxyEvent

variable (d : AppServerProxyDirection)

def acceptedRequest : ProxyEvent → Option AppServerRequestId
  | accepted frame _ => if frame.observation.direction = d then frame.requestIdentity else none
  | _ => none

def releasedRequest : ProxyEvent → Option AppServerRequestId
  | released direction frame => if direction = d then frame.requestIdentity else none
  | _ => none

/-- A response completes a request that travelled the other way. -/
def completedRequest : ProxyEvent → Option AppServerRequestId
  | accepted frame .complete =>
    if frame.observation.direction.opposite = d then frame.observation.requestId else none
  | _ => none

def expiredRequest : ProxyEvent → Option AppServerRequestId
  | expired request => if request.origin = d then some request.requestId else none
  | _ => none

variable (event : ProxyEvent)

def retiredRequest : Option AppServerRequestId := event.completedRequest d <|> event.expiredRequest d

def lifecycle : Option (Lifecycle.Event AppServerRequestId) :=
  (event.acceptedRequest d).map .accept <|> (event.releasedRequest d).map .start <|>
    (event.retiredRequest d).map .finish

theorem lifecycle_admitted : (event.lifecycle d).bind Lifecycle.Event.admitted = event.acceptedRequest d := by
  unfold lifecycle
  cases event.acceptedRequest d <;> cases event.releasedRequest d <;> cases event.retiredRequest d <;> rfl

attribute [local simp] lifecycle acceptedRequest releasedRequest completedRequest expiredRequest retiredRequest

theorem lifecycle_starting : (event.lifecycle d).bind Lifecycle.Event.starting = event.releasedRequest d := by
  cases event with
  | released direction frame =>
    by_cases h : direction = d <;> cases hId : frame.requestIdentity <;> simp [h, hId, Lifecycle.Event.starting]
  | accepted frame action =>
    unfold lifecycle
    cases hAccepted : (accepted frame action).acceptedRequest d <;>
      cases hRetired : (accepted frame action).retiredRequest d <;> rfl
  | expired request =>
    unfold lifecycle
    cases hRetired : (expired request).retiredRequest d <;> rfl
  | closed | rejected => rfl

theorem lifecycle_finishing : (event.lifecycle d).bind Lifecycle.Event.finishing = event.retiredRequest d := by
  cases event with
  | accepted frame action =>
    by_cases h : frame.observation.direction = d
    · have hNone : (accepted frame action).retiredRequest d = none := by
        cases action <;> simp [← h]
      unfold lifecycle
      rw [hNone]
      cases hAccepted : (accepted frame action).acceptedRequest d <;> rfl
    · unfold lifecycle
      rw [acceptedRequest, if_neg h]
      cases hRetired : (accepted frame action).retiredRequest d <;> rfl
  | released direction frame =>
    unfold lifecycle
    cases hReleased : (released direction frame).releasedRequest d <;> rfl
  | expired request =>
    unfold lifecycle
    cases hRetired : (expired request).retiredRequest d <;> rfl
  | closed | rejected => rfl

variable {d} {frame : AppServerProxyFrame} {requestId : AppServerRequestId}

theorem lifecycle_request (hIdentity : frame.requestIdentity = some requestId) :
    (accepted frame .none).lifecycle d =
      if frame.observation.direction = d then some (.accept requestId) else none := by
  by_cases h : frame.observation.direction = d <;> simp [h, hIdentity]

theorem lifecycle_completion (hIdentity : frame.requestIdentity = none)
    (hId : frame.observation.requestId = some requestId) : (accepted frame .complete).lifecycle d =
      if frame.observation.direction.opposite = d then some (.finish requestId) else none := by
  by_cases h : frame.observation.direction.opposite = d <;> simp [h, hIdentity, hId]

theorem lifecycle_other {action : ResponseAction} (hIdentity : frame.requestIdentity = none)
    (hAction : action ≠ .complete) : (accepted frame action).lifecycle d = none := by
  cases action <;> simp_all

theorem lifecycle_release (direction : AppServerProxyDirection) (hIdentity : frame.requestIdentity = some requestId) :
    (released direction frame).lifecycle d = if direction = d then some (.start requestId) else none := by
  by_cases h : direction = d <;> simp [h, hIdentity]

theorem lifecycle_expiry (request : AppServerExpiredRequest) : (expired request).lifecycle d =
    if request.origin = d then some (.finish request.requestId) else none := by
  by_cases h : request.origin = d <;> simp [h]

end ProxyEvent

def lifecycleLog (d : AppServerProxyDirection) (log : List ProxyEvent) :
    List (Lifecycle.Event AppServerRequestId) := log.filterMap (lifecycle d)

def acceptedRequests (d : AppServerProxyDirection) (log : List ProxyEvent) : List AppServerRequestId :=
  log.filterMap (acceptedRequest d)

def releasedRequests (d : AppServerProxyDirection) (log : List ProxyEvent) : List AppServerRequestId :=
  log.filterMap (releasedRequest d)

def completedRequests (d : AppServerProxyDirection) (log : List ProxyEvent) : List AppServerRequestId :=
  log.filterMap (completedRequest d)

def timedOutRequests (d : AppServerProxyDirection) (log : List ProxyEvent) : List AppServerRequestId :=
  log.filterMap (expiredRequest d)

def retiredRequests (d : AppServerProxyDirection) (log : List ProxyEvent) : List AppServerRequestId :=
  log.filterMap (retiredRequest d)

section

variable (d : AppServerProxyDirection) (log : List ProxyEvent)

theorem filterMap_admitted_lifecycleLog :
    (lifecycleLog d log).filterMap Lifecycle.Event.admitted = acceptedRequests d log := by
  simp [lifecycleLog, acceptedRequests, List.filterMap_filterMap, lifecycle_admitted]

theorem filterMap_starting_lifecycleLog :
    (lifecycleLog d log).filterMap Lifecycle.Event.starting = releasedRequests d log := by
  simp [lifecycleLog, releasedRequests, List.filterMap_filterMap, lifecycle_starting]

theorem filterMap_finishing_lifecycleLog :
    (lifecycleLog d log).filterMap Lifecycle.Event.finishing = retiredRequests d log := by
  simp [lifecycleLog, retiredRequests, List.filterMap_filterMap, lifecycle_finishing]

theorem lifecycleLog_concat (event : ProxyEvent) :
    lifecycleLog d (log ++ [event]) = lifecycleLog d log ++ (event.lifecycle d).toList := by
  cases h : event.lifecycle d <;> simp [lifecycleLog, h]

theorem acceptedRequests_concat (event : ProxyEvent) :
    acceptedRequests d (log ++ [event]) = acceptedRequests d log ++ (event.acceptedRequest d).toList := by
  cases h : event.acceptedRequest d <;> simp [acceptedRequests, h]

theorem retiredRequests_perm :
    (retiredRequests d log).Perm (completedRequests d log ++ timedOutRequests d log) := by
  induction log with
  | nil => exact .refl _
  | cons event rest ih =>
    have hCases : event.completedRequest d = none ∨ event.expiredRequest d = none := by
      cases event <;> first | exact .inl rfl | exact .inr rfl
    simp only [retiredRequests, completedRequests, timedOutRequests, List.filterMap_cons] at ih ⊢
    rw [retiredRequest]
    rcases hCases with hNone | hNone
    · rw [hNone]
      cases event.expiredRequest d with
      | none => exact ih
      | some requestId => exact (ih.cons requestId).trans List.perm_middle.symm
    · rw [hNone]
      cases event.completedRequest d with
      | none => exact ih
      | some requestId => exact ih.cons requestId

end

variable {env : ProxyEnvironment} {known : Set AppServerRequestId} {p p' : TransparentAppServerProxy}
  {d origin : AppServerProxyDirection} {requestId : AppServerRequestId}

def ActiveRequestState.phase : ActiveRequestState → Phase
  | queued => .queued
  | pending _ => .started

/-- The phase the proxy's state records for one identity of one direction. -/
def requestPhase (env : ProxyEnvironment) (p : TransparentAppServerProxy) (d : AppServerProxyDirection)
    (requestId : AppServerRequestId) : Phase :=
  match (p.requests d)[requestId]? with
  | some state => state.phase
  | none => if requestIdDigest env.sha256 requestId ∈ p.requestHistory d then .finished else .unseen

section

theorem requestPhase_of_active {state : ActiveRequestState} (h : (p.requests d)[requestId]? = some state) :
    requestPhase env p d requestId = state.phase := by
  simp [requestPhase, h]

theorem requestPhase_of_retired (hInactive : requestId ∉ p.requests d)
    (hRetired : requestIdDigest env.sha256 requestId ∈ p.requestHistory d) :
    requestPhase env p d requestId = .finished := by
  simp [requestPhase, hInactive, hRetired]

theorem requestPhase_of_unseen (hInactive : requestId ∉ p.requests d)
    (hUnretired : requestIdDigest env.sha256 requestId ∉ p.requestHistory d) :
    requestPhase env p d requestId = .unseen := by
  simp [requestPhase, hInactive, hUnretired]

theorem requestPhase_congr (hRequests : p'.requests d = p.requests d)
    (hHistory : p'.requestHistory d = p.requestHistory d) :
    requestPhase env p' d = requestPhase env p d := by
  funext requestId
  rw [requestPhase, requestPhase, hRequests, hHistory]

theorem requestPhase_insert (requestId : AppServerRequestId) (state : ActiveRequestState) :
    requestPhase env (p.setRequests d ((p.requests d).insert requestId state)) d =
      Function.update (requestPhase env p d) requestId state.phase := by
  funext other
  rcases eq_or_ne other requestId with rfl | hNe
  · simp [requestPhase]
  · rw [Function.update_of_ne hNe]
    simp [requestPhase, ActiveRequests.getElem?_insert, hNe.symm]

theorem requestPhase_insert_of_ne (hDirection : d ≠ origin) (requests : ActiveRequests) :
    requestPhase env (p.setRequests origin requests) d = requestPhase env p d :=
  requestPhase_congr (by simp [hDirection]) (by simp)

theorem requestPhase_retired (hDigests : Set.InjOn (requestIdDigest env.sha256) known)
    (hKnown : requestId ∈ known) {other : AppServerRequestId} (hOther : other ∈ known) :
    requestPhase env (retired env p origin requestId) origin other =
      Function.update (requestPhase env p origin) requestId .finished other := by
  rcases eq_or_ne other requestId with rfl | hNe
  · simp [requestPhase]
  · have hDigest : requestIdDigest env.sha256 other ≠ requestIdDigest env.sha256 requestId :=
      fun hSame => hNe (hDigests hOther hKnown hSame)
    rw [Function.update_of_ne hNe]
    simp [requestPhase, ActiveRequests.getElem?_erase, hNe.symm, hDigest]

theorem requestPhase_retired_of_ne (hDirection : d ≠ origin) :
    requestPhase env (retired env p origin requestId) d = requestPhase env p d :=
  requestPhase_congr (by simp [hDirection]) (by simp [hDirection])

end

end Weregopher.Proxy
