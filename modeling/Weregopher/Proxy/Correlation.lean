import Weregopher.Proxy.Requests

/-! # Correlation along whole runs

The log and the state of a run are followed together: the lifecycle of each
direction is legal and its phases are those the state records. Closing forgets the
phases but adds no event that could break them.
-/
namespace Weregopher.Proxy
open Lib Lib.Lifecycle TransparentAppServerProxy ProxyEvent

def AppServerProxyMessageKind.isResponse : AppServerProxyMessageKind → Bool
  | successResponse | errorResponse => true
  | request | notification => false

/-- The classification of an accepted response agrees with the log before it, and no answer blames
the correlation state. -/
def Justified (front : List ProxyEvent) : ProxyEvent → Prop
  | .accepted frame action => frame.observation.kind.isResponse →
    (action = .late ↔ ∃ requestId, frame.observation.requestId = some requestId ∧
      requestId ∈ retiredRequests frame.observation.direction.opposite front) ∧
    (action = .unmatched ↔ frame.observation.requestId = none ∨ ∃ requestId,
      frame.observation.requestId = some requestId ∧
      requestId ∉ acceptedRequests frame.observation.direction.opposite front)
  | .rejected error => error ≠ .inconsistentCorrelationState
  | _ => True

def nextPhase (phase : AppServerRequestId → Phase) :
    Option (Lifecycle.Event AppServerRequestId) → AppServerRequestId → Phase
  | none => phase
  | some event => advance phase event

structure Tracked (env : ProxyEnvironment) (known : Set AppServerRequestId) (limits : AppServerProxyLimits)
    (log : List ProxyEvent) (p : TransparentAppServerProxy) : Prop where
  coherent : Coherent env known p
  limits_eq : p.limits = limits
  legal : ∀ d, Legal (lifecycleLog d log)
  phases : p.state = .open → ∀ d, ∀ requestId ∈ known,
    requestPhase env p d requestId = phaseAfter (lifecycleLog d log) requestId
  tracked_eq : p.state = .open →
    p.trackedCount = bothDirections fun d => (acceptedRequests d log).length
  accepted_known : ∀ d, ∀ requestId ∈ acceptedRequests d log, requestId ∈ known
  justified : EachAfter Justified log

variable {env : ProxyEnvironment} {known : Set AppServerRequestId} {limits : AppServerProxyLimits}
  {log : List ProxyEvent} {p p' : TransparentAppServerProxy} {requestId : AppServerRequestId}

theorem phaseAfter_lifecycleLog_concat (d : AppServerProxyDirection) (event : ProxyEvent) :
    phaseAfter (lifecycleLog d (log ++ [event])) =
      nextPhase (phaseAfter (lifecycleLog d log)) (event.lifecycle d) := by
  rw [lifecycleLog_concat]
  cases event.lifecycle d <;> simp [nextPhase]

theorem nextPhase_congr {phase phase' : AppServerRequestId → Phase}
    (h : ∀ requestId ∈ known, phase requestId = phase' requestId)
    (event : Option (Lifecycle.Event AppServerRequestId)) (hKnown : requestId ∈ known) :
    nextPhase phase event requestId = nextPhase phase' event requestId := by
  cases event with
  | none => exact h requestId hKnown
  | some event =>
    by_cases hItem : requestId = event.item
    · simp [nextPhase, advance, hItem]
    · simpa [nextPhase, advance, hItem] using h requestId hKnown

namespace Tracked

theorem new (limits : AppServerProxyLimits) : Tracked env known limits [] (.new limits) where
  coherent := .new limits
  limits_eq := rfl
  legal _ := EachAfter.nil
  phases _ d requestId _ := by
    cases d <;> simp [requestPhase, TransparentAppServerProxy.new, requests, requestHistory, lifecycleLog]
  tracked_eq _ := rfl
  accepted_known _ _ h := by cases h
  justified := EachAfter.nil

theorem requestPhase_setQueue (q : TransparentAppServerProxy) (origin d : AppServerProxyDirection)
    (queue : ProxyQueue) (counters : ProxyCounters) :
    requestPhase env { q.setQueue origin queue with counters := counters } d = requestPhase env q d :=
  requestPhase_congr (requests_setQueue q origin d queue) (requestHistory_setQueue q origin d queue)

variable (h : Tracked env known limits log p)

include h

theorem concat {event : ProxyEvent} (hCoherent : Coherent env known p') (hLimits : p'.limits = p.limits)
    (hEnabled : ∀ d step, event.lifecycle d = some step →
      p.state = .open ∧ step.item ∈ known ∧ requestPhase env p d step.item = step.source)
    (hPhases : p'.state = .open → p.state = .open ∧ ∀ d, ∀ requestId ∈ known,
      requestPhase env p' d requestId = nextPhase (requestPhase env p d) (event.lifecycle d) requestId)
    (hCount : p'.state = .open → p'.trackedCount =
      p.trackedCount + bothDirections fun d => (event.acceptedRequest d).toList.length)
    (hJustified : Justified log event) : Tracked env known limits (log ++ [event]) p' where
  coherent := hCoherent
  limits_eq := hLimits.trans h.limits_eq
  legal d := by
    rw [lifecycleLog_concat]
    cases hStep : event.lifecycle d with
    | none => simpa using h.legal d
    | some step =>
      obtain ⟨hOpen, hItem, hSource⟩ := hEnabled d step hStep
      refine legal_concat.mpr ⟨h.legal d, ?_⟩
      rw [← h.phases hOpen d _ hItem, hSource]
  phases hOpen' d requestId hKnown := by
    obtain ⟨hOpen, hNext⟩ := hPhases hOpen'
    rw [hNext d requestId hKnown, phaseAfter_lifecycleLog_concat]
    exact nextPhase_congr (h.phases hOpen d) _ hKnown
  tracked_eq hOpen' := by
    rw [hCount hOpen', h.tracked_eq (hPhases hOpen').1]
    simp only [bothDirections, acceptedRequests_concat, List.length_append]
    omega
  accepted_known d requestId hAccepted := by
    rw [acceptedRequests_concat, ← event.lifecycle_admitted d] at hAccepted
    rcases List.mem_append.mp hAccepted with hOld | hNew
    · exact h.accepted_known d requestId hOld
    · obtain ⟨step, hStep, hItem⟩ := Option.bind_eq_some_iff.mp (Option.mem_toList.mp hNew)
      obtain ⟨-, hKnown, -⟩ := hEnabled d step hStep
      cases step <;> cases hItem
      exact hKnown
  justified := EachAfter.concat_iff.mpr ⟨h.justified, hJustified⟩

theorem mem_retired_iff (hOpen : p.state = .open)
    (d : AppServerProxyDirection) (hKnown : requestId ∈ known) :
    requestId ∈ retiredRequests d log ↔ requestPhase env p d requestId = .finished := by
  rw [h.phases hOpen d requestId hKnown, (h.legal d).finished_iff, filterMap_finishing_lifecycleLog]

theorem not_mem_accepted_iff (hOpen : p.state = .open)
    (d : AppServerProxyDirection) (hKnown : requestId ∈ known) :
    requestId ∉ acceptedRequests d log ↔ requestPhase env p d requestId = .unseen := by
  rw [h.phases hOpen d requestId hKnown, (h.legal d).unseen_iff, filterMap_admitted_lifecycleLog]

theorem justified_of_phase (hOpen : p.state = .open)
    {frame : AppServerProxyFrame} {action : ResponseAction} (hId : frame.observation.requestId = some requestId)
    (hKnown : requestId ∈ known)
    (hLate : action = .late ↔ requestPhase env p frame.observation.direction.opposite requestId = .finished)
    (hUnmatched : action = .unmatched ↔
      requestPhase env p frame.observation.direction.opposite requestId = .unseen) :
    Justified log (.accepted frame action) := by
  intro _
  rw [hLate, hUnmatched, ← h.mem_retired_iff hOpen _ hKnown, ← h.not_mem_accepted_iff hOpen _ hKnown]
  simp [hId]

variable (event : ProxyEvent)

theorem quiet (hCoherent : Coherent env known p') (hLimits : p'.limits = p.limits) (hState : p'.state = p.state)
    (hLifecycle : ∀ d, event.lifecycle d = none)
    (hPhase : ∀ d, requestPhase env p' d = requestPhase env p d) (hCount : p'.trackedCount = p.trackedCount)
    (hJustified : Justified log event) : Tracked env known limits (log ++ [event]) p' := by
  have hAccepted (d : AppServerProxyDirection) : event.acceptedRequest d = none := by
    rw [← event.lifecycle_admitted d, hLifecycle]
    rfl
  refine h.concat hCoherent hLimits (fun d step hStep => ?_) (fun hOpen => ⟨hState ▸ hOpen, fun d other _ => ?_⟩)
    (fun _ => ?_) hJustified
  · rw [hLifecycle] at hStep
    cases hStep
  · rw [hLifecycle, hPhase]
    rfl
  · simp [hCount, hAccepted, bothDirections]

variable {origin : AppServerProxyDirection}

theorem move {step : Lifecycle.Event AppServerRequestId} (hOpen : p.state = .open)
    (hCoherent : Coherent env known p') (hLimits : p'.limits = p.limits)
    (hLifecycle : ∀ d, event.lifecycle d = if origin = d then some step else none) (hKnown : step.item ∈ known)
    (hSource : requestPhase env p origin step.item = step.source)
    (hTarget : ∀ other ∈ known, requestPhase env p' origin other = advance (requestPhase env p origin) step other)
    (hFrame : ∀ d, origin ≠ d → requestPhase env p' d = requestPhase env p d)
    (hCount : p'.trackedCount = p.trackedCount + step.admitted.toList.length) (hJustified : Justified log event) :
    Tracked env known limits (log ++ [event]) p' := by
  refine h.concat hCoherent hLimits (fun d other hStep => ?_) (fun _ => ⟨hOpen, fun d other hOther => ?_⟩)
    (fun _ => ?_) hJustified
  · rw [hLifecycle] at hStep
    split at hStep
    · cases hStep
      subst d
      exact ⟨hOpen, hKnown, hSource⟩
    · cases hStep
  · rw [hLifecycle]
    split
    · subst d
      exact hTarget other hOther
    · rename_i hDirection
      rw [hFrame d hDirection]
      rfl
  · have hAccepted (d : AppServerProxyDirection) :
        event.acceptedRequest d = if origin = d then step.admitted else none := by
      rw [← event.lifecycle_admitted d, hLifecycle]
      split <;> rfl
    rw [hCount]
    cases origin <;> simp [bothDirections, hAccepted]

theorem retire (hDigests : Set.InjOn (requestIdDigest env.sha256) known) {deadline : Nat}
    (hCoherent : Coherent env known p') (hLimits : p'.limits = p.limits)
    (hLifecycle : ∀ d, event.lifecycle d = if origin = d then some (.finish requestId) else none)
    (hPending : (p.requests origin)[requestId]? = some (.pending deadline))
    (hPhase : ∀ d, requestPhase env p' d = requestPhase env (retired env p origin requestId) d)
    (hCount : p'.trackedCount = (retired env p origin requestId).trackedCount) (hJustified : Justified log event) :
    Tracked env known limits (log ++ [event]) p' := by
  have hActive := ActiveRequests.mem_of_getElem? hPending
  have hKnown := h.coherent.active_known _ _ hActive
  refine h.move _ (h.coherent.isOpen_of_active hActive) hCoherent hLimits hLifecycle hKnown
    (requestPhase_of_active hPending) (fun other hOther => ?_) (fun d hDirection => ?_) ?_ hJustified
  · rw [hPhase]
    exact requestPhase_retired hDigests hKnown hOther
  · rw [hPhase, requestPhase_retired_of_ne hDirection.symm]
  · exact hCount.trans (trackedCount_retired hActive (h.coherent.unretired _ _ hActive))

theorem append_nil : Tracked env known limits (log ++ []) p := by
  rwa [List.append_nil]

theorem retireAll (hDigests : Set.InjOn (requestIdDigest env.sha256) known)
    {requests : List AppServerExpiredRequest} (hOverdue : Overdue p requests) :
    Tracked env known limits (log ++ requests.map .expired) (retiredAll env p requests) := by
  induction requests generalizing log p with
  | nil => exact h.append_nil
  | cons request rest ih =>
    obtain ⟨deadline, hPending⟩ := hOverdue.pending request List.mem_cons_self
    have hNext := h.retire (.expired request) hDigests (h.coherent.retire hDigests hPending) (by simp)
      (fun _ => lifecycle_expiry request) hPending (fun _ => rfl) rfl trivial
    have hRest := ih hNext hOverdue.retire_head
    rwa [List.append_assoc] at hRest

theorem bookkeeping (time : Option Nat) (counters : ProxyCounters) :
    Tracked env known limits log { p with lastObservedTime := time, counters := counters } :=
  ⟨h.coherent.bookkeeping time counters, h.limits_eq, h.legal, h.phases, h.tracked_eq,
    h.accepted_known, h.justified⟩

section

variable {frame : AppServerProxyFrame} {action : ResponseAction}

theorem acceptOther (hOpen : p.state = .open)
    (hCapacity : (p.queue frame.observation.direction).ensureCapacity frame.jsonBytes.length = .ok ())
    (hKind : frame.observation.kind ≠ .request) (hAction : action ≠ .complete)
    (hJustified : Justified log (.accepted frame action)) (counters : ProxyCounters) :
    Tracked env known limits (log ++ [.accepted frame action])
      { p.setQueue frame.observation.direction
        ((p.queue frame.observation.direction).pushAfterCapacityCheck frame) with counters := counters } := by
  have hIdentity : frame.requestIdentity = none := by simp [AppServerProxyFrame.requestIdentity, hKind]
  exact h.quiet _ ((h.coherent.push _ hOpen hCapacity hKind).bookkeeping _ _) (limits_setQueue ..)
    (state_setQueue ..) (fun _ => lifecycle_other hIdentity hAction)
    (fun _ => requestPhase_setQueue ..) (trackedCount_setQueue ..) hJustified

theorem accept (hDigests : Set.InjOn (requestIdDigest env.sha256) known)
    (hAdmitted : Admitted env p frame action p')
    (hKnown : ∀ requestId, frame.observation.requestId = some requestId → requestId ∈ known) :
    Tracked env known limits (log ++ [.accepted frame action]) p' := by
  obtain ⟨q, hCorrelated, rfl⟩ := hAdmitted.effect
  have hOpen := hAdmitted.isOpen
  have hCapacity := hAdmitted.capacity
  cases hCorrelated with
  | request requestId hKind hId hInactive hUnretired hActive hTracked =>
    have hIdentity : frame.requestIdentity = some requestId := by
      simp [AppServerProxyFrame.requestIdentity, hKind, hId]
    have hCoherent := h.coherent.pushRequest hOpen hCapacity hKind hId (hKnown _ hId) hInactive hUnretired
      hActive hTracked
    rw [queue_setRequests]
    refine h.move _ hOpen (hCoherent.bookkeeping _ _) ?_ (fun _ => lifecycle_request hIdentity)
      (hKnown _ hId) (requestPhase_of_unseen hInactive hUnretired) (fun other _ => ?_)
      (fun d hDirection => ?_) ?_ ?_
    · exact (limits_setQueue ..).trans (limits_setRequests ..)
    · rw [requestPhase_setQueue, requestPhase_insert]
      rfl
    · rw [requestPhase_setQueue, requestPhase_insert_of_ne hDirection.symm]
    · have hCount := p.trackedCount_setRequests frame.observation.direction
        ((p.requests frame.observation.direction).insert requestId .queued)
      rw [ActiveRequests.size_insert_new _ _ hInactive] at hCount
      apply (trackedCount_setQueue ..).trans
      simp only [Lifecycle.Event.admitted, Option.toList_some, List.length_singleton]
      omega
    · simp [Justified, AppServerProxyMessageKind.isResponse, hKind]
  | notification hKind =>
    exact h.acceptOther hOpen hCapacity (by simp [hKind]) (by simp)
      (by simp [Justified, AppServerProxyMessageKind.isResponse, hKind]) _
  | unidentified hKind hId =>
    exact h.acceptOther hOpen hCapacity hKind (by simp) (by simp [Justified, hId]) _
  | complete requestId deadline hKind hId hPending hUnretired =>
    have hIdentity : frame.requestIdentity = none := by simp [AppServerProxyFrame.requestIdentity, hKind]
    have hStarted : requestPhase env p frame.observation.direction.opposite requestId = .started :=
      requestPhase_of_active hPending
    have hCoherent := (h.coherent.retire hDigests hPending).push frame (d := frame.observation.direction)
      (by simpa using hOpen) (by simpa using hCapacity) hKind
    refine h.retire _ hDigests (hCoherent.bookkeeping _ _) ?_
      (fun _ => lifecycle_completion hIdentity hId) hPending (fun _ => requestPhase_setQueue ..)
      (trackedCount_setQueue ..) ?_
    · exact (limits_setQueue ..).trans (limits_retired ..)
    · exact h.justified_of_phase hOpen hId (hKnown _ hId) (by simp [hStarted]) (by simp [hStarted])
  | late requestId hKind hId hInactive hRetired =>
    have hPhase := requestPhase_of_retired hInactive hRetired
    exact h.acceptOther hOpen hCapacity hKind (by simp)
      (h.justified_of_phase hOpen hId (hKnown _ hId) (by simp [hPhase]) (by simp [hPhase])) _
  | unmatched requestId hKind hId hInactive hUnretired =>
    have hPhase := requestPhase_of_unseen hInactive hUnretired
    exact h.acceptOther hOpen hCapacity hKind (by simp)
      (h.justified_of_phase hOpen hId (hKnown _ hId) (by simp [hPhase]) (by simp [hPhase])) _

end

section

theorem release {d : AppServerProxyDirection} {now : Nat}
    {frame : Option AppServerProxyFrame} (hReleased : Released p d now frame p') :
    Tracked env known limits (log ++ frame.toList.map (.released d)) p' := by
  cases hReleased with
  | empty => exact (h.bookkeeping _ _).append_nil
  | plain frame rest hFrames hOther =>
    refine h.quiet (.released d frame) ((h.coherent.pop hFrames hOther).bookkeeping _ _)
      (limits_setQueue ..) (state_setQueue ..) (fun e => ?_) (fun e => ?_) (trackedCount_setQueue ..) trivial
    · simp [lifecycle, acceptedRequest, releasedRequest,
        retiredRequest, completedRequest, expiredRequest, hOther]
    · exact requestPhase_congr (requests_setQueue p d e _) (requestHistory_setQueue p d e _)
  | request frame rest requestId hFrames hId hQueued =>
    have hActive := ActiveRequests.mem_of_getElem? hQueued
    have hCoherent := h.coherent.popRequest (now + p.limits.requestTimeout) hFrames hId hQueued
    rw [dequeued, queue_setRequests]
    refine h.move (.released d frame) (h.coherent.isOpen_of_active hActive)
      (hCoherent.bookkeeping _ _) ?_ (fun _ => lifecycle_release d hId)
      (h.coherent.active_known _ _ hActive) (requestPhase_of_active hQueued) (fun other _ => ?_)
      (fun e hDirection => ?_) ?_ trivial
    · exact (limits_setQueue ..).trans (limits_setRequests ..)
    · refine (congrFun (requestPhase_congr (requests_setQueue _ d d _)
        (requestHistory_setQueue _ d d _)) other).trans ?_
      rw [requestPhase_insert]
      rfl
    · apply (requestPhase_congr (requests_setQueue _ d e _) (requestHistory_setQueue _ d e _)).trans
      rw [requestPhase_insert_of_ne hDirection.symm]
    · have hCount := p.trackedCount_setRequests d
        ((p.requests d).insert requestId (.pending (now + p.limits.requestTimeout)))
      rw [ActiveRequests.size_insert_old _ _ hActive] at hCount
      apply (trackedCount_setQueue ..).trans
      simp only [Lifecycle.Event.admitted, Option.toList_none, List.length_nil]
      omega

theorem close (report : AppServerProxyCloseReport) :
    Tracked env known limits (log ++ [.closed report]) (closedProxy p) := by
  refine h.concat h.coherent.closed rfl (fun d step hStep => ?_) (fun hOpen => ?_) (fun hOpen => ?_) trivial
  · cases hStep
  · cases hOpen
  · cases hOpen

theorem step (hDigests : Set.InjOn (requestIdDigest env.sha256) known)
    {op : ProxyOp env} {events : List ProxyEvent} (hStep : Step env p op events p')
    (hKnown : ∀ requestId, op.mentioned limits = some requestId → requestId ∈ known) :
    Tracked env known limits (log ++ events) p' := by
  cases hStep with
  | accepted _ frame action _ hAdmitted _ hMentioned =>
    rw [← h.limits_eq, hMentioned] at hKnown
    exact h.accept hDigests hAdmitted hKnown
  | prepared => exact h.append_nil
  | released d now frame _ hReleased => exact h.release hReleased
  | expired now requests _ hExpired =>
    rw [hExpired.proxy_eq, hExpired.expired_eq]
    exact (h.retireAll hDigests overdue_expiredRequests).bookkeeping _ _
  | closed report => exact h.close report
  | rejected _ error _ _ hKept =>
    obtain ⟨rfl, hError⟩ := hKept known h.coherent hDigests
    exact h.quiet _ h.coherent rfl rfl (fun _ => rfl) (fun _ => rfl) rfl hError

end

end Tracked

end Weregopher.Proxy
