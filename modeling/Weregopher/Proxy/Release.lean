import Weregopher.Proxy.Admission

/-! # What releasing, expiring and closing can do

A release that fails after it has stored a deadline would leave it behind, and an
expiry that fails half way would leave some requests retired. The lemmas say what
is kept in every case.
-/
namespace Weregopher.Proxy
open Lib.Checked Lib.Stateful TransparentAppServerProxy

variable {env : ProxyEnvironment} {p : TransparentAppServerProxy} {now : Nat}

section

variable {d : AppServerProxyDirection}

/-- The front frame has left the queue of `d` and is counted as forwarded. -/
def dequeued (p : TransparentAppServerProxy) (d : AppServerProxyDirection) (frame : AppServerProxyFrame)
    (rest : List AppServerProxyFrame) (now : Nat) : TransparentAppServerProxy :=
  { p.setQueue d ((p.queue d).tail frame rest) with
    counters := p.counters.setForwarded d (p.counters.forwardedMessages d + 1)
    lastObservedTime := some now }

inductive Released (p : TransparentAppServerProxy) (d : AppServerProxyDirection) (now : Nat) :
    Option AppServerProxyFrame → TransparentAppServerProxy → Prop
  | empty (hFrames : (p.queue d).frames = []) : Released p d now none { p with lastObservedTime := some now }
  | plain (frame : AppServerProxyFrame) (rest : List AppServerProxyFrame)
      (hFrames : (p.queue d).frames = frame :: rest) (hOther : frame.requestIdentity = none) :
      Released p d now (some frame) (dequeued p d frame rest now)
  | request (frame : AppServerProxyFrame) (rest : List AppServerProxyFrame) (requestId : AppServerRequestId)
      (hFrames : (p.queue d).frames = frame :: rest) (hId : frame.requestIdentity = some requestId)
      (hQueued : (p.requests d)[requestId]? = some .queued) :
      Released p d now (some frame)
        (dequeued (p.setRequests d ((p.requests d).insert requestId (.pending (now + p.limits.requestTimeout))))
          d frame rest now)

variable {e : AppServerProxyError} {deadline timeout : Nat}
  {E : AppServerProxyError → TransparentAppServerProxy → Prop} {Q : Unit → TransparentAppServerProxy → Prop}
  {requestId : AppServerRequestId}

theorem ensureMonotonicTime_error (h : ensureMonotonicTime p now = .error e) : e = .nonMonotonicClock := by
  unfold ensureMonotonicTime at h
  split at h <;> simp_all

theorem checkedDeadline_ok (h : checkedDeadline env now timeout = .ok deadline) : deadline = now + timeout := by
  unfold checkedDeadline checkedAdd at h
  repeat' split at h
  all_goals simp_all

theorem checkedDeadline_error
    (h : checkedDeadline env now timeout = .error e) : e = .deadlineOverflow := by
  unfold checkedDeadline at h
  split at h <;> simp_all

theorem wp_popFrame {frame : AppServerProxyFrame} {rest : List AppServerProxyFrame}
    {Q : AppServerProxyFrame → TransparentAppServerProxy → Prop} (hQueue : (p.queue d).Accounted)
    (hFrames : (p.queue d).frames = frame :: rest) :
    wp (popFrame d) p Q E ↔ Q frame (p.setQueue d ((p.queue d).tail frame rest)) := by
  simp [popFrame, (hQueue.pop_cons hFrames).1]

theorem wp_startDeadline (hQueued : (p.requests d)[requestId]? = some .queued) :
    wp (startDeadline d requestId deadline) p Q E ↔
      Q () (p.setRequests d ((p.requests d).insert requestId (.pending deadline))) := by
  simp [startDeadline, hQueued]

theorem wp_startDeadline_misplaced (hQueued : (p.requests d)[requestId]? ≠ some .queued) :
    wp (startDeadline d requestId deadline) p Q E ↔ E .inconsistentCorrelationState p := by
  rcases hState : (p.requests d)[requestId]? with _ | _ | _ <;> simp_all [startDeadline]

/-- The front frame is a request that is not waiting to be released. -/
def Misplaced (p : TransparentAppServerProxy) (d : AppServerProxyDirection) : Prop :=
  ∃ frame rest requestId, (p.queue d).frames = frame :: rest ∧ frame.requestIdentity = some requestId ∧
    (p.requests d)[requestId]? ≠ some .queued

theorem release_spec (hQueue : (p.queue d).Accounted) : wp (release env d now) p (Released p d now)
      (fun e p' => p' = p ∧ (e = .inconsistentCorrelationState → Misplaced p d)) := by
  unfold release
  simp only [wp_bind, wp_get, wp_lift, true_and]
  refine ⟨fun _ _ => ?_, fun e h => by simp [ensureMonotonicTime_error h]⟩
  cases hFrames : (p.queue d).frames with
  | nil =>
    simp only [ProxyQueue.front, hFrames, List.head?_nil]
    exact .empty hFrames
  | cons frame rest =>
    simp only [ProxyQueue.front, hFrames, List.head?_cons]
    cases hId : frame.requestIdentity with
    | none =>
      simp only [wp_bind, wp_lift, wp_modify, wp_pure, true_and]
      refine ⟨fun messages hMessages => ?_, fun e h => by simp [add_error h]⟩
      rw [wp_popFrame hQueue hFrames, increment_ok hMessages]
      simp only [counters_setQueue]
      exact .plain frame rest hFrames hId
    | some requestId =>
      simp only [wp_bind, wp_lift, wp_modify, wp_pure, true_and]
      refine ⟨fun deadline hDeadline => ⟨fun messages hMessages => ?_, fun e h => by simp [add_error h]⟩,
        fun e h => by simp [checkedDeadline_error h]⟩
      by_cases hQueued : (p.requests d)[requestId]? = some .queued
      · rw [wp_startDeadline hQueued, wp_popFrame (by simpa using hQueue) (by simpa using hFrames),
          increment_ok hMessages, checkedDeadline_ok hDeadline]
        simp only [counters_setQueue, counters_setRequests]
        have hReleased : Released p d now _ _ := .request frame rest requestId hFrames hId hQueued
        simpa only [dequeued, counters_setRequests] using hReleased
      · rw [wp_startDeadline_misplaced hQueued]
        exact ⟨rfl, fun _ => ⟨frame, rest, requestId, hFrames, hId, hQueued⟩⟩

end

section

def retiredAll (env : ProxyEnvironment) (p : TransparentAppServerProxy)
    (requests : List AppServerExpiredRequest) : TransparentAppServerProxy :=
  requests.foldl (fun proxy request => retired env proxy request.origin request.requestId) p

theorem SameTraffic.trans {p q r : TransparentAppServerProxy} (h : SameTraffic p q) (h' : SameTraffic q r) :
    SameTraffic p r :=
  ⟨fun d => (h'.queue_eq d).trans (h.queue_eq d), h'.limits_eq.trans h.limits_eq,
    h'.state_eq.trans h.state_eq, h'.counters_eq.trans h.counters_eq⟩

theorem sameTraffic_retired (p : TransparentAppServerProxy) (origin : AppServerProxyDirection)
    (requestId : AppServerRequestId) : SameTraffic p (retired env p origin requestId) := by
  constructor <;> simp

theorem sameTraffic_retiredAll (requests : List AppServerExpiredRequest) :
    SameTraffic p (retiredAll env p requests) := by
  induction requests generalizing p with
  | nil => exact .refl p
  | cons request rest ih => exact (sameTraffic_retired p request.origin request.requestId).trans ih

theorem retire_spec (origin : AppServerProxyDirection) (requestId : AppServerRequestId) :
    wp (retire env origin requestId) p (fun _ p' => p' = retired env p origin requestId)
      (fun _ p' => SameTraffic p p') := by
  unfold retire
  simp only [wp_bind, wp_get, wp_ite, wp_modify, wp_throw, wp_pure]
  refine ⟨fun _ => by constructor <;> simp, fun _ => ⟨fun _ => by constructor <;> simp, fun _ => ?_⟩⟩
  simp [retired]

theorem retireAll_spec (requests : List AppServerExpiredRequest) :
    wp (retireAll env requests) p (fun _ p' => p' = retiredAll env p requests)
      (fun _ p' => SameTraffic p p') := by
  induction requests generalizing p with
  | nil => rfl
  | cons request rest ih =>
    rw [retireAll, wp_bind]
    refine wp_mono (retire_spec request.origin request.requestId) ?_ fun _ _ h => h
    rintro _ q rfl
    exact wp_mono ih (fun _ _ h => h)
      fun _ _ h => (sameTraffic_retired p request.origin request.requestId).trans h

def expiredRequests (p : TransparentAppServerProxy) (now : Nat) : List AppServerExpiredRequest :=
  expiredDirection p.clientRequests .clientToServer now ++ expiredDirection p.serverRequests .serverToClient now

/-- Every request past its deadline is retired, and only those. -/
structure Expired (env : ProxyEnvironment) (p : TransparentAppServerProxy) (now : Nat)
    (expired : List AppServerExpiredRequest) (p' : TransparentAppServerProxy) : Prop where
  expired_eq : expired = expiredRequests p now
  proxy_eq : p' = { retiredAll env p expired with
    counters := { p.counters with expiredRequests := p.counters.expiredRequests + expired.length }
    lastObservedTime := some now }

/-- `E` is whatever a failing check or a failing retirement leaves; the success is the same. -/
theorem expireRequests_spec {E : AppServerProxyError → TransparentAppServerProxy → Prop}
    (hCheck : ∀ e, e ≠ .inconsistentCorrelationState → E e p)
    (hUnretired : ∀ e, ensureUnretired env p (expiredRequests p now) = .error e → E e p)
    (hRetire : wp (retireAll env (expiredRequests p now)) p
      (fun _ p' => p' = retiredAll env p (expiredRequests p now)) E) :
    wp (expireRequests env now) p (Expired env p now) E := by
  unfold expireRequests
  simp only [wp_bind, wp_get, wp_lift, wp_modify, wp_pure]
  refine ⟨fun _ _ => ⟨fun count hCount => ⟨fun _ _ => wp_mono hRetire ?_ fun _ _ h => h, hUnretired⟩, ?_⟩, ?_⟩
  · rintro _ q rfl
    refine ⟨rfl, ?_⟩
    rw [add_ok hCount, (sameTraffic_retiredAll (expiredRequests p now)).counters_eq]
    rfl
  · exact fun e h => hCheck e (by simp [add_error h])
  · exact fun e h => hCheck e (by simp [ensureMonotonicTime_error h])

end

def closedProxy (p : TransparentAppServerProxy) : TransparentAppServerProxy :=
  { p with
    toServer := { p.toServer with frames := [], bytes := 0 }
    toClient := { p.toClient with frames := [], bytes := 0 }
    clientRequests := ∅
    serverRequests := ∅
    clientRequestHistory := ∅
    serverRequestHistory := ∅
    state := .closed }

end Weregopher.Proxy
