import Weregopher.Proxy.Run

/-! # Frames leave in the order and with the bytes they came in

Each direction's accepted frames are the released ones, then the waiting ones, then
those a close has dropped. Nothing about hashing is needed: a correlation failure
never touches a queue.
-/
namespace Weregopher.Proxy
open Lib.Checked TransparentAppServerProxy

def acceptedFrames (d : AppServerProxyDirection) (log : List ProxyEvent) : List AppServerProxyFrame :=
  log.filterMap fun
    | .accepted frame _ => if frame.observation.direction = d then some frame else none
    | _ => none

def releasedFrames (d : AppServerProxyDirection) (log : List ProxyEvent) : List AppServerProxyFrame :=
  log.filterMap fun
    | .released direction frame => if direction = d then some frame else none
    | _ => none

def abandonedMessages (log : List ProxyEvent) : Nat :=
  (log.map fun
    | .closed report => report.messages
    | _ => 0).sum

def bothDirections (count : AppServerProxyDirection → Nat) : Nat := count .clientToServer + count .serverToClient

/-- The frames `dropped` by a close complete the account of each direction. -/
structure Conserved (log : List ProxyEvent) (p : TransparentAppServerProxy)
    (dropped : AppServerProxyDirection → List AppServerProxyFrame) : Prop where
  accounted : ∀ d, (p.queue d).Accounted
  frames_eq : ∀ d, acceptedFrames d log = releasedFrames d log ++ (p.queue d).frames ++ dropped d
  dropped_open : p.state = .open → ∀ d, dropped d = []
  queue_closed : p.state = .closed → ∀ d, (p.queue d).frames = []
  abandoned_eq : abandonedMessages log = bothDirections fun d => (dropped d).length
  accepted_count : ∀ d, p.counters.acceptedMessages d = (acceptedFrames d log).length
  forwarded_count : ∀ d, p.counters.forwardedMessages d = (releasedFrames d log).length

variable {env : ProxyEnvironment}

section

variable (d : AppServerProxyDirection) (log : List ProxyEvent) (more : List ProxyEvent)

@[simp] theorem acceptedFrames_append :
    acceptedFrames d (log ++ more) = acceptedFrames d log ++ acceptedFrames d more := List.filterMap_append

@[simp] theorem releasedFrames_append :
    releasedFrames d (log ++ more) = releasedFrames d log ++ releasedFrames d more := List.filterMap_append

@[simp] theorem abandonedMessages_append :
    abandonedMessages (log ++ more) = abandonedMessages log + abandonedMessages more := by
  simp [abandonedMessages]

structure Silent (events : List ProxyEvent) : Prop where
  accepted : ∀ d, acceptedFrames d events = []
  released : ∀ d, releasedFrames d events = []
  abandoned : abandonedMessages events = 0

theorem silent_nil : Silent [] := ⟨fun _ => rfl, fun _ => rfl, rfl⟩

theorem silent_rejected (e : AppServerProxyError) : Silent [.rejected e] := ⟨fun _ => rfl, fun _ => rfl, rfl⟩

theorem silent_expired (requests : List AppServerExpiredRequest) : Silent (requests.map ProxyEvent.expired) := by
  induction requests with
  | nil => exact silent_nil
  | cons request rest ih => exact ⟨ih.accepted, ih.released, by simpa [abandonedMessages] using ih.abandoned⟩

end

namespace Conserved

variable {log : List ProxyEvent} {p p' : TransparentAppServerProxy}
  {dropped : AppServerProxyDirection → List AppServerProxyFrame}

variable {events : List ProxyEvent} {frame : AppServerProxyFrame}

theorem new (limits : AppServerProxyLimits) : Conserved [] (.new limits) fun _ => [] where
  accounted d := by cases d <;> exact ProxyQueue.accounted_new _ _
  frames_eq d := by cases d <;> rfl
  dropped_open _ _ := rfl
  queue_closed h := by cases h
  abandoned_eq := rfl
  accepted_count d := by cases d <;> rfl
  forwarded_count d := by cases d <;> rfl

variable (h : Conserved log p dropped)

include h

theorem silent (hSilent : Silent events)
    (hQueue : ∀ d, p'.queue d = p.queue d) (hState : p'.state = p.state)
    (hAccepted : ∀ d, p'.counters.acceptedMessages d = p.counters.acceptedMessages d)
    (hForwarded : ∀ d, p'.counters.forwardedMessages d = p.counters.forwardedMessages d) :
    Conserved (log ++ events) p' dropped where
  accounted d := hQueue d ▸ h.accounted d
  frames_eq d := by simp [hSilent.accepted, hSilent.released, hQueue, h.frames_eq]
  dropped_open := hState ▸ h.dropped_open
  queue_closed hClosed d := by rw [hQueue, h.queue_closed (hState ▸ hClosed)]
  abandoned_eq := by rw [abandonedMessages_append, hSilent.abandoned, Nat.add_zero, h.abandoned_eq]
  accepted_count d := by simp [hAccepted, hSilent.accepted, h.accepted_count]
  forwarded_count d := by simp [hForwarded, hSilent.released, h.forwarded_count]

attribute [local simp] acceptedFrames releasedFrames

theorem accept {action : ResponseAction} (hAdmitted : Admitted env p frame action p') :
    Conserved (log ++ [.accepted frame action]) p' dropped := by
  obtain ⟨q, hCorrelated, hNext⟩ := hAdmitted.effect
  have hTraffic := hCorrelated.sameTraffic
  have hQueue (d : AppServerProxyDirection) : p'.queue d =
      if d = frame.observation.direction then (p.queue d).pushAfterCapacityCheck frame else p.queue d := by
    rw [hNext]
    apply (queue_setQueue q frame.observation.direction d _).trans
    simp only [hTraffic.queue_eq]
    split <;> simp_all
  have hState : p'.state = p.state := by
    rw [hNext]
    exact (state_setQueue q _ _).trans hTraffic.state_eq
  have hCounters : p'.counters = countAccepted p.counters frame action := by
    rw [hNext, ← hTraffic.counters_eq]
  have hEmpty := h.dropped_open hAdmitted.isOpen
  refine ⟨fun d => ?_, fun d => ?_, fun _ => hEmpty, fun hClosed => ?_, ?_, fun d => ?_, fun d => ?_⟩
  · rw [hQueue]
    split
    · subst d
      exact (h.accounted _).push hAdmitted.capacity
    · exact h.accounted d
  · rw [acceptedFrames_append, releasedFrames_append, h.frames_eq, hQueue, hEmpty]
    by_cases hDirection : d = frame.observation.direction
    · simp [hDirection, ProxyQueue.pushAfterCapacityCheck]
    · simp [hDirection, Ne.symm hDirection]
  · rw [hState, hAdmitted.isOpen] at hClosed
    cases hClosed
  · rw [abandonedMessages_append, h.abandoned_eq]
    rfl
  · rw [hCounters, acceptedMessages_countAccepted, h.accepted_count, acceptedFrames_append]
    by_cases hDirection : d = frame.observation.direction
    · simp [hDirection]
    · simp [hDirection, Ne.symm hDirection]
  · rw [hCounters, forwardedMessages_countAccepted, h.forwarded_count, releasedFrames_append]
    simp

theorem dequeue {q : TransparentAppServerProxy} (hTraffic : SameTraffic p q)
    {d : AppServerProxyDirection} {rest : List AppServerProxyFrame} {now : Nat}
    (hFrames : (p.queue d).frames = frame :: rest) :
    Conserved (log ++ [.released d frame]) (dequeued q d frame rest now) dropped := by
  have hQueue (e : AppServerProxyDirection) : (dequeued q d frame rest now).queue e =
      if e = d then (p.queue d).tail frame rest else p.queue e := by
    apply (queue_setQueue q d e _).trans
    simp only [hTraffic.queue_eq]
  have hState : (dequeued q d frame rest now).state = p.state :=
    (state_setQueue q d _).trans hTraffic.state_eq
  have hCounters : (dequeued q d frame rest now).counters =
      p.counters.setForwarded d (p.counters.forwardedMessages d + 1) := by
    rw [← hTraffic.counters_eq]
    rfl
  refine ⟨fun e => ?_, fun e => ?_, hState ▸ h.dropped_open, fun hClosed => ?_, ?_, fun e => ?_, fun e => ?_⟩
  · rw [hQueue]
    split
    · exact ((h.accounted d).pop_cons hFrames).2
    · exact h.accounted e
  · rw [acceptedFrames_append, releasedFrames_append, h.frames_eq, hQueue]
    by_cases hDirection : e = d
    · subst e
      simp [hFrames, ProxyQueue.tail]
    · simp [hDirection, Ne.symm hDirection]
  · have hEmpty := h.queue_closed (hState ▸ hClosed) d
    rw [hFrames] at hEmpty
    cases hEmpty
  · rw [abandonedMessages_append, h.abandoned_eq]
    rfl
  · rw [hCounters, ProxyCounters.acceptedMessages_setForwarded, h.accepted_count, acceptedFrames_append]
    simp
  · rw [hCounters, ProxyCounters.forwardedMessages_setForwarded, releasedFrames_append]
    by_cases hDirection : e = d
    · simp [hDirection, h.forwarded_count]
    · simp [hDirection, Ne.symm hDirection, h.forwarded_count]

theorem close {report : AppServerProxyCloseReport} (hMessages : report.messages =
      saturatingAdd usizeMax p.toServer.frames.length p.toClient.frames.length) :
    Conserved (log ++ [.closed report]) (closedProxy p) fun d => (p.queue d).frames ++ dropped d := by
  -- Both queues are far below the saturation point of the report.
  have hReport : report.messages = (p.queue .clientToServer).frames.length +
      (p.queue .serverToClient).frames.length := by
    have hServer := (h.accounted .clientToServer).messages_le
    have hClient := (h.accounted .serverToClient).messages_le
    have hServerLimit := (p.queue .clientToServer).limits.messages_range.2
    have hClientLimit := (p.queue .serverToClient).limits.messages_range.2
    simp only [absoluteMaxQueueMessages, queue] at *
    simp only [hMessages, saturatingAdd, usizeMax, u64Max]
    omega
  refine ⟨fun d => ?_, fun d => ?_, fun hOpen => ?_, fun _ d => ?_, ?_, fun d => ?_, fun d => ?_⟩
  · cases d <;> exact ProxyQueue.accounted_clear _
  · rw [acceptedFrames_append, releasedFrames_append, h.frames_eq]
    cases d <;> simp [closedProxy, queue]
  · cases hOpen
  · cases d <;> rfl
  · rw [abandonedMessages_append, h.abandoned_eq]
    simp only [abandonedMessages, List.map_cons, List.map_nil, List.sum_cons, List.sum_nil, hReport,
      bothDirections, List.length_append]
    omega
  · simpa [closedProxy] using h.accepted_count d
  · simpa [closedProxy] using h.forwarded_count d

theorem step {op : ProxyOp env}
    (hStep : Step env p op events p') : ∃ dropped', Conserved (log ++ events) p' dropped' := by
  cases hStep with
  | accepted _ frame action _ hAdmitted => exact ⟨dropped, h.accept hAdmitted⟩
  | prepared => exact ⟨dropped, h.silent silent_nil (fun _ => rfl) rfl (fun _ => rfl) fun _ => rfl⟩
  | released d now frame _ hReleased =>
    refine ⟨dropped, ?_⟩
    cases hReleased with
    | empty => exact h.silent silent_nil (fun _ => rfl) rfl (fun _ => rfl) fun _ => rfl
    | plain frame rest hFrames => exact h.dequeue (.refl p) hFrames
    | request frame rest requestId hFrames =>
      exact h.dequeue ⟨by simp, by simp, by simp, by simp⟩ hFrames
  | expired now requests _ hExpired =>
    have hTraffic : SameTraffic p (retiredAll env p requests) := sameTraffic_retiredAll requests
    rw [hExpired.proxy_eq]
    refine ⟨dropped, h.silent (silent_expired requests) hTraffic.queue_eq hTraffic.state_eq ?_ ?_⟩
    all_goals intro d; cases d <;> rfl
  | closed report hMessages => exact ⟨_, h.close hMessages⟩
  | rejected _ error _ hTraffic =>
    refine ⟨dropped, h.silent (silent_rejected error) hTraffic.queue_eq hTraffic.state_eq ?_ ?_⟩
    all_goals intro d; rw [hTraffic.counters_eq]

end Conserved

theorem conserved_run (limits : AppServerProxyLimits) (ops : List (ProxyOp env)) :
    ∃ dropped, Conserved (logAfter limits ops) (stateAfter limits ops) dropped := by
  refine (proxySystem env).history_invariant (P := fun log p => ∃ dropped, Conserved log p dropped)
    (A := fun _ => True) ⟨_, .new limits⟩ ?_ ops fun _ _ => trivial
  rintro log p op - ⟨dropped, hConserved⟩
  exact hConserved.step (step_spec hConserved.accounted op)

/-- Released frames are a prefix of the accepted ones, with the bytes their senders wrote; while
the proxy is open the rest is waiting, and the counts add up with what a close abandoned. -/
theorem released_frames_prefix_accepted (limits : AppServerProxyLimits) (ops : List (ProxyOp env)) :
    (∀ d, releasedFrames d (logAfter limits ops) <+: acceptedFrames d (logAfter limits ops)) ∧
      ((stateAfter limits ops).state = .open → ∀ d, acceptedFrames d (logAfter limits ops) =
        releasedFrames d (logAfter limits ops) ++ ((stateAfter limits ops).queue d).frames) ∧
      (∀ d, (stateAfter limits ops).counters.acceptedMessages d =
          (acceptedFrames d (logAfter limits ops)).length ∧
        (stateAfter limits ops).counters.forwardedMessages d =
          (releasedFrames d (logAfter limits ops)).length) ∧
      (bothDirections fun d => (acceptedFrames d (logAfter limits ops)).length) =
        (bothDirections fun d => (releasedFrames d (logAfter limits ops)).length) +
        (bothDirections fun d => ((stateAfter limits ops).queue d).frames.length) +
        abandonedMessages (logAfter limits ops) := by
  obtain ⟨dropped, h⟩ := conserved_run limits ops
  refine ⟨fun d => ?_, fun hOpen d => ?_, fun d => ⟨h.accepted_count d, h.forwarded_count d⟩, ?_⟩
  · rw [h.frames_eq, List.append_assoc]
    exact List.prefix_append _ _
  · rw [h.frames_eq, h.dropped_open hOpen, List.append_nil]
  · rw [h.abandoned_eq]
    simp only [bothDirections, h.frames_eq, List.length_append]
    omega

end Weregopher.Proxy
