import Weregopher.Proxy.Classify

/-! # The bounded frame queue of one direction -/
namespace Weregopher.Proxy
open Lib.Checked

structure ProxyQueue where
  direction : AppServerProxyDirection
  limits : AppServerQueueLimits
  frames : List AppServerProxyFrame
  (bytes peakMessages peakBytes : Nat)

namespace ProxyQueue

def new (direction : AppServerProxyDirection) (limits : AppServerQueueLimits) : ProxyQueue :=
  ⟨direction, limits, [], 0, 0, 0⟩

def ensureCapacity (queue : ProxyQueue) (bytes : Nat) : Except AppServerProxyError Unit :=
  if queue.frames.length ≥ queue.limits.messages then
    .error (.queueMessageLimitExceeded queue.direction)
  else
    match checkedAdd usizeMax queue.bytes bytes with
    | none => .error (.queueByteLimitExceeded queue.direction)
    | some next =>
      if next > queue.limits.bytes then .error (.queueByteLimitExceeded queue.direction) else .ok ()

def pushAfterCapacityCheck (queue : ProxyQueue) (frame : AppServerProxyFrame) : ProxyQueue :=
  let bytes := queue.bytes + frame.jsonBytes.length
  let frames := queue.frames ++ [frame]
  { queue with
    bytes
    frames
    peakMessages := max queue.peakMessages frames.length
    peakBytes := max queue.peakBytes bytes }

/-- The remaining queue is only meaningful next to a popped frame. -/
def pop (queue : ProxyQueue) : Except AppServerProxyError (Option (AppServerProxyFrame × ProxyQueue)) :=
  match queue.frames with
  | [] => .ok none
  | front :: rest =>
    if front.jsonBytes.length ≤ queue.bytes then
      .ok (some (front, { queue with frames := rest, bytes := queue.bytes - front.jsonBytes.length }))
    else
      .error .inconsistentCorrelationState

def front (queue : ProxyQueue) : Option AppServerProxyFrame := queue.frames.head?

def clear (queue : ProxyQueue) : (Nat × Nat) × ProxyQueue :=
  ((queue.frames.length, queue.bytes), { queue with frames := [], bytes := 0 })

def requestIds (queue : ProxyQueue) : List AppServerRequestId :=
  queue.frames.filterMap AppServerProxyFrame.requestIdentity

/-- The recorded byte total is exact and both ceilings hold. -/
structure Accounted (queue : ProxyQueue) : Prop where
  bytes_eq : queue.bytes = (queue.frames.map fun frame => frame.jsonBytes.length).sum
  messages_le : queue.frames.length ≤ queue.limits.messages
  bytes_le : queue.bytes ≤ queue.limits.bytes

theorem accounted_new (direction : AppServerProxyDirection) (limits : AppServerQueueLimits) :
    (new direction limits).Accounted :=
  ⟨rfl, Nat.zero_le _, Nat.zero_le _⟩

theorem accounted_clear (queue : ProxyQueue) : queue.clear.2.Accounted := ⟨rfl, Nat.zero_le _, Nat.zero_le _⟩

variable {queue : ProxyQueue} {frame : AppServerProxyFrame} {rest : List AppServerProxyFrame}
  {limits : AppServerQueueLimits}

theorem ensureCapacity_ok {bytes : Nat} (h : queue.ensureCapacity bytes = .ok ()) :
    queue.frames.length < queue.limits.messages ∧ queue.bytes + bytes ≤ queue.limits.bytes := by
  unfold ensureCapacity checkedAdd at h
  repeat' split at h
  all_goals simp_all

theorem Accounted.push (hQueue : queue.Accounted) (hCapacity : queue.ensureCapacity frame.jsonBytes.length = .ok ()) :
    (queue.pushAfterCapacityCheck frame).Accounted := by
  obtain ⟨hMessages, hBytes⟩ := ensureCapacity_ok hCapacity
  refine ⟨?_, ?_, hBytes⟩
  · simp [pushAfterCapacityCheck, hQueue.bytes_eq]
  · simpa [pushAfterCapacityCheck] using hMessages

@[simp] theorem requestIds_push (queue : ProxyQueue) (frame : AppServerProxyFrame) :
    (queue.pushAfterCapacityCheck frame).requestIds =
      queue.requestIds ++ frame.requestIdentity.toList := by
  cases h : frame.requestIdentity <;> simp [requestIds, pushAfterCapacityCheck, h]

def tail (queue : ProxyQueue) (frame : AppServerProxyFrame) (rest : List AppServerProxyFrame) : ProxyQueue :=
  { queue with frames := rest, bytes := queue.bytes - frame.jsonBytes.length }

theorem requestIds_eq_tail (hFrames : queue.frames = frame :: rest) :
    queue.requestIds = frame.requestIdentity.toList ++ (queue.tail frame rest).requestIds := by
  cases h : frame.requestIdentity <;> simp [requestIds, tail, hFrames, h]

theorem Accounted.pop_cons (hQueue : queue.Accounted) (hFrames : queue.frames = frame :: rest) :
    queue.pop = .ok (some (frame, queue.tail frame rest)) ∧ (queue.tail frame rest).Accounted := by
  have hTotal := hQueue.bytes_eq
  have hMessages := hQueue.messages_le
  have hBytes := hQueue.bytes_le
  simp only [hFrames, List.map_cons, List.sum_cons, List.length_cons] at hTotal hMessages
  refine ⟨?_, ⟨?_, ?_, ?_⟩⟩
  · simp only [pop, hFrames, tail]
    rw [if_pos (by omega)]
  all_goals dsimp only [tail]; omega

/-- What one queue keeps by itself: its accounting under the configured limits, and request
frames that are identified and do not repeat. -/
structure Sound (limits : AppServerQueueLimits) (queue : ProxyQueue) : Prop extends Accounted queue where
  limits_eq : queue.limits = limits
  identified : ∀ frame ∈ queue.frames, frame.observation.kind = .request →
    ∃ requestId, frame.observation.requestId = some requestId
  requestIds_nodup : queue.requestIds.Nodup

theorem sound_empty (queue : ProxyQueue) :
    ({ queue with frames := [], bytes := 0 } : ProxyQueue).Sound queue.limits where
  toAccounted := accounted_clear queue
  limits_eq := rfl
  identified := by simp
  requestIds_nodup := List.nodup_nil

theorem Sound.push
    (hQueue : queue.Sound limits) (hCapacity : queue.ensureCapacity frame.jsonBytes.length = .ok ())
    (hIdentified : frame.observation.kind = .request → ∃ requestId, frame.observation.requestId = some requestId)
    (hFresh : ∀ requestId, frame.requestIdentity = some requestId → requestId ∉ queue.requestIds) :
    (queue.pushAfterCapacityCheck frame).Sound limits where
  toAccounted := hQueue.toAccounted.push hCapacity
  limits_eq := hQueue.limits_eq
  identified other hOther := by
    rcases List.mem_append.mp hOther with hOld | hNew
    · exact hQueue.identified other hOld
    · obtain rfl := List.mem_singleton.mp hNew
      exact hIdentified
  requestIds_nodup := by
    rw [requestIds_push]
    cases hId : frame.requestIdentity with
    | none => simpa using hQueue.requestIds_nodup
    | some requestId =>
      exact hQueue.requestIds_nodup.append (List.nodup_singleton _)
        (List.disjoint_singleton.mpr (hFresh requestId hId))

theorem Sound.tail (hQueue : queue.Sound limits) (hFrames : queue.frames = frame :: rest) :
    (queue.tail frame rest).Sound limits where
  toAccounted := (hQueue.toAccounted.pop_cons hFrames).2
  limits_eq := hQueue.limits_eq
  identified other hOther := hQueue.identified other (hFrames ▸ List.mem_cons_of_mem _ hOther)
  requestIds_nodup := by
    have hNodup := hQueue.requestIds_nodup
    rw [requestIds_eq_tail hFrames] at hNodup
    exact hNodup.of_append_right

end ProxyQueue

end Weregopher.Proxy
