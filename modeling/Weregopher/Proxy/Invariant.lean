import Weregopher.Proxy.Release

/-! # The joint invariant of queues, active requests and history

The queues account for their bytes, the requests marked queued are the request
frames still waiting, and no active identity has a retired digest. Each update
keeps this, given that hashing tells the known identities apart.
-/
namespace Weregopher.Proxy
open TransparentAppServerProxy ActiveRequests

structure Coherent (env : ProxyEnvironment) (known : Set AppServerRequestId)
    (p : TransparentAppServerProxy) : Prop where
  sound : ∀ d, (p.queue d).Sound (p.limits.queue d)
  queued_iff : ∀ d requestId,
    (p.requests d)[requestId]? = some .queued ↔ requestId ∈ (p.queue d).requestIds
  unretired : ∀ d, ∀ requestId ∈ p.requests d,
    requestIdDigest env.sha256 requestId ∉ p.requestHistory d
  active_known : ∀ d, ∀ requestId ∈ p.requests d, requestId ∈ known
  active_le : p.activeCount ≤ p.limits.activeRequests
  tracked_le : p.trackedCount ≤ p.limits.requestHistory
  closed_empty : p.state = .closed → ∀ d, (p.queue d).frames = [] ∧ p.requests d = ∅

namespace Coherent

variable {env : ProxyEnvironment} {known : Set AppServerRequestId} {p : TransparentAppServerProxy}
  {d origin : AppServerProxyDirection} {requestId : AppServerRequestId}

theorem new (limits : AppServerProxyLimits) : Coherent env known (.new limits) where
  sound d := by cases d <;> exact ProxyQueue.sound_empty (.new _ _)
  queued_iff d requestId := by
    cases d <;> simp [TransparentAppServerProxy.new, requests, queue, ProxyQueue.new, ProxyQueue.requestIds]
  unretired d := by cases d <;> simp [TransparentAppServerProxy.new, requests]
  active_known d := by cases d <;> simp [TransparentAppServerProxy.new, requests]
  active_le := by simp [activeCount, TransparentAppServerProxy.new]
  tracked_le := by simp [trackedCount, activeCount, TransparentAppServerProxy.new]
  closed_empty h := by cases h

variable (h : Coherent env known p)

include h

theorem closed : Coherent env known (closedProxy p) where
  sound d := by
    change ProxyQueue.Sound (p.limits.queue d) _
    rw [← (h.sound d).limits_eq]
    cases d <;> exact ProxyQueue.sound_empty _
  queued_iff d requestId := by
    cases d <;> simp [closedProxy, requests, queue, ProxyQueue.requestIds]
  unretired d := by cases d <;> simp [closedProxy, requests]
  active_known d := by cases d <;> simp [closedProxy, requests]
  active_le := by simp [activeCount, closedProxy]
  tracked_le := by simp [trackedCount, activeCount, closedProxy]
  closed_empty _ d := by cases d <;> exact ⟨rfl, rfl⟩

theorem not_contradictory : ¬Contradictory env p := by
  rintro ⟨origin, requestId, hActive, hRetired⟩
  exact h.unretired origin requestId hActive hRetired

theorem not_misplaced : ¬Misplaced p d := by
  rintro ⟨frame, rest, requestId, hFrames, hId, hQueued⟩
  refine hQueued ((h.queued_iff d requestId).mpr ?_)
  simp [ProxyQueue.requestIds, hFrames, hId]

theorem isOpen_of_active (hActive : requestId ∈ p.requests d) : p.state = .open := by
  cases hState : p.state with
  | «open» => rfl
  | closed => simp [(h.closed_empty hState d).2] at hActive

theorem bookkeeping (time : Option Nat) (counters : ProxyCounters) :
    Coherent env known { p with lastObservedTime := time, counters := counters } :=
  ⟨h.sound, h.queued_iff, h.unretired, h.active_known, h.active_le, h.tracked_le, h.closed_empty⟩

theorem sound_update {p' : TransparentAppServerProxy} {q : ProxyQueue}
    (hNew : q.Sound (p.limits.queue d)) (hLimits : p'.limits = p.limits)
    (hQueue : ∀ e, p'.queue e = if e = d then q else p.queue e) (e : AppServerProxyDirection) :
    (p'.queue e).Sound (p'.limits.queue e) := by
  rw [hLimits, hQueue]
  split
  · subst e
    exact hNew
  · exact h.sound e

theorem push (frame : AppServerProxyFrame) (hOpen : p.state = .open)
    (hCapacity : (p.queue d).ensureCapacity frame.jsonBytes.length = .ok ())
    (hKind : frame.observation.kind ≠ .request) :
    Coherent env known (p.setQueue d ((p.queue d).pushAfterCapacityCheck frame)) := by
  have hOther : frame.requestIdentity = none := by simp [AppServerProxyFrame.requestIdentity, hKind]
  have hSound := (h.sound d).push hCapacity (fun hRequest => absurd hRequest hKind) (by simp [hOther])
  refine ⟨h.sound_update hSound (by simp) (by simp), fun e requestId => ?_, ?_, ?_, ?_, ?_, ?_⟩
  · rw [requests_setQueue, h.queued_iff, queue_setQueue]
    split
    · subst e
      simp [hOther]
    · rfl
  · simpa using h.unretired
  · simpa using h.active_known
  · simpa using h.active_le
  · simpa using h.tracked_le
  · simp [hOpen]

variable {frame : AppServerProxyFrame} {rest : List AppServerProxyFrame}

theorem pushRequest (hOpen : p.state = .open)
    (hCapacity : (p.queue d).ensureCapacity frame.jsonBytes.length = .ok ())
    (hKind : frame.observation.kind = .request) (hId : frame.observation.requestId = some requestId)
    (hKnown : requestId ∈ known) (hInactive : requestId ∉ p.requests d)
    (hUnretired : requestIdDigest env.sha256 requestId ∉ p.requestHistory d)
    (hActive : p.activeCount < p.limits.activeRequests) (hTracked : p.trackedCount < p.limits.requestHistory) :
    Coherent env known ((p.setRequests d ((p.requests d).insert requestId .queued)).setQueue d
      ((p.queue d).pushAfterCapacityCheck frame)) := by
  have hIdentity : frame.requestIdentity = some requestId := by
    simp [AppServerProxyFrame.requestIdentity, hKind, hId]
  have hFresh : requestId ∉ (p.queue d).requestIds := by
    rw [← h.queued_iff]
    exact fun hQueued => hInactive (mem_of_getElem? hQueued)
  have hSound := (h.sound d).push hCapacity (fun _ => ⟨requestId, hId⟩)
    (by rintro other hOther; cases hIdentity.symm.trans hOther; exact hFresh)
  have hSize := size_insert_new (p.requests d) .queued hInactive
  have hActiveCount := p.activeCount_setRequests d ((p.requests d).insert requestId .queued)
  have hTrackedCount := p.trackedCount_setRequests d ((p.requests d).insert requestId .queued)
  refine ⟨h.sound_update hSound (by simp) (by simp), fun e other => ?_, fun e other hOther => ?_,
    fun e other hOther => ?_, ?_, ?_, ?_⟩
  · have hOld := h.queued_iff e other
    by_cases hEq : e = d
    · subst e
      by_cases hSame : requestId = other
      · simp [hIdentity, hSame]
      · simp [getElem?_insert, hIdentity, hSame, Ne.symm hSame, hOld]
    · simp [hEq, hOld]
  · by_cases hEq : e = d
    · subst e
      rcases eq_or_ne requestId other with rfl | hNe
      · simpa using hUnretired
      · simpa using h.unretired _ _ (by simpa [hNe] using hOther)
    · simpa using h.unretired _ _ (by simpa [hEq] using hOther)
  · by_cases hEq : e = d
    · subst e
      rcases eq_or_ne requestId other with rfl | hNe
      · exact hKnown
      · exact h.active_known _ _ (by simpa [hNe] using hOther)
    · exact h.active_known _ _ (by simpa [hEq] using hOther)
  · simp only [activeCount_setQueue, limits_setQueue, limits_setRequests]
    omega
  · simp only [trackedCount_setQueue, limits_setQueue, limits_setRequests]
    omega
  · simp [hOpen]

theorem retire (hDigests : Set.InjOn (requestIdDigest env.sha256) known)
    {deadline : Nat} (hPending : (p.requests origin)[requestId]? = some (.pending deadline)) :
    Coherent env known (retired env p origin requestId) := by
  have hActive := mem_of_getElem? hPending
  have hActiveCount : (retired env p origin requestId).activeCount + 1 = p.activeCount :=
    activeCount_retired hActive
  have hTrackedCount := trackedCount_retired hActive (h.unretired _ _ hActive)
  refine ⟨by simpa using h.sound, fun e other => ?_, fun e other hOther => ?_, fun e other hOther => ?_,
    ?_, ?_, ?_⟩
  · rw [queue_retired, ← h.queued_iff, requests_retired]
    split
    · subst e
      by_cases hSame : requestId = other
      · subst other
        simp [hPending]
      · simp [getElem?_erase, hSame]
    · rfl
  · by_cases hEq : e = origin
    · subst e
      obtain ⟨hNe, hOld⟩ : requestId ≠ other ∧ other ∈ p.requests origin := by simpa using hOther
      have hDigest : requestIdDigest env.sha256 other ≠ requestIdDigest env.sha256 requestId :=
        fun hSame => hNe (hDigests (h.active_known _ _ hOld) (h.active_known _ _ hActive) hSame).symm
      simpa [hDigest] using h.unretired _ _ hOld
    · simpa [hEq] using h.unretired _ _ (by simpa [hEq] using hOther)
  · by_cases hEq : e = origin
    · subst e
      exact h.active_known _ _ (by simp at hOther; exact hOther.2)
    · exact h.active_known _ _ (by simpa [hEq] using hOther)
  · have hLimit := h.active_le
    rw [limits_retired]
    omega
  · simpa [hTrackedCount] using h.tracked_le
  · simp [h.isOpen_of_active hActive]

theorem pop (hFrames : (p.queue d).frames = frame :: rest) (hOther : frame.requestIdentity = none) :
    Coherent env known (p.setQueue d ((p.queue d).tail frame rest)) := by
  refine ⟨h.sound_update ((h.sound d).tail hFrames) (by simp) (by simp), fun e requestId => ?_, ?_, ?_, ?_,
    ?_, ?_⟩
  · rw [requests_setQueue, h.queued_iff, queue_setQueue]
    split
    · subst e
      simp [ProxyQueue.requestIds_eq_tail hFrames, hOther]
    · rfl
  · simpa using h.unretired
  · simpa using h.active_known
  · simpa using h.active_le
  · simpa using h.tracked_le
  · intro hClosed
    simp [(h.closed_empty (by simpa using hClosed) d).1] at hFrames

theorem popRequest (deadline : Nat) (hFrames : (p.queue d).frames = frame :: rest)
    (hId : frame.requestIdentity = some requestId) (hQueued : (p.requests d)[requestId]? = some .queued) :
    Coherent env known ((p.setRequests d ((p.requests d).insert requestId (.pending deadline))).setQueue d
      ((p.queue d).tail frame rest)) := by
  have hActive := mem_of_getElem? hQueued
  have hIds := ProxyQueue.requestIds_eq_tail hFrames
  have hNodup := (h.sound d).requestIds_nodup
  rw [hIds, hId, Option.toList_some, List.singleton_append, List.nodup_cons] at hNodup
  have hSize := size_insert_old (p.requests d) (.pending deadline) hActive
  have hActiveCount := p.activeCount_setRequests d ((p.requests d).insert requestId (.pending deadline))
  have hTrackedCount := p.trackedCount_setRequests d ((p.requests d).insert requestId (.pending deadline))
  have hMem (e : AppServerProxyDirection) (other : AppServerRequestId)
      (hOther : other ∈ ((p.setRequests d ((p.requests d).insert requestId (.pending deadline))).setQueue d
        ((p.queue d).tail frame rest)).requests e) : other ∈ p.requests e := by
    by_cases hEq : e = d
    · subst e
      rcases eq_or_ne requestId other with rfl | hNe
      · exact hActive
      · simpa [hNe] using hOther
    · simpa [hEq] using hOther
  refine ⟨h.sound_update ((h.sound d).tail hFrames) (by simp) (by simp), fun e other => ?_,
    fun e other hOther => ?_, fun e other hOther => h.active_known _ _ (hMem e other hOther), ?_, ?_, ?_⟩
  · have hOld := h.queued_iff e other
    by_cases hEq : e = d
    · subst e
      rw [hIds] at hOld
      by_cases hSame : requestId = other
      · subst other
        simpa using hNodup.1
      · simp [getElem?_insert, hSame, hOld, hId, Ne.symm hSame]
    · simp [hEq, hOld]
  · simpa using h.unretired _ _ (hMem e other hOther)
  · have hLimit := h.active_le
    simp only [activeCount_setQueue, limits_setQueue, limits_setRequests]
    omega
  · have hLimit := h.tracked_le
    simp only [trackedCount_setQueue, limits_setQueue, limits_setRequests]
    omega
  · simp [h.isOpen_of_active hActive]

end Coherent

end Weregopher.Proxy
