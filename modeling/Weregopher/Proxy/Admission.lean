import Weregopher.Proxy.Operations

/-! # What admitting a message can do

One relation lists the correlation updates of an accepted message, and one lemma
per operation says which of them it made and what a failure leaves behind: the
checks come before the first update, and later ones cannot fail once the earlier
ones have passed. Nothing here assumes an invariant of the state.
-/
namespace Weregopher.Proxy
open Lib.Checked Lib.Stateful TransparentAppServerProxy

variable {env : ProxyEnvironment} {p : TransparentAppServerProxy}

variable {count total value : Nat} {e : AppServerProxyError} {condition : Prop}

theorem add_ok (h : add value count = .ok total) : total = value + count := by
  unfold add checkedAdd at h
  repeat' split at h
  all_goals simp_all

theorem add_error (h : add value count = .error e) : e = .diagnosticCounterOverflow := by
  unfold add at h
  split at h <;> simp_all

theorem increment_ok (h : increment value = .ok total) : total = value + 1 := add_ok h

theorem incrementIf_ok [Decidable condition]
    (h : incrementIf condition value = .ok total) : total = value + if condition then 1 else 0 := by
  by_cases hCondition : condition
  · rw [incrementIf, if_pos hCondition] at h
    rw [increment_ok h, if_pos hCondition]
  · rw [incrementIf, if_neg hCondition] at h
    cases h
    rw [if_neg hCondition, Nat.add_zero]

theorem incrementIf_error [Decidable condition]
    (h : incrementIf condition value = .error e) : e = .diagnosticCounterOverflow := by
  unfold incrementIf at h
  split at h
  · exact add_error h
  · cases h

theorem ensureCapacity_error {queue : ProxyQueue} {bytes : Nat}
    (h : queue.ensureCapacity bytes = .error e) : e ≠ .inconsistentCorrelationState := by
  unfold ProxyQueue.ensureCapacity at h
  rintro rfl
  repeat' split at h
  all_goals simp_all

/-- Some identity of one direction is active although its digest is already retired. -/
def Contradictory (env : ProxyEnvironment) (p : TransparentAppServerProxy) : Prop :=
  ∃ origin requestId, requestId ∈ p.requests origin ∧
    requestIdDigest env.sha256 requestId ∈ p.requestHistory origin

/-- Queues, limits, lifecycle and counters agree; only the correlation state may differ. -/
structure SameTraffic (p p' : TransparentAppServerProxy) : Prop where
  queue_eq : ∀ d, p'.queue d = p.queue d
  limits_eq : p'.limits = p.limits
  state_eq : p'.state = p.state
  counters_eq : p'.counters = p.counters

theorem SameTraffic.refl (p : TransparentAppServerProxy) : SameTraffic p p := ⟨fun _ => rfl, rfl, rfl, rfl⟩

/-- One identity leaves the active requests of `origin` and enters its history. -/
def TransparentAppServerProxy.retired (env : ProxyEnvironment) (p : TransparentAppServerProxy)
    (origin : AppServerProxyDirection) (requestId : AppServerRequestId) : TransparentAppServerProxy :=
  (p.setRequests origin ((p.requests origin).erase requestId)).setRequestHistory origin
    (insert (requestIdDigest env.sha256 requestId) (p.requestHistory origin))

section

variable (origin e : AppServerProxyDirection) (requestId : AppServerRequestId)

@[simp] theorem queue_retired : (retired env p origin requestId).queue e = p.queue e := by simp [retired]

@[simp] theorem requests_retired : (retired env p origin requestId).requests e =
    if e = origin then (p.requests origin).erase requestId else p.requests e := by simp [retired]

@[simp] theorem requestHistory_retired : (retired env p origin requestId).requestHistory e =
    if e = origin then insert (requestIdDigest env.sha256 requestId) (p.requestHistory origin)
    else p.requestHistory e := by simp [retired]

@[simp] theorem limits_retired : (retired env p origin requestId).limits = p.limits := by simp [retired]

@[simp] theorem state_retired : (retired env p origin requestId).state = p.state := by simp [retired]

@[simp] theorem counters_retired : (retired env p origin requestId).counters = p.counters := by
  simp [retired]

theorem activeCount_retired {origin : AppServerProxyDirection} {requestId : AppServerRequestId}
    (hActive : requestId ∈ p.requests origin) :
    (retired env p origin requestId).activeCount + 1 = p.activeCount := by
  have hSize := ActiveRequests.size_erase_add_one _ hActive
  have hCount := p.activeCount_setRequests origin ((p.requests origin).erase requestId)
  rw [retired, activeCount_setRequestHistory]
  omega

theorem trackedCount_retired {origin : AppServerProxyDirection} {requestId : AppServerRequestId}
    (hActive : requestId ∈ p.requests origin)
    (hUnretired : requestIdDigest env.sha256 requestId ∉ p.requestHistory origin) :
    (retired env p origin requestId).trackedCount = p.trackedCount := by
  have hSize := ActiveRequests.size_erase_add_one _ hActive
  have hCard := Finset.card_insert_of_notMem hUnretired
  have hCount := p.trackedCount_setRequests origin ((p.requests origin).erase requestId)
  have hHistory := (p.setRequests origin ((p.requests origin).erase requestId)).trackedCount_setRequestHistory
    origin (insert (requestIdDigest env.sha256 requestId) (p.requestHistory origin))
  rw [requestHistory_setRequests] at hHistory
  rw [retired]
  omega

end

section

variable {d origin : AppServerProxyDirection} {requestId : AppServerRequestId} {action : ResponseAction}
  {o : AppServerMessageObservation}

theorem preflightRequest_ok (h : preflightRequest env p d requestId = .ok action) :
    action = .none ∧ requestId ∉ p.requests d ∧
      requestIdDigest env.sha256 requestId ∉ p.requestHistory d ∧
      p.activeCount < p.limits.activeRequests ∧ p.trackedCount < p.limits.requestHistory := by
  unfold preflightRequest checkedAdd at h
  repeat' split at h
  all_goals simp_all [activeCount, trackedCount, Option.bind]
  all_goals
    repeat' split at *
    all_goals simp_all

theorem preflightRequest_error {e : AppServerProxyError}
    (h : preflightRequest env p d requestId = .error e) : e ≠ .inconsistentCorrelationState := by
  unfold preflightRequest at h
  rintro rfl
  repeat' split at h
  all_goals simp_all

theorem preflightResponse_ok (h : preflightResponse env p origin requestId = .ok action) :
    (action = .complete ∧ (∃ deadline, (p.requests origin)[requestId]? = some (.pending deadline)) ∧
      requestIdDigest env.sha256 requestId ∉ p.requestHistory origin) ∨
    (action = .late ∧ requestId ∉ p.requests origin ∧
      requestIdDigest env.sha256 requestId ∈ p.requestHistory origin) ∨
    (action = .unmatched ∧ requestId ∉ p.requests origin ∧
      requestIdDigest env.sha256 requestId ∉ p.requestHistory origin) := by
  have hMem : requestId ∈ p.requests origin ↔ (p.requests origin)[requestId]?.isSome :=
    Std.ExtTreeMap.mem_iff_isSome_getElem?
  by_cases hRetired : requestIdDigest env.sha256 requestId ∈ p.requestHistory origin <;>
    rcases hState : (p.requests origin)[requestId]? with _ | _ | deadline <;>
    simp only [preflightResponse, hState, hRetired] at h hMem <;> cases h <;> simp [hMem, hRetired]

theorem preflightResponse_error
    (h : preflightResponse env p origin requestId = .error .inconsistentCorrelationState) :
    Contradictory env p := by
  have hMem : requestId ∈ p.requests origin ↔ (p.requests origin)[requestId]?.isSome :=
    Std.ExtTreeMap.mem_iff_isSome_getElem?
  by_cases hRetired : requestIdDigest env.sha256 requestId ∈ p.requestHistory origin <;>
    rcases hState : (p.requests origin)[requestId]? with _ | _ | deadline <;>
    simp [preflightResponse, hState, hRetired] at h
  exact ⟨origin, requestId, by simp [hMem, hState], hRetired⟩

theorem preflightCorrelation_error (hIdentified : o.kind = .request → ∃ requestId, o.requestId = some requestId)
    (h : preflightCorrelation env p o = .error .inconsistentCorrelationState) : Contradictory env p := by
  unfold preflightCorrelation at h
  split at h
  · rename_i hKind
    obtain ⟨requestId, hId⟩ := hIdentified hKind
    rw [hId] at h
    exact absurd rfl (preflightRequest_error h)
  · split at h
    · cases h
    · exact preflightResponse_error h
  · split at h
    · cases h
    · exact preflightResponse_error h
  · cases h

/-- What one accepted message does to the active and retired requests. -/
inductive Correlated (env : ProxyEnvironment) (p : TransparentAppServerProxy)
    (o : AppServerMessageObservation) : ResponseAction → TransparentAppServerProxy → Prop
  | request (requestId : AppServerRequestId) (hKind : o.kind = .request)
      (hId : o.requestId = some requestId) (hInactive : requestId ∉ p.requests o.direction)
      (hUnretired : requestIdDigest env.sha256 requestId ∉ p.requestHistory o.direction)
      (hActive : p.activeCount < p.limits.activeRequests)
      (hTracked : p.trackedCount < p.limits.requestHistory) :
      Correlated env p o .none
        (p.setRequests o.direction ((p.requests o.direction).insert requestId .queued))
  | notification (hKind : o.kind = .notification) : Correlated env p o .none p
  | unidentified (hKind : o.kind ≠ .request) (hId : o.requestId = Option.none) :
      Correlated env p o .unmatched p
  | complete (requestId : AppServerRequestId) (deadline : Nat) (hKind : o.kind ≠ .request)
      (hId : o.requestId = some requestId)
      (hPending : (p.requests o.direction.opposite)[requestId]? = some (.pending deadline))
      (hUnretired : requestIdDigest env.sha256 requestId ∉ p.requestHistory o.direction.opposite) :
      Correlated env p o .complete (retired env p o.direction.opposite requestId)
  | late (requestId : AppServerRequestId) (hKind : o.kind ≠ .request)
      (hId : o.requestId = some requestId) (hInactive : requestId ∉ p.requests o.direction.opposite)
      (hRetired : requestIdDigest env.sha256 requestId ∈ p.requestHistory o.direction.opposite) :
      Correlated env p o .late p
  | unmatched (requestId : AppServerRequestId) (hKind : o.kind ≠ .request)
      (hId : o.requestId = some requestId) (hInactive : requestId ∉ p.requests o.direction.opposite)
      (hUnretired : requestIdDigest env.sha256 requestId ∉ p.requestHistory o.direction.opposite) :
      Correlated env p o .unmatched p

variable {E : AppServerProxyError → TransparentAppServerProxy → Prop} {Q : Unit → TransparentAppServerProxy → Prop}

theorem wp_insertQueued (hInactive : requestId ∉ p.requests d) : wp (insertQueued d requestId) p Q E ↔
      Q () (p.setRequests d ((p.requests d).insert requestId .queued)) := by
  simp [insertQueued, hInactive]

theorem wp_retire (hActive : requestId ∈ p.requests origin)
    (hUnretired : requestIdDigest env.sha256 requestId ∉ p.requestHistory origin) :
    wp (retire env origin requestId) p Q E ↔ Q () (retired env p origin requestId) := by
  simp [retire, hActive, hUnretired, retired]

theorem applyCorrelation_spec (h : preflightCorrelation env p o = .ok action) :
    wp (applyCorrelation env o action) p (fun _ q => Correlated env p o action q) fun _ _ => False := by
  have hResponse (hKind : o.kind ≠ .request) (requestId : AppServerRequestId)
      (hId : o.requestId = some requestId)
      (hOk : preflightResponse env p o.direction.opposite requestId = .ok action) :
      wp (if action = .complete then retire env o.direction.opposite requestId else pure ()) p
        (fun _ q => Correlated env p o action q) fun _ _ => False := by
    rcases preflightResponse_ok hOk with ⟨rfl, ⟨deadline, hPending⟩, hUnretired⟩ |
      ⟨rfl, hInactive, hRetired⟩ | ⟨rfl, hInactive, hUnretired⟩
    · rw [if_pos rfl, wp_retire (by simp [Std.ExtTreeMap.mem_iff_isSome_getElem?, hPending]) hUnretired]
      exact .complete requestId deadline hKind hId hPending hUnretired
    · exact .late requestId hKind hId hInactive hRetired
    · exact .unmatched requestId hKind hId hInactive hUnretired
  unfold preflightCorrelation at h
  unfold applyCorrelation
  cases hKind : o.kind with
  | request =>
    cases hId : o.requestId with
    | none => simp [hKind, hId] at h
    | some requestId =>
      simp only [hKind, hId] at h ⊢
      obtain ⟨rfl, hInactive, hUnretired, hActive, hTracked⟩ := preflightRequest_ok h
      rw [wp_insertQueued hInactive]
      exact .request requestId hKind hId hInactive hUnretired hActive hTracked
  | notification =>
    simp only [hKind] at h ⊢
    cases h
    exact .notification hKind
  | successResponse | errorResponse =>
    cases hId : o.requestId with
    | none =>
      simp only [hKind, hId] at h ⊢
      cases h
      exact .unidentified (by simp [hKind]) hId
    | some requestId =>
      simp only [hKind, hId] at h ⊢
      exact hResponse (by simp [hKind]) requestId hId h

end

variable (counters : ProxyCounters) (frame : AppServerProxyFrame)

def countAccepted (action : ResponseAction) : ProxyCounters :=
  { counters.setAccepted frame.observation.direction
      (counters.acceptedMessages frame.observation.direction + 1)
      (counters.acceptedBytes frame.observation.direction + frame.jsonBytes.length) with
    lateResponses := counters.lateResponses + if action = .late then 1 else 0
    unmatchedResponses := counters.unmatchedResponses + if action = .unmatched then 1 else 0 }

theorem acceptedMessages_countAccepted (action : ResponseAction) (e : AppServerProxyDirection) :
    (countAccepted counters frame action).acceptedMessages e =
      counters.acceptedMessages e + if e = frame.observation.direction then 1 else 0 := by
  have h := counters.acceptedMessages_setAccepted frame.observation.direction e
    (counters.acceptedMessages frame.observation.direction + 1)
    (counters.acceptedBytes frame.observation.direction + frame.jsonBytes.length)
  calc (countAccepted counters frame action).acceptedMessages e
    _ = _ := by cases e <;> rfl
    _ = _ := h
    _ = _ := by split <;> simp_all

theorem forwardedMessages_countAccepted (action : ResponseAction) (e : AppServerProxyDirection) :
    (countAccepted counters frame action).forwardedMessages e = counters.forwardedMessages e := by
  rw [← counters.forwardedMessages_setAccepted frame.observation.direction e
    (counters.acceptedMessages frame.observation.direction + 1)
    (counters.acceptedBytes frame.observation.direction + frame.jsonBytes.length)]
  cases e <;> rfl

/-- A frame enters the queue of its direction, after the update `q` of the correlation state. -/
structure Admitted (env : ProxyEnvironment) (p : TransparentAppServerProxy) (frame : AppServerProxyFrame)
    (action : ResponseAction) (p' : TransparentAppServerProxy) : Prop where
  isOpen : p.state = .open
  capacity : (p.queue frame.observation.direction).ensureCapacity frame.jsonBytes.length = .ok ()
  preflight : preflightCorrelation env p frame.observation = .ok action
  effect : ∃ q, Correlated env p frame.observation action q ∧
    p' = { q.setQueue frame.observation.direction
      ((q.queue frame.observation.direction).pushAfterCapacityCheck frame) with
        counters := countAccepted q.counters frame action }

section

variable (candidate : AppServerProxyCandidate env)

theorem Correlated.sameTraffic {o : AppServerMessageObservation} {action : ResponseAction}
    {q : TransparentAppServerProxy} (h : Correlated env p o action q) : SameTraffic p q := by
  cases h <;> constructor <;> simp

theorem admitCandidate_spec : wp (admitCandidate env candidate) p
      (fun o p' => o = candidate.observation ∧
        ∃ action, Admitted env p ⟨candidate.observation, candidate.jsonBytes⟩ action p')
      (fun e p' => p' = p ∧ (e = .inconsistentCorrelationState → Contradictory env p)) := by
  have hOverflow {e : AppServerProxyError} (h : e = .diagnosticCounterOverflow) :
      e = .inconsistentCorrelationState → Contradictory env p := by simp [h]
  unfold admitCandidate
  simp only [wp_bind, wp_get, wp_ite, wp_lift, wp_pure, wp_throw, wp_modify, true_and]
  refine ⟨by simp, fun hOpen => ⟨fun _ hCapacity => ⟨fun action hPreflight => ⟨fun messages hMessages =>
    ⟨fun bytes hBytes => ⟨fun unmatched hUnmatched => ⟨fun late hLate => ?_, ?_⟩, ?_⟩, ?_⟩, ?_⟩, ?_⟩, ?_⟩⟩
  · refine wp_mono (applyCorrelation_spec hPreflight) (fun _ q hCorrelated => ?_) (by simp)
    have hState : p.state = .open := by cases h : p.state <;> simp_all
    refine ⟨action, hState, hCapacity, hPreflight, q, hCorrelated, ?_⟩
    simp [countAccepted, hCorrelated.sameTraffic.counters_eq, increment_ok hMessages, add_ok hBytes,
      incrementIf_ok hUnmatched, incrementIf_ok hLate]
  · exact fun e h => hOverflow (incrementIf_error h)
  · exact fun e h => hOverflow (incrementIf_error h)
  · exact fun e h => hOverflow (add_error h)
  · exact fun e h => hOverflow (add_error h)
  · rintro e hError rfl
    exact preflightCorrelation_error candidate.requestId_of_request hError
  · exact fun e hError h => absurd h (ensureCapacity_error hError)

variable {d : AppServerProxyDirection} {jsonLine : List UInt8}

theorem prepare_ok
    {candidate : AppServerProxyCandidate env} (h : prepare env p d jsonLine = .ok candidate) :
    candidate.jsonBytes = jsonLine ∧ candidate.observation.direction = d ∧
      candidate.preparedLimits = p.limits := by
  unfold prepare at h
  split at h
  · cases h
  · split at h
    · cases h
    · cases h
      exact ⟨rfl, rfl, rfl⟩

theorem prepare_error {e : AppServerProxyError}
    (h : prepare env p d jsonLine = .error e) : e ≠ .inconsistentCorrelationState := by
  unfold prepare at h
  split at h
  · cases h
    simp
  · split at h
    · rename_i hError
      cases h
      exact parseAndClassify_error hError
    · cases h

theorem ingest_spec (d : AppServerProxyDirection) (jsonLine : List UInt8) : wp (ingest env d jsonLine) p
      (fun o p' => o.direction = d ∧
        (∃ message, parseAndClassify env jsonLine p.limits = .ok message ∧ o.requestId = message.requestId) ∧
        (o.kind = .request → ∃ requestId, o.requestId = some requestId) ∧
        ∃ action, Admitted env p ⟨o, jsonLine⟩ action p')
      (fun e p' => p' = p ∧ (e = .inconsistentCorrelationState → Contradictory env p)) := by
  unfold ingest
  simp only [wp_bind, wp_get, wp_lift, true_and]
  refine ⟨fun candidate hPrepare => ?_, fun e hError h => absurd h (prepare_error hError)⟩
  obtain ⟨hBytes, hDirection, hLimits⟩ := prepare_ok hPrepare
  refine wp_mono (admitCandidate_spec candidate) ?_ fun _ _ h => h
  rintro o p' ⟨rfl, hAdmitted⟩
  obtain ⟨message, hMessage, hObservation⟩ := candidate.prepared
  rw [hBytes, hLimits] at hMessage
  refine ⟨hDirection, ⟨message, hMessage, by rw [hObservation]⟩, candidate.requestId_of_request, ?_⟩
  rwa [hBytes] at hAdmitted

theorem admitPrepared_spec : wp (admitPrepared env candidate) p (fun o p' => o = candidate.observation ∧
        ∃ action, Admitted env p ⟨candidate.observation, candidate.jsonBytes⟩ action p')
      (fun e p' => p' = p ∧ (e = .inconsistentCorrelationState → Contradictory env p)) := by
  unfold admitPrepared
  simp only [wp_bind, wp_get, wp_ite, wp_throw]
  exact ⟨by simp, fun _ => ⟨by simp, fun _ => admitCandidate_spec candidate⟩⟩

end

end Weregopher.Proxy
