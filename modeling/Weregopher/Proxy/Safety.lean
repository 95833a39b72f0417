import Weregopher.Proxy.Correlation

/-! # Safety of the app-server proxy along every run

The results ask of the hash only that the identities mentioned by the calls of
the run have different digests.
-/
namespace Weregopher.Proxy
open Lib.Bytes Lib.Lifecycle Lib.Stateful

variable {env : ProxyEnvironment}

def mentionedIdentities (limits : AppServerProxyLimits) (ops : List (ProxyOp env)) : List AppServerRequestId :=
  ops.filterMap fun op => op.mentioned limits

/-- No two identities mentioned by the calls have hashed documents with one digest. -/
def DistinctDigests (limits : AppServerProxyLimits) (ops : List (ProxyOp env)) : Prop :=
  CollisionFreeOn env.sha256 {bytes | bytes ∈ (mentionedIdentities limits ops).map requestIdPreimage}

variable {limits : AppServerProxyLimits} {ops : List (ProxyOp env)} {known : Set AppServerRequestId}
  {log : List ProxyEvent} {p : TransparentAppServerProxy}

theorem DistinctDigests.injOn (h : DistinctDigests limits ops) :
    Set.InjOn (requestIdDigest env.sha256) {requestId | requestId ∈ mentionedIdentities limits ops} := by
  intro a hA b hB hSame
  exact requestIdPreimage_injective (h (List.mem_map_of_mem hA) (List.mem_map_of_mem hB) hSame)

theorem tracked_run (hDigests : Set.InjOn (requestIdDigest env.sha256) known) (ops : List (ProxyOp env))
    (hKnown : ∀ op ∈ ops, ∀ requestId, op.mentioned limits = some requestId → requestId ∈ known) :
    Tracked env known limits (logAfter limits ops) (stateAfter limits ops) := by
  refine (proxySystem env).history_invariant (P := Tracked env known limits)
    (A := fun op => ∀ requestId, op.mentioned limits = some requestId → requestId ∈ known)
    (.new limits) (fun log p op hOp hTracked => ?_) ops hKnown
  exact hTracked.step hDigests (step_spec (fun d => (hTracked.coherent.sound d).toAccounted) op) hOp

theorem DistinctDigests.tracked (h : DistinctDigests limits ops) :
    Tracked env {requestId | requestId ∈ mentionedIdentities limits ops} limits (logAfter limits ops)
      (stateAfter limits ops) := by
  refine tracked_run h.injOn ops fun op hOp requestId hMentioned => ?_
  exact List.mem_filterMap.mpr ⟨op, hOp, hMentioned⟩

section

/-- A short conversation: the client's request is answered twice, and the server asks back. -/
def clientRequestLine : List UInt8 := utf8Bytes "\x7b\"id\":1,\"method\":\"initialize\"\x7d"

def serverRequestLine : List UInt8 := utf8Bytes "\x7b\"id\":2,\"method\":\"approve\"\x7d"

def responseLine : List UInt8 := utf8Bytes "\x7b\"id\":1,\"result\":null\x7d"

/-- The JSON library on the lines of the conversation, and SHA-256 on their two identities. -/
def sessionEnvironment : ProxyEnvironment where
  serdeJson line :=
    if line = clientRequestLine then
      ⟨.map (.entry "id" (.u64 1) (.entry "method" (.str "initialize") .done)), none⟩
    else if line = serverRequestLine then
      ⟨.map (.entry "id" (.u64 2) (.entry "method" (.str "approve") .done)), none⟩
    else if line = responseLine then
      ⟨.map (.entry "id" (.u64 1) (.entry "result" .unit .done)), none⟩
    else
      ⟨.invalid (.library "expected value"), none⟩
  sha256 document :=
    if document = requestIdPreimage (.unsigned 1) then
  .ofNat 0xe51fd7bf7292da39195e5c7e8885129a1035a7b8c9bb7978bcb608704aa8a549
    else if document = requestIdPreimage (.unsigned 2) then
  .ofNat 0xdb8cad916c208e4e22edd155947ec5c7d4c4cdf6e0d72a6020ca77f13425ba6a
    else
      ⟨.replicate 32 0⟩
  lastInstant := 2 ^ 94

def session : List (ProxyOp sessionEnvironment) :=
  [.ingest .clientToServer clientRequestLine, .release .clientToServer 0,
    .ingest .serverToClient responseLine, .ingest .serverToClient serverRequestLine,
    .ingest .serverToClient responseLine, .release .serverToClient 10, .release .serverToClient 20,
    .expire (20 + 5 * 60 * 1000000000)]

theorem mentionedIdentities_session : mentionedIdentities .initial session =
    [.unsigned 1, .unsigned 1, .unsigned 2, .unsigned 1] := by decide +kernel

theorem distinctDigests_session : DistinctDigests .initial session := by
  have hDigests : ∀ a ∈ [AppServerRequestId.unsigned 1, .unsigned 1, .unsigned 2, .unsigned 1],
      ∀ b ∈ [AppServerRequestId.unsigned 1, .unsigned 1, .unsigned 2, .unsigned 1],
        sessionEnvironment.sha256 (requestIdPreimage a) = sessionEnvironment.sha256 (requestIdPreimage b) →
          requestIdPreimage a = requestIdPreimage b := by decide +kernel
  rintro _ hA _ hB hSame
  rw [Set.mem_ofPred_eq, mentionedIdentities_session] at hA hB
  obtain ⟨a, hMemA, rfl⟩ := List.mem_map.mp hA
  obtain ⟨b, hMemB, rfl⟩ := List.mem_map.mp hB
  exact hDigests a hMemA b hMemB hSame

end

/-- What the joint invariant says about the log and the state of a run. -/
structure Consistent (env : ProxyEnvironment) (limits : AppServerProxyLimits) (log : List ProxyEvent)
    (p : TransparentAppServerProxy) : Prop where
  bytes_eq : ∀ d, (p.queue d).bytes = ((p.queue d).frames.map fun frame => frame.jsonBytes.length).sum
  messages_le : ∀ d, (p.queue d).frames.length ≤ (limits.queue d).messages
  bytes_le : ∀ d, (p.queue d).bytes ≤ (limits.queue d).bytes
  /-- Every waiting request frame has an identity, no two have the same, and these identities are
  the requests marked queued. -/
  waiting_identified : ∀ d, ∀ frame ∈ (p.queue d).frames, frame.observation.kind = .request →
    ∃ requestId, frame.requestIdentity = some requestId
  waiting_nodup : ∀ d, (p.queue d).requestIds.Nodup
  waiting_iff : ∀ d requestId,
    requestId ∈ (p.queue d).requestIds ↔ (p.requests d)[requestId]? = some .queued
  active_unretired : ∀ d, ∀ requestId ∈ p.requests d,
    requestIdDigest env.sha256 requestId ∉ p.requestHistory d
  active_le : p.activeCount ≤ limits.activeRequests
  tracked_eq : p.state = .open →
    p.trackedCount = bothDirections fun d => (acceptedRequests d log).length
  tracked_le : p.state = .open → p.trackedCount ≤ limits.requestHistory
  never_inconsistent : ProxyEvent.rejected .inconsistentCorrelationState ∉ log

theorem Tracked.consistent (h : Tracked env known limits log p) :
    Consistent env limits log p where
  bytes_eq d := (h.coherent.sound d).bytes_eq
  messages_le d := by
    rw [← h.limits_eq, ← (h.coherent.sound d).limits_eq]
    exact (h.coherent.sound d).messages_le
  bytes_le d := by
    rw [← h.limits_eq, ← (h.coherent.sound d).limits_eq]
    exact (h.coherent.sound d).bytes_le
  waiting_identified d frame hFrame hKind := by
    obtain ⟨requestId, hId⟩ := (h.coherent.sound d).identified frame hFrame hKind
    exact ⟨requestId, by simp [AppServerProxyFrame.requestIdentity, hKind, hId]⟩
  waiting_nodup d := (h.coherent.sound d).requestIds_nodup
  waiting_iff d requestId := (h.coherent.queued_iff d requestId).symm
  active_unretired := h.coherent.unretired
  active_le := h.limits_eq ▸ h.coherent.active_le
  tracked_eq := h.tracked_eq
  tracked_le _ := h.limits_eq ▸ h.coherent.tracked_le
  never_inconsistent hMem := by
    obtain ⟨front, back, hSplit⟩ := List.append_of_mem hMem
    exact h.justified front _ back hSplit rfl

/-- After any calls on a new proxy the queues, the active requests and the history agree with each
other and with the log, and no call has reported an inconsistent correlation state. -/
theorem run_consistent (limits : AppServerProxyLimits) (ops : List (ProxyOp env))
    (hDigests : DistinctDigests limits ops) :
    Consistent env limits (logAfter limits ops) (stateAfter limits ops) :=
  hDigests.tracked.consistent

theorem session_consistent : DistinctDigests .initial session ∧
    Consistent sessionEnvironment .initial (logAfter .initial session) (stateAfter .initial session) :=
  ⟨distinctDigests_session, run_consistent .initial session distinctDigests_session⟩

/-- A call that fails in a reachable state leaves the whole state as it was. -/
theorem failed_call_keeps_state (limits : AppServerProxyLimits) (ops : List (ProxyOp env))
    (hDigests : DistinctDigests limits ops) (op : ProxyOp env) (error : AppServerProxyError)
    (p' : TransparentAppServerProxy) (hExec : exec op.perform (stateAfter limits ops) = (.error error, p')) :
    p' = stateAfter limits ops := by
  have hTracked := hDigests.tracked
  have hStep := step_spec (fun d => (hTracked.coherent.sound d).toAccounted) op
  have hEvents : (proxySystem env).emit (stateAfter limits ops) op = [.rejected error] := by
    change eventsOf _ op (exec op.perform (stateAfter limits ops)).1 = _
    rw [hExec]
    rfl
  have hNext : (proxySystem env).next (stateAfter limits ops) op = p' := congrArg Prod.snd hExec
  rw [hEvents, hNext] at hStep
  exact hStep.eq_of_rejected (List.mem_singleton_self _) hTracked.coherent hDigests.injOn

/-- The client cannot reuse the answered identity, and trying leaves the session as it was. -/
def reusingCall : ProxyOp sessionEnvironment := .ingest .clientToServer clientRequestLine

theorem session_keeps_state_on_reuse :
    (exec reusingCall.perform (stateAfter .initial session)).2 = stateAfter .initial session := by
  have hError : (match (exec reusingCall.perform (stateAfter .initial session)).1 with
      | .error error => decide (error = .reusedRequestId .clientToServer)
      | .ok _ => false) = true := by decide +kernel
  split at hError
  · rename_i error hResult
    exact failed_call_keeps_state .initial session distinctDigests_session _ error _ (exec_eq_of_fst hResult)
  · cases hError

theorem released_before_retired {d : AppServerProxyDirection} {front back : List ProxyEvent}
    {event : ProxyEvent} {requestId : AppServerRequestId} (h : Legal (lifecycleLog d log))
    (hSplit : log = front ++ event :: back) (hRetired : event.retiredRequest d = some requestId) :
    requestId ∈ acceptedRequests d front ∧ requestId ∈ releasedRequests d front := by
  obtain ⟨step, hStep, hFinish⟩ := Option.bind_eq_some_iff.mp ((event.lifecycle_finishing d).trans hRetired)
  have hLog : lifecycleLog d log = lifecycleLog d front ++ step :: lifecycleLog d back := by
    simp [hSplit, lifecycleLog, hStep]
  have hFront := h.of_append hLog
  have hSource := h _ _ _ hLog
  cases step with
  | accept | start => cases hFinish
  | finish =>
    cases hFinish
    have hStarted : phaseAfter (lifecycleLog d front) requestId = .started := hSource
    rw [← filterMap_admitted_lifecycleLog, ← filterMap_starting_lifecycleLog]
    refine ⟨?_, hFront.starting_of_started hStarted⟩
    by_contra hAbsent
    rw [← hFront.unseen_iff, hStarted] at hAbsent
    cases hAbsent

theorem Tracked.active_iff (h : Tracked env known limits log p)
    (hOpen : p.state = .open) (d : AppServerProxyDirection) (requestId : AppServerRequestId) :
    requestId ∈ p.requests d ↔ requestId ∈ acceptedRequests d log ∧ requestId ∉ retiredRequests d log := by
  by_cases hKnown : requestId ∈ known
  · have hAccepted := not_iff_comm.mp (h.not_mem_accepted_iff hOpen d hKnown)
    have hRetired := h.mem_retired_iff hOpen d hKnown
    rw [← hAccepted, hRetired]
    rcases hState : (p.requests d)[requestId]? with _ | state
    · have hInactive : requestId ∉ p.requests d := by simpa using hState
      by_cases hDigest : requestIdDigest env.sha256 requestId ∈ p.requestHistory d
      · simp [hInactive, requestPhase_of_retired hInactive hDigest]
      · simp [hInactive, requestPhase_of_unseen hInactive hDigest]
    · have hActive := ActiveRequests.mem_of_getElem? hState
      cases state <;> simp [hActive, requestPhase_of_active hState, ActiveRequestState.phase]
  · constructor
    · exact fun hActive => absurd (h.coherent.active_known d requestId hActive) hKnown
    · exact fun hAccepted => absurd (h.accepted_known d requestId hAccepted.1) hKnown

/-- An identity is accepted at most once per direction and retired at most once, after its release;
responses are classified by what the log says of their identity in the opposite direction, and leave
the requests of their own direction alone. -/
theorem requests_retire_once (limits : AppServerProxyLimits) (ops : List (ProxyOp env))
    (hDigests : DistinctDigests limits ops) : (∀ d, (acceptedRequests d (logAfter limits ops)).Nodup ∧
      (completedRequests d (logAfter limits ops) ++ timedOutRequests d (logAfter limits ops)).Nodup ∧
      ∀ (front back : List ProxyEvent) (event : ProxyEvent), logAfter limits ops = front ++ event :: back →
        ∀ requestId, event.retiredRequest d = some requestId →
          requestId ∈ acceptedRequests d front ∧ requestId ∈ releasedRequests d front) ∧
    ((stateAfter limits ops).state = .open → ∀ d requestId,
      requestId ∈ (stateAfter limits ops).requests d ↔
        requestId ∈ acceptedRequests d (logAfter limits ops) ∧
          requestId ∉ retiredRequests d (logAfter limits ops)) ∧
    (∀ (front back : List ProxyEvent) (frame : AppServerProxyFrame) (action : ResponseAction),
      logAfter limits ops = front ++ .accepted frame action :: back →
      frame.observation.kind.isResponse →
        (action = .late ↔ ∃ requestId, frame.observation.requestId = some requestId ∧
          requestId ∈ retiredRequests frame.observation.direction.opposite front) ∧
        (action = .unmatched ↔ frame.observation.requestId = none ∨ ∃ requestId,
          frame.observation.requestId = some requestId ∧
          requestId ∉ acceptedRequests frame.observation.direction.opposite front)) ∧
    (∀ (front back : List (ProxyOp env)) (op : ProxyOp env), ops = front ++ op :: back → ∀ frame action,
      .accepted frame action ∈ (proxySystem env).emit (stateAfter limits front) op →
      frame.observation.kind.isResponse →
        (stateAfter limits (front ++ [op])).requests frame.observation.direction =
          (stateAfter limits front).requests frame.observation.direction ∧
        (stateAfter limits (front ++ [op])).requestHistory frame.observation.direction =
          (stateAfter limits front).requestHistory frame.observation.direction) := by
  have hTracked := hDigests.tracked
  refine ⟨fun d => ⟨?_, ?_, ?_⟩, hTracked.active_iff, ?_, ?_⟩
  · rw [← filterMap_admitted_lifecycleLog]
    exact (hTracked.legal d).admitted_nodup
  · rw [← (retiredRequests_perm d _).nodup_iff, ← filterMap_finishing_lifecycleLog]
    exact (hTracked.legal d).finishing_nodup
  · exact fun front back event hSplit requestId hRetired => released_before_retired (hTracked.legal d) hSplit hRetired
  · exact fun front back frame action hSplit => hTracked.justified front _ back hSplit
  · intro front back op _ frame action hAccepted hResponse
    obtain ⟨dropped, hConserved⟩ : ∃ dropped, Conserved (logAfter limits front) (stateAfter limits front) dropped :=
      conserved_run limits front
    have hStep := step_spec hConserved.accounted op
    rw [← (proxySystem env).reach_concat] at hStep
    apply hStep.own_direction_of_response hAccepted
    intro hKind
    rw [hKind] at hResponse
    cases hResponse

theorem session_retires_once : DistinctDigests .initial session ∧
    (completedRequests .clientToServer (logAfter .initial session) ++
      timedOutRequests .clientToServer (logAfter .initial session)).Nodup :=
  ⟨distinctDigests_session,
    ((requests_retire_once .initial session distinctDigests_session).1 .clientToServer).2.1⟩

end Weregopher.Proxy
