import Weregopher.Lib.RunSystem
import Weregopher.Proxy.Expiry

/-! # Runs of the proxy and the log an observer writes

The operations are called in any order. The observer notes what each call answered:
the accepted line with its classification, the released frame, the expired requests,
the close report or the error. `Step` lists all that one call can do to the state
and the log.
-/
namespace Weregopher.Proxy
open Lib Lib.Checked Lib.Stateful TransparentAppServerProxy

inductive ProxyOp (env : ProxyEnvironment)
  | ingest (direction : AppServerProxyDirection) (jsonLine : List UInt8)
  | prepare (direction : AppServerProxyDirection) (jsonLine : List UInt8)
  | admitPrepared (candidate : AppServerProxyCandidate env)
  | release (direction : AppServerProxyDirection) (now : Nat)
  | expire (now : Nat)
  | close

inductive ProxyReply (env : ProxyEnvironment)
  | observed (observation : AppServerMessageObservation)
  | prepared (candidate : AppServerProxyCandidate env)
  | released (frame : Option AppServerProxyFrame)
  | expired (requests : List AppServerExpiredRequest)
  | closed (report : AppServerProxyCloseReport)

inductive ProxyEvent
  | accepted (frame : AppServerProxyFrame) (action : ResponseAction)
  | released (direction : AppServerProxyDirection) (frame : AppServerProxyFrame)
  | expired (request : AppServerExpiredRequest)
  | closed (report : AppServerProxyCloseReport)
  | rejected (error : AppServerProxyError)

variable {env : ProxyEnvironment}

namespace ProxyOp

def perform : ProxyOp env → ProxyM (ProxyReply env)
  | ingest direction jsonLine => .observed <$> Proxy.ingest env direction jsonLine
  | prepare direction jsonLine => do
    let proxy ← get
    let candidate ← Proxy.prepare env proxy direction jsonLine
    return .prepared candidate
  | admitPrepared candidate => .observed <$> Proxy.admitPrepared env candidate
  | release direction now => .released <$> Proxy.release env direction now
  | expire now => .expired <$> expireRequests env now
  | close => .closed <$> Proxy.close

def line : ProxyOp env → List UInt8
  | ingest _ jsonLine | prepare _ jsonLine => jsonLine
  | admitPrepared candidate => candidate.jsonBytes
  | release _ _ | expire _ | close => []

/-- The identity a submitted line mentions, if it is well formed. -/
def mentioned (limits : AppServerProxyLimits) : ProxyOp env → Option AppServerRequestId
  | ingest _ jsonLine =>
    match parseAndClassify env jsonLine limits with
    | .ok message => message.requestId
    | .error _ => none
  | admitPrepared candidate => candidate.observation.requestId
  | prepare _ _ | release _ _ | expire _ | close => none

end ProxyOp

def classification (env : ProxyEnvironment) (p : TransparentAppServerProxy)
    (observation : AppServerMessageObservation) : ResponseAction :=
  match preflightCorrelation env p observation with
  | .ok action => action
  | .error _ => .none

def eventsOf (p : TransparentAppServerProxy) (op : ProxyOp env) :
    Except AppServerProxyError (ProxyReply env) → List ProxyEvent
  | .error error => [.rejected error]
  | .ok (.observed observation) => [.accepted ⟨observation, op.line⟩ (classification env p observation)]
  | .ok (.prepared _) => []
  | .ok (.released frame) =>
    match op, frame with
    | .release direction _, some frame => [.released direction frame]
    | _, _ => []
  | .ok (.expired requests) => requests.map .expired
  | .ok (.closed report) => [.closed report]

def proxySystem (env : ProxyEnvironment) : RunSystem TransparentAppServerProxy (ProxyOp env) ProxyEvent where
  next p op := (exec op.perform p).2
  emit p op := eventsOf p op (exec op.perform p).1

abbrev stateAfter (limits : AppServerProxyLimits) (ops : List (ProxyOp env)) : TransparentAppServerProxy :=
  (proxySystem env).reach (.new limits) ops

abbrev logAfter (limits : AppServerProxyLimits) (ops : List (ProxyOp env)) : List ProxyEvent :=
  (proxySystem env).log (.new limits) ops

/-- What one call does to the state and appends to the log. A rejected call keeps the traffic; in
a coherent state it keeps everything. -/
inductive Step (env : ProxyEnvironment) (p : TransparentAppServerProxy) :
    ProxyOp env → List ProxyEvent → TransparentAppServerProxy → Prop
  | accepted (op : ProxyOp env) (frame : AppServerProxyFrame) (action : ResponseAction)
      (p' : TransparentAppServerProxy) (hAdmitted : Admitted env p frame action p')
      (hIdentified : frame.observation.kind = .request →
        ∃ requestId, frame.observation.requestId = some requestId)
      (hMentioned : op.mentioned p.limits = frame.observation.requestId) (hLine : frame.jsonBytes = op.line) :
      Step env p op [.accepted frame action] p'
  | prepared (direction : AppServerProxyDirection) (jsonLine : List UInt8) :
      Step env p (.prepare direction jsonLine) [] p
  | released (direction : AppServerProxyDirection) (now : Nat) (frame : Option AppServerProxyFrame)
      (p' : TransparentAppServerProxy) (hReleased : Released p direction now frame p') :
      Step env p (.release direction now) (frame.toList.map (.released direction)) p'
  | expired (now : Nat) (requests : List AppServerExpiredRequest) (p' : TransparentAppServerProxy)
      (hExpired : Expired env p now requests p') : Step env p (.expire now) (requests.map .expired) p'
  | closed (report : AppServerProxyCloseReport)
      (hMessages : report.messages =
        saturatingAdd usizeMax p.toServer.frames.length p.toClient.frames.length) :
      Step env p .close [.closed report] (closedProxy p)
  | rejected (op : ProxyOp env) (error : AppServerProxyError) (p' : TransparentAppServerProxy)
      (hTraffic : SameTraffic p p')
      (hKept : ∀ known, Coherent env known p → Set.InjOn (requestIdDigest env.sha256) known →
        p' = p ∧ error ≠ .inconsistentCorrelationState) :
      Step env p op [.rejected error] p'

theorem Admitted.classification_eq {p p' : TransparentAppServerProxy} {frame : AppServerProxyFrame}
    {action : ResponseAction} (h : Admitted env p frame action p') :
    classification env p frame.observation = action := by
  rw [classification, h.preflight]

section

variable {p : TransparentAppServerProxy}

variable {op : ProxyOp env} {action : ResponseAction} {p' : TransparentAppServerProxy} {events : List ProxyEvent}

theorem step_of_wp (h : wp op.perform p (fun reply p' => Step env p op (eventsOf p op (.ok reply)) p')
      (fun error p' => Step env p op [.rejected error] p')) :
    Step env p op ((proxySystem env).emit p op) ((proxySystem env).next p op) := by
  unfold wp at h
  change Step env p op (eventsOf p op (exec op.perform p).1) (exec op.perform p).2
  split at h <;> simp_all [eventsOf]

theorem Step.rejected_of_unchanged {e : AppServerProxyError}
    (h : ∀ known, Coherent env known p → Set.InjOn (requestIdDigest env.sha256) known →
      e ≠ .inconsistentCorrelationState) : Step env p op [.rejected e] p :=
  .rejected op e p (.refl p) fun known hCoherent hDigests => ⟨rfl, h known hCoherent hDigests⟩

theorem step_admitted {o : AppServerMessageObservation} (hAdmitted : Admitted env p ⟨o, op.line⟩ action p')
    (hIdentified : o.kind = .request → ∃ requestId, o.requestId = some requestId)
    (hMentioned : op.mentioned p.limits = o.requestId) :
    Step env p op (eventsOf p op (.ok (.observed o))) p' := by
  rw [eventsOf, hAdmitted.classification_eq]
  exact .accepted op ⟨o, op.line⟩ action p' hAdmitted hIdentified hMentioned rfl

theorem step_spec (hQueues : ∀ d, (p.queue d).Accounted) (op : ProxyOp env) :
    Step env p op ((proxySystem env).emit p op) ((proxySystem env).next p op) := by
  apply step_of_wp
  cases op with
  | ingest d jsonLine =>
    rw [ProxyOp.perform, wp_map]
    refine wp_mono (ingest_spec d jsonLine) ?_ ?_
    · rintro o p' ⟨-, ⟨message, hMessage, hId⟩, hIdentified, action, hAdmitted⟩
      apply step_admitted hAdmitted hIdentified
      simp [ProxyOp.mentioned, hMessage, hId]
    · rintro e p' ⟨rfl, hError⟩
      exact .rejected_of_unchanged fun known hCoherent _ h => hCoherent.not_contradictory (hError h)
  | prepare d jsonLine =>
    simp only [ProxyOp.perform, wp_bind, wp_get, wp_lift, wp_pure]
    refine ⟨fun candidate _ => .prepared d jsonLine, fun e hError => ?_⟩
    exact .rejected_of_unchanged fun _ _ _ => prepare_error hError
  | admitPrepared candidate =>
    rw [ProxyOp.perform, wp_map]
    refine wp_mono (admitPrepared_spec candidate) ?_ ?_
    · rintro o p' ⟨rfl, action, hAdmitted⟩
      exact step_admitted hAdmitted candidate.requestId_of_request rfl
    · rintro e p' ⟨rfl, hError⟩
      exact .rejected_of_unchanged fun known hCoherent _ h => hCoherent.not_contradictory (hError h)
  | release d now =>
    rw [ProxyOp.perform, wp_map]
    refine wp_mono (release_spec (hQueues d)) ?_ ?_
    · intro frame p' hReleased
      have hStep : Step env p _ _ p' := .released d now frame p' hReleased
      cases frame <;> exact hStep
    · rintro e p' ⟨rfl, hError⟩
      exact .rejected_of_unchanged fun known hCoherent _ h => hCoherent.not_misplaced (hError h)
  | expire now =>
    rw [ProxyOp.perform, wp_map]
    -- A failing expiry keeps the traffic in any state, and everything in a coherent one.
    have hTraffic : wp (expireRequests env now) p (Expired env p now) (fun _ p' => SameTraffic p p') :=
      expireRequests_spec (fun _ _ => .refl p) (fun _ _ => .refl p) (retireAll_spec _)
    have hKept : wp (expireRequests env now) p (Expired env p now) (fun e p' => ∀ known,
        Coherent env known p → Set.InjOn (requestIdDigest env.sha256) known →
          p' = p ∧ e ≠ .inconsistentCorrelationState) := by
      by_cases hExists : ∃ known, Coherent env known p ∧ Set.InjOn (requestIdDigest env.sha256) known
      · obtain ⟨known, hCoherent, hDigests⟩ := hExists
        exact wp_mono (hCoherent.expireRequests_spec hDigests) (fun _ _ h => h) fun _ _ h _ _ _ => h
      · refine wp_mono hTraffic (fun _ _ h => h) fun _ _ _ known hCoherent hDigests => ?_
        exact absurd ⟨known, hCoherent, hDigests⟩ hExists
    refine wp_mono (wp_and_error hTraffic hKept) (fun requests p' hExpired => ?_) fun e p' h => ?_
    · exact .expired now requests p' hExpired
    · exact .rejected _ e p' h.1 h.2
  | close =>
    rw [ProxyOp.perform, wp_map]
    exact .closed _ rfl

theorem Step.eq_of_rejected
    (h : Step env p op events p') {error : AppServerProxyError} (hRejected : .rejected error ∈ events)
    {known : Set AppServerRequestId} (hCoherent : Coherent env known p)
    (hDigests : Set.InjOn (requestIdDigest env.sha256) known) : p' = p := by
  cases h with
  | rejected _ _ _ _ hKept => exact (hKept known hCoherent hDigests).1
  | accepted | prepared | released | expired | closed => simp at hRejected

theorem Step.own_direction_of_response
    (h : Step env p op events p') {frame : AppServerProxyFrame} (hAccepted : .accepted frame action ∈ events)
    (hKind : frame.observation.kind ≠ .request) :
    p'.requests frame.observation.direction = p.requests frame.observation.direction ∧
      p'.requestHistory frame.observation.direction = p.requestHistory frame.observation.direction := by
  cases h with
  | accepted _ frame' action' _ hAdmitted =>
    simp only [List.mem_singleton, ProxyEvent.accepted.injEq] at hAccepted
    obtain ⟨rfl, rfl⟩ := hAccepted
    obtain ⟨q, hCorrelated, rfl⟩ := hAdmitted.effect
    have hRequests := requests_setQueue q frame.observation.direction frame.observation.direction
      ((q.queue frame.observation.direction).pushAfterCapacityCheck frame)
    have hHistory := requestHistory_setQueue q frame.observation.direction frame.observation.direction
      ((q.queue frame.observation.direction).pushAfterCapacityCheck frame)
    refine ⟨hRequests.trans ?_, hHistory.trans ?_⟩
    all_goals cases hCorrelated <;> simp_all
  | prepared | released | expired | closed | rejected => simp at hAccepted

end

end Weregopher.Proxy
