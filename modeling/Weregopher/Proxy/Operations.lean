import Weregopher.Proxy.State

/-! # The operations of the transparent app-server proxy

Each operation is written in the order of the source, so that a check made
after an update fails in the updated state.
-/
namespace Weregopher.Proxy
open Lib.Checked

inductive ResponseAction
  | none
  | complete
  | late
  | unmatched
  deriving DecidableEq

structure AppServerProxyCloseReport where
  (messages bytes requests requestHistory : Nat)

def add (value increment : Nat) : Except AppServerProxyError Nat :=
  match checkedAdd u64Max value increment with
  | some total => .ok total
  | none => .error .diagnosticCounterOverflow

def increment (value : Nat) : Except AppServerProxyError Nat := add value 1

/-- The counters that only some messages advance. -/
def incrementIf (condition : Prop) [Decidable condition] (value : Nat) : Except AppServerProxyError Nat :=
  if condition then increment value else .ok value

variable (env : ProxyEnvironment)

variable (proxy : TransparentAppServerProxy)

def prepare (direction : AppServerProxyDirection) (jsonLine : List UInt8) :
    Except AppServerProxyError (AppServerProxyCandidate env) :=
  if proxy.state = .closed then
    .error .closed
  else
    match h : parseAndClassify env jsonLine proxy.limits with
    | .error error => .error error
    | .ok message =>
      .ok {
        preparedLimits := proxy.limits
        observation := ⟨direction, message.kind, message.method, message.requestId, jsonLine.length⟩
        jsonBytes := jsonLine
        prepared := ⟨message, h, rfl⟩ }

def preflightRequest (direction : AppServerProxyDirection)
    (requestId : AppServerRequestId) : Except AppServerProxyError ResponseAction :=
  if requestId ∈ proxy.requests direction then
    .error (.duplicateRequestId direction)
  else if requestIdDigest env.sha256 requestId ∈ proxy.requestHistory direction then
    .error (.reusedRequestId direction)
  else
    match checkedAdd usizeMax proxy.clientRequests.size proxy.serverRequests.size with
    | none => .error .activeRequestLimitExceeded
    | some active =>
      if active ≥ proxy.limits.activeRequests then
        .error .activeRequestLimitExceeded
      else
        match (checkedAdd usizeMax active proxy.clientRequestHistory.card).bind
            (checkedAdd usizeMax · proxy.serverRequestHistory.card) with
        | none => .error .requestHistoryLimitExceeded
        | some tracked =>
          if tracked ≥ proxy.limits.requestHistory then
            .error .requestHistoryLimitExceeded
          else
            .ok .none

def preflightResponse (origin : AppServerProxyDirection)
    (requestId : AppServerRequestId) : Except AppServerProxyError ResponseAction :=
  let retired := requestIdDigest env.sha256 requestId ∈ proxy.requestHistory origin
  match (proxy.requests origin)[requestId]? with
  | some (.pending _) => if ¬retired then .ok .complete else .error .inconsistentCorrelationState
  | some .queued => .error .responseBeforeRequestForwarded
  | Option.none => if retired then .ok .late else .ok .unmatched

def preflightCorrelation (observation : AppServerMessageObservation) : Except AppServerProxyError ResponseAction :=
  match observation.kind with
  | .request =>
    match observation.requestId with
    | Option.none => .error .inconsistentCorrelationState
    | some requestId => preflightRequest env proxy observation.direction requestId
  | .successResponse | .errorResponse =>
    match observation.requestId with
    | Option.none => .ok .unmatched
    | some requestId => preflightResponse env proxy observation.direction.opposite requestId
  | .notification => .ok .none

variable (direction : AppServerProxyDirection)

/-- `insert` on the active requests of one direction; a previous entry is an error found late. -/
def insertQueued (requestId : AppServerRequestId) : ProxyM Unit := do
  let proxy ← get
  let previous := (proxy.requests direction)[requestId]?
  modify fun proxy =>
    proxy.setRequests direction ((proxy.requests direction).insert requestId .queued)
  if previous.isSome then throw .inconsistentCorrelationState

def retire (origin : AppServerProxyDirection) (requestId : AppServerRequestId) : ProxyM Unit := do
  let digest := requestIdDigest env.sha256 requestId
  let proxy ← get
  let removed := (proxy.requests origin)[requestId]?
  modify fun proxy => proxy.setRequests origin ((proxy.requests origin).erase requestId)
  if removed.isNone then throw .inconsistentCorrelationState
  modify fun proxy => proxy.setRequestHistory origin (insert digest (proxy.requestHistory origin))
  if digest ∈ proxy.requestHistory origin then throw .inconsistentCorrelationState

def applyCorrelation (observation : AppServerMessageObservation) (action : ResponseAction) : ProxyM Unit :=
  match observation.kind with
  | .request =>
    match observation.requestId with
    | Option.none => throw .inconsistentCorrelationState
    | some requestId => insertQueued observation.direction requestId
  | .successResponse | .errorResponse =>
    if action = .complete then
      match observation.requestId with
      | Option.none => throw .inconsistentCorrelationState
      | some requestId => retire env observation.direction.opposite requestId
    else
      pure ()
  | .notification => pure ()

def admitCandidate (candidate : AppServerProxyCandidate env) :
    ProxyM AppServerMessageObservation := do
  let proxy ← get
  if proxy.state = .closed then throw .closed
  let observation := candidate.observation
  let direction := observation.direction
  (proxy.queue direction).ensureCapacity candidate.jsonBytes.length
  let action ← preflightCorrelation env proxy observation
  let nextMessages ← increment (proxy.counters.acceptedMessages direction)
  let nextBytes ← add (proxy.counters.acceptedBytes direction) candidate.jsonBytes.length
  let nextUnmatched ← incrementIf (action = .unmatched) proxy.counters.unmatchedResponses
  let nextLate ← incrementIf (action = .late) proxy.counters.lateResponses
  applyCorrelation env observation action
  modify fun proxy => proxy.setQueue direction
    ((proxy.queue direction).pushAfterCapacityCheck ⟨observation, candidate.jsonBytes⟩)
  modify fun proxy => { proxy with
    counters := { proxy.counters.setAccepted direction nextMessages nextBytes with
      lateResponses := nextLate
      unmatchedResponses := nextUnmatched } }
  return observation

def ingest (jsonLine : List UInt8) : ProxyM AppServerMessageObservation := do
  let proxy ← get
  let candidate ← prepare env proxy direction jsonLine
  admitCandidate env candidate

/-- The source's `admit`, for a candidate prepared by an earlier call. -/
def admitPrepared (candidate : AppServerProxyCandidate env) : ProxyM AppServerMessageObservation := do
  let proxy ← get
  if proxy.state = .closed then throw .closed
  if candidate.preparedLimits ≠ proxy.limits then throw .candidateLimitsMismatch
  admitCandidate env candidate

def ensureMonotonicTime (now : Nat) : Except AppServerProxyError Unit :=
  if proxy.lastObservedTime.any (now < ·) then .error .nonMonotonicClock else .ok ()

/-- The deadline is stored before the frame is popped. -/
def startDeadline (requestId : AppServerRequestId) (deadline : Nat) : ProxyM Unit := do
  let proxy ← get
  match (proxy.requests direction)[requestId]? with
  | some .queued =>
    modify fun proxy =>
      proxy.setRequests direction ((proxy.requests direction).insert requestId (.pending deadline))
  | _ => throw .inconsistentCorrelationState

def popFrame : ProxyM AppServerProxyFrame := do
  let proxy ← get
  let popped ← (proxy.queue direction).pop
  match popped with
  | some (frame, remaining) => do
    modify fun proxy => proxy.setQueue direction remaining
    return frame
  | Option.none => throw .inconsistentCorrelationState

def checkedDeadline (now timeout : Nat) : Except AppServerProxyError Nat :=
  match checkedAdd env.lastInstant now timeout with
  | some deadline => .ok deadline
  | Option.none => .error .deadlineOverflow

def release (now : Nat) : ProxyM (Option AppServerProxyFrame) := do
  let proxy ← get
  ensureMonotonicTime proxy now
  match (proxy.queue direction).front with
  | Option.none => do
    modify fun proxy => { proxy with lastObservedTime := some now }
    return Option.none
  | some front =>
    match front.requestIdentity with
    | some requestId => do
      let deadline ← checkedDeadline env now proxy.limits.requestTimeout
      let nextMessages ← increment (proxy.counters.forwardedMessages direction)
      startDeadline direction requestId deadline
      let frame ← popFrame direction
      modify fun proxy => { proxy with
        counters := proxy.counters.setForwarded direction nextMessages
        lastObservedTime := some now }
      return some frame
    | Option.none => do
      let nextMessages ← increment (proxy.counters.forwardedMessages direction)
      let frame ← popFrame direction
      modify fun proxy => { proxy with
        counters := proxy.counters.setForwarded direction nextMessages
        lastObservedTime := some now }
      return some frame

def isExpired (now : Nat) : ActiveRequestState → Bool
  | .queued => false
  | .pending deadline => deadline ≤ now

def expiredDirection (requests : ActiveRequests) (origin : AppServerProxyDirection) (now : Nat) :
    List AppServerExpiredRequest :=
  (requests.toList.filter fun entry => isExpired now entry.2).map fun entry => ⟨origin, entry.1⟩

def ensureUnretired (proxy : TransparentAppServerProxy) :
    List AppServerExpiredRequest → Except AppServerProxyError Unit
  | [] => .ok ()
  | request :: rest =>
    if requestIdDigest env.sha256 request.requestId ∈ proxy.requestHistory request.origin then
      .error .inconsistentCorrelationState
    else
      ensureUnretired proxy rest

def retireAll : List AppServerExpiredRequest → ProxyM Unit
  | [] => pure ()
  | request :: rest => do
    retire env request.origin request.requestId
    retireAll rest

def expireRequests (now : Nat) : ProxyM (List AppServerExpiredRequest) := do
  let proxy ← get
  ensureMonotonicTime proxy now
  let expired := expiredDirection proxy.clientRequests .clientToServer now ++
    expiredDirection proxy.serverRequests .serverToClient now
  let nextExpired ← add proxy.counters.expiredRequests expired.length
  ensureUnretired env proxy expired
  retireAll env expired
  modify fun proxy => { proxy with
    counters := { proxy.counters with expiredRequests := nextExpired }
    lastObservedTime := some now }
  return expired

def close : ProxyM AppServerProxyCloseReport := do
  let proxy ← get
  let ((toServerMessages, toServerBytes), toServer) := proxy.toServer.clear
  let ((toClientMessages, toClientBytes), toClient) := proxy.toClient.clear
  modify fun proxy => { proxy with
    toServer
    toClient
    clientRequests := ∅
    serverRequests := ∅
    clientRequestHistory := ∅
    serverRequestHistory := ∅
    state := .closed }
  return {
    messages := saturatingAdd usizeMax toServerMessages toClientMessages
    bytes := saturatingAdd usizeMax toServerBytes toClientBytes
    requests := saturatingAdd usizeMax proxy.clientRequests.size proxy.serverRequests.size
    requestHistory := saturatingAdd usizeMax proxy.clientRequestHistory.card
      proxy.serverRequestHistory.card }

end Weregopher.Proxy
