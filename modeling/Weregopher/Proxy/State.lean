import Weregopher.Proxy.Queue

/-! # The state of the transparent app-server proxy

Both directions have a queue, a map of active requests and a set of retired
identities. The source selects them by direction; so do the accessors here.
-/
namespace Weregopher.Proxy
open Lib.Stateful

inductive AppServerProxyState
  | open
  | closed
  deriving DecidableEq

inductive ActiveRequestState
  | queued
  | pending (deadline : Nat)
  deriving DecidableEq

abbrev ActiveRequests := Std.ExtTreeMap AppServerRequestId ActiveRequestState

namespace ActiveRequests

variable (requests : ActiveRequests) {k : AppServerRequestId} (a : AppServerRequestId)
  (state : ActiveRequestState)

theorem getElem?_insert : (requests.insert k state)[a]? = if k = a then some state else requests[a]? := by
  simp [Std.ExtTreeMap.getElem?_insert]

theorem getElem?_erase : (requests.erase k)[a]? = if k = a then none else requests[a]? := by
  simp [Std.ExtTreeMap.getElem?_erase]

theorem mem_of_getElem? {requests : ActiveRequests} {state : ActiveRequestState} (h : requests[k]? = some state) :
    k ∈ requests := by
  rw [Std.ExtTreeMap.mem_iff_isSome_getElem?, h]
  rfl

theorem size_insert_new (h : k ∉ requests) : (requests.insert k state).size = requests.size + 1 := by
  simp [Std.ExtTreeMap.size_insert, h]

theorem size_insert_old (h : k ∈ requests) : (requests.insert k state).size = requests.size := by
  simp [Std.ExtTreeMap.size_insert, h]

theorem size_erase_add_one (h : k ∈ requests) : (requests.erase k).size + 1 = requests.size := by
  have hSize : requests.size ≠ 0 := by
    intro hZero
    have hEmpty : requests.isEmpty := by simpa [Std.ExtTreeMap.isEmpty_eq_size_beq_zero] using hZero
    simp [Std.ExtTreeMap.isEmpty_iff.mp hEmpty] at h
  simp [Std.ExtTreeMap.size_erase, h]
  omega

end ActiveRequests

structure ProxyCounters where
  acceptedClientMessages : Nat := 0
  acceptedServerMessages : Nat := 0
  acceptedClientBytes : Nat := 0
  acceptedServerBytes : Nat := 0
  forwardedToServerMessages : Nat := 0
  forwardedToClientMessages : Nat := 0
  lateResponses : Nat := 0
  unmatchedResponses : Nat := 0
  expiredRequests : Nat := 0

namespace ProxyCounters

def acceptedMessages (counters : ProxyCounters) : AppServerProxyDirection → Nat
  | .clientToServer => counters.acceptedClientMessages
  | .serverToClient => counters.acceptedServerMessages

def acceptedBytes (counters : ProxyCounters) : AppServerProxyDirection → Nat
  | .clientToServer => counters.acceptedClientBytes
  | .serverToClient => counters.acceptedServerBytes

def forwardedMessages (counters : ProxyCounters) : AppServerProxyDirection → Nat
  | .clientToServer => counters.forwardedToServerMessages
  | .serverToClient => counters.forwardedToClientMessages

def setAccepted (counters : ProxyCounters) (direction : AppServerProxyDirection)
    (messages bytes : Nat) : ProxyCounters :=
  match direction with
  | .clientToServer =>
    { counters with acceptedClientMessages := messages, acceptedClientBytes := bytes }
  | .serverToClient =>
    { counters with acceptedServerMessages := messages, acceptedServerBytes := bytes }

def setForwarded (counters : ProxyCounters) (direction : AppServerProxyDirection)
    (messages : Nat) : ProxyCounters :=
  match direction with
  | .clientToServer => { counters with forwardedToServerMessages := messages }
  | .serverToClient => { counters with forwardedToClientMessages := messages }

variable (counters : ProxyCounters) (d e : AppServerProxyDirection) (messages bytes : Nat)

@[simp] theorem acceptedMessages_setAccepted : (counters.setAccepted d messages bytes).acceptedMessages e =
    if e = d then messages else counters.acceptedMessages e := by cases d <;> cases e <;> rfl

@[simp] theorem forwardedMessages_setAccepted :
    (counters.setAccepted d messages bytes).forwardedMessages e = counters.forwardedMessages e := by
  cases d <;> cases e <;> rfl

@[simp] theorem acceptedMessages_setForwarded :
    (counters.setForwarded d messages).acceptedMessages e = counters.acceptedMessages e := by
  cases d <;> cases e <;> rfl

@[simp] theorem forwardedMessages_setForwarded : (counters.setForwarded d messages).forwardedMessages e =
    if e = d then messages else counters.forwardedMessages e := by cases d <;> cases e <;> rfl

end ProxyCounters

structure TransparentAppServerProxy where
  limits : AppServerProxyLimits
  state : AppServerProxyState
  (toServer toClient : ProxyQueue)
  (clientRequests serverRequests : ActiveRequests)
  (clientRequestHistory serverRequestHistory : Finset Sha256Digest)
  lastObservedTime : Option Nat
  counters : ProxyCounters

namespace TransparentAppServerProxy

def new (limits : AppServerProxyLimits) : TransparentAppServerProxy where
  limits
  state := .open
  toServer := .new .clientToServer limits.toServer
  toClient := .new .serverToClient limits.toClient
  clientRequests := ∅
  serverRequests := ∅
  clientRequestHistory := ∅
  serverRequestHistory := ∅
  lastObservedTime := none
  counters := {}

variable (proxy : TransparentAppServerProxy)

def queue : AppServerProxyDirection → ProxyQueue
  | .clientToServer => proxy.toServer
  | .serverToClient => proxy.toClient

def requests : AppServerProxyDirection → ActiveRequests
  | .clientToServer => proxy.clientRequests
  | .serverToClient => proxy.serverRequests

def requestHistory : AppServerProxyDirection → Finset Sha256Digest
  | .clientToServer => proxy.clientRequestHistory
  | .serverToClient => proxy.serverRequestHistory

def setQueue (direction : AppServerProxyDirection) (queue : ProxyQueue) : TransparentAppServerProxy :=
  match direction with
  | .clientToServer => { proxy with toServer := queue }
  | .serverToClient => { proxy with toClient := queue }

def setRequests (direction : AppServerProxyDirection) (requests : ActiveRequests) : TransparentAppServerProxy :=
  match direction with
  | .clientToServer => { proxy with clientRequests := requests }
  | .serverToClient => { proxy with serverRequests := requests }

def setRequestHistory (direction : AppServerProxyDirection)
    (history : Finset Sha256Digest) : TransparentAppServerProxy :=
  match direction with
  | .clientToServer => { proxy with clientRequestHistory := history }
  | .serverToClient => { proxy with serverRequestHistory := history }

/-- Requests of both directions that are neither completed nor expired. -/
def activeCount : Nat := proxy.clientRequests.size + proxy.serverRequests.size

def trackedCount : Nat := proxy.activeCount + proxy.clientRequestHistory.card + proxy.serverRequestHistory.card

section

variable (proxy : TransparentAppServerProxy) (d e : AppServerProxyDirection) (q : ProxyQueue)

@[simp] theorem queue_setQueue : (proxy.setQueue d q).queue e = if e = d then q else proxy.queue e := by
  cases d <;> cases e <;> rfl

@[simp] theorem requests_setQueue :
    (proxy.setQueue d q).requests e = proxy.requests e := by cases d <;> cases e <;> rfl

@[simp] theorem requestHistory_setQueue : (proxy.setQueue d q).requestHistory e = proxy.requestHistory e := by
  cases d <;> cases e <;> rfl

variable (m : ActiveRequests)

@[simp] theorem queue_setRequests :
    (proxy.setRequests d m).queue e = proxy.queue e := by cases d <;> cases e <;> rfl

@[simp] theorem requests_setRequests :
    (proxy.setRequests d m).requests e = if e = d then m else proxy.requests e := by
  cases d <;> cases e <;> rfl

@[simp] theorem requestHistory_setRequests : (proxy.setRequests d m).requestHistory e = proxy.requestHistory e := by
  cases d <;> cases e <;> rfl

variable (s : Finset Sha256Digest)

@[simp] theorem queue_setRequestHistory :
    (proxy.setRequestHistory d s).queue e = proxy.queue e := by cases d <;> cases e <;> rfl

@[simp] theorem requests_setRequestHistory : (proxy.setRequestHistory d s).requests e = proxy.requests e := by
  cases d <;> cases e <;> rfl

@[simp] theorem requestHistory_setRequestHistory : (proxy.setRequestHistory d s).requestHistory e =
      if e = d then s else proxy.requestHistory e := by cases d <;> cases e <;> rfl

@[simp] theorem limits_setQueue : (proxy.setQueue d q).limits = proxy.limits := by
  cases d <;> rfl

@[simp] theorem limits_setRequests : (proxy.setRequests d m).limits = proxy.limits := by cases d <;> rfl

@[simp] theorem limits_setRequestHistory :
    (proxy.setRequestHistory d s).limits = proxy.limits := by cases d <;> rfl

@[simp] theorem state_setQueue : (proxy.setQueue d q).state = proxy.state := by
  cases d <;> rfl

@[simp] theorem state_setRequests : (proxy.setRequests d m).state = proxy.state := by cases d <;> rfl

@[simp] theorem state_setRequestHistory :
    (proxy.setRequestHistory d s).state = proxy.state := by cases d <;> rfl

@[simp] theorem counters_setQueue : (proxy.setQueue d q).counters = proxy.counters := by cases d <;> rfl

@[simp] theorem counters_setRequests : (proxy.setRequests d m).counters = proxy.counters := by cases d <;> rfl

@[simp] theorem counters_setRequestHistory :
    (proxy.setRequestHistory d s).counters = proxy.counters := by cases d <;> rfl

@[simp] theorem activeCount_setQueue :
    (proxy.setQueue d q).activeCount = proxy.activeCount := by cases d <;> rfl

@[simp] theorem trackedCount_setQueue :
    (proxy.setQueue d q).trackedCount = proxy.trackedCount := by cases d <;> rfl

theorem activeCount_setRequests :
    (proxy.setRequests d m).activeCount + (proxy.requests d).size = proxy.activeCount + m.size := by
  cases d <;> simp only [activeCount, setRequests, requests] <;> omega

theorem trackedCount_setRequests :
    (proxy.setRequests d m).trackedCount + (proxy.requests d).size = proxy.trackedCount + m.size := by
  cases d <;> simp only [trackedCount, activeCount, setRequests, requests] <;> omega

@[simp] theorem activeCount_setRequestHistory :
    (proxy.setRequestHistory d s).activeCount = proxy.activeCount := by cases d <;> rfl

theorem trackedCount_setRequestHistory :
    (proxy.setRequestHistory d s).trackedCount + (proxy.requestHistory d).card =
      proxy.trackedCount + s.card := by
  cases d <;> simp only [trackedCount, activeCount, setRequestHistory, requestHistory] <;> omega

end

end TransparentAppServerProxy

abbrev ProxyM := Transition TransparentAppServerProxy AppServerProxyError

/-- A prepared frame. The constructor asks for the classification of its bytes, which in the
source only preparation can supply. -/
structure AppServerProxyCandidate (env : ProxyEnvironment) where
  preparedLimits : AppServerProxyLimits
  observation : AppServerMessageObservation
  jsonBytes : List UInt8
  prepared : ∃ message, parseAndClassify env jsonBytes preparedLimits = .ok message ∧
    observation = ⟨observation.direction, message.kind, message.method, message.requestId,
      jsonBytes.length⟩

theorem AppServerProxyCandidate.requestId_of_request {env : ProxyEnvironment}
    (candidate : AppServerProxyCandidate env) (hKind : candidate.observation.kind = .request) :
    ∃ requestId, candidate.observation.requestId = some requestId := by
  obtain ⟨message, hMessage, hObservation⟩ := candidate.prepared
  rw [hObservation] at hKind ⊢
  exact requestId_of_parseAndClassify hMessage hKind

end Weregopher.Proxy
