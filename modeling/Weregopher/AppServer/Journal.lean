import Weregopher.Lib.OrderedMap
import Weregopher.Proxy.Classify

/-! # The journal of a session

The journal numbers and keeps the last events of a session and gives every request
a token, which its response or expiry carries too. Wire identities are kept as hashes.
-/
namespace Weregopher.AppServer
open Lib Lib.Bytes Lib.Checked Lib.Stateful Proxy

inductive AppServerControlError
  | invalidEventLimits
  | invalidMethod
  | invalidRuleId
  | invalidRuleMessageKind
  | tooManyRules
  | ruleMethodBytesExceeded
  | duplicateRuleId
  | duplicateRuleSelector
  | eventSequenceOverflow
  | correlationSequenceOverflow
  | eventEvictionOverflow
  | inconsistentCorrelationState
  | inconsistentEventState

def absoluteMaxEvents : Nat := 65536

structure AppServerEventLimits where
  events : Nat
  range : 0 < events ∧ events ≤ absoluteMaxEvents

namespace AppServerEventLimits

def new (events : Nat) : Except AppServerControlError AppServerEventLimits :=
  if h : events = 0 ∨ events > absoluteMaxEvents then .error .invalidEventLimits else .ok ⟨events, by omega⟩

def initial : AppServerEventLimits := ⟨2048, by decide⟩

end AppServerEventLimits

def controlMethodBytes : Nat := 1024

def validateMethod (method : String) : Except AppServerControlError Unit :=
  if boundedText controlMethodBytes method then .ok () else .error .invalidMethod

def methodFingerprintDomain : List UInt8 := utf8Bytes "weregopher.app-server-observed-method.v1\x00"

def requestCorrelationDomain : List UInt8 := utf8Bytes "weregopher.app-server-observed-request.v1\x00"

structure AppServerMethodFingerprint where
  digest : Sha256Digest
  byteLength : Nat

def AppServerMethodFingerprint.forMethod (sha256 : Sha256) (method : String) :
    Except AppServerControlError AppServerMethodFingerprint := do
  validateMethod method
  return ⟨sha256 (methodFingerprintDomain ++ utf8Bytes method), method.utf8ByteSize⟩

/-- The journal of a token is the address of its identity, by which tokens are told apart and ordered. -/
structure AppServerCorrelationToken where
  journal : Nat
  sequence : Nat

namespace AppServerCorrelationToken

def orderKey (token : AppServerCorrelationToken) : Nat ×ₗ Nat := toLex (token.journal, token.sequence)

theorem orderKey_injective : Function.Injective orderKey := by
  rintro ⟨_, _⟩ ⟨_, _⟩ h
  cases h
  rfl

instance : LinearOrder AppServerCorrelationToken := LinearOrder.lift' orderKey orderKey_injective

def belongsToSameJournal (token other : AppServerCorrelationToken) : Bool := token.journal = other.journal

end AppServerCorrelationToken

inductive AppServerEventStage
  | accepted
  | forwarded
  | blocked

structure AppServerInterceptRuleId where
  value : UInt32
  nonzero : value ≠ 0

def AppServerInterceptRuleId.new (value : UInt32) : Except AppServerControlError AppServerInterceptRuleId :=
  if h : value = 0 then .error .invalidRuleId else .ok ⟨value, h⟩

structure AppServerRedactedMessage where
  stage : AppServerEventStage
  direction : AppServerProxyDirection
  kind : AppServerProxyMessageKind
  method : Option AppServerMethodFingerprint
  correlation : Option AppServerCorrelationToken
  byteLength : Nat
  blockRule : Option AppServerInterceptRuleId

inductive AppServerEventDetail
  | message (message : AppServerRedactedMessage)
  | requestExpired (origin : AppServerProxyDirection) (correlation : AppServerCorrelationToken)

structure AppServerSessionEvent where
  sequence : Nat
  detail : AppServerEventDetail

def directionCode : AppServerProxyDirection → UInt8
  | .clientToServer => 0
  | .serverToClient => 1

theorem directionCode_injective : Function.Injective directionCode := by
  intro d e h
  cases d <;> cases e <;> first | rfl | exact absurd h (by decide)

structure RequestCorrelationKey where
  origin : AppServerProxyDirection
  digest : Sha256Digest

namespace RequestCorrelationKey

/-- Digests of one length are ordered as the numbers their bytes spell. -/
def orderKey (key : RequestCorrelationKey) : Nat ×ₗ Nat :=
  toLex ((directionCode key.origin).toNat, fromBeBytes key.digest.bytes.toList)

theorem orderKey_injective : Function.Injective orderKey := by
  rintro ⟨origin, ⟨bytes⟩⟩ ⟨origin', ⟨bytes'⟩⟩ h
  obtain ⟨hOrigin, hBytes⟩ := Prod.mk.inj (toLex_inj.mp h)
  have hList : bytes.toList = bytes'.toList := fromBeBytes_injective (by simp) hBytes
  obtain rfl : bytes = bytes' := Vector.toList_inj.mp hList
  obtain rfl : origin = origin' := directionCode_injective (UInt8.toNat_inj.mp hOrigin)
  rfl

instance : LinearOrder RequestCorrelationKey := LinearOrder.lift' orderKey orderKey_injective

end RequestCorrelationKey

/-- The bytes hashed for the identity of a request; the direction is hashed too. -/
def requestKeyPreimage (origin : AppServerProxyDirection) : AppServerRequestId → List UInt8
  | .unsigned value => requestCorrelationDomain ++ directionCode origin :: 0 :: toBeBytes 8 value.toNat
  | .signed value => requestCorrelationDomain ++ directionCode origin :: 1 :: toBeBytes 8 value.toUInt64.toNat
  | .text value =>
    requestCorrelationDomain ++ directionCode origin :: 2 :: (toBeBytes 8 value.utf8ByteSize ++ utf8Bytes value)

variable (sha256 : Sha256)

def requestKeyFromParts (origin : AppServerProxyDirection) (requestId : AppServerRequestId) : RequestCorrelationKey :=
  ⟨origin, sha256 (requestKeyPreimage origin requestId)⟩

variable (observation : AppServerMessageObservation)

def requestKey : Option RequestCorrelationKey :=
  observation.requestId.bind fun requestId =>
    match observation.kind with
    | .request => some (requestKeyFromParts sha256 observation.direction requestId)
    | .successResponse | .errorResponse => some (requestKeyFromParts sha256 observation.direction.opposite requestId)
    | .notification => none

abbrev Correlations := OrderedMap RequestCorrelationKey AppServerCorrelationToken

structure AppServerSessionEventJournal where
  limits : AppServerEventLimits
  identity : Nat
  events : List AppServerSessionEvent
  (evictedEvents lastSequence lastCorrelation : Nat)
  (activeCorrelations pendingResponses : Correlations)

abbrev JournalM := Transition AppServerSessionEventJournal AppServerControlError

namespace AppServerSessionEventJournal

def new (limits : AppServerEventLimits) (identity : Nat) : AppServerSessionEventJournal where
  limits
  identity
  events := []
  evictedEvents := 0
  lastSequence := 0
  lastCorrelation := 0
  activeCorrelations := .empty
  pendingResponses := .empty

def preflightEventSequence (journal : AppServerSessionEventJournal) : Except AppServerControlError Nat :=
  match checkedAdd u64Max journal.lastSequence 1 with
  | none => .error .eventSequenceOverflow
  | some sequence =>
    if journal.events.length = journal.limits.events then
      match checkedAdd u64Max journal.evictedEvents 1 with
      | none => .error .eventEvictionOverflow
      | some _ => .ok sequence
    else .ok sequence

end AppServerSessionEventJournal

def fingerprintObservedMethod : Except AppServerControlError (Option AppServerMethodFingerprint) :=
  match observation.method with
  | none => .ok none
  | some method => some <$> AppServerMethodFingerprint.forMethod sha256 method

/-- Makes room at capacity. The oldest event is gone even where the count then fails. -/
def evictOldest : JournalM Unit := do
  let journal ← get
  if journal.events.length = journal.limits.events then
    match journal.events with
    | [] => throw .inconsistentEventState
    | _ :: rest => do
      modify fun journal => { journal with events := rest }
      match checkedAdd u64Max journal.evictedEvents 1 with
      | none => throw .eventEvictionOverflow
      | some evicted => modify fun journal => { journal with evictedEvents := evicted }

def pushEvent (sequence : Nat) (detail : AppServerEventDetail) : JournalM Unit := do
  evictOldest
  modify fun journal => { journal with events := journal.events ++ [⟨sequence, detail⟩], lastSequence := sequence }

def pushMessage (sequence : Nat) (stage : AppServerEventStage) (observation : AppServerMessageObservation)
    (method : Option AppServerMethodFingerprint) (correlation : Option AppServerCorrelationToken)
    (blockRule : Option AppServerInterceptRuleId) : JournalM Unit :=
  pushEvent sequence (.message {
    stage
    direction := observation.direction
    kind := observation.kind
    method
    correlation
    byteLength := observation.byteLength
    blockRule })

variable (key : RequestCorrelationKey)

def openCorrelation : JournalM AppServerCorrelationToken := do
  let journal ← get
  if (journal.activeCorrelations.find? key).isSome || (journal.pendingResponses.find? key).isSome then
    throw .inconsistentCorrelationState
  match checkedAdd u64Max journal.lastCorrelation 1 with
  | none => throw .correlationSequenceOverflow
  | some sequence => do
    let token : AppServerCorrelationToken := ⟨journal.identity, sequence⟩
    modify fun journal => { journal with
      activeCorrelations := journal.activeCorrelations.insert key token
      lastCorrelation := sequence }
    return token

def completeCorrelation : JournalM (Option AppServerCorrelationToken) := do
  let journal ← get
  match journal.activeCorrelations.find? key with
  | none => return none
  | some token => do
    modify fun journal => { journal with
      activeCorrelations := journal.activeCorrelations.erase key
      pendingResponses := journal.pendingResponses.insert key token }
    if (journal.pendingResponses.find? key).isSome then throw .inconsistentCorrelationState
    return some token

def acceptedCorrelation : JournalM (Option AppServerCorrelationToken) :=
  match observation.kind with
  | .request =>
    match requestKey sha256 observation with
    | none => throw .inconsistentCorrelationState
    | some key => some <$> openCorrelation key
  | .successResponse | .errorResponse =>
    match requestKey sha256 observation with
    | none => pure none
    | some key => completeCorrelation key
  | .notification => pure none

def forwardedCorrelation : JournalM (Option AppServerCorrelationToken) := do
  let journal ← get
  match observation.kind with
  | .request =>
    match (requestKey sha256 observation).bind journal.activeCorrelations.find? with
    | none => throw .inconsistentCorrelationState
    | some token => return some token
  | .successResponse | .errorResponse =>
    match requestKey sha256 observation with
    | none => return none
    | some key => do
      modify fun journal => { journal with pendingResponses := journal.pendingResponses.erase key }
      return journal.pendingResponses.find? key
  | .notification => return none

def recordAccepted : JournalM Unit := do
  let method ← fingerprintObservedMethod sha256 observation
  let journal ← get
  let sequence ← journal.preflightEventSequence
  let correlation ← acceptedCorrelation sha256 observation
  pushMessage sequence .accepted observation method correlation none

def recordForwarded : JournalM Unit := do
  let method ← fingerprintObservedMethod sha256 observation
  let journal ← get
  let sequence ← journal.preflightEventSequence
  let correlation ← forwardedCorrelation sha256 observation
  pushMessage sequence .forwarded observation method correlation none

def recordBlocked (rule : AppServerInterceptRuleId) : JournalM Unit := do
  let method ← fingerprintObservedMethod sha256 observation
  let journal ← get
  let sequence ← journal.preflightEventSequence
  pushMessage sequence .blocked observation method none (some rule)

def expireCorrelation : JournalM AppServerCorrelationToken := do
  let journal ← get
  match journal.activeCorrelations.find? key with
  | none => throw .inconsistentCorrelationState
  | some token => do
    modify fun journal => { journal with activeCorrelations := journal.activeCorrelations.erase key }
    return token

def recordExpired (expired : AppServerExpiredRequest) : JournalM Unit := do
  let journal ← get
  let sequence ← journal.preflightEventSequence
  let correlation ← expireCorrelation (requestKeyFromParts sha256 expired.origin expired.requestId)
  pushEvent sequence (.requestExpired expired.origin correlation)

def nextEvent : JournalM (Option AppServerSessionEvent) := do
  let journal ← get
  match journal.events with
  | [] => return none
  | event :: rest => do
    modify fun journal => { journal with events := rest }
    return some event

def clearCorrelations (journal : AppServerSessionEventJournal) : AppServerSessionEventJournal :=
  { journal with activeCorrelations := .empty, pendingResponses := .empty }

end Weregopher.AppServer
