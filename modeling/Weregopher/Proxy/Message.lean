import Weregopher.Digest
import Weregopher.Lib.Checked

/-! # Directions, identities, limits and frames of the app-server proxy

The limit types carry their range checks. Lengths and counters are natural numbers;
the operations that the source checks for overflow check it here too.
-/
namespace Weregopher.Proxy
open Lib.Bytes Lib.Checked

inductive AppServerProxyDirection
  | clientToServer
  | serverToClient
  deriving DecidableEq

namespace AppServerProxyDirection

def opposite : AppServerProxyDirection → AppServerProxyDirection
  | clientToServer => serverToClient
  | serverToClient => clientToServer

@[simp] theorem opposite_ne (d : AppServerProxyDirection) : d.opposite ≠ d := by
  cases d <;> decide

@[simp] theorem ne_opposite (d : AppServerProxyDirection) : d ≠ d.opposite := by
  cases d <;> decide

end AppServerProxyDirection

inductive AppServerProxyMessageKind
  | request
  | notification
  | successResponse
  | errorResponse
  deriving DecidableEq

inductive AppServerRequestId
  | unsigned (value : UInt64)
  | signed (value : Int64)
  | text (value : String)
  deriving DecidableEq

namespace AppServerRequestId

/-- The derived order of the source: the variants in declaration order, then their values. -/
def orderKey : AppServerRequestId → Nat ×ₗ Int ×ₗ String
  | unsigned value => toLex (0, toLex ((value.toNat : Int), ""))
  | signed value => toLex (1, toLex (value.toInt, ""))
  | text value => toLex (2, toLex (0, value))

theorem orderKey_injective : Function.Injective orderKey := by
  intro a b h
  cases a <;> cases b <;>
    simp_all [orderKey, UInt64.toNat_inj, Int64.toInt_inj]

instance : Ord AppServerRequestId := ⟨compareOn orderKey⟩

instance : Std.TransOrd AppServerRequestId := inferInstanceAs (Std.TransCmp (compareOn orderKey))

instance : Std.LawfulEqOrd AppServerRequestId where
  eq_of_compare h := orderKey_injective (compare_eq_iff_eq.mp h)

end AppServerRequestId

def requestIdDigestDomain : List UInt8 := utf8Bytes "weregopher.app-server-request-id.v1\x00"

/-- The bytes hashed for one identity: the domain, the variant and its value. -/
def requestIdPreimage : AppServerRequestId → List UInt8
  | .unsigned value => requestIdDigestDomain ++ 0 :: toBeBytes 8 value.toNat
  | .signed value => requestIdDigestDomain ++ 1 :: toBeBytes 8 value.toUInt64.toNat
  | .text value =>
    requestIdDigestDomain ++ 2 :: (toBeBytes 8 (min value.utf8ByteSize u64Max) ++ utf8Bytes value)

theorem requestIdPreimage_injective : Function.Injective requestIdPreimage := by
  intro a b h
  have hUnsigned (value : UInt64) : value.toNat < 256 ^ 8 := value.toNat_lt
  cases a <;> cases b <;>
    simp only [requestIdPreimage, List.append_cancel_left_eq, List.cons.injEq] at h
  case unsigned.unsigned m n =>
    exact congrArg _ (UInt64.toNat_inj.mp (toBeBytes_injective (hUnsigned m) (hUnsigned n) h.2))
  case signed.signed m n =>
    have hWord := toBeBytes_injective (hUnsigned m.toUInt64) (hUnsigned n.toUInt64) h.2
    have hValue : m = n := congrArg Int64.ofUInt64 (UInt64.toNat_inj.mp hWord)
    exact congrArg _ hValue
  case text.text s t =>
    -- The length field has a fixed width, so the text itself starts at the same place.
    have hText := (List.append_inj h.2 (by simp)).2
    exact congrArg _ (utf8Bytes_injective hText)
  all_goals exact absurd h.1 (by decide)

def requestIdDigest (sha256 : Sha256) (requestId : AppServerRequestId) : Sha256Digest :=
  sha256 (requestIdPreimage requestId)

inductive SerdeJsonError
  | library (message : String)
  | custom (message : String)
  deriving DecidableEq

inductive AppServerProxyError
  | invalidQueueLimits
  | invalidLineLimit
  | invalidJsonLimits
  | invalidActiveRequestLimit
  | invalidRequestHistoryLimit
  | invalidRequestTimeout
  | closed
  | candidateLimitsMismatch
  | emptyLine
  | embeddedLineBreak
  | lineTooLarge
  | invalidJson (source : SerdeJsonError)
  | topLevelNotObject
  | duplicateObjectKey
  | jsonDepthLimitExceeded
  | jsonNodeLimitExceeded
  | invalidMethod
  | invalidRequestId
  | ambiguousMessageShape
  | queueMessageLimitExceeded (direction : AppServerProxyDirection)
  | queueByteLimitExceeded (direction : AppServerProxyDirection)
  | duplicateRequestId (direction : AppServerProxyDirection)
  | reusedRequestId (direction : AppServerProxyDirection)
  | activeRequestLimitExceeded
  | requestHistoryLimitExceeded
  | responseBeforeRequestForwarded
  | deadlineOverflow
  | nonMonotonicClock
  | inconsistentCorrelationState
  | diagnosticCounterOverflow
  deriving DecidableEq

def absoluteMaxLineBytes : Nat := 16 * 1024 * 1024

def absoluteMaxQueueMessages : Nat := 4096

def absoluteMaxQueueBytes : Nat := 64 * 1024 * 1024

def absoluteMaxJsonDepth : Nat := 128

def absoluteMaxJsonNodes : Nat := 1048576

def absoluteMaxActiveRequests : Nat := 4096

def absoluteMaxRequestHistory : Nat := 1048576

/-- Durations and instants are counted in nanoseconds. -/
def absoluteMaxRequestTimeout : Nat := 24 * 60 * 60 * 1000000000

structure AppServerQueueLimits where
  messages : Nat
  bytes : Nat
  messages_range : 0 < messages ∧ messages ≤ absoluteMaxQueueMessages
  bytes_range : 0 < bytes ∧ bytes ≤ absoluteMaxQueueBytes
  deriving DecidableEq

def AppServerQueueLimits.new (messages bytes : Nat) : Except AppServerProxyError AppServerQueueLimits :=
  if h : messages = 0 ∨ messages > absoluteMaxQueueMessages ∨ bytes = 0 ∨
      bytes > absoluteMaxQueueBytes then
    .error .invalidQueueLimits
  else
    .ok ⟨messages, bytes, by omega, by omega⟩

structure AppServerJsonLimits where
  depth : Nat
  nodes : Nat
  depth_range : 0 < depth ∧ depth ≤ absoluteMaxJsonDepth
  nodes_range : 0 < nodes ∧ nodes ≤ absoluteMaxJsonNodes
  deriving DecidableEq

def AppServerJsonLimits.new (depth nodes : Nat) : Except AppServerProxyError AppServerJsonLimits :=
  if h : depth = 0 ∨ depth > absoluteMaxJsonDepth ∨ nodes = 0 ∨ nodes > absoluteMaxJsonNodes then
    .error .invalidJsonLimits
  else
    .ok ⟨depth, nodes, by omega, by omega⟩

structure AppServerProxyLimits where
  lineBytes : Nat
  (toServer toClient : AppServerQueueLimits)
  json : AppServerJsonLimits
  (activeRequests requestHistory requestTimeout : Nat)
  lineBytes_range : 0 < lineBytes ∧ lineBytes ≤ absoluteMaxLineBytes
  activeRequests_range : 0 < activeRequests ∧ activeRequests ≤ absoluteMaxActiveRequests
  requestHistory_range : activeRequests ≤ requestHistory ∧ requestHistory ≤ absoluteMaxRequestHistory
  requestTimeout_range : 0 < requestTimeout ∧ requestTimeout ≤ absoluteMaxRequestTimeout
  deriving DecidableEq

namespace AppServerProxyLimits

def new (lineBytes : Nat) (toServer toClient : AppServerQueueLimits) (json : AppServerJsonLimits)
    (activeRequests requestHistory requestTimeout : Nat) :
    Except AppServerProxyError AppServerProxyLimits :=
  if hLine : lineBytes = 0 ∨ lineBytes > absoluteMaxLineBytes then
    .error .invalidLineLimit
  else if hActive : activeRequests = 0 ∨ activeRequests > absoluteMaxActiveRequests then
    .error .invalidActiveRequestLimit
  else if hHistory : requestHistory < activeRequests ∨ requestHistory > absoluteMaxRequestHistory then
    .error .invalidRequestHistoryLimit
  else if hTimeout : requestTimeout = 0 ∨ requestTimeout > absoluteMaxRequestTimeout then
    .error .invalidRequestTimeout
  else
    .ok ⟨lineBytes, toServer, toClient, json, activeRequests, requestHistory, requestTimeout,
      by omega, by omega, by omega, by omega⟩

def initial : AppServerProxyLimits where
  lineBytes := 1024 * 1024
  toServer := ⟨256, 8 * 1024 * 1024, by decide, by decide⟩
  toClient := ⟨256, 8 * 1024 * 1024, by decide, by decide⟩
  json := ⟨64, 65536, by decide, by decide⟩
  activeRequests := 1024
  requestHistory := 65536
  requestTimeout := 5 * 60 * 1000000000
  lineBytes_range := by decide
  activeRequests_range := by decide
  requestHistory_range := by decide
  requestTimeout_range := by decide

def queue (limits : AppServerProxyLimits) : AppServerProxyDirection → AppServerQueueLimits
  | .clientToServer => limits.toServer
  | .serverToClient => limits.toClient

end AppServerProxyLimits

structure AppServerMessageObservation where
  direction : AppServerProxyDirection
  kind : AppServerProxyMessageKind
  method : Option String
  requestId : Option AppServerRequestId
  byteLength : Nat

structure AppServerProxyFrame where
  observation : AppServerMessageObservation
  jsonBytes : List UInt8

/-- The identity of a request frame; responses carry the identity of another party's request. -/
def AppServerProxyFrame.requestIdentity (frame : AppServerProxyFrame) : Option AppServerRequestId :=
  if frame.observation.kind = .request then frame.observation.requestId else none

structure AppServerExpiredRequest where
  origin : AppServerProxyDirection
  requestId : AppServerRequestId

end Weregopher.Proxy
