import Weregopher.Protocol.Validate

/-! # The messages of the runtime protocol

Types whose constructors validate carry what they validate. Calls, results,
failures, events and stream data depend on negotiated limits and are validated
again.
-/
namespace Weregopher.Protocol
open Lib.MsgPack Value

structure ProtocolVersion where
  (major minor : UInt16)
  major_ne : major ≠ 0

def ProtocolVersion.new (major minor : UInt16) : Checked ProtocolVersion :=
  if h : major = 0 then .error .zeroProtocolMajor else .ok ⟨major, minor, h⟩

def ProtocolVersion.toMsgPack (version : ProtocolVersion) : Value :=
  record [("major", u16ToMsgPack version.major), ("minor", u16ToMsgPack version.minor)]

structure ProtocolVersionRange where
  (minimum maximum : ProtocolVersion)
  same_major : minimum.major = maximum.major
  ordered : minimum.minor ≤ maximum.minor

def ProtocolVersionRange.toMsgPack (range : ProtocolVersionRange) : Value :=
  record [("minimum", range.minimum.toMsgPack), ("maximum", range.maximum.toMsgPack)]

structure RuntimeBackendIdentity where
  id : RuntimeBackendId
  version : String
  valid : validateText "runtime backend version" version 128 = .ok ()
  deriving DecidableEq

def RuntimeBackendIdentity.toMsgPack (backend : RuntimeBackendIdentity) : Value :=
  record [("id", text backend.id.value), ("version", text backend.version)]

structure ProtocolFeatures where
  (calls cancellation events creditStreams syncLane sharedBuffers : Bool)

def ProtocolFeatures.toMsgPack (features : ProtocolFeatures) : Value :=
  record [("calls", boolean features.calls), ("cancellation", boolean features.cancellation),
    ("events", boolean features.events), ("credit_streams", boolean features.creditStreams),
    ("sync_lane", boolean features.syncLane), ("shared_buffers", boolean features.sharedBuffers)]

def ProtocolLimits.toMsgPack (limits : ProtocolLimits) : Value :=
  record [("max_frame_bytes", u32ToMsgPack limits.maxFrameBytes),
    ("max_graph_nodes", u32ToMsgPack limits.maxGraphNodes),
    ("max_object_depth", u16ToMsgPack limits.maxObjectDepth),
    ("max_string_bytes", u32ToMsgPack limits.maxStringBytes),
    ("max_inline_buffer_bytes", u32ToMsgPack limits.maxInlineBufferBytes),
    ("max_pending_requests", u32ToMsgPack limits.maxPendingRequests),
    ("max_remote_handles", u32ToMsgPack limits.maxRemoteHandles),
    ("max_open_streams", u16ToMsgPack limits.maxOpenStreams),
    ("max_listener_count", u32ToMsgPack limits.maxListenerCount)]

structure RuntimeHello where
  runtime : RuntimeId
  app : AppInstanceId
  backend : RuntimeBackendIdentity
  protocolRange : ProtocolVersionRange
  nonceProof : Vector UInt8 32
  capabilities : ProtocolFeatures
  requestedLimits : ProtocolLimits
  nonceProof_ne : nonceProof ≠ Vector.replicate 32 0
  limits_valid : requestedLimits.validate = .ok ()

def RuntimeHello.toMsgPack (hello : RuntimeHello) : Value :=
  record [("runtime", uuidToMsgPack hello.runtime), ("app", uuidToMsgPack hello.app),
    ("backend", hello.backend.toMsgPack), ("protocol_range", hello.protocolRange.toMsgPack),
    ("nonce_proof", sequence (hello.nonceProof.toList.map fun byte => Value.integer byte.toNat)),
    ("capabilities", hello.capabilities.toMsgPack), ("requested_limits", hello.requestedLimits.toMsgPack)]

structure HeartbeatPolicy where
  (intervalMillis timeoutMillis : UInt32)
  nonzero : intervalMillis ≠ 0 ∧ timeoutMillis ≠ 0
  ordered : intervalMillis ≤ timeoutMillis
  timeout_le : timeoutMillis ≤ 60000

def HeartbeatPolicy.toMsgPack (policy : HeartbeatPolicy) : Value :=
  record [("interval_millis", u32ToMsgPack policy.intervalMillis),
    ("timeout_millis", u32ToMsgPack policy.timeoutMillis)]

structure RuntimeWelcome where
  session : ProtocolSessionId
  version : ProtocolVersion
  limits : ProtocolLimits
  compatibility : Sha256Digest
  heartbeat : HeartbeatPolicy
  features : ProtocolFeatures
  limits_valid : limits.validate = .ok ()

def RuntimeWelcome.toMsgPack (welcome : RuntimeWelcome) : Value :=
  record [("session", uuidToMsgPack welcome.session), ("version", welcome.version.toMsgPack),
    ("limits", welcome.limits.toMsgPack), ("compatibility", digestToMsgPack welcome.compatibility),
    ("heartbeat", welcome.heartbeat.toMsgPack), ("features", welcome.features.toMsgPack)]

inductive ProtocolRejectCode
  | versionMismatch
  | identityMismatch
  | peerRejected
  | nonceRejected
  | limitsRejected
  | featuresRejected
  | malformedHandshake

def ProtocolRejectCode.toMsgPack : ProtocolRejectCode → Value
  | versionMismatch => text "version_mismatch"
  | identityMismatch => text "identity_mismatch"
  | peerRejected => text "peer_rejected"
  | nonceRejected => text "nonce_rejected"
  | limitsRejected => text "limits_rejected"
  | featuresRejected => text "features_rejected"
  | malformedHandshake => text "malformed_handshake"

structure ProtocolReject where
  code : ProtocolRejectCode
  detail : String
  valid : validateText "protocol rejection detail" detail 512 = .ok ()

def ProtocolReject.toMsgPack (reject : ProtocolReject) : Value :=
  record [("code", reject.code.toMsgPack), ("detail", text reject.detail)]

structure OriginIdentity where
  serialized : String
  isOpaque : Bool
  deriving DecidableEq

def OriginIdentity.toMsgPack (origin : OriginIdentity) : Value :=
  record [("serialized", text origin.serialized), ("opaque", boolean origin.isOpaque)]

structure FrameIdentity where
  renderer : RendererId
  frameId : UInt64
  generation : UInt32
  parentFrameId : Option UInt64
  origin : OriginIdentity
  isMainFrame : Bool
  deriving DecidableEq

def FrameIdentity.toMsgPack (frame : FrameIdentity) : Value :=
  record [("renderer", u64ToMsgPack frame.renderer), ("frame_id", u64ToMsgPack frame.frameId),
    ("generation", u32ToMsgPack frame.generation),
    ("parent_frame_id", optional u64ToMsgPack frame.parentFrameId),
    ("origin", frame.origin.toMsgPack), ("is_main_frame", boolean frame.isMainFrame)]

inductive ScriptWorldKind
  | main
  | preloadIsolated
  | adapterIsolated
  | backendSpecific (kind : String)

def ScriptWorldKind.toMsgPack : ScriptWorldKind → Value
  | main => text "main"
  | preloadIsolated => text "preload_isolated"
  | adapterIsolated => text "adapter_isolated"
  | backendSpecific kind => record [("backend_specific", text kind)]

structure WorldIdentity where
  frame : FrameIdentity
  worldId : UInt64
  generation : UInt32
  kind : ScriptWorldKind

def WorldIdentity.toMsgPack (world : WorldIdentity) : Value :=
  record [("frame", world.frame.toMsgPack), ("world_id", u64ToMsgPack world.worldId),
    ("generation", u32ToMsgPack world.generation), ("kind", world.kind.toMsgPack)]

structure CallAuthority where
  capability : Option CapabilityGrantId
  userActivation : Option UserActivationId

def CallAuthority.toMsgPack (authority : CallAuthority) : Value :=
  record [("capability", optional uuidToMsgPack authority.capability),
    ("user_activation", optional uuidToMsgPack authority.userActivation)]

structure CallContext where
  app : AppInstanceId
  renderer : Option RendererId
  frame : Option FrameIdentity
  world : Option WorldIdentity
  authority : CallAuthority
  deadlineMs : Option UInt32
  traceParent : Option TraceId

variable (context : CallContext)

def CallContext.toMsgPack : Value :=
  record [("app", uuidToMsgPack context.app), ("renderer", optional u64ToMsgPack context.renderer),
    ("frame", optional FrameIdentity.toMsgPack context.frame),
    ("world", optional WorldIdentity.toMsgPack context.world),
    ("authority", context.authority.toMsgPack), ("deadline_ms", optional u32ToMsgPack context.deadlineMs),
    ("trace_parent", optional uuidToMsgPack context.traceParent)]

def validateDeadline : Option UInt32 → Checked Unit
  | none => .ok ()
  | some deadline =>
    if deadline = 0 then .error .zeroCallDeadline
    else if deadline > 600000 then .error .callDeadlineExceeded
    else .ok ()

def validateFrame (limits : ProtocolLimits) : Checked Unit :=
  match context.renderer, context.frame with
  | _, none => .ok ()
  | none, some _ => .error .frameWithoutRenderer
  | some renderer, some frame =>
    if renderer ≠ frame.renderer then .error .frameRendererMismatch
    else validateText "frame origin" frame.origin.serialized limits.maxStringBytes.toNat

def validateWorld (limits : ProtocolLimits) : Checked Unit :=
  match context.world with
  | none => .ok ()
  | some world =>
    match context.frame with
    | none => .error .worldWithoutFrame
    | some frame =>
      if world.frame ≠ frame then .error .worldFrameMismatch
      else
        match world.kind with
        | .backendSpecific kind =>
          validateText "backend-specific world kind" kind limits.maxStringBytes.toNat
        | _ => .ok ()

def validateCallContext (limits : ProtocolLimits) : Checked Unit := do
  validateDeadline context.deadlineMs
  validateFrame context limits
  validateWorld context limits

inductive CallTarget
  | service (name : String)
  | object (handle : ObjectHandle)
  | runtime (runtime : RuntimeId)

namespace CallTarget

def toMsgPack : CallTarget → Value
  | service name => tagged "service" [("name", text name)]
  | object handle => tagged "object" [("handle", handle.toMsgPack)]
  | runtime id => tagged "runtime" [("runtime", uuidToMsgPack id)]

def validate (target : CallTarget) (limits : ProtocolLimits) (expectedApp : AppInstanceId) : Checked Unit :=
  match target with
  | service name => validateText "call service" name (min limits.maxStringBytes.toNat 255)
  | object handle => if handle.app ≠ expectedApp then .error .crossApplicationHandle else .ok ()
  | runtime _ => .ok ()

/-- What deserialization checks of a target: a service is rebuilt by its constructor. -/
def rebuild : CallTarget → Checked Unit
  | service name => validateText "call service" name 255
  | object _ | runtime _ => .ok ()

def ofService (name : String) : Checked CallTarget := do
  rebuild (.service name)
  return .service name

end CallTarget

structure RuntimeCall where
  target : CallTarget
  method : String
  args : List WireValue
  context : CallContext

namespace RuntimeCall

def toMsgPack (call : RuntimeCall) : Value :=
  record [("target", call.target.toMsgPack), ("method", text call.method),
    ("args", sequence (valuesToMsgPack call.args)), ("context", call.context.toMsgPack)]

def validate (call : RuntimeCall) (limits : ProtocolLimits) : Checked Unit := do
  checkLimits limits
  call.target.validate limits call.context.app
  validateText "call method" call.method limits.maxStringBytes.toNat
  validateCallContext call.context limits
  let _ ← validateWireValueGraphForApp call.args limits call.context.app
  return ()

def new (target : CallTarget) (method : String) (args : List WireValue) (context : CallContext)
    (limits : ProtocolLimits) : Checked RuntimeCall := do
  let call : RuntimeCall := ⟨target, method, args, context⟩
  call.validate limits
  return call

end RuntimeCall

structure RuntimeCallResult where
  value : WireValue

namespace RuntimeCallResult

def toMsgPack (result : RuntimeCallResult) : Value := record [("value", result.value.toMsgPack)]

def validate (result : RuntimeCallResult) (limits : ProtocolLimits) : Checked Unit := do
  let _ ← validateWireValueGraph [result.value] limits
  return ()

end RuntimeCallResult

structure RuntimeCallError where
  error : WireError

namespace RuntimeCallError

def toMsgPack (failure : RuntimeCallError) : Value := record [("error", failure.error.toMsgPack)]

def validate (failure : RuntimeCallError) (limits : ProtocolLimits) : Checked Unit := do
  let _ ← validateWireValueGraph [failure.error.toWireValue] limits
  return ()

end RuntimeCallError

structure RuntimeCancel where
  requestId : UInt64
  requestId_ne : requestId ≠ 0

def RuntimeCancel.toMsgPack (cancel : RuntimeCancel) : Value :=
  record [("request_id", u64ToMsgPack cancel.requestId)]

structure RuntimeEvent where
  name : String
  args : List WireValue

namespace RuntimeEvent

def toMsgPack (event : RuntimeEvent) : Value :=
  record [("name", text event.name), ("args", sequence (valuesToMsgPack event.args))]

def validate (event : RuntimeEvent) (limits : ProtocolLimits) : Checked Unit := do
  validateText "event name" event.name limits.maxStringBytes.toNat
  let _ ← validateWireValueGraph event.args limits
  return ()

end RuntimeEvent

structure RuntimeStreamOpen where
  stream : OpaqueHandle
  initialCredit : UInt64
  credit_ne : initialCredit ≠ 0

def RuntimeStreamOpen.toMsgPack (streamOpen : RuntimeStreamOpen) : Value :=
  record [("stream", streamOpen.stream.toMsgPack), ("initial_credit", u64ToMsgPack streamOpen.initialCredit)]

structure RuntimeStreamWindow where
  stream : OpaqueHandle
  additionalCredit : UInt64
  credit_ne : additionalCredit ≠ 0

def RuntimeStreamWindow.toMsgPack (window : RuntimeStreamWindow) : Value :=
  record [("stream", window.stream.toMsgPack), ("additional_credit", u64ToMsgPack window.additionalCredit)]

structure RuntimeStreamData where
  stream : OpaqueHandle
  sequence : UInt64
  bytes : List UInt8

namespace RuntimeStreamData

def toMsgPack (data : RuntimeStreamData) : Value :=
  record [("stream", data.stream.toMsgPack), ("sequence", u64ToMsgPack data.sequence),
    ("bytes", binary data.bytes)]

def validate (data : RuntimeStreamData) (limits : ProtocolLimits) : Checked Unit := do
  checkLimits limits
  if data.sequence = 0 then throw .zeroStreamSequence
  if data.bytes = [] then throw .emptyStreamData
  validateInlineBytes data.bytes limits.maxInlineBufferBytes.toNat

end RuntimeStreamData

inductive RuntimeShutdownReason
  | applicationExit
  | hostShutdown
  | workerShutdown
  | policyRevoked

def RuntimeShutdownReason.toMsgPack : RuntimeShutdownReason → Value
  | applicationExit => text "application_exit"
  | hostShutdown => text "host_shutdown"
  | workerShutdown => text "worker_shutdown"
  | policyRevoked => text "policy_revoked"

structure RuntimeShutdown where
  reason : RuntimeShutdownReason

def RuntimeShutdown.toMsgPack (shutdown : RuntimeShutdown) : Value := record [("reason", shutdown.reason.toMsgPack)]

end Weregopher.Protocol
