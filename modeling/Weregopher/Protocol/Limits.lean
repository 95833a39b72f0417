import Mathlib

/-! # Negotiated limits of one protocol connection -/
namespace Weregopher.Protocol

structure ProtocolLimits where
  (maxFrameBytes maxGraphNodes : UInt32)
  maxObjectDepth : UInt16
  (maxStringBytes maxInlineBufferBytes maxPendingRequests maxRemoteHandles : UInt32)
  maxOpenStreams : UInt16
  maxListenerCount : UInt32
  deriving DecidableEq

inductive ProtocolLimitError
  | zero (field : String)
  deriving DecidableEq

def validateNonzero (field : String) (value : Nat) : Except ProtocolLimitError Unit :=
  if value = 0 then .error (.zero field) else .ok ()

namespace ProtocolLimits

def secureDefault : ProtocolLimits where
  maxFrameBytes := 4 * 1024 * 1024
  maxGraphNodes := 50000
  maxObjectDepth := 64
  maxStringBytes := 2 * 1024 * 1024
  maxInlineBufferBytes := 256 * 1024
  maxPendingRequests := 1024
  maxRemoteHandles := 10000
  maxOpenStreams := 256
  maxListenerCount := 2048

def validate (limits : ProtocolLimits) : Except ProtocolLimitError Unit := do
  validateNonzero "max_frame_bytes" limits.maxFrameBytes.toNat
  validateNonzero "max_graph_nodes" limits.maxGraphNodes.toNat
  validateNonzero "max_object_depth" limits.maxObjectDepth.toNat
  validateNonzero "max_string_bytes" limits.maxStringBytes.toNat
  validateNonzero "max_inline_buffer_bytes" limits.maxInlineBufferBytes.toNat
  validateNonzero "max_pending_requests" limits.maxPendingRequests.toNat
  validateNonzero "max_remote_handles" limits.maxRemoteHandles.toNat
  validateNonzero "max_open_streams" limits.maxOpenStreams.toNat
  validateNonzero "max_listener_count" limits.maxListenerCount.toNat

end ProtocolLimits

end Weregopher.Protocol
