import Weregopher.Lib.Outcome
import Weregopher.Protocol.Message

/-! # The authenticated handshake

The host computes what both sides support and answers a hello with it. The worker does
not repeat the computation: it checks that the answer stays inside its own offer.
-/
namespace Weregopher.Protocol
open Lib.Bytes Lib.Checked Lib.Outcome

structure NonceChallenge where
  bytes : Vector UInt8 32
  bytes_ne : bytes ≠ Vector.replicate 32 0

def nonceProofDomain : List UInt8 := utf8Bytes "weregopher.runtime-protocol.nonce-proof.v1" ++ [0]

def lengthPrefixed (value : List UInt8) : List UInt8 := toLeBytes 8 (min value.length u64Max) ++ value

variable (sha256 : Sha256)

def noncePossessionProof (nonce : NonceChallenge) (runtime : RuntimeId)
    (app : AppInstanceId) (backend : RuntimeBackendIdentity) (peerPid : UInt32) : Vector UInt8 32 :=
  (sha256 (nonceProofDomain ++ nonce.bytes.toList ++ toBeBytes 16 runtime.toNat ++ toBeBytes 16 app.toNat ++
    lengthPrefixed (utf8Bytes backend.id.value) ++ lengthPrefixed (utf8Bytes backend.version) ++
    toLeBytes 4 peerPid.toNat)).bytes

def ProtocolVersionRange.negotiate (range other : ProtocolVersionRange) : Option ProtocolVersion :=
  if range.minimum.major ≠ other.minimum.major then none
  else
    let minimumMinor :=
      if range.minimum.minor > other.minimum.minor then range.minimum.minor else other.minimum.minor
    let maximumMinor :=
      if range.maximum.minor < other.maximum.minor then range.maximum.minor else other.maximum.minor
    if minimumMinor > maximumMinor then none
    else some ⟨range.minimum.major, maximumMinor, range.minimum.major_ne⟩

def ProtocolFeatures.negotiate (features supported : ProtocolFeatures) : ProtocolFeatures where
  calls := features.calls && supported.calls
  cancellation := features.cancellation && supported.cancellation
  events := features.events && supported.events
  creditStreams := features.creditStreams && supported.creditStreams
  syncLane := features.syncLane && supported.syncLane
  sharedBuffers := features.sharedBuffers && supported.sharedBuffers

def ProtocolLimits.negotiate (limits hardCap : ProtocolLimits) : Except ProtocolLimitError ProtocolLimits := do
  limits.validate
  hardCap.validate
  return {
    maxFrameBytes := min limits.maxFrameBytes hardCap.maxFrameBytes
    maxGraphNodes := min limits.maxGraphNodes hardCap.maxGraphNodes
    maxObjectDepth := min limits.maxObjectDepth hardCap.maxObjectDepth
    maxStringBytes := min limits.maxStringBytes hardCap.maxStringBytes
    maxInlineBufferBytes := min limits.maxInlineBufferBytes hardCap.maxInlineBufferBytes
    maxPendingRequests := min limits.maxPendingRequests hardCap.maxPendingRequests
    maxRemoteHandles := min limits.maxRemoteHandles hardCap.maxRemoteHandles
    maxOpenStreams := min limits.maxOpenStreams hardCap.maxOpenStreams
    maxListenerCount := min limits.maxListenerCount hardCap.maxListenerCount }

def RuntimeWelcome.new (session : ProtocolSessionId) (version : ProtocolVersion) (limits : ProtocolLimits)
    (compatibility : Sha256Digest) (heartbeat : HeartbeatPolicy) (features : ProtocolFeatures) :
    Checked RuntimeWelcome :=
  match h : limits.validate with
  | .ok () => .ok ⟨session, version, limits, compatibility, heartbeat, features, h⟩
  | .error source => .error (.limits source)

inductive HandshakeError
  | zeroPeerPid
  | observedPeerPidMismatch (expected actual : UInt32)
  | runtimeIdentityMismatch
  | noCompatibleVersion
  | nonceProofMismatch
  | invalidLimits (source : ProtocolLimitError)
  | invalidWelcome (source : RuntimeProtocolContractError)

structure HostHandshake where
  nonce : NonceChallenge
  expectedPeerPid : UInt32
  runtime : RuntimeId
  app : AppInstanceId
  backend : RuntimeBackendIdentity
  versions : ProtocolVersionRange
  features : ProtocolFeatures
  hardLimits : ProtocolLimits
  session : ProtocolSessionId
  compatibility : Sha256Digest
  heartbeat : HeartbeatPolicy
  peerPid_ne : expectedPeerPid ≠ 0
  limits_valid : hardLimits.validate = .ok ()

def HostHandshake.negotiate (host : HostHandshake) (hello : RuntimeHello)
    (observedPeerPid : UInt32) : Except HandshakeError RuntimeWelcome := do
  if observedPeerPid ≠ host.expectedPeerPid then
    throw (.observedPeerPidMismatch host.expectedPeerPid observedPeerPid)
  if hello.runtime ≠ host.runtime ∨ hello.app ≠ host.app ∨ hello.backend ≠ host.backend then
    throw .runtimeIdentityMismatch
  let expectedProof := noncePossessionProof sha256 host.nonce host.runtime host.app host.backend observedPeerPid
  if hello.nonceProof ≠ expectedProof then throw .nonceProofMismatch
  let version ← okOr .noCompatibleVersion (host.versions.negotiate hello.protocolRange)
  let limits ← (hello.requestedLimits.negotiate host.hardLimits).mapError .invalidLimits
  let features := hello.capabilities.negotiate host.features
  (RuntimeWelcome.new host.session version limits host.compatibility host.heartbeat features).mapError .invalidWelcome

inductive WorkerHandshakeError
  | unsupportedVersion
  | featuresExpanded
  | limitsExpanded
  | invalidLimits (source : ProtocolLimitError)

structure WorkerHandshake where
  versions : ProtocolVersionRange
  offeredFeatures : ProtocolFeatures
  requestedLimits : ProtocolLimits

def featuresAreSubset (selected offered : ProtocolFeatures) : Bool :=
  (!selected.calls || offered.calls) && (!selected.cancellation || offered.cancellation) &&
    (!selected.events || offered.events) && (!selected.creditStreams || offered.creditStreams) &&
    (!selected.syncLane || offered.syncLane) && (!selected.sharedBuffers || offered.sharedBuffers)

namespace WorkerHandshake

def fromHello (hello : RuntimeHello) : WorkerHandshake :=
  ⟨hello.protocolRange, hello.capabilities, hello.requestedLimits⟩

def accept (worker : WorkerHandshake) (welcome : RuntimeWelcome) : Except WorkerHandshakeError Unit := do
  let selected := welcome.version
  if selected.major ≠ worker.versions.minimum.major ∨ selected.minor < worker.versions.minimum.minor ∨
      selected.minor > worker.versions.maximum.minor then
    throw .unsupportedVersion
  if !featuresAreSubset welcome.features worker.offeredFeatures then throw .featuresExpanded
  let bounded ← (welcome.limits.negotiate worker.requestedLimits).mapError .invalidLimits
  if bounded ≠ welcome.limits then throw .limitsExpanded

end WorkerHandshake

/-! ## What is negotiated -/

def ProtocolVersionRange.Contains (range : ProtocolVersionRange) (version : ProtocolVersion) : Prop :=
  version.major = range.minimum.major ∧ range.minimum.minor ≤ version.minor ∧ version.minor ≤ range.maximum.minor

variable {version : ProtocolVersion} {welcome : RuntimeWelcome}

theorem ProtocolVersionRange.negotiate_eq_some {range other : ProtocolVersionRange}
    (h : range.negotiate other = some version) : range.Contains version ∧ other.Contains version ∧
      ∀ candidate, range.Contains candidate → other.Contains candidate → candidate.minor ≤ version.minor := by
  simp only [negotiate, gt_iff_lt, UInt16.lt_iff_toNat_lt] at h
  simp only [Contains, UInt16.le_iff_toNat_le]
  have hOrdered := UInt16.le_iff_toNat_le.mp range.ordered
  have hOther := UInt16.le_iff_toNat_le.mp other.ordered
  rw [ite_eq_iff, or_iff_right (by simp), ite_eq_iff, or_iff_right (by simp), not_not] at h
  obtain ⟨hMajor, hOverlap, hVersion⟩ := h
  cases hVersion
  dsimp only
  refine ⟨⟨rfl, ?_⟩, ⟨hMajor, ?_⟩, ?_⟩
  · split_ifs at hOverlap ⊢ <;> omega
  · split_ifs at hOverlap ⊢ <;> omega
  · rintro candidate ⟨-, -, hRange⟩ ⟨-, -, hUpper⟩
    split_ifs <;> omega

theorem ProtocolVersionRange.exists_negotiate {range other : ProtocolVersionRange} (h : range.Contains version)
    (hOther : other.Contains version) : ∃ chosen, range.negotiate other = some chosen := by
  obtain ⟨hMajor, hLow, hHigh⟩ := h
  obtain ⟨hMajor', hLow', hHigh'⟩ := hOther
  rw [negotiate, if_neg (not_not.mpr (hMajor.symm.trans hMajor'))]
  refine ⟨_, if_neg (UInt16.not_lt.mpr ?_)⟩
  split_ifs <;> exact UInt16.le_trans ‹_› ‹_›

inductive Feature
  | calls
  | cancellation
  | events
  | creditStreams
  | syncLane
  | sharedBuffers

namespace ProtocolFeatures

def has (features : ProtocolFeatures) : Feature → Bool
  | .calls => features.calls
  | .cancellation => features.cancellation
  | .events => features.events
  | .creditStreams => features.creditStreams
  | .syncLane => features.syncLane
  | .sharedBuffers => features.sharedBuffers

def enabled (features : ProtocolFeatures) : Set Feature := {feature | features.has feature = true}

theorem enabled_negotiate (features supported : ProtocolFeatures) :
    (features.negotiate supported).enabled = features.enabled ∩ supported.enabled := by
  apply Set.ext
  intro feature
  cases feature <;> simp [enabled, has, negotiate]

theorem subset_iff {selected offered : ProtocolFeatures} :
    featuresAreSubset selected offered = true ↔ selected.enabled ⊆ offered.enabled := by
  simp only [featuresAreSubset, Bool.and_eq_true, Bool.or_eq_true, Bool.not_eq_true', ← imp_iff_not_or,
    ← Bool.not_eq_true]
  constructor
  · rintro ⟨⟨⟨⟨⟨hCalls, hCancellation⟩, hEvents⟩, hStreams⟩, hLane⟩, hBuffers⟩ feature hFeature
    cases feature with
    | calls => exact hCalls hFeature
    | cancellation => exact hCancellation hFeature
    | events => exact hEvents hFeature
    | creditStreams => exact hStreams hFeature
    | syncLane => exact hLane hFeature
    | sharedBuffers => exact hBuffers hFeature
  · intro h
    exact ⟨⟨⟨⟨⟨@h .calls, @h .cancellation⟩, @h .events⟩, @h .creditStreams⟩, @h .syncLane⟩, @h .sharedBuffers⟩

end ProtocolFeatures

inductive Limit
  | frameBytes
  | graphNodes
  | objectDepth
  | stringBytes
  | inlineBufferBytes
  | pendingRequests
  | remoteHandles
  | openStreams
  | listenerCount

namespace ProtocolLimits

def value (limits : ProtocolLimits) : Limit → Nat
  | .frameBytes => limits.maxFrameBytes.toNat
  | .graphNodes => limits.maxGraphNodes.toNat
  | .objectDepth => limits.maxObjectDepth.toNat
  | .stringBytes => limits.maxStringBytes.toNat
  | .inlineBufferBytes => limits.maxInlineBufferBytes.toNat
  | .pendingRequests => limits.maxPendingRequests.toNat
  | .remoteHandles => limits.maxRemoteHandles.toNat
  | .openStreams => limits.maxOpenStreams.toNat
  | .listenerCount => limits.maxListenerCount.toNat

theorem ext_value {limits other : ProtocolLimits} (h : ∀ limit, limits.value limit = other.value limit) :
    limits = other := by
  obtain ⟨frame, nodes, depth, text, inline, pending, handles, streams, listeners⟩ := limits
  obtain ⟨frame', nodes', depth', text', inline', pending', handles', streams', listeners'⟩ := other
  obtain rfl := UInt32.toNat_inj.mp (h .frameBytes)
  obtain rfl := UInt32.toNat_inj.mp (h .graphNodes)
  obtain rfl := UInt16.toNat_inj.mp (h .objectDepth)
  obtain rfl := UInt32.toNat_inj.mp (h .stringBytes)
  obtain rfl := UInt32.toNat_inj.mp (h .inlineBufferBytes)
  obtain rfl := UInt32.toNat_inj.mp (h .pendingRequests)
  obtain rfl := UInt32.toNat_inj.mp (h .remoteHandles)
  obtain rfl := UInt16.toNat_inj.mp (h .openStreams)
  obtain rfl := UInt32.toNat_inj.mp (h .listenerCount)
  rfl

theorem toNat_min32 (a b : UInt32) : (min a b).toNat = min a.toNat b.toNat := by
  change (if a ≤ b then a else b).toNat = _
  simp only [UInt32.le_iff_toNat_le, min_def]
  split <;> rfl

theorem toNat_min16 (a b : UInt16) : (min a b).toNat = min a.toNat b.toNat := by
  change (if a ≤ b then a else b).toNat = _
  simp only [UInt16.le_iff_toNat_le, min_def]
  split <;> rfl

theorem negotiate_ok {limits hardCap result : ProtocolLimits} :
    limits.negotiate hardCap = .ok result ↔ limits.validate = .ok () ∧ hardCap.validate = .ok () ∧
      ∀ limit, result.value limit = min (limits.value limit) (hardCap.value limit) := by
  rw [negotiate, check_ok, check_ok, pure_ok]
  refine and_congr_right fun _ => and_congr_right fun _ => ?_
  constructor
  · rintro rfl limit
    cases limit <;> simp only [value, toNat_min32, toNat_min16]
  · intro h
    apply ext_value
    intro limit
    rw [h]
    cases limit <;> simp only [value, toNat_min32, toNat_min16]

/-- Limits never end a negotiation: the smaller of two valid ones is valid. -/
theorem exists_negotiate {limits hardCap : ProtocolLimits} (h : limits.validate = .ok ())
    (hCap : hardCap.validate = .ok ()) :
    ∃ result, limits.negotiate hardCap = .ok result ∧ result.validate = .ok () := by
  rw [negotiate, h, hCap]
  refine ⟨_, rfl, ?_⟩
  simp only [validate, validateNonzero, check_ok, ite_error_ok, and_true, toNat_min32, toNat_min16] at *
  omega

end ProtocolLimits

theorem RuntimeWelcome.new_ok {session : ProtocolSessionId} {limits : ProtocolLimits}
    {compatibility : Sha256Digest} {heartbeat : HeartbeatPolicy} {features : ProtocolFeatures}
    (h : RuntimeWelcome.new session version limits compatibility heartbeat features = .ok welcome) :
    welcome.session = session ∧ welcome.version = version ∧ welcome.limits = limits ∧
      welcome.compatibility = compatibility ∧ welcome.heartbeat = heartbeat ∧ welcome.features = features := by
  rw [RuntimeWelcome.new] at h
  split at h
  · cases h
    exact ⟨rfl, rfl, rfl, rfl, rfl, rfl⟩
  · cases h

/-- Everything the host has checked and chosen when it answers. -/
structure Negotiated (sha256 : Sha256) (host : HostHandshake) (hello : RuntimeHello)
    (observedPeerPid : UInt32) (welcome : RuntimeWelcome) : Prop where
  peerPid : observedPeerPid = host.expectedPeerPid
  runtime : hello.runtime = host.runtime
  app : hello.app = host.app
  backend : hello.backend = host.backend
  proof : hello.nonceProof = noncePossessionProof sha256 host.nonce host.runtime host.app host.backend observedPeerPid
  hostRange : host.versions.Contains welcome.version
  workerRange : hello.protocolRange.Contains welcome.version
  highest : ∀ candidate, host.versions.Contains candidate → hello.protocolRange.Contains candidate →
    candidate.minor ≤ welcome.version.minor
  features : welcome.features.enabled = hello.capabilities.enabled ∩ host.features.enabled
  limits : ∀ limit, welcome.limits.value limit = min (hello.requestedLimits.value limit) (host.hardLimits.value limit)

theorem HostHandshake.negotiate_ok {sha256 : Sha256} {host : HostHandshake} {hello : RuntimeHello}
    {observedPeerPid : UInt32} (h : host.negotiate sha256 hello observedPeerPid = .ok welcome) :
    Negotiated sha256 host hello observedPeerPid welcome := by
  simp only [HostHandshake.negotiate, guard_ok, bind_ok, okOr_ok, mapError_ok, ne_eq, not_not, not_or] at h
  obtain ⟨hPid, ⟨hRuntime, hApp, hBackend⟩, hProof, version, hVersion, limits, hLimits, hWelcome⟩ := h
  obtain ⟨-, rfl, rfl, -, -, hFeatures⟩ := RuntimeWelcome.new_ok hWelcome
  obtain ⟨hHost, hWorker, hHighest⟩ := ProtocolVersionRange.negotiate_eq_some hVersion
  refine ⟨hPid, hRuntime, hApp, hBackend, hProof, hHost, hWorker, hHighest, ?_, ?_⟩
  · rw [hFeatures, ProtocolFeatures.enabled_negotiate]
  · exact (ProtocolLimits.negotiate_ok.mp hLimits).2.2

theorem WorkerHandshake.accept_ok {worker : WorkerHandshake} :
    worker.accept welcome = .ok () ↔ worker.versions.Contains welcome.version ∧
      welcome.features.enabled ⊆ worker.offeredFeatures.enabled ∧ worker.requestedLimits.validate = .ok () ∧
      ∀ limit, welcome.limits.value limit ≤ worker.requestedLimits.value limit := by
  simp only [WorkerHandshake.accept, guard_ok, bind_ok, mapError_ok, ProtocolLimits.negotiate_ok, ite_throw_ok,
    Bool.not_eq_true', Bool.not_eq_false, ProtocolFeatures.subset_iff, not_or, ne_eq, not_not, UInt16.not_lt, gt_iff_lt,
    ProtocolVersionRange.Contains, welcome.limits_valid, true_and, pure_ok, and_true]
  refine and_congr_right fun _ => and_congr_right fun _ => ?_
  constructor
  · rintro ⟨bounded, ⟨hValid, hBounded⟩, rfl⟩
    refine ⟨hValid, fun limit => ?_⟩
    have hLimit := hBounded limit
    omega
  · rintro ⟨hValid, hBounded⟩
    refine ⟨welcome.limits, ⟨hValid, fun limit => ?_⟩, rfl⟩
    rw [min_eq_left (hBounded limit)]

theorem handshake_agrees (host : HostHandshake) (hello : RuntimeHello)
    (observedPeerPid : UInt32) (welcome : RuntimeWelcome)
    (hWelcome : host.negotiate sha256 hello observedPeerPid = .ok welcome) :
    (WorkerHandshake.fromHello hello).accept welcome = .ok () ∧
      Negotiated sha256 host hello observedPeerPid welcome := by
  have hNegotiated := HostHandshake.negotiate_ok hWelcome
  refine ⟨WorkerHandshake.accept_ok.mpr ⟨hNegotiated.workerRange, ?_, hello.limits_valid, ?_⟩, hNegotiated⟩
  · rw [hNegotiated.features]
    exact Set.inter_subset_left
  · intro limit
    rw [hNegotiated.limits]
    exact min_le_left _ _

namespace Sample

def backend : RuntimeBackendIdentity := ⟨⟨"node", by decide⟩, "24", by decide⟩

def proof : Sha256Digest := .ofNat 0x2f9f439cfbebfb4c030c917b78faa0da6a5267ef6a6f3d812a6ba88b0f0821e0

def host : HostHandshake where
  nonce := ⟨Vector.replicate 32 1, by decide⟩
  expectedPeerPid := 7
  runtime := 1
  app := 2
  backend := backend
  versions := ⟨⟨1, 0, by decide⟩, ⟨1, 3, by decide⟩, rfl, by decide⟩
  features := ⟨true, true, true, true, false, false⟩
  hardLimits := .secureDefault
  session := 3
  compatibility := proof
  heartbeat := ⟨1000, 5000, by decide, by decide, by decide⟩
  peerPid_ne := by decide
  limits_valid := rfl

def hello : RuntimeHello where
  runtime := 1
  app := 2
  backend := backend
  protocolRange := ⟨⟨1, 2, by decide⟩, ⟨1, 9, by decide⟩, rfl, by decide⟩
  nonceProof := proof.bytes
  capabilities := ⟨true, true, true, false, true, false⟩
  requestedLimits := { ProtocolLimits.secureDefault with maxOpenStreams := 16 }
  nonceProof_ne := by decide
  limits_valid := rfl

theorem sample_handshake_agrees :
    ∃ welcome, host.negotiate (fun _ => proof) hello 7 = .ok welcome ∧
      (WorkerHandshake.fromHello hello).accept welcome = .ok () ∧ welcome.version.minor = 3 := by
  have hAccepted : (host.negotiate (fun _ => proof) hello 7).toOption.map
      (·.version.minor) = some 3 := by decide +kernel
  cases hResult : host.negotiate (fun _ => proof) hello 7 with
  | error error =>
    rw [hResult] at hAccepted
    cases hAccepted
  | ok welcome =>
    rw [hResult] at hAccepted
    refine ⟨welcome, rfl, ?_, Option.some.inj hAccepted⟩
    exact (handshake_agrees (fun _ => proof) host hello 7 welcome hResult).1

end Sample

theorem hello_answered_iff (host : HostHandshake) (hello : RuntimeHello) (observedPeerPid : UInt32) :
    (∃ welcome, host.negotiate sha256 hello observedPeerPid = .ok welcome) ↔
      observedPeerPid = host.expectedPeerPid ∧
        (hello.runtime = host.runtime ∧ hello.app = host.app ∧ hello.backend = host.backend) ∧
        hello.nonceProof = noncePossessionProof sha256 host.nonce host.runtime host.app host.backend observedPeerPid ∧
        ∃ version, host.versions.Contains version ∧ hello.protocolRange.Contains version := by
  simp only [HostHandshake.negotiate, guard_ok, bind_ok, okOr_ok, mapError_ok, ne_eq, not_not, not_or]
  constructor
  · rintro ⟨_, hPid, hIdentity, hProof, version, hVersion, -⟩
    obtain ⟨hHost, hWorker, -⟩ := ProtocolVersionRange.negotiate_eq_some hVersion
    exact ⟨hPid, hIdentity, hProof, version, hHost, hWorker⟩
  · rintro ⟨hPid, hIdentity, hProof, _, hHost, hWorker⟩
    obtain ⟨version, hVersion⟩ := ProtocolVersionRange.exists_negotiate hHost hWorker
    obtain ⟨limits, hLimits, hValid⟩ := ProtocolLimits.exists_negotiate hello.limits_valid host.limits_valid
    refine Exists.imp (fun _ hWelcome => ⟨hPid, hIdentity, hProof, version, hVersion, limits, hLimits, hWelcome⟩) ?_
    unfold RuntimeWelcome.new
    split
    · exact ⟨_, rfl⟩
    · simp_all

end Weregopher.Protocol
