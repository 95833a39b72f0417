import Weregopher.Protocol.Budget
import Weregopher.Protocol.Message

/-! # Every handle of a validated call belongs to its application

The places of a call where a remote handle can stand are listed position by position,
independently of what the validator walks through.
-/
namespace Weregopher.Protocol
open Lib.Outcome WireValue

inductive RemoteHandle
  | object (value : ObjectHandle)
  | function (value : OpaqueHandle)
  | promise (value : OpaqueHandle)
  | messagePort (value : OpaqueHandle)
  | sharedBuffer (value : OpaqueHandle)
  | stream (value : OpaqueHandle)

def RemoteHandle.app : RemoteHandle → AppInstanceId
  | object value => value.app
  | function value | promise value | messagePort value | sharedBuffer value | stream value => value.app

inductive Within : WireValue → WireValue → Prop
  | self (value : WireValue) : Within value value
  | arrayItem {values : List WireValue} {item value : WireValue} :
      item ∈ values → Within item value → Within (.array values) value
  | objectEntry {entries : List (String × WireValue)} {key : String} {item value : WireValue} :
      (key, item) ∈ entries → Within item value → Within (.object entries) value
  | errorCause {name message : String} {stack code kind : Option String} {cause value : WireValue}
      {data : List (String × WireValue)} :
      Within cause value → Within (.error name message stack code kind (some cause) data) value
  | errorData {name message : String} {stack code kind : Option String} {cause : Option WireValue}
      {data : List (String × WireValue)} {key : String} {item value : WireValue} :
      (key, item) ∈ data → Within item value → Within (.error name message stack code kind cause data) value

inductive Carries : WireValue → RemoteHandle → Prop
  | handle (value : ObjectHandle) : Carries (.handle value) (.object value)
  | function (value : OpaqueHandle) : Carries (.function value) (.function value)
  | promise (value : OpaqueHandle) : Carries (.promise value) (.promise value)
  | messagePort (value : OpaqueHandle) : Carries (.messagePort value) (.messagePort value)
  | shared (arrayKind : TypedArrayKind) (byteOffset elementCount : UInt64) (value : OpaqueHandle) :
      Carries (.typedArray arrayKind byteOffset elementCount (.shared value)) (.sharedBuffer value)
  | stream (arrayKind : TypedArrayKind) (byteOffset elementCount : UInt64) (value : OpaqueHandle) :
      Carries (.typedArray arrayKind byteOffset elementCount (.stream value)) (.stream value)

inductive RuntimeCall.Reaches (call : RuntimeCall) : RemoteHandle → Prop
  | target {value : ObjectHandle} : call.target = .object value → Reaches call (.object value)
  | argument {argument value : WireValue} {handle : RemoteHandle} :
      argument ∈ call.args → Within argument value → Carries value handle → Reaches call handle

variable {handle : RemoteHandle} {value root : WireValue} {limits : ProtocolLimits} {app : AppInstanceId}
  {context : CallContext}

theorem Carries.app_mem_owners (h : Carries value handle) : handle.app ∈ value.owners := by
  cases h <;> exact List.mem_singleton_self _

theorem Within.passes {expectedApp : Option AppInstanceId}
    (h : Within root value) (hRoot : root.Passes limits expectedApp) : value.Passes limits expectedApp := by
  induction h with
  | self value => exact hRoot
  | arrayItem hItem _ ih =>
    apply ih
    exact (passes_iff.mp hRoot).2 _ hItem
  | objectEntry hEntry _ ih =>
    apply ih
    exact (passes_iff.mp hRoot).2 _ (List.mem_map_of_mem hEntry)
  | errorCause _ ih =>
    apply ih
    exact (passes_iff.mp hRoot).2 _ (List.mem_append_left _ (List.mem_singleton_self _))
  | errorData hEntry _ ih =>
    apply ih
    exact (passes_iff.mp hRoot).2 _ (List.mem_append_right _ (List.mem_map_of_mem hEntry))

theorem Carries.app_eq (hRoot : root.Passes limits (some app)) (hWithin : Within root value)
    (hCarries : Carries value handle) : handle.app = app := by
  have hAlone := (passes_iff.mp (hWithin.passes hRoot)).1
  exact hAlone.owned _ hCarries.app_mem_owners app rfl

theorem validateFrame_renderer {frame : FrameIdentity}
    (h : validateFrame context limits = .ok ()) (hFrame : context.frame = some frame) :
    context.renderer = some frame.renderer := by
  rw [validateFrame, hFrame] at h
  cases hRenderer : context.renderer with
  | none => simp [hRenderer] at h
  | some renderer =>
    simp only [hRenderer, ite_error_ok, ne_eq, not_not] at h
    rw [h.1]

theorem validateWorld_frame {world : WorldIdentity}
    (h : validateWorld context limits = .ok ()) (hWorld : context.world = some world) :
    context.frame = some world.frame := by
  rw [validateWorld, hWorld] at h
  cases hFrame : context.frame with
  | none => simp [hFrame] at h
  | some frame =>
    simp only [hFrame, ite_error_ok, ne_eq, not_not] at h
    rw [h.1]

theorem CallTarget.validate_owner {value : ObjectHandle}
    (h : (CallTarget.object value).validate limits app = .ok ()) : value.app = app := by
  rw [CallTarget.validate, ite_error_ok, ne_eq, not_not] at h
  exact h.1

theorem RuntimeCall.validate_ok {call : RuntimeCall} (h : call.validate limits = .ok ()) :
    call.target.validate limits call.context.app = .ok () ∧ validateFrame call.context limits = .ok () ∧
      validateWorld call.context limits = .ok () ∧ GraphFits limits (some call.context.app) call.args := by
  rw [RuntimeCall.validate, check_ok, check_ok, check_ok, check_ok, bind_ok, validateCallContext, check_ok,
    check_ok] at h
  obtain ⟨-, hTarget, -, ⟨-, hFrame, hWorld⟩, budget, hGraph, -⟩ := h
  exact ⟨hTarget, hFrame, hWorld, ((validateWireValueGraphWithApp_ok _ _ _ budget).mp hGraph).2.1⟩

/-- A validated call reaches only handles of its own application, and its context is nested properly. -/
theorem RuntimeCall.validated_handles_owned (call : RuntimeCall) (limits : ProtocolLimits)
    (h : call.validate limits = .ok ()) :
    (∀ handle, call.Reaches handle → handle.app = call.context.app) ∧
      (∀ frame, call.context.frame = some frame → call.context.renderer = some frame.renderer) ∧
      (∀ world, call.context.world = some world → call.context.frame = some world.frame) := by
  obtain ⟨hTarget, hFrame, hWorld, hGraph⟩ := RuntimeCall.validate_ok h
  refine ⟨?_, fun _ => validateFrame_renderer hFrame, fun _ => validateWorld_frame hWorld⟩
  intro handle hReaches
  cases hReaches with
  | target hObject =>
    rw [hObject] at hTarget
    exact CallTarget.validate_owner hTarget
  | argument hArgument hWithin hCarries => exact hCarries.app_eq (hGraph.passes _ hArgument) hWithin

def sampleCall : RuntimeCall :=
  let frame : FrameIdentity := ⟨4, 1, 1, none, ⟨"https://localhost", false⟩, true⟩
  { target := .object ⟨2, 7, 1, .webContents⟩
    method := "send"
    args := [.array [.error "Error" "m" none none none none
      [("storage", .typedArray .uint8 0 16 (.stream ⟨2, 9, 1⟩))]]]
    context := ⟨2, some 4, some frame, some ⟨frame, 1, 1, .main⟩, ⟨none, none⟩, some 1000, none⟩ }

theorem sampleCall_handles_owned :
    sampleCall.validate .secureDefault = .ok () ∧ sampleCall.Reaches (.stream ⟨2, 9, 1⟩) ∧
      ∀ handle, sampleCall.Reaches handle → handle.app = 2 := by
  have hValid : sampleCall.validate .secureDefault = .ok () := by decide +kernel
  refine ⟨hValid, ?_, (RuntimeCall.validated_handles_owned sampleCall .secureDefault hValid).1⟩
  apply RuntimeCall.Reaches.argument (List.mem_singleton_self _)
  · apply Within.arrayItem (List.mem_singleton_self _)
    apply Within.errorData (List.mem_singleton_self _)
    exact Within.self _
  · exact Carries.stream .uint8 0 16 ⟨2, 9, 1⟩

end Weregopher.Protocol
