import Weregopher.AppServer.Journal
import Weregopher.Lib.Custody

/-! # Owned resources and their execution identities

A registry keeps labels of resources under the thread, turn and item they belong
to. Completing a scope hands back the labels within it, closing the session all.
-/
namespace Weregopher.AppServer
open Lib Lib.Stateful Proxy

inductive AppServerOwnershipError
  | invalidLimits
  | invalidExecutionId
  | invalidIdentityHierarchy
  | invalidResourceId
  | duplicateCorrelation
  | foreignJournal
  | correlationLimitExceeded
  | duplicateResource
  | resourceLimitExceeded
  | unknownCorrelation
  | appScopeRequiresSessionClose

def maxExecutionIdBytes : Nat := 256

def validateExecutionId (value : String) : Except AppServerOwnershipError Unit :=
  if boundedText maxExecutionIdBytes value then .ok () else .error .invalidExecutionId

/-- A turn stands in a thread and an item in a turn. -/
structure CodexExecutionIdentity where
  (thread turn item : Option String)
  bounded : ([thread, turn, item].filterMap id).forM validateExecutionId = .ok ()
  turn_thread : turn.isSome = true → thread.isSome = true
  item_turn : item.isSome = true → thread.isSome = true ∧ turn.isSome = true

namespace CodexExecutionIdentity

def new (thread turn item : Option String) : Except AppServerOwnershipError CodexExecutionIdentity :=
  match h : ([thread, turn, item].filterMap id).forM validateExecutionId with
  | .error error => .error error
  | .ok () =>
    if hHierarchy : turn.isSome ∧ thread.isNone ∨ item.isSome ∧ (thread.isNone ∨ turn.isNone) then
      .error .invalidIdentityHierarchy
    else
      .ok ⟨thread, turn, item, h, by cases thread <;> cases turn <;> simp_all,
        by cases thread <;> cases turn <;> cases item <;> simp_all⟩

def isAppScoped (identity : CodexExecutionIdentity) : Bool := identity.thread.isNone

end CodexExecutionIdentity

def absoluteMaxCorrelations : Nat := 65536

def absoluteMaxResources : Nat := 65536

structure AppServerOwnershipLimits where
  correlations : Nat
  resources : Nat
  correlations_range : 0 < correlations ∧ correlations ≤ absoluteMaxCorrelations
  resources_range : 0 < resources ∧ resources ≤ absoluteMaxResources

namespace AppServerOwnershipLimits

def new (correlations resources : Nat) : Except AppServerOwnershipError AppServerOwnershipLimits :=
  if h : correlations = 0 ∨ correlations > absoluteMaxCorrelations ∨ resources = 0 ∨
      resources > absoluteMaxResources then
    .error .invalidLimits
  else .ok ⟨correlations, resources, by omega, by omega⟩

def initial : AppServerOwnershipLimits := ⟨4096, 4096, by decide, by decide⟩

end AppServerOwnershipLimits

structure AppServerOwnedResourceId where
  value : UInt64
  nonzero : value ≠ 0

namespace AppServerOwnedResourceId

def new (value : UInt64) : Except AppServerOwnershipError AppServerOwnedResourceId :=
  if h : value = 0 then .error .invalidResourceId else .ok ⟨value, h⟩

theorem value_injective : Function.Injective fun id : AppServerOwnedResourceId => id.value.toNat := by
  rintro ⟨value, _⟩ ⟨value', _⟩ h
  obtain rfl : value = value' := UInt64.toNat_inj.mp h
  rfl

instance : LinearOrder AppServerOwnedResourceId := LinearOrder.lift' _ value_injective

end AppServerOwnedResourceId

inductive AppServerOwnedResourceKind
  | helperProcess
  | mcpProcess
  | commandProcess
  | worktree
  | browserSession
  | remoteMcpConnection

structure AppServerOwnedResource where
  id : AppServerOwnedResourceId
  kind : AppServerOwnedResourceKind
  identity : CodexExecutionIdentity

structure AppServerOwnershipRelease where
  resources : List AppServerOwnedResource
  releasedCorrelations : Nat

structure AppServerOwnershipRegistry where
  limits : AppServerOwnershipLimits
  journalAnchor : Option AppServerCorrelationToken
  correlations : OrderedMap AppServerCorrelationToken CodexExecutionIdentity
  resources : OrderedMap AppServerOwnedResourceId AppServerOwnedResource

abbrev RegistryM := Transition AppServerOwnershipRegistry AppServerOwnershipError

def AppServerOwnershipRegistry.new (limits : AppServerOwnershipLimits) : AppServerOwnershipRegistry :=
  ⟨limits, none, .empty, .empty⟩

def bindCorrelation (token : AppServerCorrelationToken) (identity : CodexExecutionIdentity) : RegistryM Unit := do
  let registry ← get
  if (registry.correlations.find? token).isSome then throw .duplicateCorrelation
  if registry.journalAnchor.any fun anchor => !anchor.belongsToSameJournal token then throw .foreignJournal
  if registry.correlations.entries.length ≥ registry.limits.correlations then throw .correlationLimitExceeded
  modify fun registry => { registry with
    journalAnchor := some (registry.journalAnchor.getD token)
    correlations := registry.correlations.insert token identity }

def register (id : AppServerOwnedResourceId) (kind : AppServerOwnedResourceKind) (identity : CodexExecutionIdentity) :
    RegistryM Unit := do
  let registry ← get
  if (registry.resources.find? id).isSome then throw .duplicateResource
  if registry.resources.entries.length ≥ registry.limits.resources then throw .resourceLimitExceeded
  modify fun registry => { registry with resources := registry.resources.insert id ⟨id, kind, identity⟩ }

def registerFromCorrelation (id : AppServerOwnedResourceId) (kind : AppServerOwnedResourceKind)
    (token : AppServerCorrelationToken) : RegistryM Unit := do
  let registry ← get
  match registry.correlations.find? token with
  | none => throw .unknownCorrelation
  | some identity => register id kind identity

def isWithin (identity scope : CodexExecutionIdentity) : Bool :=
  if identity.thread ≠ scope.thread then false
  else if scope.turn.isSome ∧ identity.turn ≠ scope.turn then false
  else if scope.item.isSome ∧ identity.item ≠ scope.item then false
  else true

def takeResources : List AppServerOwnedResourceId → RegistryM (List AppServerOwnedResource)
  | [] => return []
  | id :: rest => do
    let registry ← get
    modify fun registry => { registry with resources := registry.resources.erase id }
    let others ← takeResources rest
    return (registry.resources.find? id).toList ++ others

def releaseScope (scope : CodexExecutionIdentity) : RegistryM AppServerOwnershipRelease := do
  if scope.isAppScoped then throw .appScopeRequiresSessionClose
  let registry ← get
  let correlationKeys := (registry.correlations.filter fun entry => isWithin entry.2 scope).keys
  modify fun registry => { registry with correlations := correlationKeys.foldl OrderedMap.erase registry.correlations }
  let resourceIds := (registry.resources.filter fun entry => isWithin entry.2.identity scope).keys
  let resources ← takeResources resourceIds
  return ⟨resources, correlationKeys.length⟩

def closeSession : RegistryM AppServerOwnershipRelease := do
  let registry ← get
  modify fun registry => { registry with correlations := .empty, resources := .empty }
  return ⟨registry.resources.entries.map Prod.snd, registry.correlations.entries.length⟩

end Weregopher.AppServer
