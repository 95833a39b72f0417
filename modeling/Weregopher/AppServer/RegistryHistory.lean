import Weregopher.AppServer.Registry

/-! # Every registered resource is live or was handed back once

A run is a log of resources taken and returned. Releasing a scope takes out
exactly the labels within it, so the order of the scopes does not matter.
-/
namespace Weregopher.AppServer
open Lib Lib.Stateful OrderedMap AppServerOwnershipRegistry

def CodexExecutionIdentity.path (identity : CodexExecutionIdentity) : List String :=
  identity.thread.toList ++ identity.turn.toList ++ identity.item.toList

theorem CodexExecutionIdentity.shape (i : CodexExecutionIdentity) :
    (i.thread = none ∧ i.turn = none ∧ i.item = none) ∨ (∃ a, i.thread = some a ∧ i.turn = none ∧ i.item = none) ∨
      (∃ a b, i.thread = some a ∧ i.turn = some b ∧ i.item = none) ∨
      ∃ a b c, i.thread = some a ∧ i.turn = some b ∧ i.item = some c := by
  obtain ⟨thread, turn, item, _, hTurn, hItem⟩ := i
  cases thread <;> cases turn <;> cases item <;>
    first
    | exact absurd (hTurn rfl) (by decide)
    | exact absurd (hItem rfl).2 (by decide)
    | simp

variable {identity scope : CodexExecutionIdentity}

theorem isWithin_eq_true : isWithin identity scope = true ↔ scope.thread = identity.thread ∧
      (scope.turn.isSome = true → scope.turn = identity.turn) ∧
      (scope.item.isSome = true → scope.item = identity.item) := by
  unfold isWithin
  split_ifs <;> grind

theorem isWithin_iff (hScope : scope.isAppScoped = false) :
    isWithin identity scope = true ↔ scope.path <+: identity.path := by
  rw [isWithin_eq_true]
  unfold CodexExecutionIdentity.path
  unfold CodexExecutionIdentity.isAppScoped at hScope
  rcases scope.shape with ⟨h, -⟩ | ⟨a, h, h', h''⟩ | ⟨a, b, h, h', h''⟩ | ⟨a, b, c, h, h', h''⟩
  · rw [h] at hScope
    cases hScope
  all_goals
    rw [h, h', h'']
    rcases identity.shape with ⟨g, g', g''⟩ | ⟨x, g, g', g''⟩ | ⟨x, y, g, g', g''⟩ | ⟨x, y, z, g, g', g''⟩
    all_goals
      rw [g, g', g'']
      simp

variable (s : AppServerOwnershipRegistry)

def AppServerOwnershipRegistry.without (gone : CodexExecutionIdentity → Bool) : AppServerOwnershipRegistry :=
  { s with
    correlations := s.correlations.filter fun entry => !gone entry.2
    resources := s.resources.filter fun entry => !gone entry.2.identity }

def AppServerOwnershipRegistry.liveWithin (chosen : CodexExecutionIdentity → Bool) : List AppServerOwnedResource :=
  (s.resources.filter fun entry => chosen entry.2.identity).entries.map Prod.snd

namespace AppServerOwnershipRegistry

variable (s : AppServerOwnershipRegistry)

theorem without_none : s.without (fun _ => false) = s := by
  simp [without, filter]

theorem liveWithin_none : s.liveWithin (fun _ => false) = [] := by
  simp [liveWithin, filter]

theorem without_without (gone also : CodexExecutionIdentity → Bool) :
    (s.without gone).without also = s.without fun identity => gone identity || also identity := by
  simp only [without, filter_filter, Bool.not_or]

theorem liveWithin_without (gone also : CodexExecutionIdentity → Bool) :
    (s.liveWithin gone ++ (s.without gone).liveWithin also).Perm
      (s.liveWithin fun identity => gone identity || also identity) := by
  rw [liveWithin, liveWithin, liveWithin, without, ← List.map_append]
  apply List.Perm.map _
  have hSplit := List.filter_append_perm (fun entry : AppServerOwnedResourceId × AppServerOwnedResource =>
    gone entry.2.identity) (s.resources.filter fun entry => gone entry.2.identity || also entry.2.identity).entries
  dsimp only [filter] at hSplit ⊢
  rw [List.filter_filter, List.filter_filter] at hSplit
  rw [List.filter_filter]
  refine (List.Perm.of_eq (congrArg₂ _ ?_ ?_)).trans hSplit
  · refine List.filter_congr fun entry _ => ?_
    cases gone entry.2.identity <;> rfl
  · refine List.filter_congr fun entry _ => ?_
    cases gone entry.2.identity <;> simp

end AppServerOwnershipRegistry

theorem exec_takeResources {ids : List AppServerOwnedResourceId} (hNodup : ids.Nodup)
    (s : AppServerOwnershipRegistry) : exec (takeResources ids) s =
      (.ok (ids.filterMap s.resources.find?), { s with resources := ids.foldl erase s.resources }) := by
  induction ids generalizing s with
  | nil => rfl
  | cons id rest ih =>
    obtain ⟨hFresh, hRest⟩ := List.nodup_cons.mp hNodup
    rw [takeResources, exec_bind, exec_get]
    dsimp only
    rw [exec_bind, exec_modify]
    dsimp only
    rw [exec_bind, ih hRest]
    have hOthers : rest.filterMap (s.resources.erase id).find? = rest.filterMap s.resources.find? :=
      List.filterMap_congr fun other hOther => find?_erase_of_ne _ (ne_of_mem_of_not_mem hOther hFresh)
    dsimp only
    rw [hOthers, exec_pure, List.foldl_cons]
    cases hFind : s.resources.find? id with
    | none => rw [List.filterMap_cons_none hFind]; rfl
    | some resource => rw [List.filterMap_cons_some hFind]; rfl

theorem exec_releaseScope (hScope : scope.isAppScoped = false) (s : AppServerOwnershipRegistry) :
    exec (releaseScope scope) s =
      (.ok ⟨s.liveWithin (isWithin · scope), (s.correlations.filter fun entry => isWithin entry.2 scope).keys.length⟩,
        s.without (isWithin · scope)) := by
  rw [releaseScope, if_neg (by rw [hScope]; decide), exec_bind, exec_get]
  dsimp only
  rw [exec_bind, exec_modify]
  dsimp only
  rw [exec_bind, exec_takeResources (nodup_keys _)]
  dsimp only
  rw [filterMap_find?_keys, foldl_erase_filter, foldl_erase_filter]
  rfl

theorem exec_releaseScope_app (hScope : scope.isAppScoped = true) (s : AppServerOwnershipRegistry) :
    exec (releaseScope scope) s = (.error .appScopeRequiresSessionClose, s) := by
  rw [releaseScope, if_pos hScope]
  rfl

theorem exec_closeSession : exec closeSession s =
      (.ok ⟨s.liveWithin fun _ => true, s.correlations.entries.length⟩, s.without fun _ => true) := by
  have hAll : s.liveWithin (fun _ => true) = s.resources.entries.map Prod.snd := by
    simp [liveWithin, filter]
  rw [hAll, without]
  simp only [Bool.not_true, ← empty_eq_filter]
  rfl

theorem wp_bindCorrelation (token : AppServerCorrelationToken) (identity : CodexExecutionIdentity)
    (s : AppServerOwnershipRegistry) :
    wp (bindCorrelation token identity) s (fun _ t => t.resources = s.resources) (fun _ t => t = s) := by
  simp [bindCorrelation]

structure Registered (resource : AppServerOwnedResource) (s t : AppServerOwnershipRegistry) : Prop where
  free : s.resources.find? resource.id = none
  after : t = { s with resources := s.resources.insert resource.id resource }

theorem wp_register (id : AppServerOwnedResourceId) (kind : AppServerOwnedResourceKind)
    (identity : CodexExecutionIdentity) (s : AppServerOwnershipRegistry) :
    wp (register id kind identity) s (fun _ t => Registered ⟨id, kind, identity⟩ s t) (fun _ t => t = s) := by
  simp only [register, wp_bind, wp_get, wp_ite, wp_throw, wp_modify, implies_true, true_and]
  intro hFree _
  exact ⟨Option.not_isSome_iff_eq_none.mp hFree, rfl⟩

theorem wp_registerFromCorrelation (id : AppServerOwnedResourceId) (kind : AppServerOwnedResourceKind)
    (token : AppServerCorrelationToken) (s : AppServerOwnershipRegistry) :
    wp (registerFromCorrelation id kind token) s
      (fun _ t => ∃ identity, s.correlations.find? token = some identity ∧ Registered ⟨id, kind, identity⟩ s t)
      (fun _ t => t = s) := by
  rw [registerFromCorrelation, wp_bind, wp_get]
  cases hToken : s.correlations.find? token with
  | none => exact rfl
  | some identity =>
    exact wp_mono (wp_register id kind identity s) (fun _ _ hDone => ⟨identity, rfl, hDone⟩) fun _ _ hSame => hSame

inductive RegistryOp
  | bindCorrelation (token : AppServerCorrelationToken) (identity : CodexExecutionIdentity)
  | register (id : AppServerOwnedResourceId) (kind : AppServerOwnedResourceKind) (identity : CodexExecutionIdentity)
  | registerFromCorrelation (id : AppServerOwnedResourceId) (kind : AppServerOwnedResourceKind)
      (token : AppServerCorrelationToken)
  | releaseScope (scope : CodexExecutionIdentity)
  | closeSession

inductive RegistryReply
  | done
  | released (release : AppServerOwnershipRelease)

def RegistryOp.perform : RegistryOp → RegistryM RegistryReply
  | .bindCorrelation token identity => (fun _ => .done) <$> AppServer.bindCorrelation token identity
  | .register id kind identity => (fun _ => .done) <$> AppServer.register id kind identity
  | .registerFromCorrelation id kind token => (fun _ => .done) <$> AppServer.registerFromCorrelation id kind token
  | .releaseScope scope => .released <$> AppServer.releaseScope scope
  | .closeSession => .released <$> AppServer.closeSession

/-- What a caller notes of a call on the registry `s`: after a successful registration the resource it asked
for, whatever the registry then holds, after a release what was handed back. -/
def custodyEvents (op : RegistryOp) :
    Except AppServerOwnershipError RegistryReply → List (Custody.Event AppServerOwnedResource)
  | .ok .done =>
    match op with
    | .register id kind identity => [.taken ⟨id, kind, identity⟩]
    | .registerFromCorrelation id kind token =>
      (s.correlations.find? token).toList.map fun identity => .taken ⟨id, kind, identity⟩
    | _ => []
  | .ok (.released release) => release.resources.map .returned
  | .error _ => []

def registrySystem :
    RunSystem AppServerOwnershipRegistry RegistryOp (Custody.Event AppServerOwnedResource) where
  next s op := (exec op.perform s).2
  emit s op := custodyEvents s op (exec op.perform s).1

/-- The log is legal and the registry holds what the log says. -/
structure Accounts (log : List (Custody.Event AppServerOwnedResource)) (s : AppServerOwnershipRegistry) : Prop where
  legal : Custody.Legal AppServerOwnedResource.id log
  held : ∀ id, Custody.heldAfter AppServerOwnedResource.id log id = s.resources.find? id

namespace Accounts

variable {log : List (Custody.Event AppServerOwnedResource)} {s : AppServerOwnershipRegistry}

theorem new (limits : AppServerOwnershipLimits) : Accounts [] (.new limits) := ⟨.nil, fun _ => rfl⟩

variable (h : Accounts log s)

include h

theorem of_resources {t : AppServerOwnershipRegistry} (hSame : t.resources = s.resources) :
    Accounts log t := ⟨h.legal, fun id => by rw [hSame, h.held id]⟩

variable {resource : AppServerOwnedResource}

theorem id_eq {id : AppServerOwnedResourceId}
    (hFind : s.resources.find? id = some resource) : resource.id = id := by
  rw [← h.held] at hFind
  exact (h.legal.kept _ hFind).1

theorem register (hFree : s.resources.find? resource.id = none) :
    Accounts (log ++ [.taken resource]) { s with resources := s.resources.insert resource.id resource } where
  legal := (Custody.legal_concat _).mpr ⟨h.legal, (h.held _).trans hFree⟩
  held id := by
    rw [Custody.heldAfter_concat, Custody.advance]
    by_cases hId : id = resource.id
    · rw [hId, Function.update_self, find?_insert_self]
    · rw [Function.update_of_ne hId, find?_insert_of_ne _ _ hId, h.held]

theorem map_id_liveWithin (chosen : CodexExecutionIdentity → Bool) :
    (s.liveWithin chosen).map AppServerOwnedResource.id =
      (s.resources.filter fun entry => chosen entry.2.identity).keys := by
  rw [liveWithin, List.map_map, keys]
  refine List.map_congr_left fun entry hEntry => ?_
  exact h.id_eq (find?_eq_some.mpr (mem_filter.mp hEntry).1)

theorem mem_liveWithin {chosen : CodexExecutionIdentity → Bool} : resource ∈ s.liveWithin chosen ↔
      s.resources.find? resource.id = some resource ∧ chosen resource.identity = true := by
  rw [liveWithin, List.mem_map]
  constructor
  · rintro ⟨entry, hEntry, rfl⟩
    obtain ⟨hMember, hChosen⟩ := mem_filter.mp hEntry
    have hFind := find?_eq_some.mpr hMember
    exact ⟨(h.id_eq hFind).symm ▸ hFind, hChosen⟩
  · rintro ⟨hFind, hChosen⟩
    exact ⟨_, mem_filter.mpr ⟨find?_eq_some.mp hFind, hChosen⟩, rfl⟩

theorem nodup_liveWithin (chosen : CodexExecutionIdentity → Bool) : (s.liveWithin chosen).Nodup :=
  List.Nodup.of_map AppServerOwnedResource.id (h.map_id_liveWithin chosen ▸ nodup_keys _)

theorem release (gone : CodexExecutionIdentity → Bool) :
    Accounts (log ++ (s.liveWithin gone).map .returned) (s.without gone) := by
  have hIds := h.map_id_liveWithin gone
  obtain ⟨hLegal, hHeld⟩ := h.legal.returned_all AppServerOwnedResource.id (hIds ▸ nodup_keys _)
    fun resource hResource => (h.held _).trans (h.mem_liveWithin.mp hResource).1
  refine ⟨hLegal, fun id => ?_⟩
  rw [hHeld, hIds, h.held, without]
  dsimp only
  simp only [mem_keys, find?_filter]
  cases hFind : s.resources.find? id with
  | none => rfl
  | some resource => cases hGone : gone resource.identity <;> simp [Option.filter, hGone]

theorem step (op : RegistryOp) : Accounts (log ++ registrySystem.emit s op) (registrySystem.next s op) := by
  change Accounts (log ++ custodyEvents s op (exec op.perform s).1) (exec op.perform s).2
  have hUnchanged {r : Except AppServerOwnershipError RegistryReply} {t : AppServerOwnershipRegistry}
      (hExec : exec op.perform s = (r, t)) (hSilent : custodyEvents s op r = []) (hSame : t.resources = s.resources) :
      Accounts (log ++ custodyEvents s op (exec op.perform s).1) (exec op.perform s).2 := by
    rw [hExec, hSilent, List.append_nil]
    exact h.of_resources hSame
  have hRegistered (hEffect : wp op.perform s (fun reply t => ∃ resource,
      custodyEvents s op (.ok reply) = [.taken resource] ∧ Registered resource s t) (fun _ t => t = s)) :
      Accounts (log ++ custodyEvents s op (exec op.perform s).1) (exec op.perform s).2 := by
    rcases hExec : exec op.perform s with ⟨r, t⟩
    cases r with
    | error e =>
      obtain rfl := of_exec_error hEffect hExec
      exact hExec ▸ hUnchanged hExec rfl rfl
    | ok reply =>
      obtain ⟨resource, hNoted, hFree, rfl⟩ := of_exec_ok hEffect hExec
      rw [hNoted]
      exact h.register hFree
  have hReleased {release : AppServerOwnershipRelease} {gone : CodexExecutionIdentity → Bool}
      (hExec : exec op.perform s = (.ok (.released release), s.without gone))
      (hResources : release.resources = s.liveWithin gone) :
      Accounts (log ++ custodyEvents s op (exec op.perform s).1) (exec op.perform s).2 := by
    rw [hExec, custodyEvents, hResources]
    exact h.release gone
  cases op with
  | bindCorrelation token identity =>
    have hEffect : wp (RegistryOp.perform (.bindCorrelation token identity)) s
        (fun reply t => reply = .done ∧ t.resources = s.resources) (fun _ t => t = s) := by
      rw [RegistryOp.perform, wp_map]
      exact wp_mono (wp_bindCorrelation token identity s) (fun _ _ hSame => ⟨rfl, hSame⟩) fun _ _ hSame => hSame
    rcases hExec : exec (RegistryOp.perform (.bindCorrelation token identity)) s with ⟨r, t⟩
    cases r with
    | error e =>
      obtain rfl := of_exec_error hEffect hExec
      exact hExec ▸ hUnchanged hExec rfl rfl
    | ok reply =>
      obtain ⟨rfl, hSame⟩ := of_exec_ok hEffect hExec
      exact hExec ▸ hUnchanged hExec rfl hSame
  | register id kind identity =>
    apply hRegistered
    rw [RegistryOp.perform, wp_map]
    exact wp_mono (wp_register id kind identity s) (fun _ _ hDone => ⟨_, rfl, hDone⟩) fun _ _ hSame => hSame
  | registerFromCorrelation id kind token =>
    apply hRegistered
    rw [RegistryOp.perform, wp_map]
    refine wp_mono (wp_registerFromCorrelation id kind token s) (fun _ _ hDone => ?_) fun _ _ hSame => hSame
    obtain ⟨identity, hToken, hDone⟩ := hDone
    exact ⟨_, by rw [custodyEvents, hToken]; rfl, hDone⟩
  | releaseScope scope =>
    cases hScope : scope.isAppScoped with
    | true => exact hUnchanged (exec_map_error (exec_releaseScope_app hScope s)) rfl rfl
    | false => exact hReleased (exec_map_ok (exec_releaseScope hScope s)) rfl
  | closeSession => exact hReleased (exec_map_ok (exec_closeSession s)) rfl

omit h in
/-- The run lemma: the log of any run accounts for the registry it reaches. -/
theorem run (limits : AppServerOwnershipLimits) (ops : List RegistryOp) :
    Accounts (registrySystem.log (.new limits) ops) (registrySystem.reach (.new limits) ops) :=
  registrySystem.history_invariant (A := fun _ => True) (Accounts.new limits)
    (fun _ _ op _ hAccounts => hAccounts.step op) ops fun _ _ => trivial

end Accounts

/-- The identities a completed scope takes out, none for the scope of the whole session. -/
def completes (scope identity : CodexExecutionIdentity) : Bool := !scope.isAppScoped && isWithin identity scope

theorem releaseScope_step (scope : CodexExecutionIdentity) (s : AppServerOwnershipRegistry) :
    registrySystem.next s (.releaseScope scope) = s.without (completes scope) ∧
      registrySystem.emit s (.releaseScope scope) = (s.liveWithin (completes scope)).map .returned := by
  change (exec (RegistryOp.perform (.releaseScope scope)) s).2 = _ ∧
    custodyEvents s (.releaseScope scope) (exec (RegistryOp.perform (.releaseScope scope)) s).1 = _
  cases hScope : scope.isAppScoped with
  | true =>
    have hNone : completes scope = fun _ => false := by
      funext identity
      rw [completes, hScope]
      rfl
    rw [RegistryOp.perform, exec_map_error (exec_releaseScope_app hScope s), hNone]
    exact ⟨s.without_none.symm, by rw [s.liveWithin_none]; rfl⟩
  | false =>
    have hWithin : completes scope = fun identity => isWithin identity scope := by
      funext identity
      rw [completes, hScope]
      rfl
    rw [RegistryOp.perform, exec_map_ok (exec_releaseScope hScope s), hWithin]
    exact ⟨rfl, rfl⟩

theorem releaseScopes_run (scopes : List CodexExecutionIdentity) (s : AppServerOwnershipRegistry) :
    registrySystem.reach s (scopes.map .releaseScope) =
        s.without (fun identity => scopes.any (completes · identity)) ∧
      (registrySystem.log s (scopes.map .releaseScope)).Perm
        ((s.liveWithin fun identity => scopes.any (completes · identity)).map .returned) := by
  induction scopes generalizing s with
  | nil =>
    refine ⟨s.without_none.symm, ?_⟩
    simp only [List.any_nil, s.liveWithin_none]
    exact List.Perm.nil
  | cons scope rest ih =>
    obtain ⟨hNext, hEmit⟩ := releaseScope_step scope s
    obtain ⟨hReach, hLog⟩ := ih (s.without (completes scope))
    constructor
    · change registrySystem.reach (registrySystem.next s (.releaseScope scope)) (rest.map .releaseScope) = _
      rw [hNext, hReach, s.without_without]
      rfl
    · rw [List.map_cons, RunSystem.log, hNext, hEmit]
      apply (hLog.append_left _).trans
      rw [← List.map_append]
      exact (s.liveWithin_without (completes scope) fun identity => rest.any (completes · identity)).map _

/-- A registered resource is live or was handed back once. A completed scope hands back the live
resources below it only, the scope of the whole session is refused, and the order in which scopes
complete changes neither the registry nor what is handed back. -/
theorem resources_conserved_and_scopes_exact (limits : AppServerOwnershipLimits) (ops : List RegistryOp) :
    Custody.Conserved AppServerOwnedResource.id (registrySystem.reach (.new limits) ops).resources.find?
        (registrySystem.log (.new limits) ops) ∧
      (∀ scope : CodexExecutionIdentity, scope.isAppScoped = true →
        exec (releaseScope scope) (registrySystem.reach (.new limits) ops) =
          (.error .appScopeRequiresSessionClose, registrySystem.reach (.new limits) ops)) ∧
      (∀ scope : CodexExecutionIdentity, scope.isAppScoped = false → ∃ release after,
        exec (releaseScope scope) (registrySystem.reach (.new limits) ops) = (.ok release, after) ∧
        release.resources.Nodup ∧
        (∀ resource, resource ∈ release.resources ↔
          (registrySystem.reach (.new limits) ops).resources.find? resource.id = some resource ∧
            scope.path <+: resource.identity.path) ∧
        ∀ id resource, after.resources.find? id = some resource ↔
          (registrySystem.reach (.new limits) ops).resources.find? id = some resource ∧
            ¬scope.path <+: resource.identity.path) ∧
      ∀ scopes others : List CodexExecutionIdentity, scopes.Perm others →
        registrySystem.reach (registrySystem.reach (.new limits) ops) (scopes.map .releaseScope) =
          registrySystem.reach (registrySystem.reach (.new limits) ops) (others.map .releaseScope) ∧
        (registrySystem.log (registrySystem.reach (.new limits) ops) (scopes.map .releaseScope)).Perm
          (registrySystem.log (registrySystem.reach (.new limits) ops) (others.map .releaseScope)) := by
  have hAccounts := Accounts.run limits ops
  generalize registrySystem.log (.new limits) ops = log at hAccounts ⊢
  generalize registrySystem.reach (.new limits) ops = s at hAccounts ⊢
  refine ⟨?_, fun scope hScope => exec_releaseScope_app hScope s, fun scope hScope => ?_,
    fun scopes others hPerm => ?_⟩
  · rw [← funext hAccounts.held]
    exact hAccounts.legal.conserved
  · refine ⟨_, _, exec_releaseScope hScope s, ?_, fun resource => ?_, fun id resource => ?_⟩
    · exact hAccounts.nodup_liveWithin (isWithin · scope)
    · rw [hAccounts.mem_liveWithin, isWithin_iff hScope]
    · rw [without]
      dsimp only
      rw [find?_filter, Option.filter_eq_some_iff, ← isWithin_iff hScope, Bool.not_eq_true',
        Bool.not_eq_true]
  · obtain ⟨hReach, hLog⟩ := releaseScopes_run scopes s
    obtain ⟨hReach', hLog'⟩ := releaseScopes_run others s
    have hAny : (fun identity => scopes.any (completes · identity)) =
        fun identity => others.any (completes · identity) := by
      funext identity
      exact hPerm.any_eq
    exact ⟨by rw [hReach, hReach', hAny], (hAny ▸ hLog).trans hLog'.symm⟩

namespace Sample

def threadScope : CodexExecutionIdentity := ⟨some "thread", none, none, rfl, by decide, by decide⟩

def turnScope : CodexExecutionIdentity := ⟨some "thread", some "turn", none, rfl, by decide, by decide⟩

theorem one_ne : (1 : UInt64) ≠ 0 := by decide

def worktree : AppServerOwnedResource := ⟨⟨1, one_ne⟩, .worktree, turnScope⟩

def helper : AppServerOwnedResource := ⟨⟨2, by decide⟩, .helperProcess, threadScope⟩

def nestedRegistrations : List RegistryOp :=
  [.register worktree.id .worktree turnScope, .bindCorrelation ⟨0, 1⟩ threadScope,
    .registerFromCorrelation helper.id .helperProcess ⟨0, 1⟩]

theorem turn_and_thread_complete_in_either_order :
    Custody.Conserved AppServerOwnedResource.id
        (registrySystem.reach (.new .initial) nestedRegistrations).resources.find? [.taken worktree, .taken helper] ∧
      (∃ release after, exec (releaseScope turnScope) (registrySystem.reach (.new .initial) nestedRegistrations) =
        (.ok release, after) ∧ release.resources.Nodup ∧ worktree ∈ release.resources ∧
          after.resources.find? helper.id = some helper) ∧
      registrySystem.reach (registrySystem.reach (.new .initial) nestedRegistrations)
          ([turnScope, threadScope].map .releaseScope) =
        registrySystem.reach (registrySystem.reach (.new .initial) nestedRegistrations)
          ([threadScope, turnScope].map .releaseScope) := by
  obtain ⟨hConserved, -, hScope, hOrder⟩ := resources_conserved_and_scopes_exact .initial nestedRegistrations
  obtain ⟨release, after, hExec, hNodup, hReleased, hKept⟩ := hScope turnScope rfl
  refine ⟨hConserved, ⟨release, after, hExec, hNodup, ?_, ?_⟩, (hOrder _ _ (List.Perm.swap _ _ _)).1⟩
  · exact (hReleased worktree).mpr ⟨rfl, List.prefix_rfl⟩
  · exact (hKept _ _).mpr ⟨rfl, by decide⟩

end Sample

end Weregopher.AppServer
