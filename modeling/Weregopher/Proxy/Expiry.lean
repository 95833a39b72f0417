import Weregopher.Proxy.Invariant

/-! # Expiry retires every overdue request exactly once

The overdue requests are read off the active maps first. They are distinct and stay
pending until their turn, so in a coherent proxy the loop over them runs to its end.
-/
namespace Weregopher.Proxy
open Lib.Stateful TransparentAppServerProxy

variable {env : ProxyEnvironment} {p : TransparentAppServerProxy} {known : Set AppServerRequestId} {now : Nat}

variable {request : AppServerExpiredRequest}

theorem mem_expiredDirection {requests : ActiveRequests} {origin : AppServerProxyDirection} :
    request ∈ expiredDirection requests origin now ↔ request.origin = origin ∧
      ∃ deadline, requests[request.requestId]? = some (.pending deadline) ∧ deadline ≤ now := by
  constructor
  · intro h
    obtain ⟨⟨requestId, state⟩, hEntry, rfl⟩ := List.mem_map.mp h
    obtain ⟨hMem, hExpired⟩ := List.mem_filter.mp hEntry
    rw [Std.ExtTreeMap.mem_toList_iff_getElem?_eq_some] at hMem
    cases state with
    | queued => simp [isExpired] at hExpired
    | pending deadline => exact ⟨rfl, deadline, hMem, by simpa [isExpired] using hExpired⟩
  · rintro ⟨rfl, deadline, hMem, hExpired⟩
    refine List.mem_map.mpr ⟨(request.requestId, .pending deadline), List.mem_filter.mpr ⟨?_, ?_⟩, rfl⟩
    · exact Std.ExtTreeMap.mem_toList_iff_getElem?_eq_some.mpr hMem
    · simpa [isExpired] using hExpired

theorem nodup_expiredDirection (requests : ActiveRequests) (origin : AppServerProxyDirection) :
    (expiredDirection requests origin now).Nodup := by
  unfold expiredDirection
  refine List.pairwise_map.mpr (List.Pairwise.filter _ ?_)
  refine (Std.ExtTreeMap.distinct_keys_toList (t := requests)).imp fun hKeys hSame => hKeys ?_
  simpa using congrArg AppServerExpiredRequest.requestId hSame

theorem mem_expiredRequests : request ∈ expiredRequests p now ↔ ∃ deadline,
      (p.requests request.origin)[request.requestId]? = some (.pending deadline) ∧ deadline ≤ now := by
  rw [expiredRequests, List.mem_append, mem_expiredDirection, mem_expiredDirection]
  cases request.origin <;> simp [requests]

theorem nodup_expiredRequests : (expiredRequests p now).Nodup := by
  refine (nodup_expiredDirection _ _).append (nodup_expiredDirection _ _) fun request hClient hServer => ?_
  have hOrigin := (mem_expiredDirection.mp hClient).1.symm.trans (mem_expiredDirection.mp hServer).1
  cases hOrigin

theorem ensureUnretired_ok {requests : List AppServerExpiredRequest} (h : ∀ request ∈ requests,
      requestIdDigest env.sha256 request.requestId ∉ p.requestHistory request.origin) :
    ensureUnretired env p requests = .ok () := by
  induction requests with
  | nil => rfl
  | cons request rest ih =>
    rw [ensureUnretired, if_neg (h request List.mem_cons_self)]
    exact ih fun other hOther => h other (List.mem_cons_of_mem _ hOther)

/-- The requests of a list that is about to be retired. -/
structure Overdue (p : TransparentAppServerProxy) (requests : List AppServerExpiredRequest) : Prop where
  nodup : requests.Nodup
  pending : ∀ request ∈ requests, ∃ deadline,
    (p.requests request.origin)[request.requestId]? = some (.pending deadline)

theorem overdue_expiredRequests : Overdue p (expiredRequests p now) := by
  refine ⟨nodup_expiredRequests, fun request hRequest => ?_⟩
  obtain ⟨deadline, hPending, -⟩ := mem_expiredRequests.mp hRequest
  exact ⟨deadline, hPending⟩

theorem Overdue.retire_head {rest : List AppServerExpiredRequest}
    (h : Overdue p (request :: rest)) : Overdue (retired env p request.origin request.requestId) rest := by
  obtain ⟨hHead, hRest⟩ := List.nodup_cons.mp h.nodup
  refine ⟨hRest, fun other hOther => ?_⟩
  obtain ⟨deadline, hPending⟩ := h.pending other (List.mem_cons_of_mem _ hOther)
  refine ⟨deadline, ?_⟩
  rw [requests_retired]
  split
  · rename_i hOrigin
    have hNe : request.requestId ≠ other.requestId := by
      intro hId
      have hSame : request = other := by cases request; cases other; simp_all
      exact hHead (hSame ▸ hOther)
    rw [ActiveRequests.getElem?_erase, if_neg hNe, ← hOrigin, hPending]
  · exact hPending

namespace Coherent

theorem wp_retireAll (h : Coherent env known p) (hDigests : Set.InjOn (requestIdDigest env.sha256) known)
    {requests : List AppServerExpiredRequest} (hOverdue : Overdue p requests)
    {Q : Unit → TransparentAppServerProxy → Prop}
    {E : AppServerProxyError → TransparentAppServerProxy → Prop} (hQ : Q () (retiredAll env p requests)) :
    wp (Proxy.retireAll env requests) p Q E := by
  induction requests generalizing p with
  | nil => exact hQ
  | cons request rest ih =>
    obtain ⟨deadline, hPending⟩ := hOverdue.pending request List.mem_cons_self
    have hActive := ActiveRequests.mem_of_getElem? hPending
    rw [Proxy.retireAll, wp_bind, wp_retire hActive (h.unretired _ _ hActive)]
    exact ih (h.retire hDigests hPending) hOverdue.retire_head hQ

theorem expireRequests_spec (h : Coherent env known p)
    (hDigests : Set.InjOn (requestIdDigest env.sha256) known) :
    wp (expireRequests env now) p (Expired env p now)
      (fun e p' => p' = p ∧ e ≠ .inconsistentCorrelationState) := by
  refine Proxy.expireRequests_spec (fun e hError => ⟨rfl, hError⟩) (fun e hError => ?_) ?_
  · rw [ensureUnretired_ok] at hError
    · cases hError
    · intro request hRequest
      obtain ⟨deadline, hPending⟩ := overdue_expiredRequests.pending request hRequest
      exact h.unretired _ _ (ActiveRequests.mem_of_getElem? hPending)
  · exact h.wp_retireAll hDigests overdue_expiredRequests rfl

end Coherent

end Weregopher.Proxy
