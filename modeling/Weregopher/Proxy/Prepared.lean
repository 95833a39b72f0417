import Weregopher.Proxy.Safety

/-! # Preparing a line ahead of its admission

A candidate keeps what the line itself determines. No call changes the limits
the line was read under, and admission looks at everything else again, so a
candidate may wait while the proxy goes on.
-/
namespace Weregopher.Proxy
open Lib.Stateful TransparentAppServerProxy

variable {env : ProxyEnvironment}

/-- The limits stay and a closed proxy stays closed. -/
structure Continues (p p' : TransparentAppServerProxy) : Prop where
  limits_eq : p'.limits = p.limits
  closed : p.state = .closed → p'.state = .closed

theorem Continues.of_eq {p p' : TransparentAppServerProxy} (hLimits : p'.limits = p.limits)
    (hState : p'.state = p.state) : Continues p p' := ⟨hLimits, hState.trans⟩

instance : IsPreorder TransparentAppServerProxy Continues where
  refl _ := .of_eq rfl rfl
  trans _ _ _ h h' := ⟨h'.limits_eq.trans h.limits_eq, h'.closed ∘ h.closed⟩

variable (d : AppServerProxyDirection)

theorem continues_setRequests (f : TransparentAppServerProxy → ActiveRequests) :
    Within Continues (modify fun p => p.setRequests d (f p) : ProxyM PUnit) :=
  .modify fun _ => .of_eq (limits_setRequests ..) (state_setRequests ..)

theorem continues_setQueue (f : TransparentAppServerProxy → ProxyQueue) :
    Within Continues (modify fun p => p.setQueue d (f p) : ProxyM PUnit) :=
  .modify fun _ => .of_eq (limits_setQueue ..) (state_setQueue ..)

theorem continues_insertQueued (requestId : AppServerRequestId) : Within Continues (insertQueued d requestId) := by
  refine .bind .get fun proxy => .bind (continues_setRequests _ _) fun _ => ?_
  exact .ite (.throw _) (.pure _)

theorem continues_retire (origin : AppServerProxyDirection) (requestId : AppServerRequestId) :
    Within Continues (retire env origin requestId) := by
  refine .bind .get fun proxy => .bind (continues_setRequests _ _) fun _ => ?_
  refine .ite (.throw _) (.bind ?_ fun _ => .ite (.throw _) (.pure _))
  exact .modify fun _ => .of_eq (limits_setRequestHistory ..) (state_setRequestHistory ..)

theorem continues_applyCorrelation (o : AppServerMessageObservation) (action : ResponseAction) :
    Within Continues (applyCorrelation env o action) := by
  unfold applyCorrelation
  cases o.kind with
  | request =>
    cases o.requestId with
    | none => exact .throw _
    | some requestId => exact continues_insertQueued _ _
  | notification => exact .pure _
  | successResponse | errorResponse =>
    refine .ite ?_ (.pure _)
    cases o.requestId with
    | none => exact .throw _
    | some requestId => exact continues_retire _ _

theorem continues_admitCandidate (candidate : AppServerProxyCandidate env) :
    Within Continues (admitCandidate env candidate) := by
  refine .bind .get fun proxy => .ite (.throw _) ?_
  refine .bind (.lift _) fun _ => .bind (.lift _) fun action => .bind (.lift _) fun _ => .bind (.lift _) fun _ => ?_
  refine .bind (.lift _) fun _ => .bind (.lift _) fun _ => .bind (continues_applyCorrelation _ action) fun _ => ?_
  exact .bind (continues_setQueue _ _) fun _ => .bind (.modify fun _ => .of_eq rfl rfl) fun _ => .pure _

theorem continues_popFrame : Within Continues (popFrame d) := by
  refine .bind .get fun proxy => .bind (.lift _) fun popped => ?_
  cases popped with
  | none => exact .throw _
  | some popped => exact .bind (continues_setQueue _ _) fun _ => .pure _

theorem continues_startDeadline (requestId : AppServerRequestId) (deadline : Nat) :
    Within Continues (startDeadline d requestId deadline) := by
  refine .bind .get fun proxy => ?_
  split
  · exact continues_setRequests _ _
  · exact .throw _

theorem continues_release (now : Nat) : Within Continues (release env d now) := by
  have hSent (messages : Nat) : Within Continues (do
      let frame ← popFrame d
      modify fun proxy => { proxy with
        counters := proxy.counters.setForwarded d messages
        lastObservedTime := some now }
      return some frame) :=
    .bind (continues_popFrame d) fun _ => .bind (.modify fun _ => .of_eq rfl rfl) fun _ => .pure _
  refine .bind .get fun proxy => .bind (.lift _) fun _ => ?_
  cases (proxy.queue d).front with
  | none => exact .bind (.modify fun _ => .of_eq rfl rfl) fun _ => .pure _
  | some front =>
    dsimp only
    cases front.requestIdentity with
    | none => exact .bind (.lift _) hSent
    | some requestId =>
      refine .bind (.lift _) fun deadline => .bind (.lift _) fun messages => ?_
      exact .bind (continues_startDeadline d requestId deadline) fun _ => hSent messages

theorem continues_retireAll (expired : List AppServerExpiredRequest) :
    Within Continues (retireAll env expired) := by
  induction expired with
  | nil => exact .pure _
  | cons request rest ih => exact .bind (continues_retire _ _) fun _ => ih

theorem continues_expireRequests (now : Nat) : Within Continues (expireRequests env now) := by
  refine .bind .get fun proxy => .bind (.lift _) fun _ => .bind (.lift _) fun _ => .bind (.lift _) fun _ => ?_
  exact .bind (continues_retireAll _) fun _ => .bind (.modify fun _ => .of_eq rfl rfl) fun _ => .pure _

theorem continues_perform (op : ProxyOp env) : Within Continues op.perform := by
  cases op with
  | ingest d jsonLine => exact .map _ (.bind .get fun _ => .bind (.lift _) continues_admitCandidate)
  | prepare d jsonLine => exact .bind .get fun _ => .bind (.lift _) fun _ => .pure _
  | admitPrepared candidate =>
    refine .map _ (.bind .get fun _ => .ite (.throw _) (.ite (.throw _) ?_))
    exact continues_admitCandidate candidate
  | release d now => exact .map _ (continues_release d now)
  | expire now => exact .map _ (continues_expireRequests now)
  | close => exact .map _ (.bind .get fun _ => .bind (.modify fun _ => ⟨rfl, fun _ => rfl⟩) fun _ => .pure _)

theorem continues_reach (p : TransparentAppServerProxy) (ops : List (ProxyOp env)) :
    Continues p ((proxySystem env).reach p ops) := by
  refine (proxySystem env).reach_invariant (P := Continues p) (A := fun _ => True) (refl_of Continues p) ?_ ops
    fun _ _ => trivial
  intro q op _ hq
  exact trans_of Continues hq ((continues_perform op).exec q)

theorem prepare_eq_of_limits {p q : TransparentAppServerProxy} (d : AppServerProxyDirection) (jsonLine : List UInt8)
    (hp : p.state ≠ .closed) (hq : q.state ≠ .closed) (hLimits : q.limits = p.limits) :
    prepare env q d jsonLine = prepare env p d jsonLine := by
  obtain ⟨limits, _⟩ := p
  obtain ⟨limits', _⟩ := q
  obtain rfl : limits' = limits := hLimits
  rw [prepare, prepare, if_neg hp, if_neg hq]

variable {p : TransparentAppServerProxy}

theorem prepare_error_of_closed (d : AppServerProxyDirection) (jsonLine : List UInt8) (h : p.state = .closed) :
    prepare env p d jsonLine = .error .closed := if_pos h

theorem isOpen_of_prepare {d : AppServerProxyDirection} {jsonLine : List UInt8}
    {candidate : AppServerProxyCandidate env} (h : prepare env p d jsonLine = .ok candidate) :
    p.state ≠ .closed := by
  intro hClosed
  rw [prepare_error_of_closed d jsonLine hClosed] at h
  cases h

theorem exec_ingest (q : TransparentAppServerProxy) (d : AppServerProxyDirection) (jsonLine : List UInt8) :
    exec (ingest env d jsonLine) q = match prepare env q d jsonLine with
      | .ok candidate => exec (admitCandidate env candidate) q
      | .error error => (.error error, q) := by
  rw [ingest, exec_bind, exec_get]
  dsimp only
  rw [exec_bind, exec_lift]
  cases prepare env q d jsonLine <;> rfl

/-- A candidate that is admitted after other calls does exactly what its line would do there: the
answer and the proxy are the same. A line that cannot be prepared would not be taken later either. -/
theorem prepared_line_admitted_as_ingested (p : TransparentAppServerProxy) (d : AppServerProxyDirection)
    (jsonLine : List UInt8) (others : List (ProxyOp env)) :
    (proxySystem env).next p (.prepare d jsonLine) = p ∧
    (∀ candidate, prepare env p d jsonLine = .ok candidate →
      exec (admitPrepared env candidate) ((proxySystem env).reach p others) =
        exec (ingest env d jsonLine) ((proxySystem env).reach p others)) ∧
    (∀ error, prepare env p d jsonLine = .error error →
      ∃ later, exec (ingest env d jsonLine) ((proxySystem env).reach p others) =
        (.error later, (proxySystem env).reach p others)) := by
  obtain ⟨hLimits, hStays⟩ := continues_reach p others
  generalize (proxySystem env).reach p others = q at hLimits hStays
  refine ⟨?_, fun candidate hPrepare => ?_, fun error hPrepare => ?_⟩
  · change (exec (ProxyOp.prepare d jsonLine).perform p).2 = p
    rw [ProxyOp.perform, exec_bind, exec_get]
    dsimp only
    rw [exec_bind, exec_lift]
    cases prepare env p d jsonLine <;> rfl
  · have hOpen := isOpen_of_prepare hPrepare
    rw [exec_ingest, admitPrepared, exec_bind, exec_get]
    dsimp only
    by_cases hClosed : q.state = .closed
    · rw [prepare_error_of_closed d jsonLine hClosed, if_pos hClosed]
      rfl
    · rw [prepare_eq_of_limits d jsonLine hOpen hClosed hLimits, hPrepare, if_neg hClosed]
      have hPrepared : candidate.preparedLimits = q.limits := (prepare_ok hPrepare).2.2.trans hLimits.symm
      rw [if_neg (not_not.mpr hPrepared)]
  · rw [exec_ingest]
    by_cases hClosed : q.state = .closed
    · exact ⟨.closed, by rw [prepare_error_of_closed d jsonLine hClosed]⟩
    · have hBefore := mt hStays hClosed
      exact ⟨error, by rw [prepare_eq_of_limits d jsonLine hBefore hClosed hLimits, hPrepare]⟩

/-- The client's line waits as a candidate while the rest of the session takes place. -/
theorem session_line_may_wait : ∃ candidate,
    prepare sessionEnvironment (.new .initial) .clientToServer clientRequestLine = .ok candidate ∧
      exec (admitPrepared sessionEnvironment candidate) (stateAfter .initial session) =
        exec (ingest sessionEnvironment .clientToServer clientRequestLine) (stateAfter .initial session) := by
  have hPrepared : (prepare sessionEnvironment (.new .initial) .clientToServer clientRequestLine).toOption.isSome =
      true := by decide +kernel
  cases hPrepare : prepare sessionEnvironment (.new .initial) .clientToServer clientRequestLine with
  | error => rw [hPrepare] at hPrepared; cases hPrepared
  | ok candidate =>
    exact ⟨candidate, rfl, (prepared_line_admitted_as_ingested _ _ _ session).2.1 candidate hPrepare⟩

end Weregopher.Proxy
