import Mathlib

/-! # Fallible state transitions that keep the state they fail in

The state reached at an error is part of the result, so a transition that updates
something before it fails is told apart from one that fails untouched. The rules
compute both postconditions along the syntax of a `do` block.
-/
namespace Lib.Stateful

universe u v

abbrev Transition (σ ε : Type u) (α : Type u) := ExceptT ε (StateM σ) α

variable {σ ε α β : Type u}

def exec (m : Transition σ ε α) (s : σ) : Except ε α × σ := m.run.run s

/-- The value postcondition `Q` holds after success, the error postcondition `E` after failure. -/
def wp (m : Transition σ ε α) (s : σ) (Q : α → σ → Prop) (E : ε → σ → Prop) : Prop :=
  match exec m s with
  | (.ok a, t) => Q a t
  | (.error e, t) => E e t

@[simp] theorem exec_pure (a : α) (s : σ) : exec (pure a : Transition σ ε α) s = (.ok a, s) := rfl

@[simp] theorem exec_throw (e : ε) (s : σ) : exec (throw e : Transition σ ε α) s = (.error e, s) := rfl

@[simp] theorem exec_get (s : σ) : exec (get : Transition σ ε σ) s = (.ok s, s) := rfl

@[simp] theorem exec_modify (f : σ → σ) (s : σ) :
    exec (modify f : Transition σ ε PUnit) s = (.ok ⟨⟩, f s) := rfl

@[simp] theorem exec_lift (r : Except ε α) (s : σ) : exec (liftM r : Transition σ ε α) s = (r, s) := rfl

theorem exec_bind (m : Transition σ ε α) (f : α → Transition σ ε β) (s : σ) :
    exec (m >>= f) s = match exec m s with
      | (.ok a, t) => exec (f a) t
      | (.error e, t) => (.error e, t) := by
  change (match m.run.run s with | (r, t) => (ExceptT.bindCont f r).run t) = _
  unfold exec
  rcases m.run.run s with ⟨r, t⟩
  cases r <;> rfl

variable {f : α → β} {m : Transition σ ε α} {s t : σ}

theorem exec_map_ok {a : α} (h : exec m s = (.ok a, t)) : exec (f <$> m) s = (.ok (f a), t) := by
  rw [map_eq_pure_bind, exec_bind, h]
  rfl

theorem exec_map_error {e : ε} (h : exec m s = (.error e, t)) : exec (f <$> m) s = (.error e, t) := by
  rw [map_eq_pure_bind, exec_bind, h]

theorem exec_eq_of_fst {r : Except ε α} (h : (exec m s).1 = r) :
    exec m s = (r, (exec m s).2) := Prod.ext h rfl

section

variable {s : σ} {Q : α → σ → Prop} {R : β → σ → Prop} {E : ε → σ → Prop}

variable {a : α} {e : ε} {m : Transition σ ε α} {E' : ε → σ → Prop} {t : σ}

@[simp] theorem wp_pure : wp (pure a : Transition σ ε α) s Q E ↔ Q a s := Iff.rfl

@[simp] theorem wp_throw : wp (throw e : Transition σ ε α) s Q E ↔ E e s := Iff.rfl

@[simp] theorem wp_get {Q : σ → σ → Prop} : wp (get : Transition σ ε σ) s Q E ↔ Q s s := Iff.rfl

@[simp] theorem wp_modify {f : σ → σ} {Q : PUnit → σ → Prop} :
    wp (modify f : Transition σ ε PUnit) s Q E ↔ Q ⟨⟩ (f s) := Iff.rfl

@[simp] theorem wp_bind {f : α → Transition σ ε β} : wp (m >>= f) s R E ↔ wp m s (fun a t => wp (f a) t R E) E := by
  unfold wp
  rw [exec_bind]
  rcases exec m s with ⟨r, t⟩
  cases r <;> rfl

@[simp] theorem wp_map {f : α → β} : wp (f <$> m) s R E ↔ wp m s (fun a t => R (f a) t) E := by
  rw [map_eq_pure_bind, wp_bind]
  rfl

theorem wp_lift_ok : wp (liftM (Except.ok a : Except ε α) : Transition σ ε α) s Q E ↔ Q a s := Iff.rfl

theorem wp_lift_error :
    wp (liftM (Except.error e : Except ε α) : Transition σ ε α) s Q E ↔ E e s := Iff.rfl

@[simp] theorem wp_lift {r : Except ε α} : wp (liftM r : Transition σ ε α) s Q E ↔
      (∀ a, r = .ok a → Q a s) ∧ (∀ e, r = .error e → E e s) := by
  cases r <;> simp [wp_lift_ok, wp_lift_error]

@[simp] theorem wp_ite {c : Prop} [Decidable c] {n : Transition σ ε α} :
    wp (if c then m else n) s Q E ↔ (c → wp m s Q E) ∧ (¬c → wp n s Q E) := by
  split <;> simp_all

theorem wp_mono {Q' : α → σ → Prop} (h : wp m s Q E) (hQ : ∀ a t, Q a t → Q' a t) (hE : ∀ e t, E e t → E' e t) :
    wp m s Q' E' := by
  unfold wp at h ⊢
  split at h
  · exact hQ _ _ h
  · exact hE _ _ h

theorem wp_and_error (h : wp m s Q E) (h' : wp m s Q E') : wp m s Q (fun e t => E e t ∧ E' e t) := by
  unfold wp at *
  split at h <;> simp_all

theorem wp_of_exec_ok (hExec : exec m s = (.ok a, t)) (h : Q a t) : wp m s Q E := by
  rw [wp, hExec]
  exact h

theorem of_exec_ok (h : wp m s Q E) (hExec : exec m s = (.ok a, t)) : Q a t := by
  simpa [wp, hExec] using h

theorem exec_ok_iff : (∃ a, (exec m s).1 = .ok a) ↔ wp m s (fun _ _ => True) (fun _ _ => False) := by
  rw [wp]
  rcases exec m s with ⟨_ | _, _⟩ <;> simp

/-- Of a computation that must not fail. -/
theorem wp_lift_total {r : Except ε α} :
    wp (liftM r : Transition σ ε α) s Q (fun _ _ => False) ↔ ∃ a, r = .ok a ∧ Q a s := by
  cases r <;> simp

theorem of_exec_error (h : wp m s Q E) (hExec : exec m s = (.error e, t)) : E e t := by
  simpa [wp, hExec] using h

end

/-- Whatever the transition does, failure included, it relates the state before to the state after. -/
def Within (R : σ → σ → Prop) (m : Transition σ ε α) : Prop := ∀ s, wp m s (fun _ t => R s t) (fun _ t => R s t)

namespace Within

variable {R : σ → σ → Prop}

variable {m : Transition σ ε α}

theorem exec (h : Within R m) (s : σ) : R s (exec m s).2 := by
  have hs := h s
  unfold wp at hs
  split at hs
  · rename_i hExec
    rw [hExec]
    exact hs
  · rename_i hExec
    rw [hExec]
    exact hs

theorem wp {s : σ} {Q : α → σ → Prop} {E : ε → σ → Prop} (h : Within R m) (hm : wp m s Q E) :
    Stateful.wp m s (fun a t => R s t ∧ Q a t) (fun e t => R s t ∧ E e t) := by
  have hs := h s
  unfold Stateful.wp at hs hm ⊢
  split at hs <;> simp_all

theorem modify {f : σ → σ} (h : ∀ s, R s (f s)) : Within R (modify f : Transition σ ε PUnit) := fun s => h s

theorem map (f : α → β) (h : Within R m) : Within R (f <$> m) := by
  intro s
  rw [wp_map]
  exact h s

theorem ite {c : Prop} [Decidable c] {n : Transition σ ε α} (hm : Within R m) (hn : Within R n) :
    Within R (if c then m else n) := by
  split
  · exact hm
  · exact hn

variable [IsPreorder σ R]

theorem get : Within R (get : Transition σ ε σ) := fun s => refl_of R s

theorem pure (a : α) : Within R (pure a : Transition σ ε α) := fun s => refl_of R s

theorem throw (e : ε) : Within R (throw e : Transition σ ε α) := fun s => refl_of R s

theorem lift (r : Except ε α) : Within R (liftM r : Transition σ ε α) := by
  intro s
  rw [wp_lift]
  exact ⟨fun _ _ => refl_of R s, fun _ _ => refl_of R s⟩

theorem bind {f : α → Transition σ ε β} (h : Within R m) (hNext : ∀ a, Within R (f a)) : Within R (m >>= f) := by
  intro s
  rw [wp_bind]
  refine wp_mono (h s) (fun a t hst => ?_) fun _ _ hst => hst
  exact wp_mono (hNext a t) (fun _ _ htu => trans_of R hst htu) fun _ _ htu => trans_of R hst htu

end Within

end Lib.Stateful
