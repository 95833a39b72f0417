import Mathlib

/-! # Successful outcomes of fallible computations

A success of a sequenced computation is a success of each of its parts. -/
namespace Lib.Outcome

universe u v

variable {ε : Type u} {α β : Type v}

variable {b : β} {f : α → Except ε β} {x : Except ε α} {e : ε} {a : α} {c : Prop}

theorem bind_ok : (x >>= f) = .ok b ↔ ∃ a, x = .ok a ∧ f a = .ok b := by
  cases x <;> simp [bind, Except.bind]

theorem check_ok {x : Except ε PUnit} {f : PUnit → Except ε β} : (x >>= f) = .ok b ↔ x = .ok ⟨⟩ ∧ f ⟨⟩ = .ok b := by
  rw [bind_ok]
  exact ⟨fun ⟨_, h⟩ => h, fun h => ⟨_, h⟩⟩

theorem bind_ne_error (hx : x ≠ .error e) (hf : ∀ a, x = .ok a → f a ≠ .error e) : (x >>= f) ≠ .error e := by
  cases x with
  | error e' => simpa [bind, Except.bind] using hx
  | ok a => exact hf a rfl

theorem map_ok {f : α → β} : (f <$> x) = .ok b ↔ ∃ a, x = .ok a ∧ f a = b := by
  cases x <;> simp [Functor.map, Except.map]

theorem mapError_ok {ε' : Type u} {f : ε → ε'} : x.mapError f = .ok a ↔ x = .ok a := by
  cases x <;> simp [Except.mapError]

theorem pure_ok {b : α} : (pure a : Except ε α) = .ok b ↔ a = b := by
  simp [pure, Except.pure]

theorem throw_ok : (throw e : Except ε α) = .ok a ↔ False := by
  simp [throw, throwThe, MonadExceptOf.throw]

theorem ite_error_ok [Decidable c] : (if c then .error e else x) = .ok a ↔ ¬c ∧ x = .ok a := by
  split <;> simp_all

theorem ite_throw_ok [Decidable c] :
    (if c then throw e else x) = .ok a ↔ ¬c ∧ x = .ok a := ite_error_ok

/-- `Option::ok_or`. -/
def okOr (e : ε) : Option α → Except ε α
  | some a => .ok a
  | none => .error e

theorem okOr_ok {x : Option α} : okOr e x = .ok a ↔ x = some a := by
  cases x <;> simp [okOr]

theorem guard_ok [Decidable c] {x : Except ε β} :
    (if c then throw e >>= f else x) = .ok b ↔ ¬c ∧ x = .ok b := ite_error_ok

theorem ite_ok_throw [Decidable c] : (if c then x else throw e) = .ok a ↔ c ∧ x = .ok a := by
  split <;> simp_all [throw, throwThe, MonadExceptOf.throw]

theorem forM_ok {ι : Type v} {f : ι → Except ε PUnit} {items : List ι} :
    items.forM f = .ok ⟨⟩ ↔ ∀ item ∈ items, f item = .ok ⟨⟩ := by
  induction items with
  | nil => simp [pure, Except.pure]
  | cons item rest ih =>
    change (f item >>= fun _ => rest.forM f) = _ ↔ _
    rw [check_ok, ih, List.forall_mem_cons]

/-- Every error of the computation meets `P`. -/
def Raises (P : ε → Prop) : Except ε α → Prop
  | .ok _ => True
  | .error e => P e

section

variable {P : ε → Prop} {x y : Except ε α} {f : α → Except ε β} {e : ε}

theorem Raises.error (h : Raises P x) (hError : x = .error e) : P e := by
  rw [hError] at h
  exact h

theorem raises_okOr {option : Option α} (h : P e) : Raises P (okOr e option) := by
  cases option with
  | none => exact h
  | some a => trivial

theorem raises_bind (hx : Raises P x) (hf : ∀ a, x = .ok a → Raises P (f a)) : Raises P (x >>= f) := by
  cases x with
  | ok a => exact hf a rfl
  | error e => exact hx

theorem raises_ite {c : Prop} [Decidable c] (hx : c → Raises P x) (hy : ¬c → Raises P y) :
    Raises P (if c then x else y) := by
  split
  · exact hx ‹c›
  · exact hy ‹¬c›

theorem raises_guard {c : Prop} [Decidable c] {f : α → Except ε β} {z : Except ε β} (h : c → P e)
    (hz : ¬c → Raises P z) : Raises P (if c then throw e >>= f else z) :=
  raises_ite h hz

theorem raises_mapM {ι : Type v} {g : ι → Except ε α} {items : List ι} (h : ∀ item ∈ items, Raises P (g item)) :
    Raises P (items.mapM g) := by
  induction items with
  | nil => trivial
  | cons item rest ih =>
    rw [List.mapM_cons]
    refine raises_bind (h item List.mem_cons_self) fun _ _ => ?_
    exact raises_bind (ih fun other hOther => h other (List.mem_cons_of_mem item hOther)) fun _ _ => trivial

end

/-- The result of the computation meets `Q`, its errors meet `P`. -/
def Yields (P : ε → Prop) (Q : α → Prop) : Except ε α → Prop
  | .ok a => Q a
  | .error e => P e

section

variable {P : ε → Prop} {Q R : α → Prop} {S : β → Prop} {x y : Except ε α} {f : α → Except ε β} {e : ε} {a : α}

theorem Yields.ok (h : Yields P Q x) (hx : x = .ok a) : Q a := by
  rw [hx] at h
  exact h

theorem Yields.error (h : Yields P Q x) (hx : x = .error e) : P e := by
  rw [hx] at h
  exact h

theorem Yields.mono (h : Yields P Q x) (hQ : ∀ a, Q a → R a) : Yields P R x := by
  cases x with
  | ok a => exact hQ a h
  | error e => exact h

theorem Yields.imp {P' : ε → Prop} (h : Yields P Q x) (hP : ∀ e, P e → P' e) : Yields P' Q x := by
  cases x with
  | error e => exact hP e h
  | ok a => exact h

theorem yields_pure (h : Q a) : Yields P Q (pure a) := h

theorem yields_bind (hx : Yields P Q x) (hf : ∀ a, Q a → Yields P S (f a)) : Yields P S (x >>= f) := by
  cases x with
  | ok a => exact hf a hx
  | error e => exact hx

theorem yields_okOr {option : Option α} (hNone : option = none → P e) (hSome : ∀ a, option = some a → Q a) :
    Yields P Q (okOr e option) := by
  cases option with
  | none => exact hNone rfl
  | some a => exact hSome a rfl

theorem yields_ite {c : Prop} [Decidable c] (hx : c → Yields P Q x) (hy : ¬c → Yields P Q y) :
    Yields P Q (if c then x else y) := by
  split
  · exact hx ‹c›
  · exact hy ‹¬c›

theorem yields_guard {c : Prop} [Decidable c] {z : Except ε β} (h : c → P e) (hz : ¬c → Yields P S z) :
    Yields P S (if c then throw e >>= f else z) :=
  yields_ite h hz

end

section

variable {σ τ ι : Type v} {f : σ → ι → Except ε σ} {g : τ → ι → Except ε τ} {items : List ι}

theorem foldlM_each {first last : σ} (h : items.foldlM f first = .ok last) :
    ∀ item ∈ items, ∃ before after, f before item = .ok after := by
  induction items generalizing first with
  | nil => exact nofun
  | cons item rest ih =>
    rw [List.foldlM_cons, bind_ok] at h
    obtain ⟨next, hNext, hRest⟩ := h
    intro other hOther
    rcases List.mem_cons.1 hOther with rfl | hOther
    · exact ⟨first, next, hNext⟩
    · exact ih hRest other hOther

theorem foldlM_embed (embed : σ → τ) (hStep : ∀ item ∈ items, ∀ state result,
      g (embed state) item = .ok result ↔ ∃ next, f state item = .ok next ∧ embed next = result)
    (state : σ) (result : τ) :
    items.foldlM g (embed state) = .ok result ↔ ∃ last, items.foldlM f state = .ok last ∧ embed last = result := by
  induction items generalizing state with
  | nil => simp [pure_ok]
  | cons item rest ih =>
    have hFirst := hStep item List.mem_cons_self state
    have hRest := ih fun other hOther => hStep other (List.mem_cons_of_mem item hOther)
    simp only [List.foldlM_cons, bind_ok]
    constructor
    · rintro ⟨middle, hMiddle, hTail⟩
      obtain ⟨next, hNext, rfl⟩ := (hFirst middle).1 hMiddle
      obtain ⟨last, hLast, hResult⟩ := (hRest next).1 hTail
      exact ⟨last, ⟨next, hNext, hLast⟩, hResult⟩
    · rintro ⟨last, ⟨next, hNext, hLast⟩, hResult⟩
      exact ⟨embed next, (hFirst _).2 ⟨next, hNext, rfl⟩, (hRest next).2 ⟨last, hLast, hResult⟩⟩

end

end Lib.Outcome
