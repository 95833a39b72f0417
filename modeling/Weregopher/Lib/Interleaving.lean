import Mathlib

/-! # Threads that share a state

A thread is a sequential program of atomic operations. What the scheduler decides
besides the order is handed to the operation; one without a result waits. Each program
relies on what the others may do in between and guarantees what it does itself.
-/
namespace Lib.Interleaving

variable {τ ω σ α β : Type}

inductive Prog (ω σ α : Type) : Type 1
  | ret (value : α) : Prog ω σ α
  | step {β : Type} (op : ω → σ → Option (β × σ)) (rest : β → Prog ω σ α) : Prog ω σ α

namespace Prog

def bind : Prog ω σ α → (α → Prog ω σ β) → Prog ω σ β
  | ret value, f => f value
  | step op rest, f => step op fun result => (rest result).bind f

instance : Monad (Prog ω σ) where
  pure := ret
  bind := bind

def atomically (op : ω → σ → Option (α × σ)) : Prog ω σ α := step op ret

end Prog

structure Config (τ ω σ : Type) where
  threads : τ → Prog ω σ Unit
  state : σ

namespace Config

variable [DecidableEq τ] (config : Config τ ω σ)

/-- One operation of a thread, unless it has ended or has to wait. -/
def advance? (thread : τ) (choice : ω) : Option (Config τ ω σ) :=
  match config.threads thread with
  | .ret _ => none
  | .step op rest =>
    (op choice config.state).map fun result => ⟨Function.update config.threads thread (rest result.1), result.2⟩

def advance (scheduled : τ × ω) : Config τ ω σ := (config.advance? scheduled.1 scheduled.2).getD config

def run (schedule : List (τ × ω)) : Config τ ω σ := schedule.foldl advance config

end Config

/-- What a thread relies on and what it guarantees, as relations between two states. -/
structure Contract (σ : Type) where
  (rely guar : σ → σ → Prop)
  rely_refl : ∀ s, rely s s
  rely_trans : ∀ {s t u}, rely s t → rely t u → rely s u

namespace Contract

variable (contract : Contract σ)

/-- Whatever the others do in between, every operation from `s` on keeps the guarantee and the
result meets `Q`. -/
def Meets : Prog ω σ α → (α → σ → Prop) → σ → Prop
  | .ret value, Q, s => ∀ t, contract.rely s t → Q value t
  | .step op rest, Q, s => ∀ t, contract.rely s t → ∀ choice result u, op choice t = some (result, u) →
      contract.guar t u ∧ Meets (rest result) Q u

variable {contract}

variable {Q : α → σ → Prop} {program : Prog ω σ α} {s : σ}

theorem Meets.rely {t : σ} (h : contract.Meets program Q s)
    (hRely : contract.rely s t) : contract.Meets program Q t := by
  cases program with
  | ret value => exact fun u hu => h u (contract.rely_trans hRely hu)
  | step op rest => exact fun u hu => h u (contract.rely_trans hRely hu)

theorem Meets.mono {R : α → σ → Prop} (h : contract.Meets program Q s)
    (hQ : ∀ value t, Q value t → R value t) : contract.Meets program R s := by
  induction program generalizing s with
  | ret value => exact fun t ht => hQ value t (h t ht)
  | step op rest ih =>
    intro t ht choice result u hOp
    obtain ⟨hGuar, hRest⟩ := h t ht choice result u hOp
    exact ⟨hGuar, ih result hRest⟩

theorem Meets.bind {f : α → Prog ω σ β} {Q : β → σ → Prop}
    (h : contract.Meets program (fun value t => contract.Meets (f value) Q t) s) :
    contract.Meets (program >>= f) Q s := by
  change contract.Meets (program.bind f) Q s
  induction program generalizing s with
  | ret value => exact h s (contract.rely_refl s)
  | step op rest ih =>
    intro t ht choice result u hOp
    obtain ⟨hGuar, hRest⟩ := h t ht choice result u hOp
    exact ⟨hGuar, ih result hRest⟩

theorem Meets.map {f : α → β} {Q : β → σ → Prop} (h : contract.Meets program (fun value => Q (f value)) s) :
    contract.Meets (program >>= fun value => pure (f value)) Q s := by
  change contract.Meets (program.bind fun value => .ret (f value)) Q s
  induction program generalizing s with
  | ret value => exact h
  | step op rest ih =>
    intro t ht choice result u hOp
    obtain ⟨hGuar, hRest⟩ := h t ht choice result u hOp
    exact ⟨hGuar, ih result hRest⟩

end Contract

section

variable {ε : Type} (contract : Contract σ)

/-- The others cannot make the assertion false. -/
def Contract.Stable (P : σ → Prop) : Prop := ∀ s t, contract.rely s t → P s → P t

/-- From the invariant and an assertion on, the program keeps the contract; the invariant and what is said of the
result hold after it. -/
def Contract.Spec (I P : σ → Prop) (program : Prog ω σ α) (Q : α → σ → Prop) : Prop :=
  ∀ s, I s → P s → contract.Meets program (fun result t => I t ∧ Q result t) s

/-- The same for a program that can fail. -/
def Contract.Attempt (I P : σ → Prop) (program : ExceptT ε (Prog ω σ) α) (Q : α → σ → Prop) (E : σ → Prop) : Prop :=
  contract.Spec I P program.run fun outcome s =>
    match outcome with
    | .ok value => Q value s
    | .error _ => E s

variable {contract} {I P R E F : σ → Prop}

variable {Q S : α → σ → Prop} {program : Prog ω σ α} {value : α} {f : α → Prog ω σ β}

theorem spec_mono (h : contract.Spec I P program Q)
    (hP : ∀ s, R s → P s) (hQ : ∀ result s, Q result s → S result s) : contract.Spec I R program S :=
  fun s hI hs => (h s hI (hP s hs)).mono fun result t ht => ⟨ht.1, hQ result t ht.2⟩

theorem spec_of_invariant (h : contract.Spec I P program Q)
    (hP : ∀ s, I s → R s → P s) : contract.Spec I R program Q :=
  fun s hI hs => h s hI (hP s hI hs)

theorem spec_ret (hI : contract.Stable I) (hQ : contract.Stable (Q value))
    (h : ∀ s, P s → Q value s) : contract.Spec I P (pure value : Prog ω σ α) Q :=
  fun s hs hP t ht => ⟨hI s t ht hs, hQ s t ht (h s hP)⟩

theorem spec_bind {Q : β → σ → Prop}
    (h : contract.Spec I P program S) (hf : ∀ value, contract.Spec I (S value) (f value) Q) :
    contract.Spec I P (program >>= f) Q :=
  fun s hI hs => ((h s hI hs).mono fun value t ht => hf value t ht.1 ht.2).bind

theorem spec_map {f : α → β} {Q : β → σ → Prop} (h : contract.Spec I P program (fun value => Q (f value))) :
    contract.Spec I P (program >>= fun value => pure (f value)) Q := by
  intro s hI hs
  exact (h s hI hs).map

theorem spec_step {op : ω → σ → Option (α × σ)} (hI : contract.Stable I) (hP : contract.Stable P)
    (hQ : ∀ result, contract.Stable (Q result))
    (h : ∀ s choice result t, I s → P s → op choice s = some (result, t) → contract.guar s t ∧ I t ∧ Q result t) :
    contract.Spec I P (.atomically op) Q := by
  intro s hs hPs t ht choice result u hOp
  obtain ⟨hGuar, hIu, hResult⟩ := h t choice result u (hI s t ht hs) (hP s t ht hPs) hOp
  exact ⟨hGuar, fun v hv => ⟨hI u v hv hIu, hQ result u v hv hResult⟩⟩

theorem attempt_mono {program : ExceptT ε (Prog ω σ) α} (h : contract.Attempt I P program Q E)
    (hP : ∀ s, R s → P s) (hQ : ∀ value s, Q value s → S value s) (hE : ∀ s, E s → F s) :
    contract.Attempt I R program S F := by
  apply spec_mono h hP
  rintro (error | value) s hs
  · exact hE s hs
  · exact hQ value s hs

theorem attempt_bind {program : ExceptT ε (Prog ω σ) α} {f : α → ExceptT ε (Prog ω σ) β}
    {Q : β → σ → Prop} (hI : contract.Stable I) (hE : contract.Stable E) (h : contract.Attempt I P program S E)
    (hf : ∀ value, contract.Attempt I (S value) (f value) Q E) : contract.Attempt I P (program >>= f) Q E := by
  apply spec_bind h
  rintro (error | value)
  · exact spec_ret hI hE fun _ => id
  · exact hf value

theorem attempt_lift (h : contract.Spec I P program Q) :
    contract.Attempt I P (ExceptT.lift program : ExceptT ε (Prog ω σ) α) Q E :=
  spec_map h

def Prog.LooksOnly : Prog ω σ α → Prop
  | .ret _ => True
  | .step op rest => (∀ choice s result t, op choice s = some (result, t) → t = s) ∧ ∀ result, (rest result).LooksOnly

theorem Prog.LooksOnly.bind (h : program.LooksOnly)
    (hf : ∀ value, (f value).LooksOnly) : (program >>= f).LooksOnly := by
  change (program.bind f).LooksOnly
  induction program with
  | ret value => exact hf value
  | step op rest ih => exact ⟨h.1, fun result => ih result (h.2 result)⟩

theorem looksOnly_bind {program : ExceptT ε (Prog ω σ) α} {f : α → ExceptT ε (Prog ω σ) β}
    (h : program.run.LooksOnly) (hf : ∀ value, (f value).run.LooksOnly) : (program >>= f).run.LooksOnly := by
  apply Prog.LooksOnly.bind h
  rintro (error | value)
  · exact trivial
  · exact hf value

theorem spec_looksOnly (hI : contract.Stable I) (hRefl : ∀ s, contract.guar s s)
    (h : program.LooksOnly) (hP : contract.Stable P) : contract.Spec I P program (fun _ => P) := by
  intro s hs hPs
  induction program generalizing s with
  | ret value => exact fun t ht => ⟨hI s t ht hs, hP s t ht hPs⟩
  | step op rest ih =>
    intro t ht choice result u hOp
    obtain rfl := h.1 choice t result u hOp
    exact ⟨hRefl u, ih result (h.2 result) u (hI s u ht hs) (hP s u ht hPs)⟩

end

section

variable [DecidableEq τ] {contracts : τ → Contract σ}

/-- Every thread keeps its contract from here on. -/
def Sound (contracts : τ → Contract σ) (config : Config τ ω σ) : Prop :=
  ∀ thread, (contracts thread).Meets (config.threads thread) (fun _ _ => True) config.state

theorem Sound.advance? {config next : Config τ ω σ} (h : Sound contracts config)
    (hOthers : ∀ thread other s t, other ≠ thread → (contracts thread).guar s t → (contracts other).rely s t)
    {thread : τ} {choice : ω} (hNext : config.advance? thread choice = some next) :
    (contracts thread).guar config.state next.state ∧ Sound contracts next := by
  have hThread := h thread
  rw [Config.advance?] at hNext
  cases hProgram : config.threads thread with
  | ret value =>
    rw [hProgram] at hNext
    cases hNext
  | step op rest =>
    rw [hProgram] at hNext hThread
    obtain ⟨⟨result, reached⟩, hOp, rfl⟩ := Option.map_eq_some_iff.mp hNext
    obtain ⟨hGuar, hRest⟩ := hThread _ ((contracts thread).rely_refl _) choice result reached hOp
    refine ⟨hGuar, fun other => ?_⟩
    by_cases hOther : other = thread
    · subst hOther
      simpa using hRest
    · dsimp only
      rw [Function.update_of_ne hOther]
      exact (h other).rely (hOthers thread other _ _ hOther hGuar)

theorem Sound.run {config : Config τ ω σ} (h : Sound contracts config)
    (hOthers : ∀ thread other s t, other ≠ thread → (contracts thread).guar s t → (contracts other).rely s t)
    {P : σ → Prop} (hGuar : ∀ thread s t, (contracts thread).guar s t → P s → P t) (hFirst : P config.state)
    (schedule : List (τ × ω)) : P (config.run schedule).state ∧ Sound contracts (config.run schedule) := by
  induction schedule generalizing config with
  | nil => exact ⟨hFirst, h⟩
  | cons scheduled rest ih =>
    change P ((config.advance scheduled).run rest).state ∧ Sound contracts ((config.advance scheduled).run rest)
    rw [Config.advance]
    cases hNext : config.advance? scheduled.1 scheduled.2 with
    | none => exact ih h hFirst
    | some next =>
      obtain ⟨hStep, hSound⟩ := h.advance? hOthers hNext
      exact ih hSound (hGuar _ _ _ hStep hFirst)

end

end Lib.Interleaving
