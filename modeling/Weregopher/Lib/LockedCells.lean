import Weregopher.Lib.Interleaving
import Weregopher.Lib.RunSystem
import Weregopher.Lib.Transition

/-! # Cells behind reader-writer locks, and the log of what happened to them

Threads read a cell under a read guard and change it under the write guard. Events are
appended to one log. A `Meaning` says what the events do to the values of the cells and
when an event may happen; it knows nothing of locks. Programs that keep their `Spec` make every
interleaving `Coherent` with it. The scheduler decides whether a lock is found poisoned,
whether a resource is there and what an instrument shows.
-/
namespace Lib.LockedCells
open Interleaving Stateful

variable {τ ι ε α β : Type} {V : ι → Type}

structure Cell (τ α : Type) where
  value : α
  readers : List τ
  writer : Option τ
  exclusive : writer ≠ none → readers = []

namespace Cell

variable {thread other : τ}

def unlocked (value : α) : Cell τ α := ⟨value, [], none, fun h => absurd rfl h⟩

def read? (thread : τ) (cell : Cell τ α) : Option (Cell τ α) :=
  if h : cell.writer = none then
    some { cell with readers := thread :: cell.readers, exclusive := fun hWriter => absurd h hWriter }
  else none

def write? (thread : τ) (cell : Cell τ α) : Option (Cell τ α) :=
  if h : cell.writer = none ∧ cell.readers = [] then
    some { cell with writer := some thread, exclusive := fun _ => h.2 }
  else none

/-- All that a thread can do to a cell. -/
structure Touches (thread : τ) (cell next : Cell τ α) : Prop where
  readers : ∀ other, other ≠ thread → other ∈ cell.readers → other ∈ next.readers
  writer : ∀ other, other ≠ thread → cell.writer = some other → next.writer = some other
  value : cell.writer ≠ some thread → next.value = cell.value

/-- The guards of a thread are worth something: what it reads stays. -/
structure Keeps (thread : τ) (cell next : Cell τ α) : Prop where
  reading : thread ∈ cell.readers → thread ∈ next.readers ∧ next.value = cell.value
  writing : cell.writer = some thread → next.writer = some thread ∧ next.value = cell.value

theorem Touches.refl (thread : τ) (cell : Cell τ α) : Touches thread cell cell :=
  ⟨fun _ _ => id, fun _ _ => id, fun _ => rfl⟩

theorem Keeps.refl (thread : τ) (cell : Cell τ α) : Keeps thread cell cell := ⟨fun h => ⟨h, rfl⟩, fun h => ⟨h, rfl⟩⟩

variable {cell next : Cell τ α}

theorem Keeps.trans {last : Cell τ α} (h : Keeps thread cell next) (hNext : Keeps thread next last) :
    Keeps thread cell last := by
  constructor
  · intro hReading
    obtain ⟨hMem, hValue⟩ := h.reading hReading
    exact ⟨(hNext.reading hMem).1, (hNext.reading hMem).2.trans hValue⟩
  · intro hWriting
    obtain ⟨hWriter, hValue⟩ := h.writing hWriting
    exact ⟨(hNext.writing hWriter).1, (hNext.writing hWriter).2.trans hValue⟩

theorem Touches.keeps (h : Touches thread cell next) (hOther : other ≠ thread) : Keeps other cell next := by
  constructor
  · intro hReading
    refine ⟨h.readers other hOther hReading, h.value fun hWriter => ?_⟩
    rw [cell.exclusive (by rw [hWriter]; exact Option.some_ne_none thread)] at hReading
    cases hReading
  · intro hWriting
    refine ⟨h.writer other hOther hWriting, h.value fun hWriter => ?_⟩
    exact hOther (Option.some.inj (hWriting.symm.trans hWriter))

theorem read?_some (h : cell.read? thread = some next) :
    Touches thread cell next ∧ thread ∈ next.readers ∧ next.value = cell.value := by
  rw [read?] at h
  split at h
  · cases h
    exact ⟨⟨fun _ _ => List.mem_cons_of_mem thread, fun _ _ => id, fun _ => rfl⟩, List.mem_cons_self, rfl⟩
  · cases h

theorem write?_some (h : cell.write? thread = some next) :
    Touches thread cell next ∧ next.writer = some thread ∧ next.value = cell.value := by
  rw [write?] at h
  split at h
  · rename_i hFree
    cases h
    refine ⟨⟨fun _ _ => id, fun other _ hWriter => ?_, fun _ => rfl⟩, rfl, rfl⟩
    rw [hFree.1] at hWriter
    cases hWriter
  · cases h

variable [DecidableEq τ]

def unread (thread : τ) (cell : Cell τ α) : Cell τ α :=
  { cell with readers := cell.readers.erase thread, exclusive := fun h => by rw [cell.exclusive h]; rfl }

def assign? (thread : τ) (value : α) (cell : Cell τ α) : Option (Cell τ α) :=
  if cell.writer = some thread then some { cell with value := value } else none

def unwrite (thread : τ) (cell : Cell τ α) : Cell τ α :=
  if cell.writer = some thread then { cell with writer := none, exclusive := fun h => absurd rfl h } else cell

theorem touches_unread (cell : Cell τ α) : Touches thread cell (cell.unread thread) :=
  ⟨fun _ hOther hMem => (List.mem_erase_of_ne hOther).mpr hMem, fun _ _ => id, fun _ => rfl⟩

theorem assign?_some {value : α} (h : cell.assign? thread value = some next) :
    Touches thread cell next ∧ next.value = value := by
  rw [assign?] at h
  split at h
  · rename_i hWriter
    cases h
    exact ⟨⟨fun _ _ => id, fun _ _ => id, fun hOther => absurd hWriter hOther⟩, rfl⟩
  · cases h

theorem touches_unwrite (cell : Cell τ α) : Touches thread cell (cell.unwrite thread) := by
  rw [unwrite]
  split
  · rename_i hWriter
    refine ⟨fun _ _ => id, fun other hOther hOwn => ?_, fun _ => rfl⟩
    exact absurd (Option.some.inj (hOwn.symm.trans hWriter)) hOther
  · exact Touches.refl thread cell

theorem value_unwrite (cell : Cell τ α) : (cell.unwrite thread).value = cell.value := by
  rw [unwrite]
  split <;> rfl

end Cell

structure World (τ : Type) {ι : Type} (V : ι → Type) (ε : Type) where
  cells : (i : ι) → Cell τ (V i)
  log : List ε

namespace World

variable (world : World τ V ε)

def append (events : List ε) : World τ V ε := { world with log := world.log ++ events }

@[simp] theorem log_append (events : List ε) : (world.append events).log = world.log ++ events := rfl

@[simp] theorem cells_append (events : List ε) : (world.append events).cells = world.cells := rfl

variable [DecidableEq ι]

def set (i : ι) (cell : Cell τ (V i)) : World τ V ε := { world with cells := Function.update world.cells i cell }

@[simp] theorem log_set (i : ι) (cell : Cell τ (V i)) : (world.set i cell).log = world.log := rfl

@[simp] theorem cells_set_self (i : ι) (cell : Cell τ (V i)) : (world.set i cell).cells i = cell := by
  dsimp only [set]
  rw [Function.update_self]

theorem cells_set_of_ne {i j : ι} (cell : Cell τ (V i)) (h : j ≠ i) :
    (world.set i cell).cells j = world.cells j := by
  dsimp only [set]
  rw [Function.update_of_ne h]

end World

/-- What events do to the values, and when they may happen. -/
structure Meaning (V : ι → Type) (ε : Type) where
  initial : (i : ι) → V i
  replay : (i : ι) → V i → ε → V i
  lawful : ((i : ι) → V i) → List ε → ε → Prop

variable (meaning : Meaning V ε)

def Meaning.after (log : List ε) (i : ι) : V i := log.foldl (meaning.replay i) (meaning.initial i)

theorem Meaning.after_concat (log : List ε) (event : ε) (i : ι) :
    meaning.after (log ++ [event]) i = meaning.replay i (meaning.after log i) event := by
  rw [after, List.foldl_append]
  rfl

structure Coherent (meaning : Meaning V ε) (world : World τ V ε) : Prop where
  values : ∀ i, (world.cells i).value = meaning.after world.log i
  lawful : EachAfter (fun front event => meaning.lawful (meaning.after front) front event) world.log

structure Choice where
  fails : Bool
  shown : Nat

abbrev Program (τ : Type) {ι : Type} (V : ι → Type) (ε : Type) (α : Type) := Prog Choice (World τ V ε) α

section

variable [DecidableEq τ] [DecidableEq ι] (thread : τ) (i : ι)

def readLock : Program τ V ε (Option (V i)) :=
  .atomically fun choice world =>
    if choice.fails then some (none, world)
    else ((world.cells i).read? thread).map fun cell => (some cell.value, world.set i cell)

def unlockRead : Program τ V ε Unit :=
  .atomically fun _ world => some ((), world.set i ((world.cells i).unread thread))

def writeLock : Program τ V ε (Option (V i)) :=
  .atomically fun choice world =>
    if choice.fails then some (none, world)
    else ((world.cells i).write? thread).map fun cell => (some cell.value, world.set i cell)

def assign (value : V i) (events : List ε) : Program τ V ε Unit :=
  .atomically fun _ world =>
    ((world.cells i).assign? thread value).map fun cell => ((), (world.set i cell).append events)

def unlockWrite : Program τ V ε Unit :=
  .atomically fun _ world => some ((), world.set i ((world.cells i).unwrite thread))

/-- A thread goes on once something has happened. -/
def await (happened : List ε → Bool) : Program τ V ε Unit :=
  .atomically fun _ world => if happened world.log then some ((), world) else none

def record (event : ε) : Program τ V ε Unit := .atomically fun _ world => some ((), world.append [event])

def available : Program τ V ε Bool := .atomically fun choice world => some (!choice.fails, world)

def instrument : Program τ V ε Nat := .atomically fun choice world => some (choice.shown, world)

def reading (onPoison : α) (body : V i → Program τ V ε α) : Program τ V ε α := do
  match ← readLock thread i with
  | none => return onPoison
  | some value =>
    let result ← body value
    unlockRead thread i
    return result

/-- The transition is made under the write guard; a success leaves its event. -/
def updating {δ : Type} (onPoison : δ) (body : Transition (V i) δ α) (event : α → Option ε) :
    Program τ V ε (Except δ α) := do
  match ← writeLock thread i with
  | none => return .error onPoison
  | some value =>
    let (result, next) := exec body value
    assign thread i next (result.toOption.bind event).toList
    unlockWrite thread i
    return result

end

section

variable (meaning : Meaning V ε)

def contract (thread : τ) : Contract (World τ V ε) where
  rely s t := (∀ i, (s.cells i).Keeps thread (t.cells i)) ∧ s.log <+: t.log ∧ (Coherent meaning s → Coherent meaning t)
  guar s t := (∀ i, (s.cells i).Touches thread (t.cells i)) ∧ s.log <+: t.log ∧
    (Coherent meaning s → Coherent meaning t)
  rely_refl _ := ⟨fun _ => .refl thread _, List.prefix_rfl, id⟩
  rely_trans h h' := ⟨fun i => (h.1 i).trans (h'.1 i), h.2.1.trans h'.2.1, h'.2.2 ∘ h.2.2⟩

theorem guar_rely (thread other : τ) (s t : World τ V ε) (hOther : other ≠ thread)
    (h : (contract meaning thread).guar s t) : (contract meaning other).rely s t :=
  ⟨fun i => (h.1 i).keeps hOther, h.2⟩

/-- A program of the thread, with coherence as the invariant. -/
abbrev Spec (thread : τ) (P : World τ V ε → Prop) (program : Program τ V ε α) (Q : α → World τ V ε → Prop) : Prop :=
  (contract meaning thread).Spec (Coherent meaning) P program Q

/-- The others cannot make the assertion false, nor can a new event. -/
structure Steady (thread : τ) (P : World τ V ε → Prop) : Prop where
  stable : ∀ s t, (contract meaning thread).rely s t → P s → P t
  logged : ∀ s t, s.log <+: t.log → t.cells = s.cells → P s → P t

/-- The others cannot make the assertion false, nor can what its thread does to cell `i` and to the log. -/
structure Persists (thread : τ) (i : ι) (P : World τ V ε → Prop) : Prop where
  stable : ∀ s t, (contract meaning thread).rely s t → P s → P t
  framed : ∀ s t, s.log <+: t.log → (∀ j, j ≠ i → t.cells j = s.cells j) → P s → P t

/-- The cell has held the value at some moment until now. -/
def Seen (i : ι) (value : V i) (world : World τ V ε) : Prop :=
  ∃ earlier, earlier <+: world.log ∧ meaning.after earlier i = value

def Reading (thread : τ) (i : ι) (value : V i) (world : World τ V ε) : Prop :=
  thread ∈ (world.cells i).readers ∧ (world.cells i).value = value

variable {meaning} {thread : τ} {i : ι} {P : World τ V ε → Prop}

theorem Persists.steady (h : Persists meaning thread i P) : Steady meaning thread P :=
  ⟨h.stable, fun s t hLog hCells => h.framed s t hLog fun j _ => congrFun hCells j⟩

variable {R : World τ V ε → Prop} {j : ι} {s : World τ V ε} {Q : α → World τ V ε → Prop}
  {op : Choice → World τ V ε → Option (α × World τ V ε)} {value : V i} {event : ε} {cell : Cell τ (V i)}

theorem Steady.and (hP : Steady meaning thread P) (hR : Steady meaning thread R) :
    Steady meaning thread (fun s => P s ∧ R s) :=
  ⟨fun s t h => And.imp (hP.stable s t h) (hR.stable s t h),
    fun s t hLog h => And.imp (hP.logged s t hLog h) (hR.logged s t hLog h)⟩

theorem steady_const (p : Prop) : Steady meaning thread (fun _ => p) := ⟨fun _ _ _ => id, fun _ _ _ _ => id⟩

theorem steady_logged (event : ε) : Steady meaning thread (fun s => event ∈ s.log) :=
  ⟨fun _ _ h hMem => h.2.1.subset hMem, fun _ _ hLog _ hMem => hLog.subset hMem⟩

theorem steady_reading (i : ι) (value : V i) : Steady meaning thread (Reading thread i value) := by
  constructor
  · rintro s t hRely ⟨hMem, rfl⟩
    exact (hRely.1 i).reading hMem
  · intro s t _ hCells hs
    rw [Reading, hCells]
    exact hs

theorem Persists.and (hP : Persists meaning thread i P) (hR : Persists meaning thread i R) :
    Persists meaning thread i (fun s => P s ∧ R s) :=
  ⟨fun s t h => And.imp (hP.stable s t h) (hR.stable s t h),
    fun s t hLog h => And.imp (hP.framed s t hLog h) (hR.framed s t hLog h)⟩

theorem persists_const (p : Prop) : Persists meaning thread i (fun _ => p) := ⟨fun _ _ _ => id, fun _ _ _ _ => id⟩

theorem persists_logged (event : ε) : Persists meaning thread i (fun s => event ∈ s.log) :=
  ⟨(steady_logged event).stable, fun _ _ hLog _ hMem => hLog.subset hMem⟩

theorem persists_seen (value : V j) : Persists meaning thread i (Seen meaning j value) := by
  constructor
  · rintro s t hRely ⟨earlier, hEarlier, hValue⟩
    exact ⟨earlier, hEarlier.trans hRely.2.1, hValue⟩
  · rintro s t hLog - ⟨earlier, hEarlier, hValue⟩
    exact ⟨earlier, hEarlier.trans hLog, hValue⟩

theorem Coherent.seen (h : Coherent meaning s) (i : ι) : Seen meaning i (s.cells i).value s :=
  ⟨s.log, List.prefix_rfl, (h.values i).symm⟩

theorem persists_imp {p : Prop} (h : Persists meaning thread i P) : Persists meaning thread i (fun s => p → P s) :=
  ⟨fun s t hRely hImp hp => h.stable s t hRely (hImp hp),
    fun s t hLog hCells hImp hp => h.framed s t hLog hCells (hImp hp)⟩

theorem persists_forall {γ : Sort*} {R : γ → World τ V ε → Prop} (h : ∀ x, Persists meaning thread i (R x)) :
    Persists meaning thread i (fun s => ∀ x, R x s) :=
  ⟨fun s t hRely hAll x => (h x).stable s t hRely (hAll x),
    fun s t hLog hCells hAll x => (h x).framed s t hLog hCells (hAll x)⟩

theorem persists_reading {value : V j} (h : j ≠ i) : Persists meaning thread i (Reading thread j value) := by
  refine ⟨(steady_reading j value).stable, ?_⟩
  rintro s t - hCells ⟨hMem, rfl⟩
  rw [Reading, hCells j h]
  exact ⟨hMem, rfl⟩

theorem coherent_stable : (contract meaning thread).Stable (Coherent meaning) := fun _ _ h => h.2.2

theorem spec_pure {value : α} (hQ : Steady meaning thread (Q value))
    (h : ∀ s, P s → Q value s) : Spec meaning thread P (pure value) Q :=
  spec_ret coherent_stable hQ.stable h

theorem spec_done {value : α} : Spec meaning thread P (pure value) (fun _ _ => True) :=
  spec_pure (steady_const True) fun _ _ => trivial

theorem spec_atomically (hP : ∀ s t, (contract meaning thread).rely s t → P s → P t)
    (hQ : ∀ result s t, (contract meaning thread).rely s t → Q result s → Q result t)
    (h : ∀ s choice result t, Coherent meaning s → P s → op choice s = some (result, t) →
      (contract meaning thread).guar s t ∧ Q result t) :
    Spec meaning thread P (.atomically op) Q := by
  apply spec_step coherent_stable hP hQ
  intro s choice result t hCoherent hs hOp
  obtain ⟨hGuar, hResult⟩ := h s choice result t hCoherent hs hOp
  exact ⟨hGuar, hGuar.2.2 hCoherent, hResult⟩

def Writing (thread : τ) (i : ι) (value : V i) (world : World τ V ε) : Prop :=
  (world.cells i).writer = some thread ∧ (world.cells i).value = value

theorem writing_stable (s t : World τ V ε) (h : (contract meaning thread).rely s t)
    (hs : Writing thread i value s) : Writing thread i value t := by
  obtain ⟨hWriter, rfl⟩ := hs
  exact (h.1 i).writing hWriter

theorem spec_look (hP : Steady meaning thread P) (hQ : ∀ result, Steady meaning thread (Q result))
    (h : ∀ s choice result t, P s → op choice s = some (result, t) → t = s ∧ Q result s) :
    Spec meaning thread P (.atomically op) Q := by
  apply spec_atomically hP.stable fun result => (hQ result).stable
  intro s choice result t _ hs hOp
  obtain ⟨rfl, hResult⟩ := h s choice result t hs hOp
  exact ⟨⟨fun j => .refl thread _, List.prefix_rfl, id⟩, hResult⟩

theorem spec_available (hP : Steady meaning thread P) : Spec meaning thread P available (fun _ => P) := by
  apply spec_look hP fun _ => hP
  intro s choice result t hs hOp
  cases hOp
  exact ⟨rfl, hs⟩

theorem spec_instrument (hP : Steady meaning thread P) : Spec meaning thread P instrument (fun _ => P) := by
  apply spec_look hP fun _ => hP
  intro s choice result t hs hOp
  cases hOp
  exact ⟨rfl, hs⟩

theorem spec_await [DecidableEq ε] (hP : Steady meaning thread P) :
    Spec meaning thread P (await fun log => decide (event ∈ log)) (fun _ s => P s ∧ event ∈ s.log) := by
  apply spec_look hP fun _ => hP.and (steady_logged event)
  intro s choice result t hs hOp
  split at hOp
  · rename_i hMem
    cases hOp
    exact ⟨rfl, hs, of_decide_eq_true hMem⟩
  · cases hOp

theorem spec_record (hP : Steady meaning thread P)
    (h : ∀ s, P s → meaning.lawful (fun j => (s.cells j).value) s.log event)
    (hReplay : ∀ j value, meaning.replay j value event = value) :
    Spec meaning thread P (record event) (fun _ s => P s ∧ event ∈ s.log) := by
  apply spec_atomically hP.stable fun _ => (hP.and (steady_logged event)).stable
  intro s choice result t hCoherent hs hOp
  cases hOp
  refine ⟨⟨fun j => .refl thread _, List.prefix_append _ _, fun _ => ⟨fun j => ?_, ?_⟩⟩, ?_, by simp⟩
  · rw [World.log_append, Meaning.after_concat, World.cells_append, ← hCoherent.values j, hReplay]
  · have hValues : (fun j => (s.cells j).value) = meaning.after s.log := funext hCoherent.values
    rw [World.log_append, EachAfter.concat_iff]
    exact ⟨hCoherent.lawful, hValues ▸ h s hs⟩
  · exact hP.logged s _ (List.prefix_append _ _) rfl hs

/-- What is asked of an event before it is recorded. -/
structure Permitted (meaning : Meaning V ε) (i : ι) (s : World τ V ε) (event : ε) : Prop where
  lawful : meaning.lawful (fun j => (s.cells j).value) s.log event
  others : ∀ j, j ≠ i → meaning.replay j (s.cells j).value event = (s.cells j).value

variable [DecidableEq ι]

theorem touches_set (h : (s.cells i).Touches thread cell) (j : ι) :
    (s.cells j).Touches thread ((s.set i cell).cells j) := by
  by_cases hj : j = i
  · subst hj
    rw [World.cells_set_self]
    exact h
  · rw [World.cells_set_of_ne s cell hj]
    exact .refl thread _

theorem Coherent.set (h : Coherent meaning s)
    (hValue : cell.value = (s.cells i).value) : Coherent meaning (s.set i cell) := by
  refine ⟨fun j => ?_, h.lawful⟩
  by_cases hj : j = i
  · subst hj
    rw [World.cells_set_self, hValue]
    exact h.values j
  · rw [World.cells_set_of_ne s cell hj]
    exact h.values j

theorem Coherent.append (h : Coherent meaning s) (hPermitted : Permitted meaning i s event)
    (hValue : cell.value = meaning.replay i (s.cells i).value event) :
    Coherent meaning ((s.set i cell).append [event]) := by
  have hValues : (fun j => (s.cells j).value) = meaning.after s.log := funext h.values
  constructor
  · intro j
    rw [World.log_append, World.log_set, Meaning.after_concat, World.cells_append, ← h.values j]
    by_cases hj : j = i
    · subst hj
      rw [World.cells_set_self, hValue]
    · rw [World.cells_set_of_ne s cell hj, hPermitted.others j hj]
  · rw [World.log_append, World.log_set, EachAfter.concat_iff]
    exact ⟨h.lawful, hValues ▸ hPermitted.lawful⟩

theorem guar_set (h : (s.cells i).Touches thread cell)
    (hValue : cell.value = (s.cells i).value) : (contract meaning thread).guar s (s.set i cell) :=
  ⟨touches_set h, List.prefix_rfl, fun hCoherent => hCoherent.set hValue⟩

theorem framed_set (hP : Persists meaning thread i P) (h : P s) : P (s.set i cell) :=
  hP.framed s _ List.prefix_rfl (fun _ hj => World.cells_set_of_ne s cell hj) h

theorem spec_readLock (hP : Persists meaning thread i P) : Spec meaning thread P (readLock thread i)
      (fun result s => P s ∧ ∀ value, result = some value → Reading thread i value s) := by
  apply spec_atomically hP.stable
  · intro result s t h hs
    exact ⟨hP.stable s t h hs.1, fun value hValue => (steady_reading i value).stable s t h (hs.2 value hValue)⟩
  · intro s choice result t _ hs hOp
    split at hOp
    · cases hOp
      exact ⟨⟨fun j => .refl thread _, List.prefix_rfl, id⟩, hs, nofun⟩
    · obtain ⟨cell, hCell, hResult⟩ := Option.map_eq_some_iff.mp hOp
      obtain ⟨hTouches, hMem, hValue⟩ := Cell.read?_some hCell
      cases hResult
      refine ⟨guar_set hTouches hValue, framed_set hP hs, ?_⟩
      rintro value ⟨⟩
      rw [Reading, World.cells_set_self]
      exact ⟨hMem, rfl⟩

theorem spec_writeLock (hP : Persists meaning thread i P) : Spec meaning thread P (writeLock thread i)
      (fun result s => P s ∧ ∀ value, result = some value → Writing thread i value s) := by
  apply spec_atomically hP.stable
  · intro result s t h hs
    exact ⟨hP.stable s t h hs.1, fun value hValue => writing_stable s t h (hs.2 value hValue)⟩
  · intro s choice result t _ hs hOp
    split at hOp
    · cases hOp
      exact ⟨⟨fun j => .refl thread _, List.prefix_rfl, id⟩, hs, nofun⟩
    · obtain ⟨cell, hCell, hResult⟩ := Option.map_eq_some_iff.mp hOp
      obtain ⟨hTouches, hWriter, hValue⟩ := Cell.write?_some hCell
      cases hResult
      refine ⟨guar_set hTouches hValue, framed_set hP hs, ?_⟩
      rintro value ⟨⟩
      rw [Writing, World.cells_set_self]
      exact ⟨hWriter, rfl⟩

variable [DecidableEq τ]

theorem spec_unlockRead (hP : Persists meaning thread i P) :
    Spec meaning thread P (unlockRead thread i) (fun _ => P) := by
  apply spec_atomically hP.stable fun _ => hP.stable
  intro s choice result t _ hs hOp
  cases hOp
  exact ⟨guar_set (Cell.touches_unread _) rfl, framed_set hP hs⟩

theorem spec_reading {onPoison : α} {body : V i → Program τ V ε α}
    (hP : Persists meaning thread i P) (hQ : ∀ result, Persists meaning thread i (Q result))
    (hPoison : ∀ s, P s → Q onPoison s)
    (hBody : ∀ value, Spec meaning thread (fun s => P s ∧ Reading thread i value s) (body value) Q) :
    Spec meaning thread P (reading thread i onPoison body) Q := by
  apply spec_bind (spec_readLock hP)
  intro result
  cases result with
  | none => exact spec_pure (hQ onPoison).steady fun s hs => hPoison s hs.1
  | some value =>
    apply spec_bind (spec_mono (hBody value) (fun s hs => ⟨hs.1, hs.2 value rfl⟩) fun _ _ => id)
    intro result
    exact spec_bind (spec_unlockRead (hQ result)) fun _ => spec_pure (hQ result).steady fun _ => id

theorem spec_unlockWrite (hP : Persists meaning thread i P) :
    Spec meaning thread P (unlockWrite thread i) (fun _ => P) := by
  apply spec_atomically hP.stable fun _ => hP.stable
  intro s choice result t _ hs hOp
  cases hOp
  exact ⟨guar_set (Cell.touches_unwrite _) (Cell.value_unwrite _), framed_set hP hs⟩

theorem spec_assign {seen : V i} {event : Option ε} (hP : Persists meaning thread i P)
    (h : ∀ s, P s → (s.cells i).value = seen →
      (event = none → value = seen) ∧
        ∀ e, event = some e → Permitted meaning i s e ∧ value = meaning.replay i seen e) :
    Spec meaning thread (fun s => P s ∧ Writing thread i seen s) (assign thread i value event.toList)
      (fun _ s => P s ∧ ∀ e, event = some e → e ∈ s.log) := by
  have hAfter : Persists meaning thread i (fun s => P s ∧ ∀ e, event = some e → e ∈ s.log) :=
    hP.and (persists_forall fun e => persists_imp (persists_logged e))
  apply spec_atomically
  · exact fun s t hRely hs => ⟨hP.stable s t hRely hs.1, writing_stable s t hRely hs.2⟩
  · exact fun _ => hAfter.stable
  · rintro s choice result t hCoherent ⟨hs, -, hSeen⟩ hOp
    obtain ⟨cell, hCell, hResult⟩ := Option.map_eq_some_iff.mp hOp
    obtain ⟨hTouches, hValue⟩ := Cell.assign?_some hCell
    obtain ⟨hNone, hSome⟩ := h s hs hSeen
    cases hResult
    have hFrame : P ((s.set i cell).append event.toList) :=
      hP.framed s _ (List.prefix_append _ _) (fun j hj => World.cells_set_of_ne s cell hj) hs
    cases event with
    | none =>
      have hSame : (s.set i cell).append (none : Option ε).toList = s.set i cell := by
        rw [World.append, Option.toList_none, List.append_nil]
      rw [hSame]
      refine ⟨guar_set hTouches (by rw [hValue, hNone rfl, hSeen]), hSame ▸ hFrame, nofun⟩
    | some e =>
      obtain ⟨hPermitted, hReplay⟩ := hSome e rfl
      refine ⟨⟨touches_set hTouches, List.prefix_append _ _, fun _ => ?_⟩, hFrame, ?_⟩
      · exact hCoherent.append hPermitted (by rw [hValue, hReplay, hSeen])
      · rintro _ ⟨⟩
        simp

theorem spec_updating {δ : Type} {onPoison : δ} {body : Transition (V i) δ α} {event : α → Option ε}
    (hP : Persists meaning thread i P)
    (hError : ∀ value error next, exec body value = (.error error, next) → next = value)
    (hOk : ∀ s result next, P s → exec body (s.cells i).value = (.ok result, next) →
      (event result = none → next = (s.cells i).value) ∧
        ∀ e, event result = some e → Permitted meaning i s e ∧ next = meaning.replay i (s.cells i).value e) :
    Spec meaning thread P (updating thread i onPoison body event)
      (fun outcome s => P s ∧ ∀ result, outcome = .ok result → ∀ e, event result = some e → e ∈ s.log) := by
  have hDone : ∀ outcome : Except δ α, Persists meaning thread i
      (fun s => P s ∧ ∀ result, outcome = .ok result → ∀ e, event result = some e → e ∈ s.log) := fun outcome =>
    hP.and (persists_forall fun _ => persists_imp (persists_forall fun e => persists_imp (persists_logged e)))
  apply spec_bind (spec_writeLock hP)
  intro found
  cases found with
  | none =>
    refine spec_pure (hDone (.error onPoison)).steady fun s hs => ⟨hs.1, ?_⟩
    intro result hResult
    cases hResult
  | some value =>
    dsimp only
    cases hExec : exec body value with
    | mk outcome next =>
      have hAssign : Spec meaning thread (fun s => P s ∧ Writing thread i value s)
          (assign thread i next (outcome.toOption.bind event).toList)
          (fun _ s => P s ∧ ∀ e, outcome.toOption.bind event = some e → e ∈ s.log) := by
        apply spec_assign hP
        intro s hs hSeen
        cases outcome with
        | error error => exact ⟨fun _ => hError value error next hExec, nofun⟩
        | ok result =>
          rw [← hSeen] at hExec ⊢
          exact hOk s result next hs hExec
      apply spec_bind (spec_mono hAssign (fun s hs => ⟨hs.1, hs.2 value rfl⟩) fun _ s hs => ?_)
      · intro _
        exact spec_bind (spec_unlockWrite (hDone outcome)) fun _ => spec_pure (hDone outcome).steady fun _ => id
      · refine ⟨hs.1, ?_⟩
        rintro result rfl e he
        exact hs.2 e he

/-- A call that records one event whenever it changes the store. -/
theorem spec_updating_event {δ : Type} {onPoison : δ} {body : Transition (V i) δ α} {event : ε}
    (hError : ∀ value error next, exec body value = (.error error, next) → next = value)
    (hOk : ∀ (s : World τ V ε) result next, exec body (s.cells i).value = (.ok result, next) →
      Permitted meaning i s event ∧ next = meaning.replay i (s.cells i).value event) :
    Spec meaning thread (fun _ => True) (updating thread i onPoison body fun _ => some event) (fun _ _ => True) := by
  refine spec_mono (spec_updating (persists_const True) hError ?_) (fun _ => id) fun _ _ _ => trivial
  intro s result next _ h
  refine ⟨fun hNone => absurd hNone (Option.some_ne_none event), ?_⟩
  rintro _ ⟨⟩
  exact hOk s result next h

end

/-- Nobody holds a guard yet and nothing has happened. -/
def World.start : World τ V ε := ⟨fun i => .unlocked (meaning.initial i), []⟩

theorem coherent_start : Coherent meaning (World.start meaning : World τ V ε) := ⟨fun _ => rfl, EachAfter.nil⟩

theorem coherent_run [DecidableEq τ] {meaning : Meaning V ε} {threads : τ → Program τ V ε Unit}
    (h : ∀ thread, Spec meaning thread (fun _ => True) (threads thread) (fun _ _ => True))
    (schedule : List (τ × Choice)) : Coherent meaning (Config.run ⟨threads, World.start meaning⟩ schedule).state := by
  have hSound : Sound (contract meaning) ⟨threads, World.start meaning⟩ := by
    intro thread
    exact (h thread _ (coherent_start meaning) trivial).mono fun _ _ _ => trivial
  exact (hSound.run (guar_rely meaning) (fun _ _ _ hGuar => hGuar.2.2) (coherent_start meaning) schedule).1

end Lib.LockedCells
