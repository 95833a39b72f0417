import Weregopher.Lib.Interleaving

/-! # A disk that threads share

A file may have several names. Every operation is atomic and may fail with any error.
A file keeps track of the thread that made it. Threads that follow a `Discipline` write
to files of their own, take back only names of their own and give a shared name to a file
once its content is acceptable: then what it shows is acceptable and never changes.
-/
namespace Lib.SharedDisk
open Interleaving

variable {τ π ε α β : Type}

structure File (τ : Type) where
  content : List UInt8
  creator : τ

structure Disk (τ π : Type) where
  directories : List π
  names : π → Option Nat
  files : List (File τ)

structure World (τ π ε : Type) where
  disk : Disk τ π
  log : List ε

inductive Failure
  | notFound
  | alreadyExists
  | other

/-- Decided outside of the threads: failures, how much is transferred, what is drawn at random, what a reader
supplies and what metadata shows. -/
structure Choice where
  failure : Option Failure
  amount : Nat
  drawn : Nat
  supplied : List UInt8
  (attributes creationTime lastWriteTime : Nat)

structure Metadata where
  (attributes creationTime lastWriteTime size : Nat)
  deriving DecidableEq

abbrev Program (τ π ε α : Type) := Prog Choice (World τ π ε) α

section

def operate (op : Choice → Disk τ π → Except Failure (β × Disk τ π)) : Program τ π ε (Except Failure β) :=
  .atomically fun choice world =>
    match choice.failure with
    | some failure => some (.error failure, world)
    | none =>
      match op choice world.disk with
      | .error failure => some (.error failure, world)
      | .ok (result, disk) => some (.ok result, { world with disk := disk })

def look (op : Choice → Disk τ π → Except Failure β) : Program τ π ε (Except Failure β) :=
  operate fun choice disk => (op choice disk).map (·, disk)

def draw : Program τ π ε Nat := .atomically fun choice world => some (choice.drawn, world)

def record (event : ε) : Program τ π ε Unit :=
  .atomically fun _ world => some ((), { world with log := world.log ++ [event] })

def metadata (file : Nat) : Program τ π ε (Except Failure Metadata) :=
  look fun choice disk =>
    match disk.files[file]? with
    | none => .error .other
    | some file => .ok ⟨choice.attributes, choice.creationTime, choice.lastWriteTime, file.content.length⟩

/-- At least one byte is read unless the end has been reached. -/
def readAt (file position request : Nat) : Program τ π ε (Except Failure (List UInt8)) :=
  look fun choice disk =>
    match disk.files[file]? with
    | none => .error .other
    | some file => .ok ((file.content.drop position).take (min request (choice.amount + 1)))

def identify (file : Nat) : Program τ π ε (Except Failure Nat) := look fun _ _ => .ok file

/-- An operation that shows nothing and changes nothing, such as moving within a file or flushing it. -/
def settle : Program τ π ε (Except Failure Unit) := look fun _ _ => .ok ()

/-- What an arbitrary reader supplies is not on the disk. -/
def supply (request : Nat) : Program τ π ε (Except Failure (List UInt8)) :=
  look fun choice _ => .ok (choice.supplied.take request)

def openFile (path : π) : Program τ π ε (Except Failure Nat) :=
  look fun _ disk =>
    match disk.names path with
    | none => .error .notFound
    | some file => .ok file

/-- The number of bytes written, at least one unless there are none. -/
def append (file : Nat) (bytes : List UInt8) : Program τ π ε (Except Failure Nat) :=
  operate fun choice disk =>
    match disk.files[file]? with
    | none => .error .other
    | some old =>
      let written := bytes.take (choice.amount + 1)
      .ok (written.length, { disk with files := disk.files.set file { old with content := old.content ++ written } })

variable [DecidableEq π]

def createDirectory (path : π) : Program τ π ε (Except Failure Unit) :=
  operate fun _ disk =>
    if path ∈ disk.directories then .error .alreadyExists
    else .ok ((), { disk with directories := path :: disk.directories })

def openDirectory (path : π) : Program τ π ε (Except Failure Unit) :=
  look fun _ disk => if path ∈ disk.directories then .ok () else .error .notFound

def createNew (thread : τ) (path : π) : Program τ π ε (Except Failure Nat) :=
  operate fun _ disk =>
    match disk.names path with
    | some _ => .error .alreadyExists
    | none =>
      .ok (disk.files.length, { disk with
        names := Function.update disk.names path (some disk.files.length)
        files := disk.files ++ [⟨[], thread⟩] })

def link (source target : π) : Program τ π ε (Except Failure Unit) :=
  operate fun _ disk =>
    match disk.names source with
    | none => .error .notFound
    | some file =>
      match disk.names target with
      | some _ => .error .alreadyExists
      | none => .ok ((), { disk with names := Function.update disk.names target (some file) })

def remove (path : π) : Program τ π ε (Except Failure Unit) :=
  operate fun _ disk =>
    match disk.names path with
    | none => .error .notFound
    | some _ => .ok ((), { disk with names := Function.update disk.names path none })

end

def Disk.visible (disk : Disk τ π) (path : π) : Option (List UInt8) :=
  (disk.names path).bind fun file => disk.files[file]?.map File.content

/-- The names that are shared, what may stand there, and which events speak of them. -/
structure Discipline (π ε : Type) where
  shared : π → Prop
  accepts : π → List UInt8 → Prop
  found? : ε → Option π
  created? : ε → Option π

section

variable {thread : τ} {path : π} {file : Nat} {bytes : List UInt8}

theorem named_update [DecidableEq π] {names : π → Option Nat} {other : π} {named : Nat}
    (h : Function.update names path (some file) other = some named) :
    names other = some named ∨ other = path ∧ named = file := by
  by_cases hPath : other = path
  · subst hPath
    rw [Function.update_self] at h
    exact .inr ⟨rfl, (Option.some.inj h).symm⟩
  · rw [Function.update_of_ne hPath] at h
    exact .inl h

theorem shared_ne {discipline : Discipline π ε} (hPrivate : ¬discipline.shared path) {other : π}
    (hShared : discipline.shared other) : other ≠ path := by
  rintro rfl
  exact hPrivate hShared

/-- The name is the only one of a file of the thread. -/
structure Owns (thread : τ) (path : π) (file : Nat) (bytes : List UInt8) (world : World τ π ε) : Prop where
  name : world.disk.names path = some file
  content : world.disk.files[file]? = some ⟨bytes, thread⟩
  only : ∀ other, world.disk.names other = some file → other = path

/-- The name is one of a file of the thread. -/
structure Holds (thread : τ) (path : π) (file : Nat) (world : World τ π ε) : Prop where
  name : world.disk.names path = some file
  content : ∃ bytes, world.disk.files[file]? = some ⟨bytes, thread⟩

theorem Owns.holds {world : World τ π ε} (h : Owns thread path file bytes world) : Holds thread path file world :=
  ⟨h.name, bytes, h.content⟩

theorem looksOnly_look (op : Choice → Disk τ π → Except Failure β) :
    (look op : Program τ π ε (Except Failure β)).LooksOnly := by
  refine ⟨?_, fun _ => trivial⟩
  intro choice s result t hOp
  dsimp only at hOp
  cases hFailure : choice.failure with
  | some failure =>
    rw [hFailure] at hOp
    cases hOp
    rfl
  | none =>
    rw [hFailure] at hOp
    cases hLook : op choice s.disk with
    | error failure =>
      rw [hLook] at hOp
      cases hOp
      rfl
    | ok value =>
      rw [hLook] at hOp
      cases hOp
      rfl

theorem looksOnly_draw : (draw : Program τ π ε Nat).LooksOnly :=
  ⟨fun _ _ _ _ hOp => by cases hOp; rfl, fun _ => trivial⟩

end

section

variable [DecidableEq π] (discipline : Discipline π ε)

/-- How often the log says that the name was created. -/
def creations (path : π) (log : List ε) : Nat := log.countP fun event => discipline.created? event = some path

structure Consistent (world : World τ π ε) : Prop where
  named : ∀ path file, world.disk.names path = some file → ∃ content, world.disk.files[file]? = some content
  accepted : ∀ path file (content : File τ), discipline.shared path → world.disk.names path = some file →
    world.disk.files[file]? = some content → discipline.accepts path content.content
  found : ∀ event ∈ world.log, ∀ path, discipline.found? event = some path ∨ discipline.created? event = some path →
    discipline.shared path ∧ world.disk.names path ≠ none
  once : ∀ path, creations discipline path world.log ≤ 1

/-- Files of the threads concerned, their names and what is said of them are left alone, as is all that is shared. -/
structure Respects (concerned : τ → Prop) (s t : World τ π ε) : Prop where
  files : ∀ (file : Nat) (content : File τ), s.disk.files[file]? = some content →
    ∃ later, t.disk.files[file]? = some later ∧
    later.creator = content.creator ∧ (concerned content.creator → later = content)
  names : ∀ path file (content : File τ), s.disk.names path = some file → s.disk.files[file]? = some content →
    concerned content.creator → t.disk.names path = some file
  fresh : ∀ path file (content : File τ), t.disk.names path = some file → s.disk.files[file]? = some content →
    concerned content.creator → s.disk.names path = some file
  shared : ∀ path file, discipline.shared path → s.disk.names path = some file →
    t.disk.names path = some file ∧ t.disk.files[file]? = s.disk.files[file]?
  log : s.log <+: t.log
  counted : ∀ path file (content : File τ), s.disk.names path = some file → s.disk.files[file]? = some content →
    concerned content.creator → creations discipline path t.log = creations discipline path s.log
  consistent : Consistent discipline s → Consistent discipline t

variable {discipline} {concerned : τ → Prop} {s t u : World τ π ε}

theorem Respects.refl (s : World τ π ε) : Respects discipline concerned s s :=
  ⟨fun _ content h => ⟨content, h, rfl, fun _ => rfl⟩, fun _ _ _ h _ _ => h, fun _ _ _ h _ _ => h,
    fun _ _ _ h => ⟨h, rfl⟩, List.prefix_rfl, fun _ _ _ _ _ _ => rfl, id⟩

theorem Respects.trans (h : Respects discipline concerned s t) (h' : Respects discipline concerned t u) :
    Respects discipline concerned s u where
  files file content hFile := by
    obtain ⟨later, hLater, hCreator, hSame⟩ := h.files file content hFile
    obtain ⟨last, hLast, hCreator', hSame'⟩ := h'.files file later hLater
    refine ⟨last, hLast, hCreator'.trans hCreator, fun hConcerned => ?_⟩
    rw [hSame' (hCreator.symm ▸ hConcerned), hSame hConcerned]
  names path file content hName hFile hConcerned := by
    obtain ⟨later, hLater, hCreator, -⟩ := h.files file content hFile
    exact h'.names path file later (h.names path file content hName hFile hConcerned) hLater
      (hCreator.symm ▸ hConcerned)
  fresh path file content hName hFile hConcerned := by
    obtain ⟨later, hLater, hCreator, -⟩ := h.files file content hFile
    exact h.fresh path file content (h'.fresh path file later hName hLater (hCreator.symm ▸ hConcerned)) hFile
      hConcerned
  shared path file hShared hName := by
    obtain ⟨hLater, hFile⟩ := h.shared path file hShared hName
    obtain ⟨hLast, hFile'⟩ := h'.shared path file hShared hLater
    exact ⟨hLast, hFile'.trans hFile⟩
  log := h.log.trans h'.log
  counted path file content hName hFile hConcerned := by
    obtain ⟨later, hLater, hCreator, -⟩ := h.files file content hFile
    rw [h'.counted path file later (h.names path file content hName hFile hConcerned) hLater
      (hCreator.symm ▸ hConcerned), h.counted path file content hName hFile hConcerned]
  consistent := h'.consistent ∘ h.consistent

theorem Respects.mono {fewer : τ → Prop} (h : Respects discipline concerned s t)
    (hFewer : ∀ thread, fewer thread → concerned thread) : Respects discipline fewer s t where
  files file content hFile := by
    obtain ⟨later, hLater, hCreator, hSame⟩ := h.files file content hFile
    exact ⟨later, hLater, hCreator, fun hConcerned => hSame (hFewer _ hConcerned)⟩
  names path file content hName hFile hConcerned := h.names path file content hName hFile (hFewer _ hConcerned)
  fresh path file content hName hFile hConcerned := h.fresh path file content hName hFile (hFewer _ hConcerned)
  shared := h.shared
  log := h.log
  counted path file content hName hFile hConcerned := h.counted path file content hName hFile (hFewer _ hConcerned)
  consistent := h.consistent

theorem Respects.visible (h : Respects discipline concerned s t) {path : π} {bytes : List UInt8}
    (hShared : discipline.shared path) (hVisible : s.disk.visible path = some bytes) :
    t.disk.visible path = some bytes := by
  obtain ⟨file, hName, hFile⟩ := Option.bind_eq_some_iff.mp hVisible
  obtain ⟨hLater, hSame⟩ := h.shared path file hShared hName
  rw [Disk.visible, hLater, Option.bind_some, hSame]
  exact hFile

theorem Consistent.visible (h : Consistent discipline s) {path : π} {bytes : List UInt8}
    (hShared : discipline.shared path) (hVisible : s.disk.visible path = some bytes) :
    discipline.accepts path bytes := by
  obtain ⟨file, hName, hFile⟩ := Option.bind_eq_some_iff.mp hVisible
  obtain ⟨content, hContent, rfl⟩ := Option.map_eq_some_iff.mp hFile
  exact h.accepted path file content hShared hName hContent

variable (discipline)

def contract (thread : τ) : Contract (World τ π ε) where
  rely := Respects discipline (· = thread)
  guar := Respects discipline (· ≠ thread)
  rely_refl := Respects.refl
  rely_trans := Respects.trans

theorem guar_rely (thread other : τ) (s t : World τ π ε) (hOther : other ≠ thread)
    (h : (contract discipline thread).guar s t) : (contract discipline other).rely s t :=
  h.mono fun _ hThread => hThread.symm ▸ hOther

abbrev Spec (thread : τ) (P : World τ π ε → Prop) (program : Program τ π ε α) (Q : α → World τ π ε → Prop) : Prop :=
  (contract discipline thread).Spec (Consistent discipline) P program Q

variable {discipline} {thread : τ} {P : World τ π ε → Prop} {path target : π} {file : Nat} {bytes : List UInt8}

theorem consistent_stable : (contract discipline thread).Stable (Consistent (τ := τ) discipline) :=
  fun _ _ h => h.consistent

theorem true_stable : (contract discipline thread).Stable (fun _ : World τ π ε => True) := fun _ _ _ => id

/-! ## Assertions -/

structure Filled (discipline : Discipline π ε) (path : π) (world : World τ π ε) : Prop where
  shared : discipline.shared path
  name : world.disk.names path ≠ none

/-- The thread has given the shared name, and nothing has been said of it yet. -/
structure Linked (discipline : Discipline π ε) (thread : τ) (path : π) (world : World τ π ε) : Prop where
  shared : discipline.shared path
  held : ∃ file, Holds thread path file world
  unsaid : creations discipline path world.log = 0

theorem Linked.filled {world : World τ π ε} (h : Linked discipline thread path world) :
    Filled discipline path world := by
  obtain ⟨file, hHolds⟩ := h.held
  exact ⟨h.shared, by rw [hHolds.name]; exact Option.some_ne_none file⟩

theorem owns_stable : (contract discipline thread).Stable (Owns thread path file bytes) := by
  intro s t h hs
  obtain ⟨later, hLater, -, hSame⟩ := h.files file _ hs.content
  refine ⟨h.names path file _ hs.name hs.content rfl, hSame rfl ▸ hLater, fun other hOther => ?_⟩
  exact hs.only other (h.fresh other file _ hOther hs.content rfl)

theorem holds_stable : (contract discipline thread).Stable (Holds thread path file) := by
  rintro s t h ⟨hName, bytes, hContent⟩
  obtain ⟨later, hLater, -, hSame⟩ := h.files file _ hContent
  exact ⟨h.names path file _ hName hContent rfl, bytes, hSame rfl ▸ hLater⟩

theorem filled_stable : (contract discipline thread).Stable (Filled discipline path) := by
  rintro s t h ⟨hShared, hName⟩
  obtain ⟨file, hFile⟩ := Option.ne_none_iff_exists'.mp hName
  exact ⟨hShared, by rw [(h.shared path file hShared hFile).1]; exact Option.some_ne_none file⟩

theorem linked_stable : (contract discipline thread).Stable (Linked discipline thread path) := by
  rintro s t h ⟨hShared, ⟨file, hHolds⟩, hUnsaid⟩
  obtain ⟨bytes, hContent⟩ := hHolds.content
  exact ⟨hShared, ⟨file, holds_stable s t h hHolds⟩,
    (h.counted path file _ hHolds.name hContent rfl).trans hUnsaid⟩

theorem and_stable {Q : World τ π ε → Prop} (hP : (contract discipline thread).Stable P)
    (hQ : (contract discipline thread).Stable Q) : (contract discipline thread).Stable (fun s => P s ∧ Q s) :=
  fun s t h => And.imp (hP s t h) (hQ s t h)

/-! ## Rules -/

theorem spec_looks {program : Program τ π ε α} (h : program.LooksOnly) (hP : (contract discipline thread).Stable P) :
    Spec discipline thread P program (fun _ => P) :=
  spec_looksOnly consistent_stable Respects.refl h hP

theorem spec_operate {op : Choice → Disk τ π → Except Failure (β × Disk τ π)}
    {Q : Except Failure β → World τ π ε → Prop} (hP : (contract discipline thread).Stable P)
    (hQ : ∀ result, (contract discipline thread).Stable (Q result)) (hError : ∀ failure s, P s → Q (.error failure) s)
    (h : ∀ s choice result disk, Consistent discipline s → P s → op choice s.disk = .ok (result, disk) →
      Respects discipline (· ≠ thread) s { s with disk := disk } ∧ Q (.ok result) { s with disk := disk }) :
    Spec discipline thread P (operate op) Q := by
  apply spec_step consistent_stable hP hQ
  intro s choice result t hs hPs hOp
  cases hFailure : choice.failure with
  | some failure =>
    rw [hFailure] at hOp
    cases hOp
    exact ⟨.refl s, hs, hError failure s hPs⟩
  | none =>
    rw [hFailure] at hOp
    cases hDisk : op choice s.disk with
    | error failure =>
      rw [hDisk] at hOp
      cases hOp
      exact ⟨.refl s, hs, hError failure s hPs⟩
    | ok pair =>
      obtain ⟨value, disk⟩ := pair
      rw [hDisk] at hOp
      cases hOp
      obtain ⟨hRespects, hResult⟩ := h s choice value disk hs hPs hDisk
      exact ⟨hRespects, hRespects.consistent hs, hResult⟩

theorem spec_createDirectory : Spec discipline thread (fun _ => True) (createDirectory path) (fun _ _ => True) := by
  apply spec_operate true_stable (fun _ => true_stable) (fun _ _ _ => trivial)
  intro s choice result disk hs _ hOp
  split at hOp
  · cases hOp
  · cases hOp
    refine ⟨⟨?_, fun _ _ _ h _ _ => h, fun _ _ _ h _ _ => h, fun _ _ _ h => ⟨h, rfl⟩, List.prefix_rfl,
      fun _ _ _ _ _ _ => rfl, fun h => ⟨h.named, h.accepted, h.found, h.once⟩⟩, trivial⟩
    exact fun _ content h => ⟨content, h, rfl, fun _ => rfl⟩

theorem spec_openFile (hShared : discipline.shared path) (hP : (contract discipline thread).Stable P) :
    Spec discipline thread P (openFile path)
      (fun result s => P s ∧ ∀ file, result = .ok file → Filled discipline path s) := by
  have hDone : ∀ result : Except Failure Nat, (contract discipline thread).Stable
      (fun s => P s ∧ ∀ file, result = .ok file → Filled discipline path s) := fun result s t h hs =>
    ⟨hP s t h hs.1, fun file hFile => filled_stable s t h (hs.2 file hFile)⟩
  rw [openFile, look]
  apply spec_operate hP hDone (fun _ s hs => ⟨hs, nofun⟩)
  intro s choice result disk hs hPs hOp
  cases hName : s.disk.names path with
  | none =>
    rw [hName] at hOp
    cases hOp
  | some file =>
    rw [hName] at hOp
    cases hOp
    have hFilled : s.disk.names path ≠ none := by
      rw [hName]
      exact Option.some_ne_none _
    exact ⟨.refl s, hPs, fun _ _ => ⟨hShared, hFilled⟩⟩

theorem respects_named {files : List (File τ)} (hs : Consistent discipline s) (hName : s.disk.names path = none)
    (hFiles : ∀ (named : Nat) (content : File τ), s.disk.files[named]? = some content → files[named]? = some content)
    (hOwn : ∀ content, s.disk.files[file]? = some content → content.creator = thread)
    (hFile : ∃ content, files[file]? = some content)
    (hAccepts : discipline.shared path → ∀ content, files[file]? = some content →
      discipline.accepts path content.content) :
    Respects discipline (· ≠ thread) s
      { s with disk := ⟨s.disk.directories, Function.update s.disk.names path (some file), files⟩ } := by
  have hKeep : ∀ other, s.disk.names other ≠ none →
      Function.update s.disk.names path (some file) other = s.disk.names other := by
    intro other hOther
    rw [Function.update_of_ne]
    rintro rfl
    exact hOther hName
  have hOld : ∀ other named, s.disk.names other = some named →
      Function.update s.disk.names path (some file) other = some named := by
    intro other named hOther
    rw [hKeep other (by rw [hOther]; exact Option.some_ne_none named), hOther]
  refine ⟨?_, fun other named _ hOther _ _ => hOld other named hOther, ?_, ?_, List.prefix_rfl,
    fun _ _ _ _ _ _ => rfl, fun _ => ⟨?_, ?_, ?_, hs.once⟩⟩
  · exact fun named content hNamed => ⟨content, hFiles named content hNamed, rfl, fun _ => rfl⟩
  · intro other named content hOther hContent hConcerned
    obtain hKept | ⟨-, rfl⟩ := named_update hOther
    · exact hKept
    · exact absurd (hOwn content hContent) hConcerned
  · intro other named _ hOther
    obtain ⟨content, hContent⟩ := hs.named other named hOther
    exact ⟨hOld other named hOther, by rw [hContent]; exact hFiles named content hContent⟩
  · intro other named hOther
    obtain hKept | ⟨-, rfl⟩ := named_update hOther
    · obtain ⟨content, hContent⟩ := hs.named other named hKept
      exact ⟨content, hFiles named content hContent⟩
    · exact hFile
  · intro other named content hShared hOther hContent
    obtain hKept | ⟨rfl, rfl⟩ := named_update hOther
    · obtain ⟨old, hOldContent⟩ := hs.named other named hKept
      dsimp only at hContent
      rw [hFiles named old hOldContent] at hContent
      exact hs.accepted other named content hShared hKept (hContent ▸ hOldContent)
    · exact hAccepts hShared content hContent
  · intro event hEvent other hOther
    obtain ⟨hShared, hFilled⟩ := hs.found event hEvent other hOther
    refine ⟨hShared, ?_⟩
    dsimp only
    rw [hKeep other hFilled]
    exact hFilled

theorem spec_createNew (hPrivate : ¬discipline.shared path) :
    Spec discipline thread (fun _ => True) (createNew thread path)
      (fun result s => ∀ file, result = .ok file → Owns thread path file [] s) := by
  refine spec_operate true_stable (fun result s t h hs file hFile => owns_stable s t h (hs file hFile))
    nofun ?_
  intro s choice result disk hs _ hOp
  cases hName : s.disk.names path with
  | some file =>
    rw [hName] at hOp
    cases hOp
  | none =>
    rw [hName] at hOp
    cases hOp
    have hNone : s.disk.files[s.disk.files.length]? = none := List.getElem?_eq_none (Nat.le_refl _)
    refine ⟨respects_named hs hName ?_ ?_ ⟨⟨[], thread⟩, by simp⟩ fun hShared => absurd hShared hPrivate, ?_⟩
    · intro file content hFile
      rw [List.getElem?_append_left (List.getElem?_eq_some_iff.mp hFile).1]
      exact hFile
    · intro content hFile
      rw [hNone] at hFile
      cases hFile
    · rintro file ⟨⟩
      refine ⟨by simp, by simp, fun other hOther => ?_⟩
      obtain hKept | ⟨rfl, -⟩ := named_update hOther
      · obtain ⟨content, hFile⟩ := hs.named other _ hKept
        rw [hNone] at hFile
        cases hFile
      · rfl

theorem spec_append (hPrivate : ¬discipline.shared path) (chunk : List UInt8) :
    Spec discipline thread (Owns thread path file bytes) (append file chunk)
      (fun result s =>
        match result with
        | .ok count => Owns thread path file (bytes ++ chunk.take count) s
        | .error _ => Owns thread path file bytes s) := by
  refine spec_operate owns_stable (fun result => ?_) (fun _ _ => id) ?_
  · cases result <;> exact owns_stable
  intro s choice result disk hs hOwns hOp
  dsimp only at hOp
  rw [hOwns.content] at hOp
  cases hOp
  have hLength : file < s.disk.files.length := (List.getElem?_eq_some_iff.mp hOwns.content).1
  have hOther : ∀ other, discipline.shared other → ∀ named, s.disk.names other = some named → file ≠ named := by
    rintro other hShared named hNamed rfl
    exact hPrivate (hOwns.only other hNamed ▸ hShared)
  refine ⟨⟨?_, fun _ _ _ h _ _ => h, fun _ _ _ h _ _ => h, ?_, List.prefix_rfl, fun _ _ _ _ _ _ => rfl,
    fun _ => ⟨?_, ?_, hs.found, hs.once⟩⟩, ?_⟩
  · intro named content hNamed
    dsimp only
    by_cases hFile : file = named
    · subst hFile
      rw [List.getElem?_set_self hLength]
      rw [hOwns.content] at hNamed
      cases hNamed
      exact ⟨_, rfl, rfl, fun hConcerned => absurd rfl hConcerned⟩
    · rw [List.getElem?_set_ne hFile]
      exact ⟨content, hNamed, rfl, fun _ => rfl⟩
  · intro other named hShared hNamed
    dsimp only
    rw [List.getElem?_set_ne (hOther other hShared named hNamed)]
    exact ⟨hNamed, rfl⟩
  · intro other named hNamed
    obtain ⟨content, hContent⟩ := hs.named other named hNamed
    have hIn : named < s.disk.files.length := (List.getElem?_eq_some_iff.mp hContent).1
    exact ⟨_, List.getElem?_eq_getElem (by rw [List.length_set]; exact hIn)⟩
  · intro other named content hShared hNamed hContent
    dsimp only at hContent
    rw [List.getElem?_set_ne (hOther other hShared named hNamed)] at hContent
    exact hs.accepted other named content hShared hNamed hContent
  · refine ⟨hOwns.name, ?_, hOwns.only⟩
    dsimp only
    rw [List.getElem?_set_self hLength, List.length_take, List.take_eq_take_min (i := choice.amount + 1)]

theorem spec_link (hShared : discipline.shared target) (hAccepts : discipline.accepts target bytes)
    (hPrivate : ¬discipline.shared path) :
    Spec discipline thread (Owns thread path file bytes) (link path target)
      (fun result s => Holds thread path file s ∧ (result = .ok () → Linked discipline thread target s)) := by
  have hDone : ∀ result : Except Failure Unit, (contract discipline thread).Stable
      (fun s => Holds thread path file s ∧ (result = .ok () → Linked discipline thread target s)) :=
    fun result s t h hs => ⟨holds_stable s t h hs.1, fun hOk => linked_stable s t h (hs.2 hOk)⟩
  apply spec_operate owns_stable hDone (fun _ s hs => ⟨hs.holds, nofun⟩)
  intro s choice result disk hs hOwns hOp
  rw [hOwns.name] at hOp
  cases hTarget : s.disk.names target with
  | some other =>
    rw [hTarget] at hOp
    cases hOp
  | none =>
    rw [hTarget] at hOp
    cases hOp
    have hUnsaid : creations discipline target s.log = 0 := by
      rw [creations, List.countP_eq_zero]
      intro event hEvent hCreated
      exact (hs.found event hEvent target (.inr (of_decide_eq_true hCreated))).2 hTarget
    have hContent : ∀ content, s.disk.files[file]? = some content → content = ⟨bytes, thread⟩ := fun content hFile =>
      Option.some.inj (hFile.symm.trans hOwns.content)
    refine ⟨respects_named hs hTarget (fun _ _ => id) ?_ ⟨_, hOwns.content⟩ ?_, ?_, ?_⟩
    · exact fun content hFile => congrArg File.creator (hContent content hFile)
    · exact fun _ content hFile => hContent content hFile ▸ hAccepts
    · refine ⟨?_, bytes, hOwns.content⟩
      dsimp only
      rw [Function.update_of_ne (shared_ne hPrivate hShared).symm]
      exact hOwns.name
    · exact fun _ => ⟨hShared, ⟨file, by simp, bytes, hOwns.content⟩, hUnsaid⟩

theorem spec_remove (hPrivate : ¬discipline.shared path) (hP : (contract discipline thread).Stable P)
    (hFrame : ∀ s names, (∀ other, other ≠ path → names other = s.disk.names other) → P s →
      P { s with disk := { s.disk with names := names } }) :
    Spec discipline thread (fun s => Holds thread path file s ∧ P s) (remove path) (fun _ => P) := by
  apply spec_operate (and_stable holds_stable hP) (fun _ => hP) (fun _ _ => And.right)
  rintro s choice result disk hs ⟨hHolds, hPs⟩ hOp
  rw [hHolds.name] at hOp
  cases hOp
  obtain ⟨bytes, hContent⟩ := hHolds.content
  have hKept : ∀ other named, Function.update s.disk.names path none other = some named →
      s.disk.names other = some named := by
    intro other named hNamed
    by_cases hPath : other = path
    · subst hPath
      rw [Function.update_self] at hNamed
      cases hNamed
    · rwa [Function.update_of_ne hPath] at hNamed
  have hShared : ∀ other, discipline.shared other →
      Function.update s.disk.names path none other = s.disk.names other := by
    intro other hOther
    rw [Function.update_of_ne (shared_ne hPrivate hOther)]
  refine ⟨⟨?_, ?_, ?_, ?_, List.prefix_rfl, fun _ _ _ _ _ _ => rfl, fun _ => ⟨?_, ?_, ?_, hs.once⟩⟩, ?_⟩
  · exact fun _ content h => ⟨content, h, rfl, fun _ => rfl⟩
  · intro other named content hNamed hFile hConcerned
    have hPath : other ≠ path := by
      rintro rfl
      rw [hHolds.name] at hNamed
      cases hNamed
      rw [hContent] at hFile
      cases hFile
      exact hConcerned rfl
    dsimp only
    rw [Function.update_of_ne hPath]
    exact hNamed
  · exact fun other named _ hNamed _ _ => hKept other named hNamed
  · intro other named hOther hNamed
    dsimp only
    rw [hShared other hOther]
    exact ⟨hNamed, rfl⟩
  · exact fun other named hNamed => hs.named other named (hKept other named hNamed)
  · exact fun other named content hOther hNamed hFile =>
      hs.accepted other named content hOther (hKept other named hNamed) hFile
  · intro event hEvent other hOther
    obtain ⟨hOtherShared, hFilled⟩ := hs.found event hEvent other hOther
    refine ⟨hOtherShared, ?_⟩
    dsimp only
    rw [hShared other hOtherShared]
    exact hFilled
  · exact hFrame s _ (fun other hOther => Function.update_of_ne hOther _ _) hPs

theorem creations_concat (path : π) (log : List ε) (event : ε) : creations discipline path (log ++ [event]) =
    creations discipline path log + if discipline.created? event = some path then 1 else 0 := by
  simp [creations]

theorem spec_record {event : ε} (hP : (contract discipline thread).Stable P)
    (hFound : ∀ s, P s → ∀ path, discipline.found? event = some path → Filled discipline path s)
    (hCreated : ∀ s, P s → ∀ path, discipline.created? event = some path → Linked discipline thread path s) :
    Spec discipline thread P (record event) (fun _ _ => True) := by
  apply spec_step consistent_stable hP (fun _ => true_stable)
  intro s choice result t hs hPs hOp
  cases hOp
  have hConsistent : Consistent discipline { s with log := s.log ++ [event] } := by
    refine ⟨hs.named, hs.accepted, ?_, fun other => ?_⟩
    · intro said hSaid other hOther
      obtain hOld | hNew := List.mem_append.mp hSaid
      · exact hs.found said hOld other hOther
      · rw [List.mem_singleton] at hNew
        subst hNew
        obtain hOther | hOther := hOther
        · exact ⟨(hFound s hPs other hOther).shared, (hFound s hPs other hOther).name⟩
        · have hFilled := (hCreated s hPs other hOther).filled
          exact ⟨hFilled.shared, hFilled.name⟩
    · dsimp only
      rw [creations_concat]
      split
      · rename_i hOther
        exact Nat.le_of_eq (congrArg (· + 1) (hCreated s hPs other hOther).unsaid)
      · exact hs.once other
  refine ⟨⟨?_, fun _ _ _ h _ _ => h, fun _ _ _ h _ _ => h, fun _ _ _ h => ⟨h, rfl⟩, List.prefix_append _ _, ?_,
    fun _ => hConsistent⟩, hConsistent, trivial⟩
  · exact fun _ content h => ⟨content, h, rfl, fun _ => rfl⟩
  · intro other named content hNamed hFile hConcerned
    dsimp only
    rw [creations_concat, if_neg, Nat.add_zero]
    intro hOther
    obtain ⟨mine, hHolds⟩ := (hCreated s hPs other hOther).held
    obtain ⟨bytes, hContent⟩ := hHolds.content
    rw [hHolds.name] at hNamed
    cases hNamed
    rw [hContent] at hFile
    cases hFile
    exact hConcerned rfl

end

/-! ## Whole runs -/

section

variable [DecidableEq π] {discipline : Discipline π ε}

def World.start (directories : List π) : World τ π ε := ⟨⟨directories, fun _ => none, []⟩, []⟩

theorem consistent_start (directories : List π) : Consistent discipline (World.start directories : World τ π ε) :=
  ⟨nofun, nofun, nofun, fun _ => Nat.zero_le 1⟩

variable {threads : τ → Program τ π ε Unit} {directories : List π}

variable (h : ∀ thread, Spec discipline thread (fun _ => True) (threads thread) (fun _ _ => True))

include h

theorem sound_start : Sound (contract discipline) ⟨threads, World.start directories⟩ := by
  intro thread
  exact (h thread _ (consistent_start directories) trivial).mono fun _ _ _ => trivial

variable [DecidableEq τ]

theorem consistent_run (schedule : List (τ × Choice)) :
    Consistent discipline (Config.run ⟨threads, World.start directories⟩ schedule).state ∧
      Sound (contract discipline) (Config.run ⟨threads, World.start directories⟩ schedule) :=
  (sound_start h).run (guar_rely discipline) (fun _ _ _ hGuar => hGuar.consistent)
    (consistent_start directories) schedule

theorem visible_run
    (schedule more : List (τ × Choice)) {path : π} {bytes : List UInt8} (hShared : discipline.shared path)
    (hVisible : (Config.run ⟨threads, World.start directories⟩ schedule).state.disk.visible path = some bytes) :
    (Config.run ⟨threads, World.start directories⟩ (schedule ++ more)).state.disk.visible path = some bytes := by
  have hRun : Config.run ⟨threads, World.start directories⟩ (schedule ++ more) =
      (Config.run ⟨threads, World.start directories⟩ schedule).run more := by
    rw [Config.run, List.foldl_append]
    rfl
  rw [hRun]
  exact ((consistent_run h schedule).2.run (P := fun world => world.disk.visible path = some bytes)
    (guar_rely discipline) (fun _ _ _ hGuar => hGuar.visible hShared) hVisible more).1

end

end Lib.SharedDisk
