import Weregopher.Lib.Checked
import Weregopher.Lib.KeyedLog
import Weregopher.Lib.OrderedMap
import Weregopher.Lib.Outcome
import Weregopher.Lib.Transition

/-! # Pending requests of one session

Request identifiers, deadlines and cancellation. Every event of a run belongs to one
identifier, and each identifier runs through the same few phases.
-/
namespace Weregopher.Protocol
open Lib Lib.Checked Lib.Outcome Lib.Stateful OrderedMap

structure PendingRequest where
  deadline : Nat
  cancelled : Bool

inductive RequestCancellation
  | newlyCancelled
  | alreadyCancelled

inductive CallCompletion
  | delivered
  | discardedAfterCancellation

inductive PendingRequestError
  | zeroMaximum
  | zeroTimeout
  | deadlineOverflow
  | capacityExceeded (maximum : UInt32)
  | requestIdExhausted
  | unknownRequest (requestId : Nat)

structure PendingRequests where
  maximum : UInt32
  nextRequestId : Nat
  requests : OrderedMap Nat PendingRequest

namespace PendingRequests

abbrev Operation (α : Type) := Transition PendingRequests PendingRequestError α

def new (maximum : UInt32) : Except PendingRequestError PendingRequests :=
  if maximum = 0 then .error .zeroMaximum else .ok ⟨maximum, 1, .empty⟩

/-- Instants run up to `lastInstant`. -/
def begin (lastInstant now timeout : Nat) : Operation Nat := do
  let state ← get
  if timeout = 0 then throw .zeroTimeout
  if state.requests.entries.length ≥ state.maximum.toNat then throw (.capacityExceeded state.maximum)
  let deadline ← liftM (okOr PendingRequestError.deadlineOverflow (checkedAdd lastInstant now timeout))
  let nextRequestId ← liftM (okOr PendingRequestError.requestIdExhausted (checkedAdd u64Max state.nextRequestId 1))
  let requestId := state.nextRequestId
  modify fun state => { state with requests := state.requests.insert requestId ⟨deadline, false⟩ }
  modify fun state => { state with nextRequestId }
  return requestId

def cancel (requestId : Nat) : Operation RequestCancellation := do
  let state ← get
  let request ← liftM (okOr (PendingRequestError.unknownRequest requestId) (state.requests.find? requestId))
  if request.cancelled then
    return .alreadyCancelled
  else
    modify fun state => { state with requests := state.requests.insert requestId { request with cancelled := true } }
    return .newlyCancelled

def complete (requestId : Nat) : Operation CallCompletion := do
  let state ← get
  let request ← liftM (okOr (PendingRequestError.unknownRequest requestId) (state.requests.find? requestId))
  modify fun state => { state with requests := state.requests.erase requestId }
  return if request.cancelled then .discardedAfterCancellation else .delivered

def expire (now : Nat) : Operation (List Nat) := do
  let state ← get
  let expired := (state.requests.entries.filter (·.2.deadline ≤ now)).map Prod.fst
  modify fun state => { state with requests := expired.foldl erase state.requests }
  return expired

end PendingRequests

/-! ## Runs -/

inductive RequestCall
  | begin (now timeout : Nat)
  | cancel (requestId : Nat)
  | complete (requestId : Nat)
  | expire (now : Nat)

inductive RequestEvent
  | issued (requestId : Nat)
  | cancelled (requestId : Nat)
  | delivered (requestId : Nat)
  | discarded (requestId : Nat)
  | expired (requestId : Nat)
  deriving DecidableEq

namespace RequestEvent

def requestId : RequestEvent → Nat
  | issued id | cancelled id | delivered id | discarded id | expired id => id

def issuedId : RequestEvent → Option Nat
  | issued id => some id
  | _ => none

def endedId : RequestEvent → Option Nat
  | delivered id | discarded id | expired id => some id
  | _ => none

end RequestEvent

namespace PendingRequests

variable (lastInstant : Nat)

def perform : RequestCall → Operation (List RequestEvent)
  | .begin now timeout => do
    let requestId ← PendingRequests.begin lastInstant now timeout
    return [.issued requestId]
  | .cancel requestId => do
    let _ ← cancel requestId
    return [.cancelled requestId]
  | .complete requestId => do
    match ← complete requestId with
    | .delivered => return [.delivered requestId]
    | .discardedAfterCancellation => return [.discarded requestId]
  | .expire now => do
    let expired ← expire now
    return expired.map .expired

def system : RunSystem PendingRequests RequestCall RequestEvent where
  next state call := (exec (perform lastInstant call) state).2
  emit state call := (exec (perform lastInstant call) state).1.toOption.getD []

inductive Records (state : PendingRequests) : RequestEvent → PendingRequests → Prop
  | issued (deadline : Nat) (hRoom : state.requests.entries.length < state.maximum.toNat) :
    Records state (.issued state.nextRequestId)
      ⟨state.maximum, state.nextRequestId + 1, state.requests.insert state.nextRequestId ⟨deadline, false⟩⟩
  | cancelled {id : Nat} {request : PendingRequest} (hFind : state.requests.find? id = some request) :
    Records state (.cancelled id)
      { state with requests := state.requests.insert id { request with cancelled := true } }
  | cancelledAgain {id : Nat} {request : PendingRequest} (hFind : state.requests.find? id = some request)
    (hCancelled : request.cancelled = true) : Records state (.cancelled id) state
  | delivered {id : Nat} {request : PendingRequest} (hFind : state.requests.find? id = some request)
    (hCancelled : request.cancelled = false) :
    Records state (.delivered id) { state with requests := state.requests.erase id }
  | discarded {id : Nat} {request : PendingRequest} (hFind : state.requests.find? id = some request)
    (hCancelled : request.cancelled = true) :
    Records state (.discarded id) { state with requests := state.requests.erase id }
  | expired {id : Nat} {request : PendingRequest} (hFind : state.requests.find? id = some request) :
    Records state (.expired id) { state with requests := state.requests.erase id }

inductive RecordsAll : PendingRequests → List RequestEvent → PendingRequests → Prop
  | nil (state : PendingRequests) : RecordsAll state [] state
  | cons {state next last : PendingRequests} {event : RequestEvent} {rest : List RequestEvent}
    (hFirst : Records state event next) (hRest : RecordsAll next rest last) : RecordsAll state (event :: rest) last

theorem RecordsAll.single {state next : PendingRequests} {event : RequestEvent} (h : Records state event next) :
    RecordsAll state [event] next := .cons h (.nil next)

theorem recordsAll_expired (state : PendingRequests) {ids : List Nat} (hNodup : ids.Nodup)
    (hLive : ∀ id ∈ ids, ∃ request, state.requests.find? id = some request) :
    RecordsAll state (ids.map .expired) { state with requests := ids.foldl erase state.requests } := by
  induction ids generalizing state with
  | nil => exact .nil state
  | cons id rest ih =>
    obtain ⟨hFresh, hRest⟩ := List.nodup_cons.mp hNodup
    obtain ⟨request, hFind⟩ := hLive id List.mem_cons_self
    refine .cons (.expired hFind) (ih { state with requests := state.requests.erase id } hRest ?_)
    intro other hOther
    obtain ⟨found, hFound⟩ := hLive other (List.mem_cons_of_mem id hOther)
    refine ⟨found, ?_⟩
    rw [find?_erase_of_ne _ (ne_of_mem_of_not_mem hOther hFresh)]
    exact hFound

variable (call : RequestCall)

theorem perform_spec (state : PendingRequests) :
    wp (perform lastInstant call) state (fun events next => RecordsAll state events next)
      (fun _ next => next = state) := by
  cases call with
  | begin now timeout =>
    simp only [perform, PendingRequests.begin, wp_bind, wp_get, wp_ite, wp_throw, wp_lift, wp_modify, wp_pure, okOr_ok,
      checkedAdd_eq_some, implies_true, true_and, and_true]
    rintro - hRoom deadline - next ⟨-, rfl⟩
    exact .single (.issued deadline (not_le.mp hRoom))
  | cancel id =>
    simp only [perform, cancel, wp_bind, wp_get, wp_ite, wp_lift, wp_modify, wp_pure, okOr_ok, implies_true, and_true]
    intro request hFind
    exact ⟨fun hCancelled => .single (.cancelledAgain hFind hCancelled), fun _ => .single (.cancelled hFind)⟩
  | complete id =>
    simp only [perform, complete, wp_bind, wp_get, wp_lift, wp_modify, wp_pure, okOr_ok, implies_true, and_true]
    intro request hFind
    cases hCancelled : request.cancelled with
    | false => exact .single (.delivered hFind hCancelled)
    | true => exact .single (.discarded hFind hCancelled)
  | expire now =>
    simp only [perform, expire, wp_bind, wp_get, wp_modify, wp_pure]
    apply recordsAll_expired
    · exact InOrder.nodup_keys (state.requests.inOrder.filter _)
    · intro id hId
      obtain ⟨entry, hEntry, rfl⟩ := List.mem_map.mp hId
      exact ⟨entry.2, find?_eq_some.mpr (List.mem_of_mem_filter hEntry)⟩

theorem failed_call (state : PendingRequests) {e : PendingRequestError}
    (h : (exec (perform lastInstant call) state).1 = .error e) : (system lastInstant).next state call = state := by
  have hState := of_exec_error (perform_spec lastInstant call state) (exec_eq_of_fst h)
  exact hState

theorem recordsAll_system (state : PendingRequests) :
    RecordsAll state ((system lastInstant).emit state call) ((system lastInstant).next state call) := by
  have hSpec := perform_spec lastInstant call state
  rw [system]
  dsimp only
  unfold wp at hSpec
  split at hSpec
  · rename_i hExec
    rw [hExec]
    exact hSpec
  · rename_i hExec
    rw [hExec, hSpec]
    exact .nil state

end PendingRequests

/-! ## The phases of an identifier -/

inductive RequestPhase
  | unissued
  | live (cancelled : Bool)
  | delivered
  | discarded
  | expired
  deriving DecidableEq

namespace RequestPhase

def step : RequestPhase → RequestEvent → Option RequestPhase
  | unissued, .issued _ => some (live false)
  | live _, .cancelled _ => some (live true)
  | live false, .delivered _ => some delivered
  | live true, .discarded _ => some discarded
  | live _, .expired _ => some expired
  | _, _ => none

def flag : RequestPhase → Option Bool
  | live cancelled => some cancelled
  | _ => none

theorem flag_eq_some {phase : RequestPhase} {cancelled : Bool} :
    phase.flag = some cancelled ↔ phase = live cancelled := by
  cases phase <;> simp [flag]

theorem step_cases {phase next : RequestPhase} {event : RequestEvent} (h : phase.step event = some next) :
    (∃ id, phase = unissued ∧ event = .issued id ∧ next = live false) ∨
    (∃ id cancelled, phase = live cancelled ∧ event = .cancelled id ∧ next = live true) ∨
    (∃ id, phase = live false ∧ event = .delivered id ∧ next = delivered) ∨
    (∃ id, phase = live true ∧ event = .discarded id ∧ next = discarded) ∨
    ∃ id cancelled, phase = live cancelled ∧ event = .expired id ∧ next = expired := by
  unfold step at h
  split at h <;> simp_all

end RequestPhase

def requestAutomaton : KeyedAutomaton RequestEvent RequestPhase Nat :=
  ⟨RequestEvent.requestId, .unissued, RequestPhase.step⟩

structure RequestWord (word : List RequestEvent) (phase : RequestPhase) : Prop where
  issued : (∃ id, .issued id ∈ word) ↔ phase ≠ .unissued
  ended : (word.filterMap RequestEvent.endedId).length = if phase = .unissued ∨ phase.flag.isSome then 0 else 1
  cancelled : ∀ id, .cancelled id ∈ word → phase = .live true ∨ phase = .discarded ∨ phase = .expired
  wasCancelled : phase = .live true ∨ phase = .discarded → ∃ id, .cancelled id ∈ word
  delivered : ∀ id, .delivered id ∈ word → phase = .delivered
  discarded : ∀ id, .discarded id ∈ word → phase = .discarded

theorem requestWord_step {word : List RequestEvent} {phase next : RequestPhase} {event : RequestEvent}
    (h : RequestWord word phase) (hStep : phase.step event = some next) : RequestWord (word ++ [event]) next := by
  obtain ⟨hIssued, hEnded, hCancelled, hWas, hDelivered, hDiscarded⟩ := h
  obtain ⟨id, rfl, rfl, rfl⟩ | ⟨id, flag, rfl, rfl, rfl⟩ | ⟨id, rfl, rfl, rfl⟩ | ⟨id, rfl, rfl, rfl⟩ |
    ⟨id, flag, rfl, rfl, rfl⟩ := RequestPhase.step_cases hStep
  all_goals
    constructor
    case ended => simpa [RequestPhase.flag, RequestEvent.endedId] using hEnded
    all_goals grind

theorem requestWord_of_legal {log : List RequestEvent} (h : requestAutomaton.Legal log) (id : Nat) :
    RequestWord (requestAutomaton.ofKey id log) (requestAutomaton.phaseAfter log id) := by
  refine h.word_invariant ?_ (fun _ _ _ _ => requestWord_step) id
  constructor <;> simp [requestAutomaton, RequestPhase.flag]

section

variable {log : List RequestEvent} (h : requestAutomaton.Legal log) {id : Nat}
include h

theorem ended_nodup : (log.filterMap RequestEvent.endedId).Nodup := by
  refine requestAutomaton.nodup_filterMap ?_ fun id => ?_
  · intro event id hEvent
    cases event <;> simp_all [requestAutomaton, RequestEvent.endedId, RequestEvent.requestId]
  · rw [(requestWord_of_legal h id).ended]
    split <;> omega

theorem mem_ended : id ∈ log.filterMap RequestEvent.endedId ↔
    requestAutomaton.phaseAfter log id ≠ .unissued ∧ (requestAutomaton.phaseAfter log id).flag = none := by
  have hEnded := (requestWord_of_legal h id).ended
  rw [requestAutomaton.filterMap_ofKey] at hEnded
  · constructor
    · intro hMem
      have hMine : id ∈ (log.filterMap RequestEvent.endedId).filter (· = id) := by simpa using hMem
      have hPositive := List.length_pos_of_mem hMine
      rw [hEnded] at hPositive
      split at hPositive
      · cases hPositive
      · rename_i hPhase
        exact ⟨fun hUnissued => hPhase (Or.inl hUnissued), by simpa using fun hFlag => hPhase (Or.inr hFlag)⟩
    · rintro ⟨hIssued, hFlag⟩
      rw [if_neg (by simp [hIssued, hFlag])] at hEnded
      obtain ⟨found, hFound⟩ := List.exists_mem_of_length_pos (hEnded ▸ Nat.one_pos)
      obtain ⟨hMem, hSame⟩ := List.mem_filter.mp hFound
      rwa [of_decide_eq_true hSame] at hMem
  · intro event id hEvent
    cases event <;> simp_all [requestAutomaton, RequestEvent.endedId, RequestEvent.requestId]

theorem mem_issued : id ∈ log.filterMap RequestEvent.issuedId ↔ requestAutomaton.phaseAfter log id ≠ .unissued := by
  rw [← (requestWord_of_legal h id).issued, List.mem_filterMap]
  constructor
  · rintro ⟨event, hEvent, hId⟩
    cases event with
    | issued other =>
      cases hId
      exact ⟨id, requestAutomaton.mem_ofKey.mpr ⟨hEvent, rfl⟩⟩
    | cancelled | delivered | discarded | expired => cases hId
  · rintro ⟨other, hOther⟩
    obtain ⟨hMem, rfl⟩ := requestAutomaton.mem_ofKey.mp hOther
    exact ⟨_, hMem, rfl⟩

theorem not_delivered_of_cancelled (hCancelled : .cancelled id ∈ log) : .delivered id ∉ log := by
  intro hDelivered
  have hWord := requestWord_of_legal h id
  have hPhase := hWord.delivered id (requestAutomaton.mem_ofKey.mpr ⟨hDelivered, rfl⟩)
  have hPhases := hWord.cancelled id (requestAutomaton.mem_ofKey.mpr ⟨hCancelled, rfl⟩)
  rw [hPhase] at hPhases
  simp at hPhases

theorem cancelled_of_discarded (hDiscarded : .discarded id ∈ log) : .cancelled id ∈ log := by
  have hWord := requestWord_of_legal h id
  have hPhase := hWord.discarded id (requestAutomaton.mem_ofKey.mpr ⟨hDiscarded, rfl⟩)
  obtain ⟨other, hOther⟩ := hWord.wasCancelled (Or.inr hPhase)
  obtain ⟨hMem, rfl⟩ := requestAutomaton.mem_ofKey.mp hOther
  exact hMem

end

/-! ## Whole runs -/

namespace PendingRequests

structure Tracked (log : List RequestEvent) (state : PendingRequests) : Prop where
  legal : requestAutomaton.Legal log
  live : ∀ id, (state.requests.find? id).map PendingRequest.cancelled = (requestAutomaton.phaseAfter log id).flag
  fresh : ∀ id, state.nextRequestId ≤ id → requestAutomaton.phaseAfter log id = .unissued
  issued : ∀ id ∈ log.filterMap RequestEvent.issuedId, 0 < id ∧ id < state.nextRequestId
  increasing : (log.filterMap RequestEvent.issuedId).Pairwise (· < ·)
  positive : 0 < state.nextRequestId
  size : state.requests.entries.length ≤ state.maximum.toNat

variable {id : Nat} {log events : List RequestEvent} {request : PendingRequest} {state next last : PendingRequests}
  {event : RequestEvent}

theorem Tracked.phase (h : Tracked log state) (hFind : state.requests.find? id = some request) :
    requestAutomaton.phaseAfter log id = .live request.cancelled := by
  rw [← RequestPhase.flag_eq_some, ← h.live, hFind, Option.map_some]

theorem Tracked.liveEvent (h : Tracked log state) {phase : RequestPhase} {requests : OrderedMap Nat PendingRequest}
    (hFind : state.requests.find? event.requestId = some request)
    (hStep : (RequestPhase.live request.cancelled).step event = some phase)
    (hSelf : (requests.find? event.requestId).map PendingRequest.cancelled = phase.flag)
    (hOther : ∀ id, id ≠ event.requestId → requests.find? id = state.requests.find? id)
    (hLength : requests.entries.length ≤ state.requests.entries.length) (hIssued : event.issuedId = none) :
    Tracked (log ++ [event]) { state with requests } := by
  have hPhase := h.phase hFind
  rw [← hPhase] at hStep
  have hKey : requestAutomaton.phaseAfter (log ++ [event]) event.requestId = phase := by
    rw [KeyedAutomaton.phaseAfter_concat]
    exact requestAutomaton.advance_key hStep
  have hNe : ∀ id, id ≠ event.requestId →
      requestAutomaton.phaseAfter (log ++ [event]) id = requestAutomaton.phaseAfter log id := by
    intro id hId
    rw [KeyedAutomaton.phaseAfter_concat]
    exact requestAutomaton.advance_of_ne hId
  have hIds : (log ++ [event]).filterMap RequestEvent.issuedId = log.filterMap RequestEvent.issuedId := by
    rw [List.filterMap_append, List.filterMap_cons_none hIssued, List.filterMap_nil, List.append_nil]
  refine ⟨?_, ?_, ?_, ?_, ?_, h.positive, hLength.trans h.size⟩
  · exact requestAutomaton.legal_concat.mpr ⟨h.legal, Option.isSome_iff_exists.mpr ⟨phase, hStep⟩⟩
  · intro id
    by_cases hId : id = event.requestId
    · rw [hId, hKey, hSelf]
    · rw [hNe id hId, hOther id hId]
      exact h.live id
  · intro id hId
    rw [hNe id ?_]
    · exact h.fresh id hId
    · rintro rfl
      cases hPhase.symm.trans (h.fresh _ hId)
  · rw [hIds]
    exact h.issued
  · rw [hIds]
    exact h.increasing

theorem Tracked.issue (h : Tracked log state) (deadline : Nat)
    (hRoom : state.requests.entries.length < state.maximum.toNat) :
    Tracked (log ++ [.issued state.nextRequestId])
      ⟨state.maximum, state.nextRequestId + 1, state.requests.insert state.nextRequestId ⟨deadline, false⟩⟩ := by
  have hPhase := h.fresh state.nextRequestId le_rfl
  have hStep : (requestAutomaton.phaseAfter log state.nextRequestId).step (.issued state.nextRequestId) =
      some (.live false) := by rw [hPhase]; rfl
  have hKey : requestAutomaton.advance (requestAutomaton.phaseAfter log) (.issued state.nextRequestId)
      state.nextRequestId = .live false := requestAutomaton.advance_key hStep
  have hIds : (log ++ [RequestEvent.issued state.nextRequestId]).filterMap RequestEvent.issuedId =
      log.filterMap RequestEvent.issuedId ++ [state.nextRequestId] := List.filterMap_append
  refine ⟨?_, ?_, ?_, ?_, ?_, Nat.succ_pos _, ?_⟩
  · exact requestAutomaton.legal_concat.mpr ⟨h.legal, Option.isSome_iff_exists.mpr ⟨_, hStep⟩⟩
  · intro id
    rw [KeyedAutomaton.phaseAfter_concat]
    by_cases hId : id = state.nextRequestId
    · subst hId
      rw [find?_insert_self, hKey]
      rfl
    · rw [find?_insert_of_ne _ _ hId, requestAutomaton.advance_of_ne hId]
      exact h.live id
  · intro id hId
    rw [KeyedAutomaton.phaseAfter_concat, requestAutomaton.advance_of_ne (Nat.ne_of_gt hId)]
    exact h.fresh id (Nat.le_of_succ_le hId)
  · intro id hId
    rw [hIds, List.mem_append, List.mem_singleton] at hId
    rcases hId with hId | rfl
    · obtain ⟨hPositive, hLess⟩ := h.issued id hId
      exact ⟨hPositive, Nat.lt_succ_of_lt hLess⟩
    · exact ⟨h.positive, Nat.lt_succ_self _⟩
  · rw [hIds, List.pairwise_append]
    refine ⟨h.increasing, List.pairwise_singleton _ _, ?_⟩
    intro id hId last hLast
    rw [List.mem_singleton] at hLast
    rw [hLast]
    exact (h.issued id hId).2
  · exact (length_insert_le _ _ _).trans hRoom

theorem Tracked.records
    (h : Tracked log state) (hRecords : Records state event next) : Tracked (log ++ [event]) next := by
  cases hRecords with
  | issued deadline hRoom => exact h.issue deadline hRoom
  | cancelled hFind =>
    refine h.liveEvent hFind rfl ?_ (fun id hId => find?_insert_of_ne _ _ hId)
      (length_insert_of_find? _ hFind).le rfl
    rw [RequestEvent.requestId, find?_insert_self]
    rfl
  | cancelledAgain hFind hCancelled =>
    refine h.liveEvent hFind rfl ?_ (fun _ _ => rfl) le_rfl rfl
    rw [RequestEvent.requestId, hFind, Option.map_some, hCancelled]
    rfl
  | delivered hFind hCancelled =>
    refine h.liveEvent hFind (by rw [hCancelled]; rfl) ?_ (fun id hId => find?_erase_of_ne _ hId)
      (length_erase_le _ _) rfl
    rw [RequestEvent.requestId, find?_erase_self]
    rfl
  | discarded hFind hCancelled =>
    refine h.liveEvent hFind (by rw [hCancelled]; rfl) ?_ (fun id hId => find?_erase_of_ne _ hId)
      (length_erase_le _ _) rfl
    rw [RequestEvent.requestId, find?_erase_self]
    rfl
  | expired hFind =>
    refine h.liveEvent hFind rfl ?_ (fun id hId => find?_erase_of_ne _ hId)
      (length_erase_le _ _) rfl
    rw [RequestEvent.requestId, find?_erase_self]
    rfl

theorem Tracked.recordsAll (h : Tracked log state)
    (hRecords : RecordsAll state events last) : Tracked (log ++ events) last := by
  induction hRecords generalizing log with
  | nil state =>
    rw [List.append_nil]
    exact h
  | cons hFirst _ ih =>
    have hRest := ih (h.records hFirst)
    rwa [List.append_assoc] at hRest

theorem Records.maximum (h : Records state event next) : next.maximum = state.maximum := by
  cases h <;> rfl

theorem RecordsAll.maximum (h : RecordsAll state events last) : last.maximum = state.maximum := by
  induction h with
  | nil => rfl
  | cons hFirst _ ih => exact ih.trans hFirst.maximum

theorem new_ok {maximum : UInt32} (h : new maximum = .ok state) : state = ⟨maximum, 1, .empty⟩ := by
  rw [new, ite_error_ok] at h
  exact (Except.ok.inj h.2).symm

theorem tracked_new (maximum : UInt32) : Tracked [] ⟨maximum, 1, .empty⟩ where
  legal := EachAfter.nil
  live _ := rfl
  fresh _ _ := rfl
  issued _ hId := nomatch hId
  increasing := List.Pairwise.nil
  positive := Nat.one_pos
  size := Nat.zero_le _

theorem tracked_run (lastInstant : Nat) {maximum : UInt32} {initial : PendingRequests} (calls : List RequestCall)
    (hNew : new maximum = .ok initial) :
    Tracked ((system lastInstant).log initial calls) ((system lastInstant).reach initial calls) ∧
      ((system lastInstant).reach initial calls).maximum = maximum := by
  obtain rfl := new_ok hNew
  refine (system lastInstant).history_invariant
    (P := fun log state => Tracked log state ∧ state.maximum = maximum) (A := fun _ => True)
    ⟨tracked_new maximum, rfl⟩ ?_ calls fun _ _ => trivial
  rintro log state call - ⟨hTracked, hMaximum⟩
  have hRecords := recordsAll_system lastInstant call state
  exact ⟨hTracked.recordsAll hRecords, hRecords.maximum.trans hMaximum⟩

theorem Tracked.live_iff (h : Tracked log state) (hIssued : id ∈ log.filterMap RequestEvent.issuedId) :
    id ∈ state.requests.keys ↔ id ∉ log.filterMap RequestEvent.endedId := by
  rw [mem_ended h.legal, ← h.live id, Option.map_eq_none_iff, mem_keys]
  simp [(mem_issued h.legal).mp hIssued, Option.isSome_iff_ne_none]

end PendingRequests

theorem request_ids_end_once (lastInstant : Nat) (maximum : UInt32) (initial : PendingRequests)
    (calls : List RequestCall) (log : List RequestEvent) (final : PendingRequests)
    (hNew : PendingRequests.new maximum = .ok initial)
    (hLog : log = (PendingRequests.system lastInstant).log initial calls)
    (hFinal : final = (PendingRequests.system lastInstant).reach initial calls) :
    (log.filterMap RequestEvent.issuedId).Pairwise (· < ·) ∧ (∀ id ∈ log.filterMap RequestEvent.issuedId, id ≠ 0) ∧
      (log.filterMap RequestEvent.endedId).Nodup ∧
      (∀ id ∈ log.filterMap RequestEvent.endedId, id ∈ log.filterMap RequestEvent.issuedId) ∧
      (∀ id ∈ log.filterMap RequestEvent.issuedId,
        id ∈ final.requests.keys ↔ id ∉ log.filterMap RequestEvent.endedId) ∧
      (∀ id, .cancelled id ∈ log → .delivered id ∉ log) ∧ (∀ id, .discarded id ∈ log → .cancelled id ∈ log) ∧
      final.requests.keys.length ≤ maximum.toNat ∧
      ∀ call e, (exec (PendingRequests.perform lastInstant call) final).1 = .error e →
        (PendingRequests.system lastInstant).next final call = final := by
  obtain ⟨hTracked, hMaximum⟩ := PendingRequests.tracked_run lastInstant calls hNew
  rw [← hLog, ← hFinal] at hTracked
  rw [← hFinal] at hMaximum
  refine ⟨hTracked.increasing, fun id hId => (hTracked.issued id hId).1.ne', ended_nodup hTracked.legal, ?_,
    fun id hId => hTracked.live_iff hId, fun id hId => not_delivered_of_cancelled hTracked.legal hId,
    fun id hId => cancelled_of_discarded hTracked.legal hId, ?_,
    fun call e hError => PendingRequests.failed_call lastInstant call final hError⟩
  · intro id hId
    exact (mem_issued hTracked.legal).mpr ((mem_ended hTracked.legal).mp hId).1
  · rw [keys, List.length_map, ← hMaximum]
    exact hTracked.size

theorem three_requests_end_once : ∃ initial, PendingRequests.new 2 = .ok initial ∧
      ∃ log, log = (PendingRequests.system (2 ^ 94)).log initial
        [.begin 0 5, .begin 1 100, .begin 2 1, .cancel 1, .complete 1, .expire 101, .complete 2] ∧
        log = [.issued 1, .issued 2, .cancelled 1, .discarded 1, .expired 2] ∧
        (log.filterMap RequestEvent.endedId).Nodup ∧ ∀ id, .cancelled id ∈ log → .delivered id ∉ log := by
  obtain ⟨-, -, hOnce, -, -, hCancelled, -⟩ := request_ids_end_once (2 ^ 94) 2 ⟨2, 1, .empty⟩
    [.begin 0 5, .begin 1 100, .begin 2 1, .cancel 1, .complete 1, .expire 101, .complete 2] _ _ rfl rfl rfl
  exact ⟨_, rfl, _, rfl, by decide +kernel, hOnce, hCancelled⟩

end Weregopher.Protocol
