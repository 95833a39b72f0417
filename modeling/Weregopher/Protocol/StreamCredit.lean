import Weregopher.Lib.Checked
import Weregopher.Lib.Outcome
import Weregopher.Lib.RunSystem
import Weregopher.Lib.Transition

/-! # Credit of a byte stream

Each end of a stream keeps a credit counter of its own. Data travels to the receiver and
grants travel back, both in order; the receiver counts a grant before it sends it.
-/
namespace Weregopher.Protocol
open Lib Lib.Checked Lib.Outcome Lib.Stateful

inductive StreamCreditError
  | zeroCredit
  | emptyData
  | unexpectedSequence (expected actual : Nat)
  | creditExceeded (available requested : Nat)
  | creditOverflow
  | sequenceExhausted
  deriving DecidableEq

structure StreamCredit where
  available : Nat
  nextSequence : Nat

namespace StreamCredit

def new (initialCredit : UInt64) : Except StreamCreditError StreamCredit :=
  if initialCredit = 0 then .error .zeroCredit else .ok ⟨initialCredit.toNat, 1⟩

def grant (additional : Nat) : Transition StreamCredit StreamCreditError Unit := do
  if additional = 0 then throw .zeroCredit
  let credit ← get
  let available ← liftM (okOr StreamCreditError.creditOverflow (checkedAdd u64Max credit.available additional))
  modify fun credit => { credit with available }

def consume (sequence bytes : Nat) : Transition StreamCredit StreamCreditError Unit := do
  let credit ← get
  if sequence ≠ credit.nextSequence then throw (.unexpectedSequence credit.nextSequence sequence)
  if bytes = 0 then throw .emptyData
  if bytes > credit.available then throw (.creditExceeded credit.available bytes)
  let nextSequence ← liftM (okOr StreamCreditError.sequenceExhausted (checkedAdd u64Max credit.nextSequence 1))
  modify fun credit => { credit with available := credit.available - bytes }
  modify fun credit => { credit with nextSequence }

variable (credit : StreamCredit)

theorem exec_grant {additional : Nat} (hPositive : additional ≠ 0)
    (hFits : credit.available + additional ≤ u64Max) :
    exec (grant additional) credit = (.ok (), ⟨credit.available + additional, credit.nextSequence⟩) := by
  simp only [grant, if_neg hPositive, exec_bind, exec_get, exec_lift, checkedAdd, if_pos hFits, okOr]
  rfl

theorem exec_consume {bytes : Nat} (hBytes : bytes ≠ 0) (hCredit : bytes ≤ credit.available)
    (hNext : credit.nextSequence + 1 ≤ u64Max) : exec (consume credit.nextSequence bytes) credit =
      (.ok (), ⟨credit.available - bytes, credit.nextSequence + 1⟩) := by
  simp only [consume, exec_bind, exec_get, ne_eq, not_true_eq_false, if_false, if_neg hBytes, gt_iff_lt,
    if_neg (Nat.not_lt.mpr hCredit), exec_lift, checkedAdd, if_pos hNext, okOr]
  rfl

theorem grant_spec (additional : Nat) : wp (grant additional) credit
      (fun _ next => additional ≠ 0 ∧ credit.available + additional ≤ u64Max ∧
        next = ⟨credit.available + additional, credit.nextSequence⟩)
      (fun _ next => next = credit) := by
  simp only [grant, wp_bind, wp_get, wp_ite, wp_throw, wp_lift, wp_modify, okOr_ok, checkedAdd_eq_some,
    implies_true, true_and, and_true]
  rintro hPositive available ⟨hFits, rfl⟩
  exact ⟨hPositive, hFits, rfl⟩

theorem consume_spec (sequence bytes : Nat) : wp (consume sequence bytes) credit
      (fun _ next => sequence = credit.nextSequence ∧ bytes ≠ 0 ∧ bytes ≤ credit.available ∧
        credit.nextSequence + 1 ≤ u64Max ∧ next = ⟨credit.available - bytes, credit.nextSequence + 1⟩)
      (fun _ next => next = credit) := by
  simp only [consume, wp_bind, wp_get, wp_ite, wp_throw, wp_lift, wp_modify, okOr_ok, checkedAdd_eq_some,
    implies_true, true_and, and_true, ne_eq, not_not, Nat.not_lt, gt_iff_lt]
  rintro hSequence hBytes hCredit next ⟨hNext, rfl⟩
  exact ⟨hSequence, hBytes, hCredit, hNext, rfl⟩

end StreamCredit

/-! ## The two ends and what is under way between them -/

structure StreamLink where
  (sender receiver : StreamCredit)
  data : List (Nat × Nat)
  grants : List Nat

inductive LinkAction
  | send (sequence bytes : Nat)
  | receive
  | grant (additional : Nat)
  | credit

inductive LinkEvent
  | sent (sequence bytes : Nat)
  | accepted (sequence bytes : Nat)
  | rejected (error : StreamCreditError)
  | granted (additional : Nat)
  | credited (additional : Nat)
  | refused (error : StreamCreditError)
  deriving DecidableEq

namespace StreamLink

/-- One action. Only the sender's own data and the receiver's own grants are put under way. -/
def step (link : StreamLink) : LinkAction → StreamLink × List LinkEvent
  | .send sequence bytes =>
    match exec (StreamCredit.consume sequence bytes) link.sender with
    | (.ok (), sender) => ({ link with sender, data := link.data ++ [(sequence, bytes)] }, [.sent sequence bytes])
    | (.error _, sender) => ({ link with sender }, [])
  | .receive =>
    match link.data with
    | [] => (link, [])
    | (sequence, bytes) :: data =>
      match exec (StreamCredit.consume sequence bytes) link.receiver with
      | (.ok (), receiver) => ({ link with receiver, data }, [.accepted sequence bytes])
      | (.error error, receiver) => ({ link with receiver, data }, [.rejected error])
  | .grant additional =>
    match exec (StreamCredit.grant additional) link.receiver with
    | (.ok (), receiver) => ({ link with receiver, grants := link.grants ++ [additional] }, [.granted additional])
    | (.error _, receiver) => ({ link with receiver }, [])
  | .credit =>
    match link.grants with
    | [] => (link, [])
    | additional :: grants =>
      match exec (StreamCredit.grant additional) link.sender with
      | (.ok (), sender) => ({ link with sender, grants }, [.credited additional])
      | (.error error, sender) => ({ link with sender, grants }, [.refused error])

def system : RunSystem StreamLink LinkAction LinkEvent where
  next link action := (link.step action).1
  emit link action := (link.step action).2

def dataBytes (link : StreamLink) : Nat := (link.data.map Prod.snd).sum

def grantBytes (link : StreamLink) : Nat := link.grants.sum

end StreamLink

namespace LinkEvent

@[simp] def acceptedData : LinkEvent → Option (Nat × Nat)
  | accepted sequence bytes => some (sequence, bytes)
  | _ => none

@[simp] def sentData : LinkEvent → Option (Nat × Nat)
  | sent sequence bytes => some (sequence, bytes)
  | _ => none

@[simp] def grantedBytes : LinkEvent → Option Nat
  | granted additional => some additional
  | _ => none

def IsRefusal : LinkEvent → Prop
  | rejected _ | refused _ => True
  | _ => False

end LinkEvent

namespace StreamLink

structure Balanced (link : StreamLink) : Prop where
  credit : link.receiver.available = link.sender.available + link.dataBytes + link.grantBytes
  fits : link.receiver.available ≤ u64Max
  numbered : link.data.map Prod.fst = List.range' link.receiver.nextSequence link.data.length
  next : link.sender.nextSequence = link.receiver.nextSequence + link.data.length
  nextFits : link.sender.nextSequence ≤ u64Max
  nonempty : ∀ message ∈ link.data, message.2 ≠ 0
  positive : ∀ additional ∈ link.grants, additional ≠ 0

inductive Moves (link : StreamLink) : List LinkEvent → StreamLink → Prop
  | idle : Moves link [] link
  | sent (bytes : Nat) (hBytes : bytes ≠ 0) (hCredit : bytes ≤ link.sender.available)
    (hNext : link.sender.nextSequence + 1 ≤ u64Max) :
    Moves link [.sent link.sender.nextSequence bytes]
      { link with
        sender := ⟨link.sender.available - bytes, link.sender.nextSequence + 1⟩
        data := link.data ++ [(link.sender.nextSequence, bytes)] }
  | accepted (bytes : Nat) (data : List (Nat × Nat)) (hData : link.data = (link.receiver.nextSequence, bytes) :: data) :
    Moves link [.accepted link.receiver.nextSequence bytes]
      { link with
        receiver := ⟨link.receiver.available - bytes, link.receiver.nextSequence + 1⟩
        data }
  | granted (additional : Nat) (hPositive : additional ≠ 0) (hFits : link.receiver.available + additional ≤ u64Max) :
    Moves link [.granted additional]
      { link with
        receiver := ⟨link.receiver.available + additional, link.receiver.nextSequence⟩
        grants := link.grants ++ [additional] }
  | credited (additional : Nat) (grants : List Nat) (hGrants : link.grants = additional :: grants) :
    Moves link [.credited additional]
      { link with
        sender := ⟨link.sender.available + additional, link.sender.nextSequence⟩
        grants }

variable {link next : StreamLink} {events log : List LinkEvent}

theorem moves_step (h : link.Balanced) (action : LinkAction) :
    Moves link (link.step action).2 (link.step action).1 := by
  cases action with
  | send sequence bytes =>
    have hSpec := StreamCredit.consume_spec link.sender sequence bytes
    unfold wp at hSpec
    rw [step]
    split at hSpec
    · rename_i hExec
      obtain ⟨rfl, hBytes, hCredit, hNext, rfl⟩ := hSpec
      rw [hExec]
      exact .sent bytes hBytes hCredit hNext
    · rename_i hExec
      subst hSpec
      rw [hExec]
      exact .idle
  | receive =>
    rw [step]
    cases hData : link.data with
    | nil => exact .idle
    | cons message data =>
      obtain ⟨sequence, bytes⟩ := message
      have hNumbered := h.numbered
      have hCredit := h.credit
      have hNext := h.next
      have hNextFits := h.nextFits
      rw [dataBytes, hData, List.map_cons, List.sum_cons] at hCredit
      rw [hData, List.length_cons] at hNext
      rw [hData, List.length_cons, List.range'_succ, List.map_cons] at hNumbered
      obtain ⟨rfl, -⟩ := List.cons_eq_cons.mp hNumbered
      have hBytes : bytes ≠ 0 := h.nonempty (_, bytes) (hData ▸ List.mem_cons_self)
      have hExec := link.receiver.exec_consume hBytes (by omega) (by omega)
      dsimp only
      rw [hExec]
      exact .accepted bytes data hData
  | grant additional =>
    have hSpec := StreamCredit.grant_spec link.receiver additional
    unfold wp at hSpec
    rw [step]
    split at hSpec
    · rename_i hExec
      obtain ⟨hPositive, hFits, rfl⟩ := hSpec
      rw [hExec]
      exact .granted additional hPositive hFits
    · rename_i hExec
      subst hSpec
      rw [hExec]
      exact .idle
  | credit =>
    rw [step]
    cases hGrants : link.grants with
    | nil => exact .idle
    | cons additional grants =>
      have hCredit := h.credit
      have hFits := h.fits
      rw [grantBytes, hGrants, List.sum_cons] at hCredit
      have hPositive : additional ≠ 0 := h.positive additional (hGrants ▸ List.mem_cons_self)
      have hExec := link.sender.exec_grant hPositive (by omega)
      dsimp only
      rw [hExec]
      exact .credited additional grants hGrants

theorem Moves.balanced (hMoves : Moves link events next) (h : link.Balanced) : next.Balanced := by
  obtain ⟨hCredit, hFits, hNumbered, hNext, hNextFits, hNonempty, hPositive⟩ := h
  simp only [dataBytes, grantBytes] at hCredit
  cases hMoves with
  | idle => exact ⟨hCredit, hFits, hNumbered, hNext, hNextFits, hNonempty, hPositive⟩
  | sent bytes hBytes hAllowed hRoom =>
    refine ⟨?_, hFits, ?_, ?_, hRoom, ?_, hPositive⟩
    · simp only [dataBytes, grantBytes, List.map_append, List.sum_append, List.map_singleton, List.sum_singleton]
      omega
    · simp [hNumbered, hNext, List.range'_concat]
    · simp [hNext, Nat.add_assoc]
    · intro message hMessage
      rcases List.mem_append.mp hMessage with hMessage | hMessage
      · exact hNonempty message hMessage
      · rw [List.mem_singleton.mp hMessage]
        exact hBytes
  | accepted bytes data hData =>
    rw [hData] at hCredit hNumbered hNext hNonempty
    rw [List.map_cons, List.length_cons, List.range'_succ] at hNumbered
    rw [List.map_cons, List.sum_cons] at hCredit
    rw [List.length_cons] at hNext
    refine ⟨?_, ?_, ?_, ?_, hNextFits, ?_, hPositive⟩
    · simp only [dataBytes, grantBytes]
      omega
    · exact Nat.le_trans (Nat.sub_le _ _) hFits
    · exact (List.cons_eq_cons.mp hNumbered).2
    · dsimp only
      omega
    · exact fun message hMessage => hNonempty message (List.mem_cons_of_mem _ hMessage)
  | granted additional hAdded hRoom =>
    refine ⟨?_, hRoom, hNumbered, hNext, hNextFits, hNonempty, ?_⟩
    · simp only [dataBytes, grantBytes, List.sum_append, List.sum_singleton]
      omega
    · simpa [or_imp, forall_and] using ⟨hPositive, hAdded⟩
  | credited additional grants hGrants =>
    rw [hGrants] at hCredit hPositive
    rw [List.sum_cons] at hCredit
    refine ⟨?_, hFits, hNumbered, hNext, hNextFits, hNonempty, ?_⟩
    · simp only [dataBytes, grantBytes]
      omega
    · exact fun other hOther => hPositive other (List.mem_cons_of_mem _ hOther)

structure Accounted (initial : Nat) (log : List LinkEvent) (link : StreamLink) : Prop where
  balanced : link.Balanced
  clean : ∀ event ∈ log, ¬event.IsRefusal
  consumed : initial + (log.filterMap LinkEvent.grantedBytes).sum =
    link.receiver.available + ((log.filterMap LinkEvent.acceptedData).map Prod.snd).sum
  accepted : (log.filterMap LinkEvent.acceptedData).map Prod.fst =
    List.range' 1 (log.filterMap LinkEvent.acceptedData).length
  next : link.receiver.nextSequence = (log.filterMap LinkEvent.acceptedData).length + 1
  delivered : log.filterMap LinkEvent.sentData = log.filterMap LinkEvent.acceptedData ++ link.data

theorem clean_concat {event : LinkEvent} (h : ∀ event ∈ log, ¬event.IsRefusal) (hEvent : ¬event.IsRefusal) :
    ∀ other ∈ log ++ [event], ¬other.IsRefusal := by
  intro other hOther
  rcases List.mem_append.mp hOther with hOther | hOther
  · exact h other hOther
  · rw [List.mem_singleton.mp hOther]
    exact hEvent

theorem Accounted.moves {initial : Nat}
    (h : Accounted initial log link) (hMoves : Moves link events next) : Accounted initial (log ++ events) next := by
  have hBalanced := hMoves.balanced h.balanced
  cases hMoves with
  | idle =>
    rw [List.append_nil]
    exact h
  | sent bytes hBytes hAllowed hRoom =>
    refine ⟨hBalanced, clean_concat h.clean id, ?_, ?_, ?_, ?_⟩
    · simpa [List.filterMap_cons] using h.consumed
    · simpa [List.filterMap_cons] using h.accepted
    · simpa [List.filterMap_cons] using h.next
    · simp [List.filterMap_cons, h.delivered]
  | accepted bytes data hData =>
    have hConsumed := h.consumed
    have hCovered : bytes ≤ link.receiver.available := by
      have hCredit := h.balanced.credit
      rw [dataBytes, hData, List.map_cons, List.sum_cons] at hCredit
      omega
    refine ⟨hBalanced, clean_concat h.clean id, ?_, ?_, ?_, ?_⟩
    · simp [List.filterMap_cons]
      omega
    · simp [h.accepted, h.next, List.range'_concat, Nat.add_comm]
    · simp [h.next]
    · simp [List.filterMap_cons, h.delivered, hData]
  | granted additional hAdded hRoom =>
    have hConsumed := h.consumed
    refine ⟨hBalanced, clean_concat h.clean id, ?_, ?_, ?_, ?_⟩
    · simp [List.filterMap_cons]
      omega
    · simpa [List.filterMap_cons] using h.accepted
    · simpa [List.filterMap_cons] using h.next
    · simpa [List.filterMap_cons] using h.delivered
  | credited additional grants hGrants =>
    refine ⟨hBalanced, clean_concat h.clean id, ?_, ?_, ?_, ?_⟩
    · simpa [List.filterMap_cons] using h.consumed
    · simpa [List.filterMap_cons] using h.accepted
    · simpa [List.filterMap_cons] using h.next
    · simpa [List.filterMap_cons] using h.delivered

theorem accounted_run {initial : UInt64} {credit : StreamCredit} (hNew : StreamCredit.new initial = .ok credit)
    (actions : List LinkAction) : Accounted initial.toNat (system.log ⟨credit, credit, [], []⟩ actions)
      (system.reach ⟨credit, credit, [], []⟩ actions) := by
  rw [StreamCredit.new, ite_error_ok] at hNew
  obtain rfl := Except.ok.inj hNew.2
  refine system.history_invariant (P := Accounted initial.toNat) (A := fun _ => True) ?_ ?_ actions fun _ _ => trivial
  · have hInitial := initial.toNat_lt
    refine ⟨⟨rfl, ?_, rfl, rfl, (by decide : 1 ≤ u64Max), ?_, ?_⟩, ?_, rfl, rfl, rfl, rfl⟩
    · simp only [u64Max]
      omega
    · rintro _ ⟨⟩
    · rintro _ ⟨⟩
    · rintro _ ⟨⟩
  · rintro log link action - hAccounted
    exact hAccounted.moves (moves_step hAccounted.balanced action)

end StreamLink

theorem stream_credit_conserved (initial : UInt64) (credit : StreamCredit) (actions : List LinkAction)
    (log : List LinkEvent) (final : StreamLink) (hNew : StreamCredit.new initial = .ok credit)
    (hLog : log = StreamLink.system.log ⟨credit, credit, [], []⟩ actions)
    (hFinal : final = StreamLink.system.reach ⟨credit, credit, [], []⟩ actions) :
    final.receiver.available = final.sender.available + final.dataBytes + final.grantBytes ∧
      (∀ event ∈ log, ¬event.IsRefusal) ∧
      ((log.filterMap LinkEvent.acceptedData).map Prod.snd).sum ≤
        initial.toNat + (log.filterMap LinkEvent.grantedBytes).sum ∧
      (log.filterMap LinkEvent.acceptedData).map Prod.fst =
        List.range' 1 (log.filterMap LinkEvent.acceptedData).length ∧
      log.filterMap LinkEvent.sentData = log.filterMap LinkEvent.acceptedData ++ final.data := by
  have hAccounted := StreamLink.accounted_run hNew actions
  rw [← hLog, ← hFinal] at hAccounted
  refine ⟨hAccounted.balanced.credit, hAccounted.clean, ?_, hAccounted.accepted, hAccounted.delivered⟩
  rw [hAccounted.consumed]
  exact Nat.le_add_left _ _

/-- A grant crosses data under way, and the data is accepted. -/
theorem crossing_grant_conserved : ∃ credit, StreamCredit.new 10 = .ok credit ∧
      ∃ log, log = StreamLink.system.log ⟨credit, credit, [], []⟩
          [.send 1 8, .grant 5, .receive, .send 2 4, .credit, .send 2 4, .receive] ∧
        log = [.sent 1 8, .granted 5, .accepted 1 8, .credited 5, .sent 2 4, .accepted 2 4] ∧
        ∀ event ∈ log, ¬event.IsRefusal := by
  obtain ⟨-, hClean, -⟩ := stream_credit_conserved 10 ⟨10, 1⟩
    [.send 1 8, .grant 5, .receive, .send 2 4, .credit, .send 2 4, .receive] _ _ rfl rfl rfl
  exact ⟨_, rfl, _, rfl, by decide +kernel, hClean⟩

end Weregopher.Protocol
