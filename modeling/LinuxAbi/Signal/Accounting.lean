import LinuxAbi.Signal.LedgerMoves
import Mathlib.Data.Multiset.Bind
import Mathlib.Data.Multiset.Range
import Mathlib.Tactic.Abel

/-!
# Records are conserved and accounts are exact

Along every run, by cases on `Move`: the records ever made are, each once, in one of
the four places a record can be or used up for good, and the counter of every account
is the number of charges that are held on it.
-/

namespace LinuxAbi.Signal

open SignalQueueAccount
open SignalSet
open Multiset
open List
open Lib (run events tally)

/-! ## Counting -/

/-- The record of an item. -/
def Item.records : Item → Multiset Nat
  | .record id _ => {id}
  | .charge _ => 0

/-- Whether the item is a record charged to the account. -/
def Item.isRecordOn (account : Nat) : Item → Bool
  | .record _ held => held.perUser == account || held.global == account
  | .charge _ => false

/-- The records a list of events ended. -/
def gone (past : List SignalEvent) : Multiset Nat :=
  (past.filterMap fun
    | .consumed id => some id
    | .released id => some id
    | .panicked => none : List Nat)

theorem gone_append (past past' : List SignalEvent) :
    gone (past ++ past') = gone past + gone past' := by
  unfold gone
  rw [filterMap_append]
  exact (coe_add _ _).symm

/-- The four places of an accounted record. -/
inductive Place
  | prepared
  | queued
  | inFlight
  | detached
deriving DecidableEq

/-- Where a record in this hand is. -/
def Hand.place : Hand → Place
  | .dequeued _ _ => .inFlight
  | .check _ _ => .inFlight
  | .detached _ => .detached
  | _ => .prepared

namespace World

/-- All charges held on accounts. -/
def charges (w : World) : Multiset Nat := w.items.bind Item.charges

/-- All accounted records that are not gone. -/
def records (w : World) : Multiset Nat := w.items.bind Item.records

/-- The items that hands hold in one place. -/
def handItemsIn (w : World) (place : Place) : Multiset Item :=
  tally (fun hand : Hand => if hand.place = place then hand.items else 0) w.hands

/-- The accounted records in one place. -/
def recordsIn (w : World) : Place → Multiset Nat
  | .queued => w.queueItems.bind Item.records
  | place => (w.handItemsIn place).bind Item.records

/-- The number of live records charged to an account, in either role. -/
def chargedRecords (w : World) (account : Nat) : Nat :=
  w.items.countP fun item => item.isRecordOn account = true

theorem handItems_eq (w : World) :
    w.handItems = w.handItemsIn .prepared + w.handItemsIn .inFlight + w.handItemsIn .detached := by
  unfold handItems handItemsIn
  induction w.hands with
  | nil => rfl
  | cons hand hands ih =>
    simp only [Lib.tally_cons, ih]
    cases hplace : hand.place with
    | prepared => simp [add_assoc]
    | inFlight =>
      simp
      abel
    | detached => simp [add_left_comm]
    | queued => cases hand <;> cases hplace

/-- Every record is in exactly one of the four places. -/
theorem records_eq (w : World) :
    w.records = w.recordsIn .prepared + w.recordsIn .queued + w.recordsIn .inFlight
      + w.recordsIn .detached := by
  unfold records items recordsIn
  rw [handItems_eq]
  simp only [add_bind]
  abel

/-! ## The books -/

/-- What holds along a run. -/
structure Books (past : List SignalEvent) (w : World) : Prop where
  wf : w.QueuesWF
  calm : SignalEvent.panicked ∉ past
  records : w.records + gone past = Multiset.range w.nextNode
  known : ∀ a ∈ w.charges, a < w.accounts.length
  counter : ∀ a account, w.accounts[a]? = some account →
    account.queued = w.charges.count a ∧ account.queued ≤ account.hardLimit ∧
      account.queued < 2 ^ 64

theorem books_empty : Books [] World.empty where
  wf := by
    constructor
    · intro m hm
      cases hm
    · intro t ht
      cases ht
  calm := not_mem_nil
  records := rfl
  known := by
    intro a ha
    exact absurd ha (notMem_zero a)
  counter := by
    intro a account ha
    cases ha

variable {past : List SignalEvent} {w w' : World} {a h : Nat} {account : SignalQueueAccount}

/-- A step that leaves charges, accounts and the number of records alone. -/
theorem Books.of_eq {events : List SignalEvent} (h : Books past w) (wf : w'.QueuesWF)
    (hcalm : SignalEvent.panicked ∉ events) (accounts : w'.accounts = w.accounts)
    (charges : w'.charges = w.charges) (records : w'.records + gone events = w.records)
    (nextNode : w'.nextNode = w.nextNode) :
    Books (past ++ events) w' where
  wf := wf
  calm := by
    intro hmem
    rcases mem_append.mp hmem with hold | hnew
    · exact h.calm hold
    · exact hcalm hnew
  records := by
    rw [gone_append, nextNode, ← h.records, ← records]
    abel
  known := by
    rw [accounts, charges]
    exact h.known
  counter := by
    rw [accounts, charges]
    exact h.counter

theorem Keep.charges (h : Keep w w') : w'.charges = w.charges :=
  congrArg (Multiset.bind · Item.charges) h.items

theorem Keep.records (h : Keep w w') : w'.records = w.records :=
  congrArg (Multiset.bind · Item.records) h.items

/-- The charges held change as the items do. -/
theorem Turnover.charges (h : Turnover w w' rows n s t) :
    w'.charges + s.bind Item.charges = w.charges + t.bind Item.charges := by
  unfold World.charges
  rw [← add_bind, h.items, add_bind]

theorem Turnover.records (h : Turnover w w' rows n s t) :
    w'.records + s.bind Item.records = w.records + t.bind Item.records := by
  unfold World.records
  rw [← add_bind, h.items, add_bind]

theorem bind_charge (a : Nat) : ({.charge a} : Multiset Item).bind Item.charges = {a} :=
  singleton_bind ..

theorem bind_two_charges (held : SignalQueueCharge) :
    ({.charge held.perUser, .charge held.global} : Multiset Item).bind Item.charges
      = ({.record 0 held} : Multiset Item).bind Item.charges := by
  exact cons_bind ..

/-- A charge on an account below its limit. -/
theorem Books.charge (h : Books past w) (ha : w.accounts[a]? = some account)
    (hroom : account.queued < account.hardLimit) (hno : account.queued + 1 < 2 ^ 64)
    (turn : Turnover w w' (w.accounts.set a { account with queued := account.queued + 1 })
      w.nextNode 0 {.charge a}) : Books (past ++ []) w' := by
  have halt := Lib.lt_of_getElem? ha
  have hchgs : w'.charges = w.charges + {a} := by
    have hsum := turn.charges
    rw [bind_charge] at hsum
    simpa using hsum
  have hrecs : w'.records = w.records := by
    have hsum := turn.records
    simpa [Item.records] using hsum
  rw [append_nil]
  refine ⟨turn.wf, h.calm, by rw [hrecs, turn.nextNode, h.records], ?_, ?_⟩
  · intro b hb
    rw [turn.accounts, length_set]
    rw [hchgs] at hb
    rcases Multiset.mem_add.mp hb with hold | hnew
    · exact h.known b hold
    · rw [Multiset.mem_singleton.mp hnew]
      exact halt
  · intro b other hb
    rw [turn.accounts] at hb
    rw [hchgs, Multiset.count_add]
    rcases Lib.getElem?_set_cases hb with ⟨rfl, rfl⟩ | ⟨hne, hold⟩
    · have hold := h.counter b account ha
      simp only [Multiset.count_singleton_self]
      omega
    · rw [Multiset.count_singleton, if_neg hne, add_zero]
      exact h.counter b other hold

/-- A refund of a charge that is held. -/
theorem Books.refund (h : Books past w)
    (turn : Turnover w w' (w.accounts.modify a refund) w.nextNode {.charge a} 0) :
    Books (past ++ []) w' := by
  have hchgs : w'.charges + {a} = w.charges := by
    have hsum := turn.charges
    rw [bind_charge] at hsum
    simpa using hsum
  have hrecs : w'.records = w.records := by
    have hsum := turn.records
    simpa [Item.records] using hsum
  rw [append_nil]
  refine ⟨turn.wf, h.calm, by rw [hrecs, turn.nextNode, h.records], ?_, ?_⟩
  · intro b hb
    rw [turn.accounts, length_modify]
    exact h.known b (hchgs ▸ mem_add.mpr (.inl hb))
  · intro b other hb
    rw [turn.accounts] at hb
    have hcount : w.charges.count b = w'.charges.count b + if b = a then 1 else 0 := by
      rw [← hchgs, Multiset.count_add, Multiset.count_singleton]
    by_cases heq : a = b
    · subst heq
      rw [getElem?_modify_eq] at hb
      obtain ⟨account, ha, rfl⟩ := Option.map_eq_some_iff.mp hb
      have hold := h.counter a account ha
      rw [if_pos rfl] at hcount
      -- the charge is held, so the counter is positive and does not wrap
      have hpos : account.queued = account.queued - 1 + 1 := by omega
      have hsub : (account.queued + (2 ^ 64 - 1)) % 2 ^ 64 = account.queued - 1 := by
        rw [hpos, show account.queued - 1 + 1 + (2 ^ 64 - 1) = account.queued - 1 + 2 ^ 64 by omega,
          Nat.add_mod_right, Nat.mod_eq_of_lt (by omega)]
        omega
      simp only [SignalQueueAccount.refund, hsub]
      omega
    · rw [getElem?_modify_ne _ _ heq] at hb
      have hold := h.counter b other hb
      rw [if_neg (Ne.symm heq)] at hcount
      omega

theorem Move.books {events : List SignalEvent} (hm : Move w events w')
    (h : Books past w) : Books (past ++ events) w' := by
  cases hm with
  | keep hk =>
    exact h.of_eq hk.wf not_mem_nil hk.accounts hk.charges
      ((add_zero _).trans hk.records) hk.nextNode
  | charge ha hroom hno turn => exact h.charge ha hroom hno turn
  | refund turn => exact h.refund turn
  | account limit turn =>
    have hchgs : w'.charges = w.charges := by simpa using turn.charges
    have hrecs : w'.records = w.records := by simpa using turn.records
    rw [append_nil]
    refine ⟨turn.wf, h.calm, by rw [hrecs, turn.nextNode, h.records], ?_, ?_⟩
    · intro b hb
      rw [hchgs] at hb
      have hlt := h.known b hb
      rw [turn.accounts, length_append]
      omega
    · intro b other hb
      rw [turn.accounts] at hb
      rw [hchgs]
      rcases Lib.getElem?_concat_cases hb with hold | ⟨rfl, rfl⟩
      · exact h.counter b other hold
      -- the new account: nothing is charged to it yet
      rw [count_eq_zero_of_notMem fun hmem => Nat.lt_irrefl _ (h.known _ hmem)]
      exact ⟨rfl, Nat.zero_le _, Nat.two_pow_pos 64⟩
  | mint held turn =>
    have hchgs : w'.charges = w.charges := by
      have hsum := turn.charges
      rw [bind_two_charges] at hsum
      exact add_right_cancel hsum
    have hrecs : w'.records = w.records + {w.nextNode} := by
      have hsum := turn.records
      simpa [Item.records] using hsum
    rw [append_nil]
    refine ⟨turn.wf, h.calm, ?_, ?_, ?_⟩
    · rw [hrecs, turn.nextNode, Multiset.range_succ, ← h.records, ← Multiset.singleton_add]
      abel
    · rw [turn.accounts, hchgs]
      exact h.known
    · rw [turn.accounts, hchgs]
      exact h.counter
  | @spend _ _ node held hevent turn =>
    have hchgs : w'.charges = w.charges := by
      have hsum := turn.charges
      rw [bind_two_charges] at hsum
      exact add_right_cancel hsum
    have hrecs : w'.records + {node} = w.records := by
      have hsum := turn.records
      simpa [Item.records] using hsum
    rcases hevent with rfl | rfl <;>
      exact h.of_eq turn.wf (by simp) turn.accounts hchgs hrecs turn.nextNode

theorem run_books (calls : List SignalCall) :
    Books (events World.call signalEvents World.empty calls) (run World.call World.empty calls) := by
  refine Lib.run_invariant (I := Books) ?_ calls [] World.empty books_empty
  intro past w c h
  exact (h.wf.call_move c).books h

/-! ## A failed preparation -/

/-- One preparation from its start to its end: the charges, the allocation and, if
that failed, the refunds. -/
def preparation (w : World) (info : SignalInfo) (perUser rlimit global : Nat) (allocated : Bool) :
    List SignalCall :=
  let h := w.hands.length
  [.beginAccounted info perUser rlimit global, .chargeGlobal h, .allocateNode h allocated,
    .refundNext h, .refundNext h]

/-- Refunding a charge undoes it. -/
theorem refund_charged (h : account.queued + 1 < 2 ^ 64) :
    refund { account with queued := account.queued + 1 } = account := by
  have hsub : (account.queued + 1 + (2 ^ 64 - 1)) % 2 ^ 64 = account.queued := by
    rw [show account.queued + 1 + (2 ^ 64 - 1) = account.queued + 2 ^ 64 by omega,
      Nat.add_mod_right, Nat.mod_eq_of_lt (by omega)]
  unfold refund
  dsimp only
  rw [hsub]

theorem modify_refund_set {accounts : List SignalQueueAccount} (ha : accounts[a]? = some account)
    (hno : account.queued + 1 < 2 ^ 64) :
    (accounts.set a { account with queued := account.queued + 1 }).modify a
      refund = accounts := by
  apply ext_getElem?
  intro b
  by_cases heq : a = b
  · subst heq
    rw [List.getElem?_modify_eq, Lib.getElem?_set_of_some ha, ha]
    exact congrArg some (refund_charged hno)
  · rw [List.getElem?_modify_ne _ _ heq, List.getElem?_set_ne heq]

/-- Two refunds can be made in either order. -/
theorem modify_refund_comm (accounts : List SignalQueueAccount) (a b : Nat) :
    (accounts.modify a refund).modify b refund
      = (accounts.modify b refund).modify a refund := by
  by_cases heq : a = b
  · rw [heq]
  · exact modify_modify_ne _ _ _ heq

/-- The steps of a preparation do nothing with a hand of another kind. -/
theorem run_rest_of_other
    (hcharging : ∀ info realtime held, w.hands[h]? ≠ some (.charging info realtime held))
    (hchg : ∀ info realtime held, w.hands[h]? ≠ some (.charged info realtime held))
    (hrefg : ∀ accounts, w.hands[h]? ≠ some (.refunding accounts)) :
    run World.call w [.chargeGlobal h, .allocateNode h allocated, .refundNext h, .refundNext h]
      = w := by
  have h1 : (w.chargeGlobal h).2 = w := by
    unfold chargeGlobal
    split
    · next hh => exact absurd hh (hcharging _ _ _)
    · rfl
  have h2 : (w.allocateNode h allocated).2 = w := by
    unfold allocateNode
    split
    · next hh => exact absurd hh (hchg _ _ _)
    · rfl
  have h3 : (w.refundNext h).2 = w := by
    unfold refundNext
    split
    · next hh => exact absurd hh (hrefg _)
    · next hh => exact absurd hh (hrefg _)
    · rfl
  show ((((w.chargeGlobal h).2.allocateNode h allocated).2.refundNext h).2.refundNext h).2 = w
  rw [h1, h2, h3, h3]

theorem getElem?_setHand_self (hh : w.hands[h]? = some hand)
    (new : Hand) : (w.setHand h new).hands[h]? = some new :=
  Lib.getElem?_set_of_some hh

theorem refundNext_cons (hh : w.hands[h]? = some (.refunding (a :: rest))) :
    (w.refundNext h).2.accounts = w.accounts.modify a refund ∧
      (w.refundNext h).2.hands[h]? = some (.refunding rest) := by
  unfold refundNext
  rw [hh]
  exact ⟨rfl, getElem?_setHand_self hh _⟩

theorem refundNext_nil (hh : w.hands[h]? = some (.refunding [])) :
    (w.refundNext h).2.accounts = w.accounts := by
  unfold refundNext
  rw [hh]
  rfl

/-- The rest of a preparation whose two charges were made. -/
theorem run_rest_of_charged (hh : w.hands[h]? = some (.charged info realtime held))
    (allocated : Bool) :
    let w' := (((w.allocateNode h allocated).2.refundNext h).2.refundNext h).2
    (∃ signal, w'.hands[h]? = some (.prepared signal)) ∨
      w'.accounts = (w.accounts.modify held.perUser refund).modify held.global
        refund := by
  intro w'
  cases allocated with
  | true =>
    left
    have hprep : ∃ signal, (w.allocateNode h true).2.hands[h]? = some (.prepared signal) := by
      unfold allocateNode
      rw [hh]
      exact ⟨_, getElem?_setHand_self hh _⟩
    obtain ⟨signal, hprep⟩ := hprep
    have hstay : ((w.allocateNode h true).2.refundNext h).2 = (w.allocateNode h true).2 := by
      unfold refundNext
      rw [hprep]
    have hw' : w' = (w.allocateNode h true).2 := by
      show (((w.allocateNode h true).2.refundNext h).2.refundNext h).2 = _
      rw [hstay, hstay]
    rw [hw']
    exact ⟨signal, hprep⟩
  | false =>
    -- no node: both charges are refunded, the per-user one first
    right
    have hrefg : (w.allocateNode h false).2.accounts = w.accounts ∧
        (w.allocateNode h false).2.hands[h]? = some (.refunding [held.perUser, held.global]) := by
      unfold allocateNode
      rw [hh]
      exact ⟨rfl, getElem?_setHand_self hh _⟩
    obtain ⟨hfirst, hnext⟩ := refundNext_cons hrefg.2
    obtain ⟨hsecond, -⟩ := refundNext_cons hnext
    rw [hsecond, hfirst, hrefg.1]

/-- The rest of a preparation whose per-user charge was made. -/
theorem run_rest_of_charging (hh : w.hands[h]? = some (.charging info realtime held))
    (hu : before[held.perUser]? = some account) (hno : account.queued + 1 < 2 ^ 64)
    (haccounts : w.accounts = before.set held.perUser { account with queued := account.queued + 1 })
    (hg : w.accounts[held.global]? = some other) (allocated : Bool) :
    let w' := run World.call w
      [.chargeGlobal h, .allocateNode h allocated, .refundNext h, .refundNext h]
    (∃ signal, w'.hands[h]? = some (.prepared signal)) ∨ w'.accounts = before := by
  intro w'
  cases hcharge : other.tryCharge (2 ^ 64 - 1) with
  | error error =>
    -- the global account refuses: only the per-user charge is refunded
    right
    have hrefg : (w.chargeGlobal h).2.accounts = w.accounts ∧
        (w.chargeGlobal h).2.hands[h]? = some (.refunding [held.perUser]) := by
      unfold chargeGlobal
      rw [hh]
      dsimp only
      rw [hg]
      dsimp only
      rw [hcharge]
      exact ⟨rfl, getElem?_setHand_self hh _⟩
    have hstay : ((w.chargeGlobal h).2.allocateNode h allocated).2 = (w.chargeGlobal h).2 := by
      unfold allocateNode
      rw [hrefg.2]
    obtain ⟨hfirst, hnext⟩ := refundNext_cons hrefg.2
    show ((((w.chargeGlobal h).2.allocateNode h allocated).2.refundNext h).2.refundNext h).2.accounts
      = before
    rw [hstay, refundNext_nil hnext, hfirst, hrefg.1, haccounts]
    exact modify_refund_set hu hno
  | ok charged =>
    obtain ⟨-, hno', rfl⟩ := tryCharge_ok hcharge
    have hchg : (w.chargeGlobal h).2.accounts
          = w.accounts.set held.global { other with queued := other.queued + 1 } ∧
        (w.chargeGlobal h).2.hands[h]? = some (.charged info realtime held) := by
      unfold chargeGlobal
      rw [hh]
      dsimp only
      rw [hg]
      dsimp only
      rw [hcharge]
      exact ⟨rfl, getElem?_setHand_self hh _⟩
    rcases run_rest_of_charged hchg.2 allocated with hprep | href
    · exact .inl hprep
    right
    refine href.trans ?_
    rw [hchg.1, modify_refund_comm, modify_refund_set hg hno', haccounts]
    exact modify_refund_set hu hno

/-- A preparation either ends with a prepared record or leaves every account as it
was, whichever of its three steps fails. -/
theorem preparation_or_unchanged (w : World) (info : SignalInfo) (perUser rlimit global : Nat)
    (allocated : Bool) :
    let w' := run World.call w (w.preparation info perUser rlimit global allocated)
    (∃ signal, w'.hands[w.hands.length]? = some (.prepared signal)) ∨
      w'.accounts = w.accounts := by
  intro w'
  have hw' : w' = run World.call (w.beginAccounted info perUser rlimit global).2
    [.chargeGlobal w.hands.length, .allocateNode w.hands.length allocated,
      .refundNext w.hands.length, .refundNext w.hands.length] := rfl
  have hnone : w.hands[w.hands.length]? = none := getElem?_eq_none (Nat.le_refl _)
  have hstay : run World.call w
      [.chargeGlobal w.hands.length, .allocateNode w.hands.length allocated,
        .refundNext w.hands.length, .refundNext w.hands.length] = w := by
    refine run_rest_of_other ?_ ?_ ?_
    · intro info realtime held hh
      rw [hnone] at hh
      cases hh
    · intro info realtime held hh
      rw [hnone] at hh
      cases hh
    · intro accounts hh
      rw [hnone] at hh
      cases hh
  unfold beginAccounted at hw'
  split at hw'
  · next hrt =>
    split at hw'
    · next account other hu hg =>
      split at hw'
      · right
        rw [hw', hstay]
      next charged hchg =>
      obtain ⟨-, hno, rfl⟩ := tryCharge_ok hchg
      have hlt := Lib.lt_of_getElem? hg
      have hget : ∃ other, (w.accounts.set perUser { account with queued := account.queued + 1 })[
          global]? = some other :=
        ⟨_, List.getElem?_eq_getElem (by rw [List.length_set]; exact hlt)⟩
      obtain ⟨other, hother⟩ := hget
      rw [hw']
      exact run_rest_of_charging getElem?_concat_length hu hno rfl hother allocated
    · right
      rw [hw', hstay]
  · next hrt =>
    left
    have hhand : (w.putHand (.prepared (.ofStandard info (Bool.not_eq_true _ ▸ hrt)))).hands[
        w.hands.length]? = some (.prepared (.ofStandard info (Bool.not_eq_true _ ▸ hrt))) :=
      getElem?_concat_length
    rw [hw', run_rest_of_other]
    · exact ⟨_, hhand⟩
    · intro info realtime held hh
      cases hhand.symm.trans hh
    · intro info realtime held hh
      cases hhand.symm.trans hh
    · intro accounts hh
      cases hhand.symm.trans hh

/-! ## The ledger of a run -/

/-- The bit of an empty real-time queue stands for one fallback. -/
theorem dequeueSignal_empty_realtime {q : PendingSignals} {i : Fin 33}
    (hbit : q.set.has (.sigrt i) = true) (hemp : q.realtime i = []) :
    let answer := q.dequeueSignal (signoBit (.sigrt i))
    answer.1 = .ok (some (.realtimeFallback i (q.realtimePublishEpoch i))) ∧
      answer.2.set.has (.sigrt i) = false := by
  unfold PendingSignals.dequeueSignal
  split
  · next set hdeq =>
    refine absurd ⟨hbit, ?_⟩ ((dequeue_none hdeq).2 (.sigrt i))
    simp
  · next signo set hdeq =>
    obtain ⟨-, hmask, hset⟩ := dequeue_some hdeq
    obtain rfl : signo = .sigrt i := by simpa using hmask
    dsimp only
    rw [hemp]
    refine ⟨rfl, ?_⟩
    show set.has (.sigrt i) = false
    simp [hset]

/-- When nothing is being prepared or released and no record names one account
twice, the charges on an account are the records charged to it. -/
theorem count_charges {items : Multiset Item}
    (hitems : ∀ item ∈ items, ∃ id held, item = .record id held ∧ held.perUser ≠ held.global) :
    (items.bind Item.charges).count a = items.countP fun item => item.isRecordOn a = true := by
  induction items using Multiset.induction with
  | empty => rfl
  | cons item items ih =>
    have hrest := ih fun other hother => hitems other (Multiset.mem_cons_of_mem hother)
    obtain ⟨id, held, rfl, hne⟩ := hitems item (Multiset.mem_cons_self item items)
    have hitem : (Item.charges (.record id held)).count a
        = if (Item.record id held).isRecordOn a = true then 1 else 0 := by
      simp only [Item.charges, Item.isRecordOn, Multiset.insert_eq_cons, Multiset.count_cons,
        Multiset.count_singleton, Bool.or_eq_true, beq_iff_eq]
      grind
    rw [Multiset.cons_bind, Multiset.count_add, Multiset.countP_cons, hrest, hitem, add_comm]

/-- What a run leaves true of queues, records and accounts. -/
structure Ledger (past : List SignalEvent) (w : World) : Prop where
  /-- a standard bit is set exactly when the slot is full -/
  slot : ∀ q pending, w.queue q = some pending → ∀ s : Signo, s.isRealtime = false →
    (pending.set.has s = true ↔ (pending.standard s).isSome = true)
  /-- a nonempty real-time queue has its bit set -/
  queue : ∀ q pending, w.queue q = some pending → ∀ i, pending.realtime i ≠ [] →
    pending.set.has (.sigrt i) = true
  /-- a bit over an empty real-time queue is one fallback -/
  fallback : ∀ q pending, w.queue q = some pending → ∀ i, pending.set.has (.sigrt i) = true →
    pending.realtime i = [] →
    let answer := pending.dequeueSignal (signoBit (.sigrt i))
    answer.1 = .ok (some (.realtimeFallback i (pending.realtimePublishEpoch i))) ∧
      answer.2.set.has (.sigrt i) = false
  /-- no selection panics -/
  selects : ∀ q pending, w.queue q = some pending → ∀ mask cause,
    (pending.dequeueSignal mask).1 ≠ .error cause
  calm : SignalEvent.panicked ∉ past
  /-- a record that was made is in one place or was ended once -/
  place : ∀ id, (w.recordsIn .prepared).count id + (w.recordsIn .queued).count id
      + (w.recordsIn .inFlight).count id + (w.recordsIn .detached).count id + (gone past).count id
    = if id < w.nextNode then 1 else 0
  /-- the counter is the number of charges held -/
  counter : ∀ a account, w.accounts[a]? = some account →
    account.queued = w.charges.count a ∧ account.queued ≤ account.hardLimit
  /-- it is the number of records charged, when every charge is that of a record and no
  record is charged twice to one account -/
  exact : (∀ item ∈ w.items, ∃ id held, item = .record id held ∧ held.perUser ≠ held.global) →
    ∀ a account, w.accounts[a]? = some account → account.queued = w.chargedRecords a
  /-- a preparation that fails leaves all accounts as they were -/
  preparation : ∀ info perUser rlimit global allocated,
    let w' := run World.call w (w.preparation info perUser rlimit global allocated)
    (∃ signal, w'.hands[w.hands.length]? = some (.prepared signal)) ∨ w'.accounts = w.accounts

theorem Books.ledger (h : Books past w) : Ledger past w where
  slot q pending hq := (h.wf.queue hq).slot
  queue q pending hq := (h.wf.queue hq).queue
  fallback q pending hq i hbit hemp := dequeueSignal_empty_realtime hbit hemp
  selects := by
    intro q pending hq mask cause herror
    rcases (h.wf.queue hq).dequeueSignal_cases mask with ⟨heq, -⟩ | ⟨signal, rest, heq, -⟩
    · rw [heq] at herror
      cases herror
    · rw [heq] at herror
      cases herror
  calm := h.calm
  place := by
    intro id
    have hcount := congrArg (Multiset.count id) h.records
    rw [records_eq] at hcount
    simp only [Multiset.count_add] at hcount
    rw [hcount, Multiset.count_eq_of_nodup (Multiset.nodup_range _)]
    simp only [Multiset.mem_range]
  counter a account ha := ⟨(h.counter a account ha).1, (h.counter a account ha).2.1⟩
  exact hitems a account ha := (h.counter a account ha).1.trans (count_charges hitems)
  preparation info perUser rlimit global allocated :=
    w.preparation_or_unchanged info perUser rlimit global allocated

/-- Over every interleaving of sections, from the beginning. -/
theorem run_ledger (calls : List SignalCall) :
    Ledger (events World.call signalEvents World.empty calls)
      (run World.call World.empty calls) :=
  (run_books calls).ledger

/-- A preparation with one account in both roles. -/
def sharedAccountCalls : List SignalCall :=
  [.newAccount true 8, .beginAccounted (.newUser (.sigrt 3) 0 1 0) 0 8 0, .chargeGlobal 0,
    .allocateNode 0 true]

/-- The counter is not always the number of records: an account in both roles counts
its one record twice, and a record being prepared is charged before it is made. -/
theorem counter_exceeds_records :
    ((run World.call World.empty sharedAccountCalls).accounts.map (·.queued) = [2] ∧
      (run World.call World.empty sharedAccountCalls).chargedRecords 0 = 1) ∧
    ((run World.call World.empty (sharedAccountCalls.take 2)).accounts.map (·.queued) = [1] ∧
      (run World.call World.empty (sharedAccountCalls.take 2)).chargedRecords 0 = 0) := by
  decide

end World

end LinuxAbi.Signal
