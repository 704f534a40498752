import LinuxAbi.Signal.Check
import LinuxAbi.Signal.Records

/-!
# What one section does to the records

`Move` lists everything a section can do to the records and the accounts: create an
account, charge one, turn two charges into a record, use a record up (it leaves its
two charges), refund a charge, or (`keep`) only move records from one owner to
another. `QueuesWF.call_move` says that every call is one of these; the sections
are taken apart once, here.
-/

namespace LinuxAbi.Signal

open Lib (tally tally_set)

/-! ## Who holds what -/

/-- The items of the record a delivery check carries. -/
def CheckPhase.items : CheckPhase → Multiset Item
  | .stale _ _ signal => signal.items
  | .selected _ _ signal => signal.items
  | .claimed _ _ _ signal _ _ => optItems DequeuedSignal.items signal
  | .handled _ _ signal _ _ => optItems DequeuedSignal.items signal
  | .finished _ _ signal _ => optItems DequeuedSignal.items signal
  | _ => 0

/-- The items of a hand. -/
def Hand.items : Hand → Multiset Item
  | .charging _ _ held => {.charge held.perUser}
  | .charged _ _ held => {.charge held.perUser, .charge held.global}
  | .refunding accounts => (accounts.map Item.charge : List Item)
  | .prepared signal => signal.items
  | .dequeued _ signal => signal.items
  | .detached nodes => itemsOf nodes
  | .check _ phase => phase.items
  | _ => 0

namespace World

/-- The items in the pending queues. -/
def queueItems (w : World) : Multiset Item :=
  tally (fun m => m.pending.items) w.processes + tally (fun t => t.pending.items) w.threads

/-- The items in hands. -/
def handItems (w : World) : Multiset Item := tally Hand.items w.hands

/-- All items. -/
def items (w : World) : Multiset Item := w.queueItems + w.handItems

/-- Every pending queue is well formed. -/
structure QueuesWF (w : World) : Prop where
  process : ∀ m ∈ w.processes, m.pending.WF
  thread : ∀ t ∈ w.threads, t.pending.WF

/-- A step that only moves records between owners. -/
structure Keep (w w' : World) : Prop where
  wf : w'.QueuesWF
  accounts : w'.accounts = w.accounts
  nextNode : w'.nextNode = w.nextNode
  items : w'.items = w.items

variable {w w' : World} {h : Nat} {hand : Hand} {q : QueueId} {pending new : PendingSignals}

theorem Keep.refl (h : w.QueuesWF) : Keep w w := ⟨h, rfl, rfl, rfl⟩

theorem Keep.trans (h : Keep w w') (h' : Keep w' w'') : Keep w w'' :=
  ⟨h'.wf, h'.accounts.trans h.accounts, h'.nextNode.trans h.nextNode, h'.items.trans h.items⟩

/-! ## Rows -/

theorem getElem?_putHand (hh : w.hands[h]? = some hand)
    (new : Hand) : (w.putHand new).hands[h]? = some hand := by
  have hlt := Lib.lt_of_getElem? hh
  show (w.hands ++ [new])[h]? = some hand
  rw [List.getElem?_append_left hlt]
  exact hh

theorem handItems_putHand (w : World) (hand : Hand) :
    (w.putHand hand).handItems = w.handItems + hand.items := by
  show tally Hand.items (w.hands ++ [hand]) = tally Hand.items w.hands + hand.items
  rw [Lib.tally_append, Lib.tally_cons, Lib.tally_nil, add_zero]

theorem handItems_setHand (hh : w.hands[h]? = some hand)
    (new : Hand) : (w.setHand h new).handItems + hand.items = w.handItems + new.items :=
  tally_set hh new

theorem items_putHand (w : World) (hand : Hand) : (w.putHand hand).items = w.items + hand.items := by
  show w.queueItems + (w.putHand hand).handItems = _
  rw [handItems_putHand, ← add_assoc]
  rfl

theorem items_setHand (hh : w.hands[h]? = some hand)
    (new : Hand) : (w.setHand h new).items + hand.items = w.items + new.items := by
  show w.queueItems + (w.setHand h new).handItems + _ = w.queueItems + w.handItems + _
  rw [add_assoc, handItems_setHand hh, ← add_assoc]

theorem keep_putHand (hwf : w.QueuesWF) (hnone : hand.items = 0) : Keep w (w.putHand hand) := by
  refine ⟨⟨hwf.process, hwf.thread⟩, rfl, rfl, ?_⟩
  rw [items_putHand, hnone, add_zero]

theorem keep_setHand (hwf : w.QueuesWF) {new : Hand} (hh : w.hands[h]? = some hand)
    (hsame : new.items = hand.items) : Keep w (w.setHand h new) := by
  refine ⟨⟨hwf.process, hwf.thread⟩, rfl, rfl, ?_⟩
  have hset := items_setHand hh new
  rw [hsame] at hset
  exact add_right_cancel hset

/-- A changed owner table moves no record. -/
theorem keep_owners (hwf : w.QueuesWF) (owners : List SignalActions) :
    Keep w { w with owners } := ⟨⟨hwf.process, hwf.thread⟩, rfl, rfl, rfl⟩

theorem keep_setRegistration (hwf : w.QueuesWF) (r : Nat) (state : RegistrationState) :
    Keep w (w.setRegistration r state) := ⟨⟨hwf.process, hwf.thread⟩, rfl, rfl, rfl⟩

theorem keep_deactivate (hwf : w.QueuesWF) (r : Option Nat) : Keep w (w.deactivate r) := by
  cases r with
  | none => exact .refl hwf
  | some r => exact keep_setRegistration hwf r .cancelled

theorem queueItems_setThread (ht : w.threads[t]? = some thread) (new : ThreadSignalManager) :
    (w.setThread t new).queueItems + thread.pending.items = w.queueItems + new.pending.items := by
  show tally _ w.processes + tally _ (w.threads.set t new) + _ = tally _ w.processes + _ + _
  rw [add_assoc, tally_set (f := fun t : ThreadSignalManager => t.pending.items) ht, ← add_assoc]

theorem queueItems_setProcess (hp : w.processes[p]? = some m) (new : ProcessSignalManager) :
    (w.setProcess p new).queueItems + m.pending.items = w.queueItems + new.pending.items := by
  show tally _ (w.processes.set p new) + tally _ w.threads + _ = _ + tally _ w.threads + _
  rw [add_right_comm, tally_set (f := fun m : ProcessSignalManager => m.pending.items) hp,
    add_right_comm]

theorem QueuesWF.setThread (hwf : w.QueuesWF) (t : Nat) {new : ThreadSignalManager}
    (hnew : new.pending.WF) : (w.setThread t new).QueuesWF :=
  ⟨hwf.process, Lib.forall_mem_set hwf.thread hnew⟩

theorem QueuesWF.setProcess (hwf : w.QueuesWF) (p : Nat) {new : ProcessSignalManager}
    (hnew : new.pending.WF) : (w.setProcess p new).QueuesWF :=
  ⟨Lib.forall_mem_set hwf.process hnew, hwf.thread⟩

/-- A thread row changed in anything but its queue. -/
theorem keep_setThread (hwf : w.QueuesWF) {t : Nat} {thread new : ThreadSignalManager}
    (ht : w.threads[t]? = some thread) (hsame : new.pending = thread.pending) :
    Keep w (w.setThread t new) := by
  have hold := hwf.thread thread (List.mem_of_getElem? ht)
  refine ⟨hwf.setThread t (hsame ▸ hold), rfl, rfl, ?_⟩
  have hset := queueItems_setThread ht new
  rw [hsame] at hset
  show (w.setThread t new).queueItems + w.handItems = _
  rw [add_right_cancel hset]
  rfl

/-- A process row changed in anything but its queue. -/
theorem keep_setProcess (hwf : w.QueuesWF) {p : Nat} {m new : ProcessSignalManager}
    (hp : w.processes[p]? = some m) (hsame : new.pending = m.pending) :
    Keep w (w.setProcess p new) := by
  have hold := hwf.process m (List.mem_of_getElem? hp)
  refine ⟨hwf.setProcess p (hsame ▸ hold), rfl, rfl, ?_⟩
  have hset := queueItems_setProcess hp new
  rw [hsame] at hset
  show (w.setProcess p new).queueItems + w.handItems = _
  rw [add_right_cancel hset]
  rfl

/-! ## Queues -/

theorem QueuesWF.queue (hwf : w.QueuesWF) (hq : w.queue q = some pending) : pending.WF := by
  cases q with
  | process p =>
    obtain ⟨m, hm, rfl⟩ := Option.map_eq_some_iff.mp hq
    exact hwf.process m (List.mem_of_getElem? hm)
  | thread t =>
    obtain ⟨thread, ht, rfl⟩ := Option.map_eq_some_iff.mp hq
    exact hwf.thread thread (List.mem_of_getElem? ht)

/-- Storing a queue is overwriting its row. -/
theorem storeQueue_eq (hq : w.queue q = some pending) (new : PendingSignals) (flag : Option Bool) :
    (∃ p m, q = .process p ∧ w.processes[p]? = some m ∧ m.pending = pending ∧
        w.storeQueue q new flag = w.setProcess p
          { m with pending := new, possiblyHasSignal := flag.getD m.possiblyHasSignal }) ∨
      ∃ t m, q = .thread t ∧ w.threads[t]? = some m ∧ m.pending = pending ∧
        w.storeQueue q new flag = w.setThread t
          { m with pending := new, possiblyHasSignal := flag.getD m.possiblyHasSignal } := by
  cases q with
  | process p =>
    obtain ⟨m, hm, hpend⟩ := Option.map_eq_some_iff.mp hq
    refine .inl ⟨p, m, rfl, hm, hpend, ?_⟩
    simp only [storeQueue, setProcess]
    rw [Lib.modify_eq_set_of_some hm]
  | thread t =>
    obtain ⟨m, hm, hpend⟩ := Option.map_eq_some_iff.mp hq
    refine .inr ⟨t, m, rfl, hm, hpend, ?_⟩
    simp only [storeQueue, setThread]
    rw [Lib.modify_eq_set_of_some hm]

theorem hands_storeQueue (w : World) (q : QueueId) (new : PendingSignals) (flag : Option Bool) :
    (w.storeQueue q new flag).hands = w.hands := by
  cases q <;> rfl

theorem accounts_storeQueue (w : World) (q : QueueId) (new : PendingSignals) (flag : Option Bool) :
    (w.storeQueue q new flag).accounts = w.accounts := by
  cases q <;> rfl

theorem nextNode_storeQueue (w : World) (q : QueueId) (new : PendingSignals) (flag : Option Bool) :
    (w.storeQueue q new flag).nextNode = w.nextNode := by
  cases q <;> rfl

theorem queueItems_storeQueue (hq : w.queue q = some pending) (new : PendingSignals)
    (flag : Option Bool) :
    (w.storeQueue q new flag).queueItems + pending.items = w.queueItems + new.items := by
  rcases storeQueue_eq hq new flag with ⟨p, m, -, hm, rfl, heq⟩ | ⟨t, m, -, hm, rfl, heq⟩
  · rw [heq]
    exact queueItems_setProcess hm _
  · rw [heq]
    exact queueItems_setThread hm _

section

variable (hwf : w.QueuesWF) (hq : w.queue q = some pending) (hnew : new.WF) (flag : Option Bool)
include hwf hq hnew

theorem QueuesWF.storeQueue : (w.storeQueue q new flag).QueuesWF := by
  rcases storeQueue_eq hq new flag with ⟨p, m, -, -, -, heq⟩ | ⟨t, m, -, -, -, heq⟩
  · rw [heq]
    exact hwf.setProcess p hnew
  · rw [heq]
    exact hwf.setThread t hnew

/-- A queue exchanges records with one hand. -/
theorem keep_exchange (hh : w.hands[h]? = some hand)
    (hitems : new.items + hand'.items = pending.items + hand.items) :
    Keep w ((w.storeQueue q new flag).setHand h hand') := by
  have hwf' := hwf.storeQueue hq hnew flag
  refine ⟨⟨hwf'.process, hwf'.thread⟩, accounts_storeQueue .., nextNode_storeQueue .., ?_⟩
  have hh' : (w.storeQueue q new flag).hands[h]? = some hand := by
    rw [hands_storeQueue]
    exact hh
  have hqueue := queueItems_storeQueue hq new flag
  have hhand := handItems_setHand hh' hand'
  have hsame : (w.storeQueue q new flag).handItems = w.handItems := by
    unfold handItems
    rw [hands_storeQueue]
  rw [hsame] at hhand
  -- both exchanges at once, then cancel what left the queue and the hand
  have hboth : ((w.storeQueue q new flag).setHand h hand').items + (pending.items + hand.items)
      = w.items + (new.items + hand'.items) := by
    calc _ = ((w.storeQueue q new flag).queueItems + pending.items)
          + (((w.storeQueue q new flag).setHand h hand').handItems + hand.items) :=
        add_add_add_comm ..
      _ = (w.queueItems + new.items) + (w.handItems + hand'.items) := by rw [hqueue, hhand]
      _ = _ := add_add_add_comm ..
  rw [hitems] at hboth
  exact add_right_cancel hboth

/-- A queue hands records over to a new hand. -/
theorem keep_give (hitems : new.items + hand.items = pending.items) :
    Keep w ((w.storeQueue q new flag).putHand hand) := by
  have hwf' := hwf.storeQueue hq hnew flag
  refine ⟨⟨hwf'.process, hwf'.thread⟩, accounts_storeQueue .., nextNode_storeQueue .., ?_⟩
  have hqueue := queueItems_storeQueue hq new flag
  have hsame : (w.storeQueue q new flag).handItems = w.handItems := by
    unfold handItems
    rw [hands_storeQueue]
  rw [← hitems, ← add_assoc, add_right_comm] at hqueue
  show (w.storeQueue q new flag).queueItems + ((w.storeQueue q new flag).putHand hand).handItems = _
  rw [handItems_putHand, hsame, add_comm w.handItems, ← add_assoc, add_right_cancel hqueue]
  rfl

/-- A queue is stored back with the same records. -/
theorem keep_store (hitems : new.items = pending.items) : Keep w (w.storeQueue q new flag) := by
  refine ⟨hwf.storeQueue hq hnew flag, accounts_storeQueue .., nextNode_storeQueue .., ?_⟩
  have hqueue := queueItems_storeQueue hq new flag
  rw [hitems] at hqueue
  show (w.storeQueue q new flag).queueItems + tally Hand.items (w.storeQueue q new flag).hands = _
  rw [add_right_cancel hqueue, hands_storeQueue]
  rfl

end

theorem keep_takeQueue (hwf : w.QueuesWF) (q : QueueId) : Keep w (w.takeQueue q) := by
  unfold takeQueue
  split
  · exact .refl hwf
  · next pending hq =>
    exact keep_give hwf hq PendingSignals.wf_default _ pending.takeAll_items

/-! ## Detaching -/

/-- Records move from the queues to the detached list; hands are not touched. -/
structure Shift (wd wd' : World × List RealtimeSignalNode) : Prop where
  wf : wd'.1.QueuesWF
  items : wd'.1.queueItems + itemsOf wd'.2 = wd.1.queueItems + itemsOf wd.2
  hands : wd'.1.hands = wd.1.hands
  accounts : wd'.1.accounts = wd.1.accounts
  nextNode : wd'.1.nextNode = wd.1.nextNode

theorem Shift.refl (h : wd.1.QueuesWF) : Shift wd wd :=
  ⟨h, rfl, rfl, rfl, rfl⟩

theorem Shift.trans (h : Shift a b) (h' : Shift b c) :
    Shift a c :=
  ⟨h'.wf, h'.items.trans h.items, h'.hands.trans h.hands, h'.accounts.trans h.accounts,
    h'.nextNode.trans h.nextNode⟩

theorem Shift.keep (h : Shift (w, []) (w', d)) : Keep w (w'.putHand (.detached d)) := by
  refine ⟨⟨h.wf.process, h.wf.thread⟩, h.accounts, h.nextNode, ?_⟩
  have hitems : w'.queueItems + itemsOf d = w.queueItems := h.items.trans (add_zero _)
  have hhands : w'.handItems = w.handItems := congrArg (tally Hand.items) h.hands
  show w'.queueItems + (w'.putHand (.detached d)).handItems = w.queueItems + w.handItems
  rw [handItems_putHand, hhands, add_comm w.handItems, ← add_assoc]
  exact congrArg (· + w.handItems) hitems

theorem detachSignalInto_shift (wd : World × List RealtimeSignalNode) (hwf : wd.1.QueuesWF)
    (q : QueueId) (signo : Signo) : Shift wd (detachSignalInto wd q signo) := by
  unfold detachSignalInto
  split
  · exact .refl hwf
  next pending hq =>
  obtain ⟨hnew, hitems⟩ := (hwf.queue hq).detachSignalInto signo wd.2
  refine ⟨hwf.storeQueue hq hnew _, ?_, hands_storeQueue .., accounts_storeQueue ..,
    nextNode_storeQueue ..⟩
  have hqueue := queueItems_storeQueue hq (pending.detachSignalInto signo wd.2).2
  -- what left the queue is what the list gained
  refine add_right_cancel (b := pending.items) ?_
  calc _ = (wd.1.storeQueue q (pending.detachSignalInto signo wd.2).2
          (clearIfEmpty (pending.detachSignalInto signo wd.2).2)).queueItems + pending.items
        + itemsOf (pending.detachSignalInto signo wd.2).1 := add_right_comm ..
    _ = wd.1.queueItems + ((pending.detachSignalInto signo wd.2).2.items
        + itemsOf (pending.detachSignalInto signo wd.2).1) := by rw [hqueue, add_assoc]
    _ = wd.1.queueItems + itemsOf wd.2 + pending.items := by
      rw [hitems, add_comm pending.items, add_assoc]

theorem detachAll_shift (q : QueueId) (flush : List Signo) (wd : World × List RealtimeSignalNode)
    (hwf : wd.1.QueuesWF) : Shift wd (detachAll wd q flush) := by
  induction flush generalizing wd with
  | nil => exact .refl hwf
  | cons signo flush ih =>
    have hstep := detachSignalInto_shift wd hwf q signo
    exact hstep.trans (ih _ hstep.wf)

theorem detachChildren_shift (children : List Nat) (flush : List Signo)
    (wd : World × List RealtimeSignalNode) (hwf : wd.1.QueuesWF) :
    Shift wd (detachChildren wd children flush) := by
  induction children generalizing wd with
  | nil => exact .refl hwf
  | cons r children ih =>
    -- one registry entry: its thread's queue, if the entry upgrades
    suffices hstep : Shift wd _ from hstep.trans (ih _ hstep.wf)
    dsimp only
    split
    · exact detachAll_shift _ flush wd hwf
    · exact .refl hwf

section

variable (hwf : w.QueuesWF) (p : Nat) (m : ProcessSignalManager) (signo : Signo)
include hwf

theorem applyGenerationEffect_shift : Shift (w, []) (w.applyGenerationEffect p m signo) := by
  unfold applyGenerationEffect
  split
  · have hown := detachAll_shift (.process p) (generationFlush signo) (w, []) hwf
    exact hown.trans (detachChildren_shift m.children (generationFlush signo) _ hown.wf)
  · exact .refl hwf

/-- The job-control effect of a send, with the detached records left in a hand. -/
theorem keep_effect :
    Keep w ((w.applyGenerationEffect p m signo).1.putHand
      (.detached (w.applyGenerationEffect p m signo).2)) :=
  (applyGenerationEffect_shift hwf p m signo).keep

theorem hands_effect (hh : w.hands[h]? = some hand) :
    ((w.applyGenerationEffect p m signo).1.putHand
      (.detached (w.applyGenerationEffect p m signo).2)).hands[h]? = some hand := by
  refine getElem?_putHand ?_ _
  rw [(applyGenerationEffect_shift hwf p m signo).hands]
  exact hh

end

/-! ## Moves -/

/-- The accounts and the next record afterwards, and the items exchanged. -/
structure Turnover (w w' : World) (accounts : List SignalQueueAccount) (nextNode : Nat)
    (lost gained : Multiset Item) : Prop where
  wf : w'.QueuesWF
  accounts : w'.accounts = accounts
  nextNode : w'.nextNode = nextNode
  items : w'.items + lost = w.items + gained

/-- Everything a section can do to records and accounts. -/
inductive Move (w : World) : List SignalEvent → World → Prop
  | keep (h : Keep w u) : Move w [] u
  | account (limit : Nat) (turn : Turnover w u
      (w.accounts ++ [{ queued := 0, hardLimit := limit }]) w.nextNode 0 0) : Move w [] u
  | charge (ha : w.accounts[a]? = some account) (hroom : account.queued < account.hardLimit)
      (hno : account.queued + 1 < 2 ^ 64) (turn : Turnover w u
        (w.accounts.set a { account with queued := account.queued + 1 }) w.nextNode
        0 {.charge a}) : Move w [] u
  | mint (held : SignalQueueCharge) (turn : Turnover w u w.accounts (w.nextNode + 1)
      {.charge held.perUser, .charge held.global} {.record w.nextNode held}) : Move w [] u
  | spend (held : SignalQueueCharge) (hevent : event = .consumed node ∨ event = .released node)
      (turn : Turnover w u w.accounts w.nextNode
        {.record node held} {.charge held.perUser, .charge held.global}) : Move w [event] u
  | refund (turn : Turnover w u (w.accounts.modify a SignalQueueAccount.refund) w.nextNode
      {.charge a} 0) : Move w [] u

/-- A call with its answer is a move. -/
abbrev Moves (w : World) (result : Answer × World) : Prop := Move w result.1.events result.2

theorem Move.wf (h : Move w events w') : w'.QueuesWF := by
  cases h with
  | keep h => exact h.wf
  | account _ turn | charge _ _ _ turn | mint _ turn | spend _ _ turn | refund turn =>
    exact turn.wf

end World

end LinuxAbi.Signal
