import LinuxAbi.Signal.Ledger

/-!
# Every section is a move

One lemma per section of the signal world, each by the branches of that section.
-/

namespace LinuxAbi.Signal

open Prod
open Lib (tally)

namespace World

variable {w w' : World} {q : QueueId} {h t : Nat} {signal : PreparedSignal} {hand : Hand}

/-! ## One update after another -/

variable {new : Hand}

/-- A new hand that holds nothing. -/
theorem Keep.putHand (hk : Keep w w') (hnone : new.items = 0) : Keep w (w'.putHand new) :=
  hk.trans (keep_putHand hk.wf hnone)

/-- A hand that passes on what it holds. -/
theorem Keep.setHand (hk : Keep w w') (hh : w'.hands[h]? = some hand)
    (hsame : new.items = hand.items) : Keep w (w'.setHand h new) :=
  hk.trans (keep_setHand hk.wf hh hsame)

/-- A thread that keeps its queue. -/
theorem Keep.setThread (hk : Keep w w')
    (ht : w'.threads[t]? = some thread) (hsame : thread'.pending = thread.pending) :
    Keep w (w'.setThread t thread') :=
  hk.trans (keep_setThread hk.wf ht hsame)

/-- A process that keeps its queue. -/
theorem Keep.setProcess (hk : Keep w w')
    (hp : w'.processes[p]? = some m) (hsame : m'.pending = m.pending) :
    Keep w (w'.setProcess p m') :=
  hk.trans (keep_setProcess hk.wf hp hsame)

theorem Keep.takeQueue (hk : Keep w w') (q : QueueId) : Keep w (w'.takeQueue q) :=
  hk.trans (keep_takeQueue hk.wf q)

/-- A section that refuses or does not apply. -/
theorem Move.stay (hwf : w.QueuesWF) : Move w [] w := .keep (.refl hwf)

/-- What moved before a turn may as well have moved with it. -/
theorem Keep.turn (h : Keep w w') (ht : Turnover w' w'' rows n lost gained) :
    Turnover w w'' rows n lost gained :=
  ⟨ht.wf, ht.accounts, ht.nextNode, h.items ▸ ht.items⟩

/-- A move after a step that only moved records. -/
theorem Keep.move (h : Keep w w') (hm : Move w' events w'') : Move w events w'' := by
  cases hm with
  | keep h' => exact .keep (h.trans h')
  | account limit turn =>
    rw [h.accounts, h.nextNode] at turn
    exact .account limit (h.turn turn)
  | charge ha hroom hno turn =>
    rw [h.accounts] at ha
    rw [h.accounts, h.nextNode] at turn
    exact .charge ha hroom hno (h.turn turn)
  | mint held turn =>
    rw [h.accounts, h.nextNode] at turn
    exact .mint held (h.turn turn)
  | spend held hevent turn =>
    rw [h.accounts, h.nextNode] at turn
    exact .spend held hevent (h.turn turn)
  | refund turn =>
    rw [h.accounts, h.nextNode] at turn
    exact .refund (h.turn turn)

/-- What a hand was left with may as well be put into a hand of its own. -/
theorem Keep.split_hand (hk : Keep w (w'.setHand h new)) (hh : w'.hands[h]? = some hand)
    (hrest : rest.items = 0) : Keep w ((w'.setHand h rest).putHand new) := by
  refine ⟨⟨hk.wf.process, hk.wf.thread⟩, hk.accounts, hk.nextNode, ?_⟩
  have hone := items_setHand hh new
  have htwo := items_setHand hh rest
  rw [hrest, add_zero] at htwo
  rw [items_putHand, ← hk.items]
  refine add_right_cancel (b := hand.items) ?_
  rw [hone, add_right_comm, htwo]

/-- A step that uses a dequeued signal up and leaves its charges. -/
theorem Move.spent (signal : DequeuedSignal)
    (turn : Turnover w w' w.accounts w.nextNode signal.items (spentHand signal).items) :
    Move w (spentEvents signal) w' := by
  cases signal with
  | realtime node => exact .spend node.charge (.inl rfl) turn
  | standard | realtimeFallback =>
    exact .keep ⟨turn.wf, turn.accounts, turn.nextNode, add_right_cancel turn.items⟩

/-! ## Functions of the source -/

/-- What a successful charge did. -/
theorem tryCharge_ok {account charged : SignalQueueAccount} {limit : Nat}
    (h : account.tryCharge limit = .ok charged) :
    account.queued < account.hardLimit ∧ account.queued + 1 < 2 ^ 64 ∧
      charged = { account with queued := account.queued + 1 } := by
  unfold SignalQueueAccount.tryCharge at h
  dsimp only at h
  split at h
  · next hroom =>
    refine ⟨?_, hroom.1, (Except.ok.inj h).symm⟩
    omega
  · cases h

/-- A hand that is not written stays. -/
theorem getElem?_setHand_ne {h' : Nat} {hand' : Hand} (hh : w.hands[h]? = some hand)
    (hh' : w.hands[h']? = some hand') (hne : hand ≠ hand')
    (new : Hand) : (w.setHand h new).hands[h']? = some hand' := by
  have hidx : h ≠ h' := by
    intro heq
    rw [heq, hh'] at hh
    exact hne (Option.some.inj hh).symm
  show (w.hands.set h new)[h']? = some hand'
  rw [List.getElem?_set_ne hidx]
  exact hh'

/-- A generation is counted outside the queue. -/
theorem assignGeneration_pending (thread : ThreadSignalManager) (signal : PreparedSignal) :
    (thread.assignGeneration signal).2.pending = thread.pending := by
  unfold ThreadSignalManager.assignGeneration ThreadSignalManager.allocateGeneration
  split
  · split
    · next heq =>
      split at heq
      · rw [← congrArg snd heq]
      · cases congrArg fst heq
    · next heq =>
      split at heq
      · cases congrArg fst heq
      · rw [← congrArg snd heq]
  · rfl

/-- A record with a generation is the same record. -/
theorem assignGeneration_items {thread : ThreadSignalManager}
    (h : (thread.assignGeneration signal).1 = some (generation, signal')) :
    signal'.items = signal.items := by
  unfold ThreadSignalManager.assignGeneration at h
  split at h
  · split at h
    · cases h
    · next assigned _ _ =>
      obtain rfl := congrArg snd (Option.some.inj h)
      rfl
  · obtain rfl := congrArg snd (Option.some.inj h)
    rfl

/-- Putting back writes no hand. -/
theorem hands_requeue (w : World) (q : QueueId) (signal : DequeuedSignal) :
    (w.requeue q signal).2.hands = w.hands := by
  unfold requeue
  split
  · split
    · rfl
    · exact hands_storeQueue ..
  · exact hands_storeQueue ..
  · rfl

theorem threads_deactivate (w : World) (r : Option Nat) : (w.deactivate r).threads = w.threads := by
  cases r <;> rfl

theorem handleSignal_pending (thread : ThreadSignalManager) (signo : Signo) (action : SignalAction)
    (framed : Bool) : (thread.handleSignal signo action framed).2.pending = thread.pending := by
  unfold ThreadSignalManager.handleSignal
  split
  · rfl
  · rfl
  · split <;> rfl

/-! ## Preparation and release -/

section

variable (hwf : w.QueuesWF)
include hwf

/-- A new account has nothing charged to it. -/
theorem newAccount_move (allocated : Bool) (hardLimit : Nat) :
    Moves w (w.newAccount allocated hardLimit) := by
  unfold newAccount SignalQueueAccount.tryNew
  split
  · exact .stay hwf
  next account heq =>
  split at heq
  · cases heq
  split at heq
  · obtain rfl := Except.ok.inj heq
    exact .account hardLimit ⟨⟨hwf.process, hwf.thread⟩, rfl, rfl, rfl⟩
  · cases heq

/-- The first charge of a preparation, on the user's account. -/
theorem beginAccounted_move (info : SignalInfo) (perUser rlimit global : Nat) :
    Moves w (w.beginAccounted info perUser rlimit global) := by
  unfold beginAccounted
  split
  · next hrt =>
    split
    · next account _ ha _ =>
      split
      · exact .stay hwf
      next charged hchg =>
      obtain ⟨hroom, hno, rfl⟩ := tryCharge_ok hchg
      exact .charge ha hroom hno
        ⟨⟨hwf.process, hwf.thread⟩, rfl, rfl, (add_zero _).trans (items_putHand w _)⟩
    · exact .stay hwf
  · exact .keep (keep_putHand hwf rfl)

/-- The second charge. -/
theorem chargeGlobal_move (h : Nat) : Moves w (w.chargeGlobal h) := by
  unfold chargeGlobal
  split
  · next info realtime held hh =>
    split
    · next account ha =>
      split
      · exact .keep (keep_setHand hwf hh rfl)
      next charged hchg =>
      obtain ⟨hroom, hno, rfl⟩ := tryCharge_ok hchg
      refine .charge ha hroom hno ⟨⟨hwf.process, hwf.thread⟩, rfl, rfl, (add_zero _).trans ?_⟩
      have hset := items_setHand hh (.charged info realtime held)
      refine add_right_cancel (b := {Item.charge held.perUser}) (hset.trans ?_)
      show w.items + (Item.charge held.perUser ::ₘ {Item.charge held.global}) = _
      rw [← Multiset.singleton_add, add_comm {Item.charge held.perUser}, ← add_assoc]
    · exact .stay hwf
  · exact .stay hwf

/-- The record takes both charges, or they wait to be refunded. -/
theorem allocateNode_move (h : Nat) (allocated : Bool) : Moves w (w.allocateNode h allocated) := by
  unfold allocateNode
  split
  · next info realtime held hh =>
    split
    · exact .mint held ⟨⟨hwf.process, hwf.thread⟩, rfl, rfl, items_setHand hh _⟩
    · exact .keep (keep_setHand hwf hh rfl)
  · exact .stay hwf

/-- A record that was not published leaves its charges. -/
theorem dropPrepared_move (h : Nat) : Moves w (w.dropPrepared h) := by
  unfold dropPrepared
  split
  · next signal hh =>
    obtain ⟨kind, generation⟩ := signal
    cases kind with
    | realtime node =>
      exact .spend node.charge (.inr rfl) ⟨⟨hwf.process, hwf.thread⟩, rfl, rfl, items_setHand hh _⟩
    | standard | realtimeFallback => exact .keep (keep_setHand hwf hh rfl)
  · exact .stay hwf

/-- So does one that was detached. -/
theorem dropDetached_move (h : Nat) : Moves w (w.dropDetached h) := by
  unfold dropDetached
  split
  · next node rest hh =>
    refine .spend node.charge (.inr rfl) ⟨⟨hwf.process, hwf.thread⟩, rfl, rfl, ?_⟩
    have hset := items_setHand hh (.detached rest)
    have hsplit : Hand.items (.detached (node :: rest)) = {node.item} + itemsOf rest :=
      itemsOf_cons node rest
    rw [hsplit, ← add_assoc] at hset
    have hpop : (w.setHand h (.detached rest)).items + {Item.record node.id node.charge} = w.items :=
      add_right_cancel hset
    -- the popped node leaves the list and its charges enter a hand of their own
    rw [items_putHand, add_right_comm, hpop]
    rfl
  · next hh => exact .keep (keep_setHand hwf hh rfl)
  · exact .stay hwf

/-- One charge is refunded at a time. -/
theorem refundNext_move (h : Nat) : Moves w (w.refundNext h) := by
  unfold refundNext
  split
  · next account rest hh =>
    refine .refund ⟨⟨hwf.process, hwf.thread⟩, rfl, rfl, Eq.trans ?_ (add_zero _).symm⟩
    have hset := items_setHand hh (.refunding rest)
    have hsplit : Hand.items (.refunding (account :: rest))
        = {Item.charge account} + Hand.items (.refunding rest) := rfl
    rw [hsplit, ← add_assoc] at hset
    exact add_right_cancel hset
  · next hh => exact .keep (keep_setHand hwf hh rfl)
  · exact .stay hwf

/-- The record of a taken signal is used up. -/
theorem consume_move (h : Nat) : Moves w (w.consume h) := by
  unfold consume
  split
  · next source signal hh =>
    exact .spent signal ⟨⟨hwf.process, hwf.thread⟩, rfl, rfl, items_setHand hh _⟩
  · exact .stay hwf

/-! ## Sends -/

/-- Publication hands the record over, as assigned, and leaves what it did not use. -/
theorem keep_publish (hq : w.queue q = some pending)
    (hh : w.hands[h]? = some (.prepared signal))
    (hsame : assigned.items = signal.items) (flag : Option Bool) :
    Keep w ((w.storeQueue q (pending.publish assigned).2 flag).setHand h
      (leftover (pending.publish assigned).1.unused)) := by
  refine keep_exchange hwf hq ((hwf.queue hq).publish assigned) flag hh ?_
  have hitems := pending.publish_items assigned
  rw [hsame] at hitems
  cases hu : (pending.publish assigned).1.unused with
  | none | some =>
    rw [hu] at hitems
    exact hitems

/-- Checks before a send move nothing. -/
theorem processPreflight_move (p : Nat) (signo : Signo) : Moves w (w.processPreflight p signo) := by
  unfold processPreflight
  split
  · exact .stay hwf
  next m _ =>
  split
  · exact .stay hwf
  have heff := keep_effect hwf p m signo
  dsimp only
  split
  · exact .keep heff
  split
  · split
    · exact .keep (heff.putHand rfl)
    · exact .keep heff
  · exact .keep heff

/-- A send to a process publishes its record. -/
theorem processCommit_move (p h : Nat) : Moves w (w.processCommit p h) := by
  unfold processCommit
  split
  · next m signal _ hh =>
    split
    · exact .stay hwf
    have heff := keep_effect hwf p m signal.signo
    have hh' := hands_effect hwf p m signal.signo hh
    dsimp only
    split
    · exact .keep heff
    split
    · exact .keep heff
    next pending hq =>
    split
    · have hpub := keep_publish heff.wf hq hh' rfl none
      exact .keep ((heff.trans hpub).putHand rfl)
    · exact .keep (heff.putHand rfl)
  · exact .stay hwf

/-- The same through a send token, which is given up. -/
theorem publishProcessSend_move (send h : Nat) : Moves w (w.publishProcessSend send h) := by
  unfold publishProcessSend
  split
  · next p endpoints signal hsend hh =>
    split
    · exact .stay hwf
    next m _ =>
    have htok : Keep w (w.setHand send .empty) := keep_setHand hwf hsend rfl
    have hh' := getElem?_setHand_ne hsend hh (by intro heq; cases heq) .empty
    dsimp only
    split
    · exact .keep htok
    have heff := keep_effect htok.wf p m signal.signo
    have hh'' := hands_effect htok.wf p m signal.signo hh'
    split
    · exact .keep (htok.trans heff)
    split
    · exact .keep (htok.trans heff)
    next pending hq =>
    have hpub := keep_publish heff.wf hq hh'' rfl none
    exact .keep (((htok.trans heff).trans hpub).putHand rfl)
  · exact .stay hwf

theorem threadPreflight_move (t : Nat) (mode : EndpointSendMode)
    (signo : Signo) : Moves w (w.threadPreflight t mode signo) := by
  unfold threadPreflight
  split
  · exact .stay hwf
  next thread _ =>
  split
  · exact .stay hwf
  next m _ =>
  split
  · exact .stay hwf
  have heff := keep_effect hwf thread.proc m signo
  dsimp only
  split
  · exact .keep heff
  split
  · exact .keep heff
  next pending hq =>
  split
  · exact .keep (heff.trans (keep_store heff.wf hq (heff.wf.queue hq) _ rfl))
  · exact .keep heff

/-- A record with a generation, in the queue of a thread. -/
theorem keep_publishThread (t : Nat) (hh : w.hands[h]? = some (.prepared signal)) (coalesced : Bool) :
    Keep w (w.publishThread t h signal coalesced).2 := by
  unfold publishThread
  split
  · exact .refl hwf
  next thread ht =>
  -- what assigning a generation leaves alone
  have hassigned : ∀ assigned, assigned = (if coalesced then (some (none, signal), thread)
      else thread.assignGeneration signal) → assigned.2.pending = thread.pending ∧
        ∀ generation signal', assigned.1 = some (generation, signal') →
          signal'.items = signal.items := by
    intro assigned heq
    rw [heq]
    split
    · refine ⟨rfl, ?_⟩
      intro generation signal' hs
      obtain rfl := congrArg snd (Option.some.inj hs)
      rfl
    · exact ⟨assignGeneration_pending .., fun _ _ hs => assignGeneration_items hs⟩
  split
  · next thread' heq =>
    exact keep_setThread hwf ht (hassigned _ heq.symm).1
  next generation signal' thread' heq =>
  obtain ⟨hpend, hitems⟩ := hassigned _ heq.symm
  have hset : Keep w (w.setThread t thread') := keep_setThread hwf ht hpend
  have hq : (w.setThread t thread').queue (.thread t) = some thread'.pending := by
    show (w.threads.set t thread')[t]?.map _ = _
    rw [Lib.getElem?_set_of_some ht]
    rfl
  exact hset.trans (keep_publish hset.wf hq hh (hitems _ _ rfl) none)

/-- A send to a thread. -/
theorem threadCommit_move (t : Nat) (mode : EndpointSendMode) (h : Nat) :
    Moves w (w.threadCommit t mode h) := by
  unfold threadCommit
  split
  · next thread signal _ hh =>
    split
    · exact .stay hwf
    next m _ =>
    split
    · exact .stay hwf
    have heff := keep_effect hwf thread.proc m signal.signo
    have hh' := hands_effect hwf thread.proc m signal.signo hh
    dsimp only
    split
    · exact .keep heff
    split
    · exact .keep (heff.putHand rfl)
    have hpub := keep_publishThread heff.wf t hh' false
    split
    · next heq =>
      rw [heq] at hpub
      exact .keep (heff.trans hpub)
    · next heq =>
      rw [heq] at hpub
      exact .keep ((heff.trans hpub).putHand rfl)
  · exact .stay hwf

/-- The same through a send token. -/
theorem publishThreadSend_move (send h : Nat) : Moves w (w.publishThreadSend send h) := by
  unfold publishThreadSend
  split
  · next t r signal hsend hh =>
    split
    · exact .stay hwf
    next thread _ =>
    split
    · exact .stay hwf
    next m _ =>
    have htok : Keep w (w.setHand send .empty) := keep_setHand hwf hsend rfl
    have hh' := getElem?_setHand_ne hsend hh (by intro heq; cases heq) .empty
    dsimp only
    split
    · exact .keep htok
    have heff := keep_effect htok.wf thread.proc m signal.signo
    have hh'' := hands_effect htok.wf thread.proc m signal.signo hh'
    split
    · exact .keep (htok.trans heff)
    have hpub := keep_publishThread heff.wf t hh''
    split
    · next w' heq =>
      have hw' : _ = w' := congrArg snd heq
      rw [← hw']
      exact .keep ((htok.trans heff).trans (hpub _))
    · next w' heq =>
      have hw' : _ = w' := congrArg snd heq
      rw [← hw']
      exact .keep (((htok.trans heff).trans (hpub _)).putHand rfl)
  · exact .stay hwf

/-! ## Selection and putting back -/

/-- A selection never panics on a well-formed queue: it finds nothing, or takes one
signal out. -/
theorem dequeueOwned_cases (q : QueueId) (mask : SignalSet) :
    w.dequeueOwned q mask = (none, w) ∨
      (∃ w', w.dequeueOwned q mask = (some (.ok none), w') ∧ Keep w w' ∧ w'.hands = w.hands) ∨
      ∃ signal pending new flag, w.queue q = some pending ∧ new.WF ∧
        new.items + signal.items = pending.items ∧
        w.dequeueOwned q mask = (some (.ok (some signal)), w.storeQueue q new flag) := by
  unfold dequeueOwned
  split
  · exact .inl rfl
  next pending hq =>
  right
  rcases (hwf.queue hq).dequeueSignal_cases mask with
    ⟨heq, -⟩ | ⟨signal, new, heq, -, -, hnew, hitems⟩
  · rw [heq]
    exact .inl ⟨_, rfl, keep_store hwf hq (hwf.queue hq) _ rfl, hands_storeQueue ..⟩
  · rw [heq]
    exact .inr ⟨signal, pending, new, _, hq, hnew, hitems, rfl⟩

/-- A signal is taken out of one queue. -/
theorem take_move (q : QueueId) (mask : SignalSet) : Moves w (w.take q mask) := by
  unfold take
  rcases dequeueOwned_cases hwf q mask with
    heq | ⟨w', heq, hkeep, -⟩ | ⟨signal, pending, new, flag, hq, hnew, hitems, heq⟩
  · rw [heq]
    exact .stay hwf
  · rw [heq]
    exact .keep hkeep
  · rw [heq]
    exact .keep (keep_give hwf hq hnew flag hitems)

/-- A signal is taken out of the queue of a thread or of its process. -/
theorem takeSignalfd_move (t : Nat) (mask : SignalSet) : Moves w (w.takeSignalfd t mask) := by
  unfold takeSignalfd
  split
  · exact .stay hwf
  next thread _ =>
  dsimp only
  split
  · next evs w' heq =>
    -- nothing in the thread's queue: the first selection moved no record
    have hkeep : Keep w w' := by
      have hmove := take_move hwf (.thread t) (mask &&& thread.blocked)
      unfold take at heq hmove
      rcases dequeueOwned_cases hwf (.thread t) (mask &&& thread.blocked) with
        h | ⟨w'', h, hkeep, -⟩ | ⟨signal, pending, new, flag, hq, hnew, hitems, h⟩
      · rw [h] at heq
        cases congrArg (fun r => r.1.reply) heq
      · rw [h] at heq
        obtain rfl : w'' = w' := congrArg snd heq
        exact hkeep
      · rw [h] at heq
        cases congrArg (fun r => r.1.reply) heq
    have hsecond := take_move hkeep.wf (.process thread.proc) (mask &&& thread.blocked)
    exact hkeep.move hsecond
  · exact take_move hwf (.thread t) (mask &&& thread.blocked)

/-- A signal goes back into its queue, or stays in the hand. -/
theorem keep_requeue (q : QueueId) {signal : DequeuedSignal} (hh : w.hands[h]? = some hand)
    (hitems : hand.items = signal.items) :
    Keep w ((w.requeue q signal).2.setHand h (w.requeue q signal).1) := by
  have href : (refusedHand signal).items = hand.items := by
    rw [hitems]
    cases signal <;> rfl
  have hback : ∀ pending : PendingSignals, w.queue q = some pending →
      Keep w ((w.storeQueue q (pending.requeueFront signal) (some true)).setHand h .empty) := by
    intro pending hq
    obtain ⟨hnew, hsame⟩ := (hwf.queue hq).requeueFront signal
    refine keep_exchange hwf hq hnew _ hh ?_
    rw [hsame, hitems]
    exact add_zero _
  unfold requeue
  split
  · next p pending hq =>
    split
    · exact keep_setHand hwf hh href
    · exact hback pending hq
  · next t pending hq => exact hback pending hq
  · exact keep_setHand hwf hh href

/-! ## Endpoints and dispositions -/

theorem flushSignal_move (q : QueueId) (signo : Signo) : Moves w (w.flushSignal q signo) :=
  .keep (detachSignalInto_shift (w, []) hwf q signo).keep

/-- A replaced disposition that ignores the signal flushes it. -/
theorem replaceAction_move (p : Nat) (signo : Signo) (action : SignalAction) (snapshotted : Bool) :
    Moves w (w.replaceAction p signo action snapshotted) := by
  unfold replaceAction
  split
  · exact .stay hwf
  next m _ =>
  split
  · exact .stay hwf
  split
  · exact .stay hwf
  split
  · exact .stay hwf
  split
  · exact .stay hwf
  next old actions _ =>
  have howners := keep_owners hwf (w.owners.set m.actions actions)
  split
  · have hown := detachSignalInto_shift
      ({ w with owners := w.owners.set m.actions actions }, []) howners.wf
      (.process p) signo
    have hall := hown.trans (detachChildren_shift m.children [signo] _ hown.wf)
    exact .keep (howners.trans hall.keep)
  · exact .keep howners

theorem commitExecUnshare_move (h : Nat) : Moves w (w.commitExecUnshare h) := by
  unfold commitExecUnshare
  split
  · next p replacement hh =>
    split
    · exact .stay hwf
    next m hm =>
    split
    · exact .stay hwf
    next actions _ =>
    have howners := keep_owners hwf (w.owners.set replacement actions.execSnapshot)
    refine .keep ((howners.setProcess hm ?_).setHand hh ?_) <;> rfl
  · exact .stay hwf

theorem newProcess_move (owner threadLimit : Nat) : Moves w (w.newProcess owner threadLimit) := by
  unfold newProcess
  split
  · exact .stay hwf
  refine .keep ⟨⟨?_, hwf.thread⟩, rfl, rfl, ?_⟩
  · exact Lib.forall_mem_concat hwf.process PendingSignals.wf_default
  · show tally _ (w.processes ++ [_]) + tally _ w.threads + w.handItems = _
    rw [Lib.tally_append, Lib.tally_cons, Lib.tally_nil, PendingSignals.items_default, add_zero, add_zero]
    rfl

theorem newThread_move (p : Nat) (allocated : Bool) : Moves w (w.newThread p allocated) := by
  unfold newThread
  split
  · exact .stay hwf
  split
  · refine .keep ⟨⟨hwf.process, ?_⟩, rfl, rfl, ?_⟩
    · exact Lib.forall_mem_concat hwf.thread PendingSignals.wf_default
    · have hnew : (ThreadSignalManager.new p).pending.items = 0 := PendingSignals.items_default
      show tally _ w.processes + tally _ (w.threads ++ [_]) + w.handItems = _
      rw [Lib.tally_append, Lib.tally_cons, Lib.tally_nil, hnew, add_zero, add_zero]
      rfl
  · exact .stay hwf

/-- A pending registration, with its token. -/
theorem tryRegister_move (t tid : Nat) (allocated : Bool) :
    Moves w (w.tryRegister t tid allocated) := by
  unfold tryRegister
  split
  · exact .stay hwf
  next thread ht =>
  split
  · exact .stay hwf
  next m hm =>
  split
  · exact .stay hwf
  dsimp only
  split
  · exact .stay hwf
  split
  · exact .stay hwf
  split
  · exact .stay hwf
  have hentry : Keep w { w with registrations := w.registrations ++
      [{ tid, thread := t, state := .pending }] } :=
    ⟨⟨hwf.process, hwf.thread⟩, rfl, rfl, rfl⟩
  refine .keep (((hentry.setThread ht ?_).setProcess hm ?_).putHand ?_) <;> rfl

theorem commitAdmission_move (h : Nat) : Moves w (w.commitAdmission h) := by
  unfold commitAdmission
  split
  · next t r hh =>
    split
    · exact .stay hwf
    next thread ht =>
    split
    · have hthread : Keep w (w.setThread t { thread with lifecycle := .active }) :=
        keep_setThread hwf ht rfl
      exact .keep ((hthread.trans (keep_setRegistration hthread.wf r .active)).setHand hh rfl)
    · exact .stay hwf
  · exact .stay hwf

theorem dropAdmission_move (h : Nat) : Moves w (w.dropAdmission h) := by
  unfold dropAdmission
  split
  · next t r hh =>
    split
    · exact .stay hwf
    next thread ht =>
    have htok : Keep w ((w.setRegistration r .cancelled).setHand h .empty) :=
      (keep_setRegistration hwf r .cancelled).setHand hh rfl
    split
    · refine .keep ((htok.setThread ht ?_).takeQueue _)
      rfl
    · exact .keep htok
  · exact .stay hwf

/-- Retiring an endpoint takes its queue, unless it is retained. -/
theorem retireRegistration_move (t tid : Nat) (retain : Bool) :
    Moves w (w.retireRegistration t tid retain) := by
  unfold retireRegistration
  split
  · exact .stay hwf
  next thread ht =>
  dsimp only
  split
  · exact .stay hwf
  next r _ =>
  split
  · exact .stay hwf
  split
  · split
    · exact .keep ((keep_setRegistration hwf r .retained).setThread ht rfl)
    · exact .stay hwf
  · refine .keep (((keep_setRegistration hwf r .cancelled).setThread ht ?_).takeQueue _)
    rfl

/-! ## The delivery check -/

/-- The selection of a check. -/
theorem checkTake_move
    (hh : w.hands[h]? = some hand) (hnone : hand.items = 0) (hnone' : otherwise.items = 0)
    (htaken : ∀ signal, (taken signal).items = signal.items) :
    Moves w (w.checkTake h mask q otherwise taken) := by
  unfold checkTake
  rcases dequeueOwned_cases hwf q mask with
    heq | ⟨w', heq, hkeep, hhands⟩ | ⟨signal, pending, new, flag, hq, hnew, hitems, heq⟩
  · rw [heq]
    exact .stay hwf
  · rw [heq]
    refine .keep (hkeep.setHand (hhands ▸ hh) ?_)
    rw [hnone, hnone']
  · rw [heq]
    refine .keep (keep_exchange hwf hq hnew flag hh ?_)
    rw [hnone, add_zero, htaken]
    exact hitems

theorem checkSelect_move (h : Nat) : Moves w (w.checkSelect h) := by
  unfold checkSelect
  split
  · next hh => exact checkTake_move hwf hh rfl rfl fun _ => rfl
  · next hh =>
    split
    · exact .stay hwf
    · exact checkTake_move hwf hh rfl rfl fun _ => rfl
  · exact .stay hwf

theorem checkPriority_move (h : Nat) : Moves w (w.checkPriority h) := by
  unfold checkPriority
  split
  · next hh =>
    rw [checkPriorityQueue_eq]
    exact checkTake_move hwf hh rfl rfl fun _ => by split <;> rfl
  · next hh =>
    split
    · exact .stay hwf
    · rw [checkPriorityQueue_eq]
      exact checkTake_move hwf hh rfl rfl fun _ => by split <;> rfl
  · exact .stay hwf

theorem checkPutBack_move (h : Nat) : Moves w (w.checkPutBack h) := by
  unfold checkPutBack
  split
  · next t mask source signal hh =>
    have hh' : (w.requeue source signal).2.hands[h]? = some (.check t (.stale mask source signal)) := by
      rw [hands_requeue]
      exact hh
    exact .keep ((keep_requeue hwf source hh rfl).split_hand hh' rfl)
  · exact .stay hwf

/-- The claiming section uses up the record, or keeps it for a way back. -/
theorem checkClaim_move (h : Nat) (keep : Bool) : Moves w (w.checkClaim h keep) := by
  unfold checkClaim
  split
  · next t mask source signal hh =>
    split
    · exact .stay hwf
    next m _ =>
    split
    · exact .stay hwf
    next actions _ =>
    have howners := keep_owners hwf (w.owners.set m.actions (actions.claimDelivery signal.signo).2)
    dsimp only
    split
    · exact .keep (howners.setHand hh rfl)
    refine howners.move (.spent signal ⟨⟨hwf.process, hwf.thread⟩, rfl, rfl, ?_⟩)
    rw [items_putHand, add_right_comm]
    refine congrArg (· + (spentHand signal).items) ?_
    exact (items_setHand (w := { w with owners := _ }) hh _).trans (add_zero _)
  · exact .stay hwf

theorem checkHandle_move (h : Nat) (answer : SignalDeliveryPreflight) (hook framed : Bool) :
    Moves w (w.checkHandle h answer hook framed) := by
  unfold checkHandle
  split
  · next t mask source info signal action claim hh =>
    split
    · exact .stay hwf
    next thread ht =>
    split
    · exact .keep (keep_setHand hwf hh rfl)
    split
    · exact .keep (keep_setHand hwf hh rfl)
    have hset : Keep w (w.setThread t (thread.handleSignal info.signo action framed).2) :=
      keep_setThread hwf ht (handleSignal_pending ..)
    exact .keep (hset.setHand hh rfl)
  · exact .stay hwf

theorem checkFinish_move (h : Nat) : Moves w (w.checkFinish h) := by
  unfold checkFinish
  split
  · next t mask source signal claim result hh =>
    have hset : Keep w (w.setHand h (.check t (.finished mask source signal result))) :=
      keep_setHand hwf hh rfl
    dsimp only
    split
    · exact .keep hset
    split
    · exact .keep hset
    · exact .keep (hset.trans (keep_owners hset.wf _))
  · exact .stay hwf

/-- A record that was kept goes back or is used up. -/
theorem checkDispose_move (h : Nat) : Moves w (w.checkDispose h) := by
  unfold checkDispose
  split
  · next t mask source signal result hh =>
    have hagain : Hand.items (if result = .action none then .check t (.threadQueue mask) else .empty)
        = 0 := by split <;> rfl
    dsimp only
    split
    · exact .keep (keep_setHand hwf hh hagain)
    next signal =>
    split
    · exact .keep (keep_requeue hwf source hh rfl)
    refine .spent signal ⟨⟨hwf.process, hwf.thread⟩, rfl, rfl, ?_⟩
    rw [items_putHand, add_right_comm]
    refine congrArg (· + (spentHand signal).items) ?_
    have hset := items_setHand hh (if result = .action none then .check t (.threadQueue mask)
      else .empty)
    rw [hagain, add_zero] at hset
    exact hset
  · exact .stay hwf

/-! ## All of them -/

/-- Every call is a move. -/
theorem QueuesWF.call_move (c : SignalCall) :
    Move w (signalEvents c (w.call c).1) (w.call c).2 := by
  cases c with
  | newAccount allocated hardLimit => exact newAccount_move hwf allocated hardLimit
  | beginAccounted info perUser rlimit global =>
    exact beginAccounted_move hwf info perUser rlimit global
  | chargeGlobal h => exact chargeGlobal_move hwf h
  | allocateNode h allocated => exact allocateNode_move hwf h allocated
  | unqueued info =>
    exact .keep (keep_putHand hwf (PreparedSignal.items_unqueued info))
  | dropPrepared h => exact dropPrepared_move hwf h
  | dropDetached h => exact dropDetached_move hwf h
  | refundNext h => exact refundNext_move hwf h
  | consume h => exact consume_move hwf h
  | processPreflight p signo => exact processPreflight_move hwf p signo
  | processCommit p h => exact processCommit_move hwf p h
  | publishProcessSend send h => exact publishProcessSend_move hwf send h
  | threadPreflight t mode signo => exact threadPreflight_move hwf t mode signo
  | threadCommit t mode h => exact threadCommit_move hwf t mode h
  | publishThreadSend send h => exact publishThreadSend_move hwf send h
  | take q mask => exact take_move hwf q mask
  | takeSignalfd t mask => exact takeSignalfd_move hwf t mask
  | flushPending q => exact .keep (keep_takeQueue hwf q)
  | flushSignal q signo => exact flushSignal_move hwf q signo
  | replaceAction p signo action snapshotted =>
    exact replaceAction_move hwf p signo action snapshotted
  | commitExecUnshare h => exact commitExecUnshare_move hwf h
  | newProcess owner threadLimit => exact newProcess_move hwf owner threadLimit
  | newThread p allocated => exact newThread_move hwf p allocated
  | tryRegister t tid allocated => exact tryRegister_move hwf t tid allocated
  | commitAdmission h => exact commitAdmission_move hwf h
  | dropAdmission h => exact dropAdmission_move hwf h
  | retireRegistration t tid retain => exact retireRegistration_move hwf t tid retain
  | dropProcess p => exact .keep (keep_takeQueue hwf (.process p))
  | checkSelect h => exact checkSelect_move hwf h
  | checkPriority h => exact checkPriority_move hwf h
  | checkPutBack h => exact checkPutBack_move hwf h
  | checkClaim h keep => exact checkClaim_move hwf h keep
  | checkHandle h answer hook framed => exact checkHandle_move hwf h answer hook framed
  | checkFinish h => exact checkFinish_move hwf h
  | checkDispose h => exact checkDispose_move hwf h
  | _ =>
    -- the others pass no record on and make none
    simp only [call, replaceInfo, raiseFlag, prepareProcessSend, prepareThreadSend,
      retainPendingOnly, retirePending, newOwner, snapshotOwner, prepareExecUnshare,
      cancelRegistration, dropThread, setBlocked, setRealBlocked, restore, handleSignal, checkOpen,
      checkMask, checkBypass]
    (repeat' split) <;> try dsimp only
    all_goals first
      | exact .stay hwf
      | exact .keep (keep_putHand hwf rfl)
      | (refine .keep (keep_setHand hwf (by assumption) ?_); rfl)
      | (refine .keep (keep_setHand hwf (by assumption) ?_); exact PreparedSignal.items_replaceInfo ..)
      | (refine .keep (keep_exchange hwf (by assumption) (hwf.queue (by assumption)) _
           (by assumption) ?_); rfl)
      | (refine .keep (keep_setProcess hwf (by assumption) ?_); rfl)
      | (refine .keep ((keep_setProcess hwf (by assumption) ?_).takeQueue _); rfl)
      | exact .keep (keep_owners hwf _)
      | exact .keep ((keep_owners hwf _).putHand rfl)
      | (refine .keep (keep_setThread hwf (by assumption) ?_); rfl)
      | (refine .keep (keep_setThread hwf (by assumption) ?_); exact handleSignal_pending ..)
      | (refine .keep (((keep_deactivate hwf _).setThread
           (by rwa [threads_deactivate]) ?_).takeQueue _); rfl)

end

end World

end LinuxAbi.Signal
