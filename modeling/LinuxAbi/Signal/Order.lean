import LinuxAbi.Signal.Turns

/-!
# Real-time signals and the order of publication

A delivery check that answers Retry or Fault, and one whose record does not satisfy the
bypass, put their record back at the front of the queue it came from. With one record
of a number in flight the front is its place. Two checks of one process can hold two
records of one number of the process queue at the same time, and then the order in
which they put them back decides.

`InOrder` compares every real-time queue with the publications into it. It is kept as
long as no record goes back while another check holds a record of the same number from
the same queue (`putsBackAlone`): then each record in flight still precedes everything
in its queue.
-/

namespace LinuxAbi.Signal

open Function
open List
open Lib (run events Respects)

/-- The real-time record that a check holds and may put back, with its queue. -/
def CheckPhase.held : CheckPhase → Option (QueueId × RealtimeSignalNode)
  | .stale _ source (.realtime node) => some (source, node)
  | .selected _ source (.realtime node) => some (source, node)
  | .claimed _ source _ (some (.realtime node)) _ _ => some (source, node)
  | .handled _ source (some (.realtime node)) _ _ => some (source, node)
  | .finished _ source (some (.realtime node)) _ => some (source, node)
  | _ => none

/-- The same of any hand. -/
def Hand.held : Hand → Option (QueueId × RealtimeSignalNode)
  | .check _ phase => phase.held
  | _ => none

/-- A real-time record was appended to a queue. -/
structure Publication where
  queue : QueueId
  index : Fin 33
  id : Nat

/-- The records published into one queue under one number, in order. -/
def publishedIn (past : List Publication) (q : QueueId) (i : Fin 33) : List Nat :=
  past.filterMap fun event => if event.queue = q ∧ event.index = i then some event.id else none

theorem publishedIn_append (past past' : List Publication) (q : QueueId) (i : Fin 33) :
    publishedIn (past ++ past') q i = publishedIn past q i ++ publishedIn past' q i :=
  filterMap_append

namespace World

/-- The record in flight in a hand. -/
def heldAt (w : World) (h : Nat) : Option (QueueId × RealtimeSignalNode) := w.seen Hand.held h

/-- The queue a send publishes into and the hand with its record. -/
def sendTarget (w : World) : SignalCall → Option (QueueId × Nat)
  | .processCommit p h => some (.process p, h)
  | .threadCommit t _ h => some (.thread t, h)
  | .publishProcessSend send h =>
    match w.hands[send]? with
    | some (.processSend p _) => some (.process p, h)
    | _ => none
  | .publishThreadSend send h =>
    match w.hands[send]? with
    | some (.threadSend t _) => some (.thread t, h)
    | _ => none
  | _ => none

/-- The real-time publications of one call. -/
def publications (w : World) (c : SignalCall) : List Publication :=
  match w.sendTarget c with
  | none => []
  | some (q, h) =>
    match w.hands[h]? with
    | some (.prepared { kind := .realtime node, generation := _ }) =>
      if (w.call c).1.reply.published then [{ queue := q, index := node.index, id := node.id }]
      else []
    | _ => []

/-- A call with its publications noted down. -/
def observe (w : World) (c : SignalCall) : List Publication × World :=
  (w.publications c, (w.call c).2)

/-- The publications along a run. -/
def published (w : World) (calls : List SignalCall) : List Publication :=
  events observe (fun _ noted => noted) w calls

/-- The records of one number in a queue, from its head. -/
def queuedIds (w : World) (q : QueueId) (i : Fin 33) : List Nat :=
  ((w.queue q).map fun pending => (pending.realtime i).map RealtimeSignalNode.id).getD []

/-- Every real-time queue is in the order of its publications. -/
def InOrder (past : List Publication) (w : World) : Prop :=
  ∀ q i, (w.queuedIds q i).Sublist (publishedIn past q i)

/-- The hand whose record the call puts back, with that record. -/
def putsBack (w : World) : SignalCall → Option (Nat × QueueId × RealtimeSignalNode)
  | .checkPutBack h =>
    match w.hands[h]? with
    | some (.check _ (.stale mask source signal)) =>
      (CheckPhase.stale mask source signal).held.map fun held => (h, held)
    | _ => none
  | .checkDispose h =>
    match w.hands[h]? with
    | some (.check _ (.finished mask source signal result)) =>
      if result = .preflight .retry ∨ result = .preflight .fault then
        (CheckPhase.finished mask source signal result).held.map fun held => (h, held)
      else none
    | _ => none
  | _ => none

/-- No other check holds a record of the same number from the same queue. -/
def putsBackAlone (w : World) (c : SignalCall) : Bool :=
  match w.putsBack c with
  | none => true
  | some (h, q, node) => (List.range w.hands.length).all fun other =>
      other == h || !((w.heldAt other).any fun held => held.1 == q && held.2.index == node.index)

variable {w w' : World} {past : List Publication}

/-! ## Hands -/

theorem heldAt_setHand (hh : w.hands[h]? = some hand) (i : Nat) :
    (w.setHand h new).heldAt i = if i = h then new.held else w.heldAt i :=
  seen_setHand hh i

theorem heldAt_of_hands (h : w'.hands = w.hands) (i : Nat) : w'.heldAt i = w.heldAt i := by
  unfold heldAt seen
  rw [h]

theorem held_part (hand : Hand) (held : QueueId × RealtimeSignalNode) (h : hand.held = some held) :
    hand.part = some .checks := by
  cases hand <;> first | rfl | cases h

theorem Frame.heldAt (hf : Frame parts w w') (hpart : .checks ∉ parts) (h : Nat) :
    w'.heldAt h = w.heldAt h :=
  hf.seen hpart held_part h

/-! ## Queues -/

theorem Calm.queuedIds (h : Calm w w') (q : QueueId) (i : Fin 33) :
    (w'.queuedIds q i).Sublist (w.queuedIds q i) := by
  unfold World.queuedIds
  cases hq : w'.queue q with
  | none => exact nil_sublist _
  | some new =>
    rcases h.within q new hq with hnone | ⟨old, hold, hin⟩
    · -- nothing is left in the queue
      have hemp : new.realtime i = [] := sublist_nil.mp (hnone.realtime i)
      simp [hemp]
    · rw [hold]
      exact (hin.realtime i).map _

theorem queuedIds_eq (hq : w.queue q = some pending)
    (i : Fin 33) : w.queuedIds q i = (pending.realtime i).map RealtimeSignalNode.id := by
  unfold queuedIds
  rw [hq]
  rfl

theorem queuedIds_of_rows (hp : w'.processes = w.processes) (ht : w'.threads = w.threads)
    (q : QueueId) (i : Fin 33) : w'.queuedIds q i = w.queuedIds q i := by
  unfold queuedIds
  cases q with
  | process p => simp only [queue, hp]
  | thread t => simp only [queue, ht]

theorem queuedIds_storeQueue (hq : w.queue q = some old)
    (new : PendingSignals) (f : Option Bool) (q' : QueueId) (i : Fin 33) :
    (w.storeQueue q new f).queuedIds q' i
      = if q' = q then (new.realtime i).map RealtimeSignalNode.id else w.queuedIds q' i := by
  unfold queuedIds
  rw [queue_storeQueue]
  split
  · rw [hq]
    rfl
  · rfl

end World

/-- A selected real-time record was the head of a queue of its number. -/
theorem PendingSignals.dequeueSignal_realtime {q : PendingSignals}
    (h : (q.dequeueSignal mask).1 = .ok (some (.realtime node))) :
    ∃ i rest, q.realtime i = node :: rest ∧
      (q.dequeueSignal mask).2.realtime = update q.realtime i rest := by
  unfold dequeueSignal at h ⊢
  split at h
  · cases h
  next signo set hdeq =>
  dsimp only at h ⊢
  split at h
  · next index =>
    split at h
    · next head rest hhead =>
      cases h
      refine ⟨index, rest, hhead, ?_⟩
      split <;> rfl
    · cases h
  · split at h <;> cases h

namespace World

variable {w w' : World} {past : List Publication}

/-! ## The invariant -/

/-- The queues are in order, and a record in flight precedes what is left of its
queue. -/
structure Ordered (past : List Publication) (w : World) : Prop where
  queued : InOrder past w
  held : ∀ h q node, w.heldAt h = some (q, node) →
    (node.id :: w.queuedIds q node.index).Sublist (publishedIn past q node.index)

theorem ordered_empty : Ordered [] World.empty where
  queued := by
    intro q i
    cases q <;> exact List.Sublist.slnil
  held := by
    intro h q node hheld
    cases hheld

/-- Queues that only lose and checks that pick up nothing. -/
theorem Ordered.calm (ho : Ordered past w) (hcalm : Calm w w')
    (hheld : ∀ h held, w'.heldAt h = some held → w.heldAt h = some held) : Ordered past w' where
  queued := by
    intro q i
    exact (hcalm.queuedIds q i).trans (ho.queued q i)
  held := by
    intro h q node hh
    have hold := ho.held h q node (hheld h _ hh)
    exact ((hcalm.queuedIds q node.index).cons_cons node.id).trans hold

theorem Ordered.frame (ho : Ordered past w) (hframe : Frame parts w w')
    (hqueues : .queues ∉ parts) (hchecks : .checks ∉ parts) : Ordered past w' := by
  refine ho.calm (hframe.calm hqueues) ?_
  intro h held hh
  rwa [hframe.heldAt hchecks] at hh

/-- A hand gives up what it held, if anything. -/
theorem Ordered.dropped (ho : Ordered past w) (h : Nat) (hnew : new.held = none) :
    Ordered past (w.setHand h new) := by
  refine ho.calm (calm_of_rows rfl rfl) ?_
  intro i held hheld
  cases hh : w.hands[h]? with
  | none =>
    have hlen : w.hands.length ≤ h := getElem?_eq_none_iff.mp hh
    have hsame : (w.setHand h new).hands = w.hands := set_eq_of_length_le hlen
    rwa [heldAt_of_hands hsame] at hheld
  | some hand =>
    rw [heldAt_setHand hh] at hheld
    split at hheld
    · rw [hnew] at hheld
      cases hheld
    · exact hheld

theorem held_spentHand (signal : DequeuedSignal) : (spentHand signal).held = none := by
  cases signal <;> rfl

theorem held_requeue (w : World) (q : QueueId) (signal : DequeuedSignal) :
    (w.requeue q signal).1.held = none := by
  rcases w.requeue_cases q signal with heq | ⟨old, -, heq⟩
  · rw [heq]
    cases signal <;> rfl
  · rw [heq]
    rfl

/-- The event of publishing a record. -/
def publicationOf (q : QueueId) (signal : PreparedSignal) (added : Bool) : List Publication :=
  match signal.kind with
  | .realtime node => if added then [{ queue := q, index := node.index, id := node.id }] else []
  | _ => []

/-- Publication appends to the queue what it appends to the past. -/
theorem publish_ids (old : PendingSignals) (q : QueueId) (signal : PreparedSignal) (i : Fin 33) :
    ((old.publish signal).2.realtime i).map RealtimeSignalNode.id
      = (old.realtime i).map RealtimeSignalNode.id
        ++ publishedIn (publicationOf q signal (old.publish signal).1.added) q i := by
  obtain ⟨kind, generation⟩ := signal
  cases kind with
  | standard signal =>
    have hsame : (old.publish ⟨.standard signal, generation⟩).2.realtime = old.realtime := by
      unfold PendingSignals.publish
      dsimp only
      split <;> rfl
    rw [hsame]
    exact (append_nil _).symm
  | realtimeFallback info realtime => exact (append_nil _).symm
  | realtime node =>
    show (update old.realtime node.index _ i).map _ = _ ++ publishedIn [_] q i
    by_cases heq : node.index = i
    · subst heq
      simp [publishedIn, RealtimeSignalNode.index]
    · rw [update_of_ne (Ne.symm heq)]
      simp [publishedIn, heq]

variable {q : QueueId} {h t : Nat} {mask : SignalSet} {hand : Hand} {c : SignalCall}

/-- A publication into one queue says nothing about another. -/
theorem publishedIn_other (h : q' ≠ q) (signal : PreparedSignal) (added : Bool)
    (i : Fin 33) : publishedIn (publicationOf q signal added) q' i = [] := by
  unfold publicationOf
  split
  · split
    · simp [publishedIn, Ne.symm h]
    · rfl
  · rfl

/-- A publication: the record goes behind everything that was published before. -/
theorem Ordered.fed (ho : Ordered past w) (hh : w.hands[h]? = some (.prepared prepared))
    (hfed : Fed parts w q signal h added w') (hqueues : .queues ∉ parts)
    (hchecks : .checks ∉ .queues :: parts) : Ordered (past ++ publicationOf q signal added) w' := by
  have hheld := (hfed.frame hh).heldAt hchecks
  obtain ⟨mid, old, hframe, hq, rfl, rfl⟩ := hfed
  have hcalm := hframe.calm hqueues
  -- what the queue gains is what the past gains
  have hids : ∀ q' i, (((mid.storeQueue q (old.publish signal).2 none).setHand h
      (leftover (old.publish signal).1.unused)).putHand (.raise q)).queuedIds q' i
      = mid.queuedIds q' i
        ++ publishedIn (publicationOf q signal (old.publish signal).1.added) q' i := by
    intro q' i
    show (mid.storeQueue q (old.publish signal).2 none).queuedIds q' i = _
    rw [queuedIds_storeQueue hq]
    by_cases heq : q' = q
    · rw [if_pos heq, heq, queuedIds_eq hq, publish_ids]
    · rw [if_neg heq, publishedIn_other heq, append_nil]
  refine ⟨?_, ?_⟩
  · intro q' i
    rw [hids, publishedIn_append]
    exact ((hcalm.queuedIds q' i).trans (ho.queued q' i)).append (List.Sublist.refl _)
  · intro h' q' node hh'
    rw [hheld] at hh'
    rw [hids, publishedIn_append, ← cons_append]
    have hfront := ((hcalm.queuedIds q' node.index).cons_cons node.id).trans
      (ho.held h' q' node hh')
    exact hfront.append (List.Sublist.refl _)

/-! ## Selection -/

theorem dequeueOwned_eq (h : w.dequeueOwned q mask = (some result, mid)) :
    ∃ pending, w.queue q = some pending ∧ (pending.dequeueSignal mask).1 = result ∧
      mid = w.storeQueue q (pending.dequeueSignal mask).2
        (clearIfEmpty (pending.dequeueSignal mask).2) := by
  unfold dequeueOwned at h
  split at h
  · cases h
  next pending hq =>
  cases h
  exact ⟨pending, hq, rfl, rfl⟩

section

variable (ho : Ordered past w) (hwf : w.QueuesWF) (hh : w.hands[h]? = some hand)
include ho hwf hh

/-- A check picks up the head of a queue. -/
theorem Ordered.select {signal : DequeuedSignal}
    (hdeq : w.dequeueOwned q mask = (some (.ok (some signal)), mid))
    (hphase : ∀ held, phase.held = some held → ∃ node, signal = .realtime node ∧ held = (q, node))
    (hw' : w' = mid.setHand h (.check t phase)) : Ordered past w' := by
  have hframe : Frame [] w _ := w.frame_dequeueOwned q mask
  rw [hdeq] at hframe
  have hcalm := hframe.calm not_mem_nil
  obtain ⟨pending, hq, hsome, hmid⟩ := dequeueOwned_eq hdeq
  have hhands : mid.hands[h]? = some hand := by
    rw [hmid, hands_storeQueue]
    exact hh
  subst hw'
  refine ⟨?_, ?_⟩
  · intro q' i
    exact (hcalm.queuedIds q' i).trans (ho.queued q' i)
  · intro h' q' node hheld
    rw [heldAt_setHand hhands] at hheld
    split at hheld
    · -- the record just selected was the head of its queue
      obtain ⟨_, rfl, heq⟩ := hphase _ hheld
      cases heq
      obtain ⟨i, rest, hhead, hrest⟩ := PendingSignals.dequeueSignal_realtime hsome
      have hidx : node.index = i := (hwf.queue hq).sorted i node (hhead ▸ mem_cons_self ..)
      have hqueued := ho.queued q node.index
      rw [queuedIds_eq hq, hidx, hhead] at hqueued
      show (node.id :: mid.queuedIds q node.index).Sublist _
      rw [hmid, queuedIds_storeQueue hq, if_pos rfl, hrest, hidx, update_self]
      exact hqueued
    · -- the others only see their queue shrink
      rw [hframe.heldAt not_mem_nil] at hheld
      exact ((hcalm.queuedIds q' node.index).cons_cons node.id).trans (ho.held h' q' node hheld)

theorem Ordered.checkTake {taken : DequeuedSignal → CheckPhase} (hotherwise : otherwise.held = none)
    (htaken : ∀ signal, taken signal = .selected mask' q signal ∨
      taken signal = .stale mask' q signal) :
    Ordered past (w.checkTake h mask q otherwise fun signal => .check t (taken signal)).2 := by
  have hnext := ho.frame (w.frame_dequeueOwned q mask) not_mem_nil not_mem_nil
  unfold World.checkTake
  split
  · next heq =>
    rw [heq] at hnext
    exact hnext
  · next heq =>
    rw [heq] at hnext
    exact hnext.dropped h rfl
  · next heq =>
    rw [heq] at hnext
    exact hnext.dropped h hotherwise
  · next signal mid heq =>
    refine ho.select hwf hh heq ?_ rfl
    intro held hheld
    rcases htaken signal with hphase | hphase <;> rw [hphase] at hheld
    all_goals
      cases signal <;> cases hheld
      exact ⟨_, rfl, rfl⟩

end

/-! ## Putting back -/

/-- What a signal that is put back adds to the front of the queue of a number. -/
def frontIds (signal : DequeuedSignal) (i : Fin 33) : List Nat :=
  match signal with
  | .realtime node => if i = node.index then [node.id] else []
  | _ => []

theorem requeueFront_ids (old : PendingSignals) (signal : DequeuedSignal) (i : Fin 33) :
    ((old.requeueFront signal).realtime i).map RealtimeSignalNode.id
      = frontIds signal i ++ (old.realtime i).map RealtimeSignalNode.id := by
  cases signal with
  | standard signal => rfl
  | realtime node =>
    show (update old.realtime node.index _ i).map _ = _
    by_cases heq : i = node.index
    · subst heq
      simp [frontIds]
    · simp [frontIds, heq]
  | realtimeFallback index publishEpoch =>
    show (PendingSignals.realtime (if _ then _ else _) i).map _ = _
    split <;> rfl

/-- A record that is put back is the first of its queue again, and no other record in
flight belongs before or behind it. -/
theorem Ordered.putBack (ho : Ordered past w)
    (hheld : ∀ node, signal = .realtime node → w.heldAt h = some (q, node))
    (halone : ∀ node, signal = .realtime node → ∀ h' node', h' ≠ h →
      w.heldAt h' = some (q, node') → node'.index ≠ node.index)
    (hp : w'.processes = (w.requeue q signal).2.processes)
    (ht : w'.threads = (w.requeue q signal).2.threads)
    (hrest : ∀ h' held, w'.heldAt h' = some held → h' ≠ h ∧ w.heldAt h' = some held) :
    Ordered past w' := by
  rcases w.requeue_cases q signal with heq | ⟨old, hq, heq⟩
  · rw [heq] at hp ht
    exact ho.calm (calm_of_rows hp ht) fun h' held hh' => (hrest h' held hh').2
  rw [heq] at hp ht
  have hids : ∀ q' i, w'.queuedIds q' i
      = if q' = q then frontIds signal i ++ w.queuedIds q i else w.queuedIds q' i := by
    intro q' i
    rw [queuedIds_of_rows hp ht, queuedIds_storeQueue hq, requeueFront_ids, ← queuedIds_eq hq]
  refine ⟨?_, ?_⟩
  · intro q' i
    rw [hids]
    split
    · next hsame =>
      subst hsame
      cases signal with
      | standard | realtimeFallback => exact ho.queued q' i
      | realtime node =>
        unfold frontIds
        dsimp only
        split
        · next hi =>
          subst hi
          exact ho.held h q' node (hheld node rfl)
        · exact ho.queued q' i
    · exact ho.queued q' i
  · intro h' q' node' hh'
    obtain ⟨hne, hold⟩ := hrest h' _ hh'
    have hfront := ho.held h' q' node' hold
    rw [hids]
    split
    · next hsame =>
      subst hsame
      cases signal with
      | standard | realtimeFallback => exact hfront
      | realtime node =>
        -- the other check's record has another number
        unfold frontIds
        dsimp only
        rw [if_neg (halone node rfl h' node' hne hold)]
        exact hfront
    · exact hfront

theorem putsBackAlone_spec (hc : w.putsBackAlone c = true)
    (hback : w.putsBack c = some (h, q, node)) (h' : Nat) (node' : RealtimeSignalNode)
    (hne : h' ≠ h) (hheld : w.heldAt h' = some (q, node')) : node'.index ≠ node.index := by
  intro hidx
  unfold putsBackAlone at hc
  rw [hback] at hc
  have hlt : h' < w.hands.length := by
    obtain ⟨hand, hhand, -⟩ := seen_eq_some hheld
    exact (Lib.lt_of_getElem? hhand)
  have hall := List.all_eq_true.mp hc h' (List.mem_range.mpr hlt)
  simp [hne, hheld, hidx] at hall

/-- The hand that puts its record back keeps none. -/
theorem Ordered.requeued (ho : Ordered past w) (hc : w.putsBackAlone c = true)
    (hh : w.hands[h]? = some hand) (hback : ∀ node, signal = .realtime node →
      hand.held = some (q, node) ∧ w.putsBack c = some (h, q, node)) (hnew : new.held = none) :
    Ordered past ((w.requeue q signal).2.setHand h new) := by
  have hhands : (w.requeue q signal).2.hands[h]? = some hand := by
    rw [hands_requeue]
    exact hh
  refine ho.putBack (h := h) (fun node hnode => ?_) ?_ rfl rfl ?_
  · rw [show w.heldAt h = _ from seen_of_hand hh]
    exact (hback node hnode).1
  · intro node hnode h' node' hne hheld
    exact putsBackAlone_spec hc (hback node hnode).2 h' node' hne hheld
  · intro h' held hh'
    rw [heldAt_setHand hhands] at hh'
    split at hh'
    · rw [hnew] at hh'
      cases hh'
    next hne =>
    rw [heldAt_of_hands (hands_requeue ..)] at hh'
    exact ⟨hne, hh'⟩

theorem Ordered.putHand (ho : Ordered past w) (hnew : new.held = none) :
    Ordered past (w.putHand new) := by
  refine ho.calm (calm_of_rows rfl rfl) ?_
  intro h held hh
  have hsame : (w.putHand new).heldAt h = w.heldAt h := seen_putHand_of_none hnew h
  rw [hsame] at hh
  exact hh

theorem Ordered.checkPutBack (ho : Ordered past w) (h : Nat)
    (hc : w.putsBackAlone (.checkPutBack h) = true) : Ordered past (w.checkPutBack h).2 := by
  unfold World.checkPutBack
  split
  · next t mask source signal hh =>
    refine (ho.requeued hc hh ?_ rfl).putHand (held_requeue w source signal)
    rintro node rfl
    unfold putsBack
    dsimp only
    rw [hh]
    exact ⟨rfl, rfl⟩
  · exact ho

theorem Ordered.checkDispose (ho : Ordered past w) (h : Nat)
    (hc : w.putsBackAlone (.checkDispose h) = true) : Ordered past (w.checkDispose h).2 := by
  unfold World.checkDispose
  split
  · next t mask source signal result hh =>
    have hagain : Hand.held (if result = .action none then .check t (.threadQueue mask) else .empty)
        = none := by split <;> rfl
    dsimp only
    split
    · exact ho.dropped h hagain
    next signal =>
    split
    · next hresult =>
      refine ho.requeued hc hh ?_ (held_requeue w source signal)
      rintro node rfl
      unfold putsBack
      dsimp only
      rw [hh]
      dsimp only
      rw [if_pos hresult]
      exact ⟨rfl, rfl⟩
    · exact (ho.dropped h hagain).putHand (held_spentHand signal)
  · exact ho

/-! ## Every call -/

/-- Only the selecting sections give a check a record. -/
theorem heldAt_before (hc : ∀ h, c ≠ .checkSelect h ∧ c ≠ .checkPriority h) (h : Nat)
    (held : QueueId × RealtimeSignalNode) (hheld : (w.call c).2.heldAt h = some held) :
    w.heldAt h = some held := by
  refine seen_before_call held_part (fun _ _ _ => rfl) ?_ hheld
  intro t phase phase' held hnext hsome
  cases hnext with
  | threadMissed | threadTaken | processTaken => exact absurd rfl (hc _).1
  | bypassMissed | bypassThreadTaken | bypassThreadStale | disarmed | bypassProcessTaken
  | bypassProcessStale => exact absurd rfl (hc _).2
  | @claimed _ keep _ _ _ signal =>
    -- the record goes on with the check or is consumed
    cases keep with
    | true => cases signal <;> exact hsome
    | false => cases hsome
  | @handled _ _ _ _ _ _ _ _ signal | @finished _ _ _ _ signal =>
    rcases signal with _ | signal
    · cases hsome
    · cases signal <;> exact hsome
  | mask | armed | putBack | again => cases hsome

theorem publications_eq (htgt : w.sendTarget c = some (q, h))
    (hh : w.hands[h]? = some (.prepared signal)) (hkind : signal'.kind = signal.kind) :
    w.publications c = publicationOf q signal' (w.call c).1.reply.published := by
  unfold publications publicationOf
  rw [htgt, hkind]
  dsimp only
  rw [hh]
  obtain ⟨kind, generation⟩ := signal
  cases kind <;> rfl

/-- A send that publishes nothing notes nothing. -/
theorem publications_of_unpublished (h : (w.call c).1.reply.published = false) :
    w.publications c = [] := by
  unfold publications
  split
  · rfl
  split
  · rw [h]
    rfl
  · rfl

/-- One call that puts nothing back beside another record in flight. -/
theorem Ordered.call (ho : Ordered past w) (hwf : w.QueuesWF)
    (hc : w.putsBackAlone c = true) : Ordered (past ++ w.publications c) (w.call c).2 := by
  -- a call that is no send notes nothing
  have hnone : w.sendTarget c = none → Ordered past (w.call c).2 →
      Ordered (past ++ w.publications c) (w.call c).2 := by
    intro htgt hnext
    have hnil : w.publications c = [] := by
      unfold publications
      rw [htgt]
    rw [hnil, append_nil]
    exact hnext
  have hunpub : ∀ {w₀}, Ordered past w₀ → Frame [.counters] w₀ (w.call c).2 →
      (w.call c).1.reply.published = false → Ordered (past ++ w.publications c) (w.call c).2 := by
    intro w₀ h₀ hframe hun
    rw [publications_of_unpublished hun, append_nil]
    exact h₀.frame hframe (by decide) (by decide)
  by_cases hfeeds : .queues ∉ c.parts
  · have hcalm := (w.frame_call c).calm hfeeds
    by_cases hselect : ∀ h, c ≠ .checkSelect h ∧ c ≠ .checkPriority h
    · refine hnone ?_ (ho.calm hcalm (heldAt_before hselect))
      cases c <;> first | rfl | exact absurd mem_cons_self hfeeds
    obtain ⟨h, hh⟩ := not_forall.mp hselect
    rcases Classical.or_iff_not_imp_left.mpr (fun h1 => not_not.mp fun h2 => hh ⟨h1, h2⟩)
      with rfl | rfl
    · refine hnone rfl ?_
      show Ordered past (w.checkSelect h).2
      unfold checkSelect
      split
      · next hh => exact ho.checkTake hwf hh rfl fun _ => .inl rfl
      · next hh =>
        split
        · exact ho
        · exact ho.checkTake hwf hh rfl fun _ => .inl rfl
      · exact ho
    · refine hnone rfl ?_
      show Ordered past (w.checkPriority h).2
      unfold checkPriority
      split
      · next hh =>
        rw [checkPriorityQueue_eq]
        exact ho.checkTake hwf hh rfl fun _ => ite_eq_or_eq ..
      · next hh =>
        split
        · exact ho
        · rw [checkPriorityQueue_eq]
          exact ho.checkTake hwf hh rfl fun _ => ite_eq_or_eq ..
      · exact ho
  · cases c with
    | processCommit p h =>
      rcases w.processCommit_cases p h with ⟨hq, hun⟩ | ⟨m, signal, -, hh, hfed⟩
      · exact hunpub ho (hq.mono (nil_subset _)) hun
      · rw [publications_eq rfl hh rfl]
        exact ho.fed hh hfed (by decide) (by decide)
    | threadCommit t mode h =>
      rcases w.threadCommit_cases t mode h with
        ⟨hq, hun⟩ | ⟨thread, signal, signal', -, -, hh, hkind, hfed⟩
      · exact hunpub ho hq hun
      · rw [publications_eq rfl hh hkind]
        exact ho.fed hh hfed (by decide) (by decide)
    | publishProcessSend send h =>
      rcases w.publishProcessSend_cases send h with
        ⟨hsame, hun⟩ | ⟨p, endpoints, signal, hsend, hh, hcases⟩
      · refine hunpub ho ?_ hun
        show Frame _ w (w.publishProcessSend send h).2
        rw [hsame]
        exact .refl _ w
      · have hspent : Ordered past (w.setHand send .empty) := ho.dropped send rfl
        rcases hcases with ⟨hq, hun⟩ | hfed
        · exact hunpub hspent (hq.mono (nil_subset _)) hun
        have htgt : w.sendTarget (.publishProcessSend send h) = some (.process p, h) := by
          show (match w.hands[send]? with
            | some (.processSend p _) => some (QueueId.process p, h)
            | _ => none) = _
          rw [hsend]
        rw [publications_eq htgt hh rfl]
        exact hspent.fed (getElem?_spent hsend nofun hh) hfed (by decide) (by decide)
    | publishThreadSend send h =>
      rcases w.publishThreadSend_cases send h with
        ⟨hsame, hun⟩ | ⟨t, r, signal, hsend, hh, hcases⟩
      · refine hunpub ho ?_ hun
        show Frame _ w (w.publishThreadSend send h).2
        rw [hsame]
        exact .refl _ w
      · have hspent : Ordered past (w.setHand send .empty) := ho.dropped send rfl
        rcases hcases with ⟨hq, hun⟩ | ⟨thread, signal', -, -, -, hkind, hfed⟩
        · exact hunpub hspent hq hun
        have htgt : w.sendTarget (.publishThreadSend send h) = some (.thread t, h) := by
          show (match w.hands[send]? with
            | some (.threadSend t _) => some (QueueId.thread t, h)
            | _ => none) = _
          rw [hsend]
        rw [publications_eq htgt hh hkind]
        exact hspent.fed (getElem?_spent hsend nofun hh) hfed (by decide) (by decide)
    | checkPutBack h => exact hnone rfl (ho.checkPutBack h hc)
    | checkDispose h => exact hnone rfl (ho.checkDispose h hc)
    | _ => exact absurd (by simp [SignalCall.parts]) hfeeds

/-! ## Runs -/

/-- In every run in which no record is put back while another check holds a record of
the same number from the same queue, every real-time queue is in the order of its
publications. -/
theorem run_in_order {calls : List SignalCall}
    (hcalls : Respects World.observe (fun w c => w.putsBackAlone c = true) World.empty calls) :
    InOrder (World.empty.published calls) (run World.observe World.empty calls) := by
  have hall : (run World.observe World.empty calls).QueuesWF ∧
      Ordered (World.empty.published calls) (run World.observe World.empty calls) := by
    refine Lib.run_respects (I := fun past w => w.QueuesWF ∧ Ordered past w) ?_
      ⟨books_empty.wf, ordered_empty⟩ calls hcalls
    intro past w c h hc
    exact ⟨(h.1.call_move c).wf, h.2.call h.1 hc⟩
  exact hall.2.queued

/-- A process with two threads and a handler for a real-time signal, which is sent to
it twice. -/
def sentTwice : List SignalCall :=
  [.newAccount true 8, .newAccount true 8, .newOwner true, .newProcess 0 8,
    .newThread 0 true, .newThread 0 true, .tryRegister 0 100 true, .commitAdmission 0,
    .tryRegister 1 101 true, .commitAdmission 1,
    .replaceAction 0 (.sigrt 3) (.ofRaw ⟨0x1000#64, 0#64, 0#64, 0#64⟩) true,
    .beginAccounted (.newUser (.sigrt 3) 0 1 0) 0 8 1, .chargeGlobal 2, .allocateNode 2 true,
    .processCommit 0 2, .raiseFlag 4,
    .beginAccounted (.newUser (.sigrt 3) 0 1 0) 0 8 1, .chargeGlobal 5, .allocateNode 5 true,
    .processCommit 0 5, .raiseFlag 7]

/-- A check of a thread, in a hand, up to the record it selects from the process
queue. -/
def checkTakes (t h : Nat) : List SignalCall :=
  [.checkOpen t 0#64, .checkMask h, .checkSelect h, .checkSelect h]

/-- The check is answered `Retry` and puts its record back. -/
def checkRetries (h : Nat) : List SignalCall :=
  [.checkClaim h true, .checkHandle h .retry true true, .checkFinish h, .checkDispose h]

/-- Two checks that retry, one after the other. -/
def retriesInTurn : List SignalCall :=
  sentTwice ++ checkTakes 0 8 ++ checkRetries 8 ++ checkTakes 1 9 ++ checkRetries 9

/-- Checks that do not overlap leave the two records in their order. -/
theorem run_in_order_in_turn :
    let w := run World.observe World.empty retriesInTurn
    InOrder (World.empty.published retriesInTurn) w ∧ w.queuedIds (.process 0) 3 = [0, 1] := by
  exact ⟨run_in_order (by decide +kernel), by decide +kernel⟩

/-- Two checks that both hold a record when the first of them puts its own back. -/
def retriesTogether : List SignalCall :=
  sentTwice ++ checkTakes 0 8 ++ checkTakes 1 9 ++ checkRetries 8 ++ checkRetries 9

/-- The record published last goes back in front of the one published first. -/
theorem retries_together_reverse :
    let past := World.empty.published retriesTogether
    let w := run World.observe World.empty retriesTogether
    publishedIn past (.process 0) 3 = [0, 1] ∧ w.queuedIds (.process 0) 3 = [1, 0] ∧
      ¬ InOrder past w := by
  have hpublished : publishedIn (World.empty.published retriesTogether) (.process 0) 3 = [0, 1] := by
    decide +kernel
  have hqueued : (run World.observe World.empty retriesTogether).queuedIds (.process 0) 3 = [1, 0] := by
    decide +kernel
  refine ⟨hpublished, hqueued, ?_⟩
  intro horder
  have hsub := horder (.process 0) 3
  rw [hpublished, hqueued] at hsub
  revert hsub
  decide

end World

end LinuxAbi.Signal
