import LinuxAbi.Signal.Accounting

/-!
# What most sections leave alone

Sends, selections, flushes and the records' own operations do not touch dispositions,
registrations, lifecycles or tokens, and apart from the publications and the put-backs
they only take out of the queues. `Frame` says what is left alone, for a list of parts
that may change; this module has the updates that sections are made of, the publications
and the put-backs.

The flag of a queue may go down in a calm step only when the queue is left empty
(`lit`).
-/

namespace LinuxAbi.Signal

open SignalSet
open Function
open List
open Lib (map_set_of_eq)

theorem SignalSet.eq_zero_iff (set : SignalSet) : set = 0#64 ↔ ∀ s, set.has s = false := by
  constructor
  · intro h s
    rw [h, has_zero]
  · intro h
    apply BitVec.eq_of_getLsbD_eq
    intro i hi
    obtain ⟨s, -, hs⟩ := Signo.fromRepr_succ hi
    have hbit := h s
    rw [has_eq, hs, Nat.add_sub_cancel] at hbit
    rw [hbit]
    simp

namespace PendingSignals

/-- Everything in the new queue was in the old one, in the same order. -/
structure Within (new old : PendingSignals) : Prop where
  set : ∀ s, new.set.has s = true → old.set.has s = true
  standard : ∀ s signal, new.standard s = some signal → old.standard s = some signal
  realtime : ∀ i, (new.realtime i).Sublist (old.realtime i)

section

variable (q : PendingSignals)

theorem Within.refl : q.Within q :=
  ⟨fun _ h => h, fun _ _ h => h, fun i => Sublist.refl (q.realtime i)⟩

theorem Within.trans {a b c : PendingSignals} (h : a.Within b) (h' : b.Within c) : a.Within c :=
  ⟨fun s hs => h'.set s (h.set s hs), fun s x hx => h'.standard s x (h.standard s x hx),
    fun i => (h.realtime i).trans (h'.realtime i)⟩

theorem default_within : default.Within q := by
  refine ⟨?_, ?_, fun i => nil_sublist _⟩
  · intro s hs
    simp [default] at hs
  · intro s signal hs
    cases hs

/-- Nothing is pending. -/
theorem Within.set_eq_zero {new old : PendingSignals} (h : new.Within old) (hold : old.set = 0#64) :
    new.set = 0#64 := by
  rw [eq_zero_iff]
  intro s
  rw [← Bool.not_eq_true]
  intro hs
  have hin := h.set s hs
  rw [hold, has_zero] at hin
  cases hin

/-- An empty slot of one number. -/
theorem within_clear {set : SignalSet} (signo : Signo)
    (hset : ∀ s, set.has s = true → q.set.has s = true) :
    Within { q with set, standard := update q.standard signo none } q := by
  refine ⟨hset, ?_, fun i => Sublist.refl (q.realtime i)⟩
  intro s signal hs
  by_cases heq : s = signo
  · simp [heq] at hs
  · simpa [heq] using hs

/-- A shorter queue of one real-time number. -/
theorem within_realtime {set : SignalSet} (hset : ∀ s, set.has s = true → q.set.has s = true)
    (hl : l.Sublist (q.realtime index)) :
    Within { q with set, realtime := update q.realtime index l } q := by
  refine ⟨hset, fun _ _ h => h, ?_⟩
  intro i
  by_cases heq : i = index
  · subst heq
    simpa using hl
  · simp [heq]

theorem dequeueSignal_within (mask : SignalSet) : (q.dequeueSignal mask).2.Within q := by
  unfold dequeueSignal
  split
  · next set hdeq =>
    rw [(dequeue_none hdeq).1]
    exact .refl q
  · next signo set hdeq =>
    obtain ⟨hin, -, hset⟩ := dequeue_some hdeq
    have hrest : ∀ s, set.has s = true → q.set.has s = true := by
      intro s hs
      rw [hset, Bool.and_eq_true] at hs
      exact hs.1
    dsimp only
    split
    · next index =>
      split
      · next node rest hhead =>
        have htail : rest.Sublist (q.realtime index) := hhead ▸ sublist_cons_self node rest
        by_cases hemp : rest.isEmpty = true
        · rw [if_pos hemp]
          exact within_realtime q hrest htail
        rw [if_neg hemp]
        -- the bit that is set again was set before
        refine within_realtime q ?_ htail
        intro s hs
        rw [has_add, Bool.or_eq_true, decide_eq_true_eq] at hs
        rcases hs with hs | rfl
        · exact hrest s hs
        · exact hin
      · exact ⟨hrest, fun _ _ h => h, fun i => Sublist.refl (q.realtime i)⟩
    · split
      · exact within_clear q _ hrest
      · exact ⟨hrest, fun _ _ h => h, fun i => Sublist.refl (q.realtime i)⟩

theorem detachSignalInto_within (signo : Signo)
    (detached : List RealtimeSignalNode) : (q.detachSignalInto signo detached).2.Within q := by
  unfold detachSignalInto
  split
  · exact .refl q
  next set hrem =>
  have hrest : ∀ s, set.has s = true → q.set.has s = true := by
    intro s hs
    have hset : (q.set.remove signo).2 = set := congrArg Prod.snd hrem
    rw [← hset, has_remove, Bool.and_eq_true] at hs
    exact hs.1
  split
  · exact within_realtime q hrest (nil_sublist _)
  · exact within_clear q _ hrest

end

end PendingSignals

/-! ## What a step may leave alone -/

/-- The part of a thread row that says which endpoint it is. -/
structure ThreadCore where
  proc : Nat
  lifecycle : ThreadLifecycle
  registration : Option Nat
  dropped : Bool

def ThreadSignalManager.core (t : ThreadSignalManager) : ThreadCore :=
  ⟨t.proc, t.lifecycle, t.registration, t.dropped⟩

/-- The registered threads of a process and their limit. -/
def ProcessSignalManager.roster (m : ProcessSignalManager) : List Nat × Nat :=
  (m.children, m.threadLimit)

/-- The parts of the state that calls are told apart by. -/
inductive Part
  /-- the action tables -/
  | owners
  /-- which owner each process has -/
  | seats
  /-- the entries, their lists, and which endpoint each thread is -/
  | registry
  /-- the blocked masks -/
  | masks
  /-- the generation counters -/
  | counters
  /-- what is put into a queue; taking out is no part -/
  | queues
  | admissions
  | sends
  | execs
  | checks
deriving DecidableEq

/-- The part a hand belongs to. -/
def Hand.part : Hand → Option Part
  | .admission _ _ => some .admissions
  | .threadSend _ _ | .processSend _ _ => some .sends
  | .execUnshare _ _ => some .execs
  | .check _ _ => some .checks
  | _ => none

/-- Whether a hand of this kind may come and go when these parts change. -/
def Hand.among (hand : Hand) (parts : List Part) : Bool :=
  match hand.part with
  | none => true
  | some part => parts.contains part

/-- Whether a send says that it published its record. -/
def SignalReply.published : SignalReply → Bool
  | .processSent outcome => outcome.published
  | .threadSent outcome => outcome.published
  | _ => false

namespace World

/-- `possibly_has_signal` of the queue's manager. -/
def flag (w : World) : QueueId → Bool
  | .process p => w.processes[p]?.any fun m => m.possiblyHasSignal
  | .thread t => w.threads[t]?.any fun t => t.possiblyHasSignal

/-- The hand, if it belongs to the part. -/
def holding (w : World) (part : Part) (h : Nat) : Option Hand :=
  w.hands[h]?.filter fun hand => hand.part == some part

/-- Queues only lose, and flags go down only over empty queues. -/
structure Calm (w w' : World) : Prop where
  within : ∀ q new, w'.queue q = some new →
    new.Within .default ∨ ∃ old, w.queue q = some old ∧ new.Within old
  lit : ∀ q new, w'.queue q = some new → new.set ≠ 0#64 → w.flag q = true → w'.flag q = true

/-- Only the listed parts change. -/
structure Frame (parts : List Part) (w w' : World) : Prop where
  owners : .owners ∉ parts → w'.owners = w.owners
  seats : .seats ∉ parts → w'.processes.map (·.actions) = w.processes.map (·.actions)
  registrations : .registry ∉ parts → w'.registrations = w.registrations
  rosters : .registry ∉ parts →
    w'.processes.map ProcessSignalManager.roster = w.processes.map ProcessSignalManager.roster
  threads : .registry ∉ parts →
    w'.threads.map ThreadSignalManager.core = w.threads.map ThreadSignalManager.core
  masks : .masks ∉ parts → w'.threads.map (·.blocked) = w.threads.map (·.blocked)
  counters : .counters ∉ parts →
    w'.threads.map (·.nextGeneration) = w.threads.map (·.nextGeneration)
  calm : .queues ∉ parts → Calm w w'
  hands : ∀ part, part ∉ parts → ∀ h, w'.holding part h = w.holding part h

variable {w w' w'' : World} {parts : List Part}

theorem Calm.refl (w : World) : Calm w w :=
  ⟨fun _ new hq => .inr ⟨new, hq, .refl new⟩, fun _ _ _ _ h => h⟩

variable {q : QueueId} {new : PendingSignals}

/-- A queue that is not empty was not empty before. -/
theorem Calm.old (h : Calm w w') (hq : w'.queue q = some new)
    (hne : new.set ≠ 0#64) : ∃ old, w.queue q = some old ∧ new.Within old ∧ old.set ≠ 0#64 := by
  rcases h.within q new hq with hnone | ⟨old, hold, hin⟩
  · exact absurd (hnone.set_eq_zero rfl) hne
  refine ⟨old, hold, hin, ?_⟩
  intro hzero
  exact hne (hin.set_eq_zero hzero)

theorem Calm.trans (h : Calm w w') (h' : Calm w' w'') : Calm w w'' := by
  constructor
  · intro q new hq
    rcases h'.within q new hq with hnone | ⟨mid, hmid, hin⟩
    · exact .inl hnone
    rcases h.within q mid hmid with hnone | ⟨old, hold, hin'⟩
    · exact .inl (hin.trans hnone)
    · exact .inr ⟨old, hold, hin.trans hin'⟩
  · intro q new hq hne hflag
    obtain ⟨mid, hmid, -, hne'⟩ := h'.old hq hne
    exact h'.lit q new hq hne (h.lit q mid hmid hne' hflag)

theorem Frame.refl (parts : List Part) (w : World) : Frame parts w w :=
  ⟨fun _ => rfl, fun _ => rfl, fun _ => rfl, fun _ => rfl, fun _ => rfl, fun _ => rfl,
    fun _ => rfl, fun _ => .refl w, fun _ _ _ => rfl⟩

theorem Frame.trans (h : Frame parts w w') (h' : Frame parts w' w'') : Frame parts w w'' where
  owners hpart := (h'.owners hpart).trans (h.owners hpart)
  seats hpart := (h'.seats hpart).trans (h.seats hpart)
  registrations hpart := (h'.registrations hpart).trans (h.registrations hpart)
  rosters hpart := (h'.rosters hpart).trans (h.rosters hpart)
  threads hpart := (h'.threads hpart).trans (h.threads hpart)
  masks hpart := (h'.masks hpart).trans (h.masks hpart)
  counters hpart := (h'.counters hpart).trans (h.counters hpart)
  calm hpart := (h.calm hpart).trans (h'.calm hpart)
  hands part hpart i := (h'.hands part hpart i).trans (h.hands part hpart i)

theorem Frame.mono (h : Frame parts w w') (hsub : parts ⊆ parts') :
    Frame parts' w w' where
  owners hpart := h.owners fun hin => hpart (hsub hin)
  seats hpart := h.seats fun hin => hpart (hsub hin)
  registrations hpart := h.registrations fun hin => hpart (hsub hin)
  rosters hpart := h.rosters fun hin => hpart (hsub hin)
  threads hpart := h.threads fun hin => hpart (hsub hin)
  masks hpart := h.masks fun hin => hpart (hsub hin)
  counters hpart := h.counters fun hin => hpart (hsub hin)
  calm hpart := h.calm fun hin => hpart (hsub hin)
  hands part hpart := h.hands part fun hin => hpart (hsub hin)

/-! ## Queues with their flags -/

/-- A pending queue and its `possibly_has_signal`. -/
def slot (w : World) : QueueId → Option (PendingSignals × Bool)
  | .process p => w.processes[p]?.map fun m => (m.pending, m.possiblyHasSignal)
  | .thread t => w.threads[t]?.map fun t => (t.pending, t.possiblyHasSignal)

theorem queue_eq_slot (w : World) (q : QueueId) : w.queue q = (w.slot q).map Prod.fst := by
  cases q <;> simp [queue, slot, comp_def]

theorem flag_eq_slot (w : World) (q : QueueId) : w.flag q = (w.slot q).any Prod.snd := by
  cases q <;> simp [flag, slot, Option.any_map]

/-- Calm, queue by queue. -/
theorem calm_of_slots (h : ∀ q new f, w'.slot q = some (new, f) →
    new.Within .default ∨ ∃ old f₀, w.slot q = some (old, f₀) ∧ new.Within old ∧
      (new.set ≠ 0#64 → f₀ = true → f = true)) : Calm w w' := by
  constructor
  · intro q new hq
    rw [queue_eq_slot] at hq
    obtain ⟨⟨_, f⟩, hslot, rfl⟩ := Option.map_eq_some_iff.mp hq
    rcases h q _ f hslot with hnone | ⟨old, f₀, hold, hin, -⟩
    · exact .inl hnone
    · exact .inr ⟨old, by rw [queue_eq_slot, hold]; rfl, hin⟩
  · intro q new hq hne hflag
    rw [queue_eq_slot] at hq
    obtain ⟨⟨_, f⟩, hslot, rfl⟩ := Option.map_eq_some_iff.mp hq
    rcases h q _ f hslot with hnone | ⟨old, f₀, hold, -, hlit⟩
    · exact absurd (hnone.set_eq_zero rfl) hne
    rw [flag_eq_slot, hold] at hflag
    rw [flag_eq_slot, hslot]
    exact hlit hne hflag

/-- One row is written, and its queue is not. -/
theorem slot_set {α : Type} {rows : List α} {i j : Nat} {old new : α} (g : α → PendingSignals × Bool)
    (hi : rows[i]? = some old) (hpend : (g new).1 = (g old).1)
    (hflag : (g old).2 = true → (g new).2 = true) {pending : PendingSignals} {f : Bool}
    (h : (rows.set i new)[j]?.map g = some (pending, f)) :
    ∃ old f₀, rows[j]?.map g = some (old, f₀) ∧ pending.Within old ∧
      (pending.set ≠ 0#64 → f₀ = true → f = true) := by
  obtain ⟨row, hrow, hg⟩ := Option.map_eq_some_iff.mp h
  rcases Lib.getElem?_set_cases hrow with ⟨rfl, rfl⟩ | ⟨-, hold⟩
  · rw [hi]
    rw [hg] at hpend hflag
    exact ⟨_, _, rfl, hpend ▸ .refl _, fun _ => hflag⟩
  · rw [hold]
    exact ⟨_, _, congrArg some hg, .refl _, fun _ hf => hf⟩

theorem calm_of_slot_eq (h : ∀ q, w'.slot q = w.slot q) : Calm w w' := by
  refine calm_of_slots ?_
  intro q new f hslot
  exact .inr ⟨new, f, (h q).symm.trans hslot, .refl new, fun _ hf => hf⟩

theorem calm_of_rows (hp : w'.processes = w.processes) (ht : w'.threads = w.threads) :
    Calm w w' := by
  refine calm_of_slot_eq ?_
  intro q
  cases q with
  | process p => simp only [slot, hp]
  | thread t => simp only [slot, ht]

theorem slot_storeQueue (w : World) (q : QueueId) (new : PendingSignals) (f : Option Bool)
    (q' : QueueId) : (w.storeQueue q new f).slot q'
      = (w.slot q').map fun old => if q' = q then (new, f.getD old.2) else old := by
  cases q with
  | process p =>
    cases q' with
    | process i =>
      show ((w.processes.modify p _)[i]?).map _ = ((w.processes[i]?).map _).map _
      by_cases heq : p = i
      · subst heq
        rw [getElem?_modify_eq]
        cases w.processes[p]? <;> simp
      · rw [getElem?_modify_ne _ _ heq]
        cases w.processes[i]? <;> simp [Ne.symm heq]
    | thread t => simp [storeQueue, slot, comp_def]
  | thread t =>
    cases q' with
    | process i => simp [storeQueue, slot, comp_def]
    | thread i =>
      show ((w.threads.modify t _)[i]?).map _ = ((w.threads[i]?).map _).map _
      by_cases heq : t = i
      · subst heq
        rw [getElem?_modify_eq]
        cases w.threads[t]? <;> simp
      · rw [getElem?_modify_ne _ _ heq]
        cases w.threads[i]? <;> simp [Ne.symm heq]

theorem queue_storeQueue (w : World) (q : QueueId) (new : PendingSignals) (f : Option Bool)
    (q' : QueueId) :
    (w.storeQueue q new f).queue q'
      = if q' = q then (w.queue q).map fun _ => new else w.queue q' := by
  rw [queue_eq_slot, slot_storeQueue, queue_eq_slot, queue_eq_slot]
  split
  · next heq =>
    subst heq
    cases w.slot q' <;> rfl
  · cases w.slot q' <;> rfl

/-! ## Single updates -/

/-- A hand that is none of the kept ones has no value of a kept part. -/
theorem filter_part_of_among {hand : Hand} (h : hand.among parts = true)
    (hpart : part ∉ parts) : (hand.part == some part) = false := by
  unfold Hand.among at h
  cases hkind : hand.part with
  | none => rfl
  | some kind =>
    rw [hkind] at h
    refine beq_eq_false_iff_ne.mpr ?_
    rintro ⟨⟩
    exact hpart (contains_iff_mem.mp h)

theorem frame_of_hands (hp : w'.processes = w.processes) (ht : w'.threads = w.threads)
    (ho : w'.owners = w.owners) (hr : w'.registrations = w.registrations)
    (hh : ∀ part, part ∉ parts → ∀ h, w'.holding part h = w.holding part h) :
    Frame parts w w' where
  owners _ := ho
  seats _ := by rw [hp]
  registrations _ := hr
  rosters _ := by rw [hp]
  threads _ := by rw [ht]
  masks _ := by rw [ht]
  counters _ := by rw [ht]
  calm _ := calm_of_rows hp ht
  hands := hh

theorem frame_accounts (parts : List Part) (w : World) (accounts : List SignalQueueAccount)
    (nextNode : Nat) : Frame parts w { w with accounts, nextNode } :=
  frame_of_hands rfl rfl rfl rfl fun _ _ _ => rfl

/-- A hand without a kept value is filled with another such. -/
theorem frame_setFree {h : Nat} {new : Hand} (hold : ∀ part, part ∉ parts → w.holding part h = none)
    (hnew : new.among parts = true) : Frame parts w (w.setHand h new) := by
  refine frame_of_hands rfl rfl rfl rfl ?_
  intro part hpart i
  by_cases heq : h = i
  · subst heq
    rw [hold part hpart]
    show (w.hands.set h new)[h]?.filter _ = _
    rw [getElem?_set_self']
    cases w.hands[h]? with
    | none => rfl
    | some hand => simp [Option.filter, filter_part_of_among hnew hpart]
  · unfold holding
    show (w.hands.set h new)[i]?.filter _ = _
    rw [getElem?_set_ne heq]

/-- The same after other changes; the hand is still what it was. -/
theorem Frame.setHand {h : Nat} {hand new : Hand} (hf : Frame parts w w')
    (hh : w.hands[h]? = some hand) (hold : hand.among parts = true)
    (hnew : new.among parts = true) : Frame parts w (w'.setHand h new) := by
  refine hf.trans (frame_setFree ?_ hnew)
  intro part hpart
  rw [hf.hands part hpart]
  unfold holding
  rw [hh]
  simp [Option.filter, filter_part_of_among hold hpart]

theorem Frame.putHand {new : Hand} (hf : Frame parts w w') (hnew : new.among parts = true) :
    Frame parts w (w'.putHand new) := by
  refine hf.trans (frame_of_hands rfl rfl rfl rfl ?_)
  intro part hpart i
  unfold holding
  show (w'.hands ++ [new])[i]?.filter _ = _
  by_cases hlt : i < w'.hands.length
  · rw [getElem?_append_left hlt]
  rw [getElem?_append_right (Nat.not_lt.mp hlt), getElem?_eq_none (Nat.not_lt.mp hlt)]
  cases hi : i - w'.hands.length with
  | zero => simp [Option.filter, filter_part_of_among hnew hpart]
  | succ n => rfl

theorem Frame.setOwners (hf : Frame parts w w') (hpart : .owners ∈ parts)
    (owners : List SignalActions) : Frame parts w { w' with owners } :=
  { hf with
    owners := fun h => absurd hpart h
    calm := fun h => (hf.calm h).trans (calm_of_rows rfl rfl) }

theorem Frame.setRegistrations (hf : Frame parts w w') (hpart : .registry ∈ parts)
    (registrations : List RegisteredThread) : Frame parts w { w' with registrations } :=
  { hf with
    registrations := fun h => absurd hpart h
    calm := fun h => (hf.calm h).trans (calm_of_rows rfl rfl) }

/-- What a write of a thread row may change, its queue apart. -/
structure ThreadKept (parts : List Part) (old new : ThreadSignalManager) : Prop where
  core : .registry ∉ parts → new.core = old.core
  blocked : .masks ∉ parts → new.blocked = old.blocked
  counter : .counters ∉ parts → new.nextGeneration = old.nextGeneration
  pending : new.pending = old.pending
  flag : old.possiblyHasSignal = true → new.possiblyHasSignal = true

theorem frame_setThread {t : Nat} {thread new : ThreadSignalManager}
    (ht : w.threads[t]? = some thread) (hrow : ThreadKept parts thread new) :
    Frame parts w (w.setThread t new) where
  owners _ := rfl
  seats _ := rfl
  registrations _ := rfl
  rosters _ := rfl
  threads hpart := map_set_of_eq ht (hrow.core hpart)
  masks hpart := map_set_of_eq ht (hrow.blocked hpart)
  counters hpart := map_set_of_eq ht (hrow.counter hpart)
  calm _ := by
    refine calm_of_slots ?_
    intro q pending f hslot
    cases q with
    | process p => exact .inr ⟨pending, f, hslot, .refl pending, fun _ hf => hf⟩
    | thread i => exact .inr (slot_set _ ht hrow.pending hrow.flag hslot)
  hands _ _ _ := rfl

theorem Frame.setThread {t : Nat} {thread new : ThreadSignalManager} (hf : Frame parts w w')
    (hrows : w'.threads = w.threads) (ht : w.threads[t]? = some thread)
    (hrow : ThreadKept parts thread new) : Frame parts w (w'.setThread t new) := by
  rw [← hrows] at ht
  exact hf.trans (frame_setThread ht hrow)

/-- What a write of a process row may change, its queue apart. -/
structure ProcessKept (parts : List Part) (old new : ProcessSignalManager) : Prop where
  seat : .seats ∉ parts → new.actions = old.actions
  roster : .registry ∉ parts → new.roster = old.roster
  pending : new.pending = old.pending
  flag : old.possiblyHasSignal = true → new.possiblyHasSignal = true

theorem frame_setProcess {p : Nat} {m new : ProcessSignalManager} (hp : w.processes[p]? = some m)
    (hrow : ProcessKept parts m new) : Frame parts w (w.setProcess p new) where
  owners _ := rfl
  seats hpart := map_set_of_eq hp (hrow.seat hpart)
  registrations _ := rfl
  rosters hpart := map_set_of_eq hp (hrow.roster hpart)
  threads _ := rfl
  masks _ := rfl
  counters _ := rfl
  calm _ := by
    refine calm_of_slots ?_
    intro q pending f hslot
    cases q with
    | thread t => exact .inr ⟨pending, f, hslot, .refl pending, fun _ hf => hf⟩
    | process i => exact .inr (slot_set _ hp hrow.pending hrow.flag hslot)
  hands _ _ _ := rfl

theorem Frame.setProcess {p : Nat} {m new : ProcessSignalManager} (hf : Frame parts w w')
    (hrows : w'.processes = w.processes) (hm : w.processes[p]? = some m)
    (hrow : ProcessKept parts m new) : Frame parts w (w'.setProcess p new) := by
  rw [← hrows] at hm
  exact hf.trans (frame_setProcess hm hrow)

/-! ## Storing a queue -/

/-- A queue is stored; what it may hold is said by `calm`. -/
theorem frame_storeQueue (hcalm : .queues ∉ parts → Calm w (w.storeQueue q new f)) :
    Frame parts w (w.storeQueue q new f) := by
  cases q with
  | process p =>
    have hrow : ∀ {β : Type} (g : ProcessSignalManager → β),
        (∀ m f', g { m with pending := new, possiblyHasSignal := f' } = g m) →
        (w.storeQueue (.process p) new f).processes.map g = w.processes.map g := by
      intro β g hg
      exact Lib.map_modify_of_eq (fun m => hg m _) _ _
    exact ⟨fun _ => rfl, fun _ => hrow _ fun _ _ => rfl, fun _ => rfl, fun _ => hrow _ fun _ _ => rfl,
      fun _ => rfl, fun _ => rfl, fun _ => rfl, hcalm, fun _ _ _ => rfl⟩
  | thread t =>
    have hrow : ∀ {β : Type} (g : ThreadSignalManager → β),
        (∀ m f', g { m with pending := new, possiblyHasSignal := f' } = g m) →
        (w.storeQueue (.thread t) new f).threads.map g = w.threads.map g := by
      intro β g hg
      exact Lib.map_modify_of_eq (fun m => hg m _) _ _
    exact ⟨fun _ => rfl, fun _ => rfl, fun _ => rfl, fun _ => rfl, fun _ => hrow _ fun _ _ => rfl,
      fun _ => hrow _ fun _ _ => rfl, fun _ => hrow _ fun _ _ => rfl, hcalm, fun _ _ _ => rfl⟩

/-- A queue that only lost signals is stored back, with the flag down only if it is
empty. -/
theorem frame_lose (hq : w.queue q = some old) (hin : new.Within old)
    (hf : new.set ≠ 0#64 → f ≠ some false) : Frame parts w (w.storeQueue q new f) := by
  refine frame_storeQueue fun _ => calm_of_slots ?_
  intro q' stored flag hstored
  rw [slot_storeQueue] at hstored
  obtain ⟨⟨before, flag₀⟩, hbef, heq⟩ := Option.map_eq_some_iff.mp hstored
  split at heq
  · next hsame =>
    subst hsame
    rw [queue_eq_slot, hbef] at hq
    cases hq
    cases heq
    refine .inr ⟨before, flag₀, hbef, hin, ?_⟩
    -- over a nonempty queue the section stores `true` or nothing
    intro hne hflag
    cases f with
    | none => exact hflag
    | some b =>
      cases b with
      | true => rfl
      | false => exact absurd rfl (hf hne)
  · cases heq
    exact .inr ⟨stored, flag, hbef, .refl stored, fun _ hflag => hflag⟩

theorem clearIfEmpty_ne (hne : pending.set ≠ 0#64) : clearIfEmpty pending ≠ some false := by
  unfold clearIfEmpty
  split
  · next h => exact absurd (eq_of_beq h) hne
  · intro h
    cases h

theorem frame_detachSignalInto (wd : World × List RealtimeSignalNode) (q : QueueId) (signo : Signo) :
    Frame parts wd.1 (detachSignalInto wd q signo).1 := by
  unfold detachSignalInto
  split
  · exact .refl _ _
  · next pending hq => exact frame_lose hq (pending.detachSignalInto_within signo wd.2) clearIfEmpty_ne

theorem frame_detachAll (q : QueueId) (flush : List Signo) (wd : World × List RealtimeSignalNode) :
    Frame parts wd.1 (detachAll wd q flush).1 := by
  induction flush generalizing wd with
  | nil => exact .refl _ _
  | cons signo flush ih => exact (frame_detachSignalInto wd q signo).trans (ih _)

theorem frame_detachChildren (children : List Nat) (flush : List Signo)
    (wd : World × List RealtimeSignalNode) :
    Frame parts wd.1 (detachChildren wd children flush).1 := by
  induction children generalizing wd with
  | nil => exact .refl _ _
  | cons r children ih =>
    -- one registry entry: its thread's queue, if the entry upgrades
    refine Frame.trans ?_ (ih _)
    dsimp only
    split
    · exact frame_detachAll _ flush wd
    · exact .refl _ _

/-- The job-control effect of a send, with what it detached left in a hand. -/
theorem frame_effect (w : World) (p : Nat) (m : ProcessSignalManager) (signo : Signo) :
    Frame parts w ((w.applyGenerationEffect p m signo).1.putHand
      (.detached (w.applyGenerationEffect p m signo).2)) := by
  have heff : Frame parts w (w.applyGenerationEffect p m signo).1 := by
    unfold applyGenerationEffect
    split
    · exact (frame_detachAll (.process p) (generationFlush signo) (w, [])).trans
        (frame_detachChildren m.children (generationFlush signo) _)
    · exact .refl _ _
  exact heff.putHand rfl

theorem frame_takeQueue (w : World) (q : QueueId) : Frame parts w (w.takeQueue q) := by
  unfold takeQueue
  split
  · exact .refl _ _
  next pending hq =>
  refine (frame_lose hq pending.default_within ?_).putHand rfl
  intro hne
  exact absurd rfl hne

theorem frame_dequeueOwned (w : World) (q : QueueId) (mask : SignalSet) :
    Frame parts w (w.dequeueOwned q mask).2 := by
  unfold dequeueOwned
  split
  · exact .refl _ _
  · next pending hq => exact frame_lose hq (pending.dequeueSignal_within mask) clearIfEmpty_ne

/-! ## Publications -/

/-- A record is published into one queue after changes to the listed parts, and a hand is
left to raise the flag; `added` says that the record is in the queue. -/
def Fed (parts : List Part) (w : World) (q : QueueId) (signal : PreparedSignal) (h : Nat) (added : Bool)
    (w' : World) : Prop :=
  ∃ mid old, Frame parts w mid ∧ mid.queue q = some old ∧ (old.publish signal).1.added = added ∧
    w' = (((mid.storeQueue q (old.publish signal).2 none).setHand h
      (leftover (old.publish signal).1.unused)).putHand (.raise q))

theorem processCommit_cases (w : World) (p h : Nat) :
    (Frame [] w (w.processCommit p h).2 ∧ (w.processCommit p h).1.reply.published = false) ∨
      ∃ m signal, w.processes[p]? = some m ∧ w.hands[h]? = some (.prepared signal) ∧
        Fed [] w (.process p) signal h (w.processCommit p h).1.reply.published
          (w.processCommit p h).2 := by
  unfold processCommit
  split
  · next m signal hm hh =>
    split
    · exact .inl ⟨.refl _ w, rfl⟩
    have heff : Frame [] w _ := w.frame_effect p m signal.signo
    dsimp only
    split
    · exact .inl ⟨heff, rfl⟩
    split
    · exact .inl ⟨heff, rfl⟩
    next pending hq =>
    split
    · exact .inr ⟨m, signal, hm, hh, _, pending, heff, hq, rfl, rfl⟩
    · exact .inl ⟨heff.putHand rfl, rfl⟩
  · exact .inl ⟨.refl _ w, rfl⟩

theorem publishProcessSend_cases (w : World) (send h : Nat) :
    ((w.publishProcessSend send h).2 = w ∧
        (w.publishProcessSend send h).1.reply.published = false) ∨
      ∃ p endpoints signal, w.hands[send]? = some (.processSend p endpoints) ∧
        w.hands[h]? = some (.prepared signal) ∧
        ((Frame [] (w.setHand send .empty) (w.publishProcessSend send h).2 ∧
            (w.publishProcessSend send h).1.reply.published = false) ∨
          Fed [] (w.setHand send .empty) (.process p) signal h
            (w.publishProcessSend send h).1.reply.published (w.publishProcessSend send h).2) := by
  unfold publishProcessSend
  split
  · next p endpoints signal hsend hh =>
    split
    · exact .inl ⟨rfl, rfl⟩
    next m hm =>
    refine .inr ⟨p, endpoints, signal, hsend, hh, ?_⟩
    dsimp only
    split
    · exact .inl ⟨.refl _ _, rfl⟩
    have heff : Frame [] (w.setHand send .empty) _ :=
      (w.setHand send .empty).frame_effect p m signal.signo
    split
    · exact .inl ⟨heff, rfl⟩
    split
    · exact .inl ⟨heff, rfl⟩
    · next pending hq => exact .inr ⟨_, pending, heff, hq, rfl, rfl⟩
  · exact .inl ⟨rfl, rfl⟩

/-- Assigning a generation changes the record's generation and the row's counter. -/
theorem assignGeneration_eq (t : ThreadSignalManager) (signal : PreparedSignal) :
    ThreadKept [.counters] t (t.assignGeneration signal).2 ∧
      ∀ generation signal', (t.assignGeneration signal).1 = some (generation, signal') →
        signal'.kind = signal.kind := by
  have hkept : ∀ new : ThreadSignalManager, new = { t with nextGeneration := new.nextGeneration } →
      ThreadKept [.counters] t new := by
    intro new hnew
    rw [hnew]
    exact ⟨fun _ => rfl, fun _ => rfl, fun h => absurd mem_cons_self h, rfl, id⟩
  unfold ThreadSignalManager.assignGeneration ThreadSignalManager.allocateGeneration
  split
  · split
    · next heq =>
      split at heq
      · cases heq
        exact ⟨hkept _ rfl, fun _ _ h => by cases h⟩
      · cases heq
    · next heq =>
      split at heq
      · cases heq
      cases heq
      refine ⟨hkept _ rfl, ?_⟩
      intro generation signal' h
      cases h
      rfl
  · refine ⟨hkept _ rfl, ?_⟩
    intro generation signal' h
    cases h
    rfl

/-- Publication into a thread queue either runs out of generations or publishes the
record, with a generation if it does not coalesce. -/
theorem publishThread_cases (heq : w.publishThread t h signal coalesced = (outcome, w')) :
    (outcome = none ∧ Frame [.counters] w w') ∨
      ∃ generation signal' mid old, signal'.kind = signal.kind ∧ Frame [.counters] w mid ∧
        mid.queue (.thread t) = some old ∧ outcome = some ((old.publish signal').1.added, generation) ∧
        w' = (mid.storeQueue (.thread t) (old.publish signal').2 none).setHand h
          (leftover (old.publish signal').1.unused) := by
  unfold publishThread at heq
  split at heq
  · cases heq
    exact .inl ⟨rfl, .refl _ w⟩
  next thread ht =>
  have hrow : ∀ o new, (if coalesced then (some (none, signal), thread)
      else thread.assignGeneration signal) = (o, new) →
      ThreadKept [.counters] thread new ∧
        ∀ generation signal', o = some (generation, signal') → signal'.kind = signal.kind := by
    intro o new heq
    split at heq
    · cases heq
      refine ⟨⟨fun _ => rfl, fun _ => rfl, fun _ => rfl, rfl, id⟩, ?_⟩
      intro generation signal' hsome
      cases hsome
      rfl
    · have hall := assignGeneration_eq thread signal
      rw [heq] at hall
      exact hall
  split at heq
  · next new hassign =>
    cases heq
    exact .inl ⟨rfl, frame_setThread ht (hrow _ _ hassign).1⟩
  next generation signal' new hassign =>
  cases heq
  obtain ⟨hkept, hkind⟩ := hrow _ _ hassign
  have hlt := Lib.lt_of_getElem? ht
  refine .inr ⟨_, signal', w.setThread t new, new.pending, hkind generation signal' rfl,
    frame_setThread ht hkept, ?_, rfl, rfl⟩
  show ((w.threads.set t new)[t]?).map _ = _
  rw [getElem?_set_self hlt]
  rfl

theorem threadCommit_cases (w : World) (t : Nat) (mode : EndpointSendMode) (h : Nat) :
    (Frame [.counters] w (w.threadCommit t mode h).2 ∧
        (w.threadCommit t mode h).1.reply.published = false) ∨
      ∃ thread signal signal', w.threads[t]? = some thread ∧ mode.accepts thread.lifecycle = true ∧
        w.hands[h]? = some (.prepared signal) ∧ signal'.kind = signal.kind ∧
        Fed [.counters] w (.thread t) signal' h (w.threadCommit t mode h).1.reply.published
          (w.threadCommit t mode h).2 := by
  unfold threadCommit
  split
  · next thread signal ht hh =>
    split
    · exact .inl ⟨.refl _ w, rfl⟩
    next m hm =>
    split
    · exact .inl ⟨.refl _ w, rfl⟩
    next hmode =>
    have heff : Frame [.counters] w _ := w.frame_effect thread.proc m signal.signo
    dsimp only
    split
    · exact .inl ⟨heff, rfl⟩
    split
    · exact .inl ⟨heff.putHand rfl, rfl⟩
    split
    · next heq =>
      obtain ⟨-, hquiet⟩ | ⟨-, -, -, -, -, -, -, ⟨⟩, -⟩ := publishThread_cases heq
      exact .inl ⟨heff.trans hquiet, rfl⟩
    · next heq =>
      obtain ⟨⟨⟩, -⟩ | ⟨-, signal', mid, old, hkind, hquiet, hq, ⟨⟩, rfl⟩ := publishThread_cases heq
      exact .inr ⟨thread, signal, signal', ht, not_not.mp hmode, hh, hkind, mid, old,
        heff.trans hquiet, hq, rfl, rfl⟩
  · exact .inl ⟨.refl _ w, rfl⟩

theorem publishThreadSend_cases (w : World) (send h : Nat) :
    ((w.publishThreadSend send h).2 = w ∧
        (w.publishThreadSend send h).1.reply.published = false) ∨
      ∃ t r signal, w.hands[send]? = some (.threadSend t r) ∧
        w.hands[h]? = some (.prepared signal) ∧
        ((Frame [.counters] (w.setHand send .empty) (w.publishThreadSend send h).2 ∧
            (w.publishThreadSend send h).1.reply.published = false) ∨
          ∃ thread signal', w.threads[t]? = some thread ∧ thread.lifecycle = .active ∧
            thread.registration = some r ∧ signal'.kind = signal.kind ∧
            Fed [.counters] (w.setHand send .empty) (.thread t) signal' h
              (w.publishThreadSend send h).1.reply.published (w.publishThreadSend send h).2) := by
  unfold publishThreadSend
  split
  · next t r signal hsend hh =>
    split
    · exact .inl ⟨rfl, rfl⟩
    next thread ht =>
    split
    · exact .inl ⟨rfl, rfl⟩
    next m hm =>
    refine .inr ⟨t, r, signal, hsend, hh, ?_⟩
    dsimp only
    split
    · exact .inl ⟨.refl _ _, rfl⟩
    next hexact =>
    obtain ⟨hactive, -, hcur⟩ := not_not.mp hexact
    have heff : Frame [.counters] (w.setHand send .empty) _ :=
      (w.setHand send .empty).frame_effect thread.proc m signal.signo
    split
    · exact .inl ⟨heff, rfl⟩
    split
    · next heq =>
      obtain ⟨-, hquiet⟩ | ⟨-, -, -, -, -, -, -, ⟨⟩, -⟩ := publishThread_cases heq
      exact .inl ⟨heff.trans hquiet, rfl⟩
    · next heq =>
      obtain ⟨⟨⟩, -⟩ | ⟨-, signal', mid, old, hkind, hquiet, hq, ⟨⟩, rfl⟩ := publishThread_cases heq
      exact .inr ⟨thread, signal', ht, hactive, hcur, hkind, mid, old,
        heff.trans hquiet, hq, rfl, rfl⟩
  · exact .inl ⟨rfl, rfl⟩

/-- A record is put back into its queue, or the queue's process is gone and the record
stays with the caller. -/
theorem requeue_cases (w : World) (q : QueueId) (signal : DequeuedSignal) :
    w.requeue q signal = (refusedHand signal, w) ∨
      ∃ old, w.queue q = some old ∧
        w.requeue q signal = (.empty, w.storeQueue q (old.requeueFront signal) (some true)) := by
  unfold requeue
  split
  · next p pending hq =>
    split
    · exact .inl rfl
    · exact .inr ⟨pending, hq, rfl⟩
  · next t pending hq => exact .inr ⟨pending, hq, rfl⟩
  · exact .inl rfl

end World

end LinuxAbi.Signal
