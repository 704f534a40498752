import LinuxAbi.Fd.Epoll
import LinuxAbi.Lib.Tally
import Mathlib.Data.List.Perm.Subperm

/-!
# What one epoll call can do

As for the io-uring registry, the calls of `EpollCore` are inverted once into a
short list of labelled moves. `WF` ties the ready queue to the queued flags of
the entries: under it a push never finds the queue full, because the queued
tokens and the token to be pushed sit in different slots. The overflow paths of
the source (`ReadyQueueFull`, the rescan request and `RescanRequired`) are
therefore unreachable, and no move mentions them.
-/

namespace LinuxAbi.Fd

open List

universe u

variable {U S V : Type u}

/-! ## Events -/

/-- What a call makes observable. -/
inductive EpollEvent (U S : Type u)
  | published (token : EpollToken) (interest : EpollInterest U S)
  | retired (token : EpollToken)
  | accepted (token : EpollToken) (ready : ReadyMask)
  | committed (delivery : DeliveryToken)
  | finished (delivery : DeliveryToken) (outcome : DeliveryOutcome)
deriving DecidableEq

/-- The events a call and its reply stand for. -/
def epollEvents : EpollCall U S V → Except EpollError (EpollReply U S V) → List (EpollEvent U S)
  | .add interest, .ok (.token token) => [.published token interest]
  | .modify old interest, .ok (.replaced token _) => [.retired old, .published token interest]
  | .remove token, .ok _ => [.retired token]
  | .notify token ready, .ok (.notified .enqueued) => [.accepted token ready]
  | .notify token ready, .ok (.notified .coalesced) => [.accepted token ready]
  | .commitDelivery _ _, .ok (.committed event) => [.committed event.delivery]
  | .beginDelivery, .ok (.begun (some event)) => [.committed event.delivery]
  | .finishDelivery delivery outcome, .ok _ => [.finished delivery outcome]
  | _, _ => []

/-! ## Well-formedness -/

/-- What holds of every entry between calls. -/
structure EntryOk (nextGeneration nextDelivery : Nat) (e : Entry U S) : Prop where
  gen_lt : e.generation < nextGeneration
  queued_idle : e.queued = true → e.inDelivery = none
  disabled_idle : e.enabled = false → e.queued = false ∧ e.inDelivery = none
  wakeup : e.enabled = true → e.ready ≠ .empty → e.inDelivery = none → e.queued = true
  during : e.inDelivery = none → e.duringDelivery = .empty
  serial_lt : ∀ serial, e.inDelivery = some serial → serial < nextDelivery

variable {g d : Nat}

theorem EntryOk.mono (h : EntryOk g d e) (hg : g ≤ g') (hd : d ≤ d') : EntryOk g' d' e :=
  ⟨Nat.lt_of_lt_of_le h.gen_lt hg, h.queued_idle, h.disabled_idle, h.wakeup, h.during,
    fun serial hs => Nat.lt_of_lt_of_le (h.serial_lt serial hs) hd⟩

theorem EntryOk.fresh (interest : EpollInterest U S) :
    EntryOk (g + 1) d (Entry.fresh g interest) :=
  ⟨Nat.lt_succ_self g, fun _ => rfl, fun h => Bool.noConfusion h, fun _ h _ => absurd rfl h,
    fun _ => rfl, fun _ h => Option.noConfusion rfl (heq_of_eq h)⟩

/-- An entry in delivery is not queued. -/
theorem EntryOk.not_queued (h : EntryOk g d e)
    (hin : e.inDelivery = some serial) : e.queued = false := by
  cases hq : e.queued with
  | false => rfl
  | true =>
    have hnone := h.queued_idle hq
    rw [hin] at hnone
    cases hnone

/-! What a finished delivery leaves alone, and what it resets. -/

section Finished

variable (e : Entry U S) (events : ReadyMask) (outcome : DeliveryOutcome)

@[simp] theorem Entry.finished_generation : (e.finished events outcome).generation = e.generation := by
  cases outcome <;> rfl

@[simp] theorem Entry.finished_interest : (e.finished events outcome).interest = e.interest := by
  cases outcome <;> rfl

@[simp] theorem Entry.finished_queued : (e.finished events outcome).queued = e.queued := by
  cases outcome <;> rfl

@[simp] theorem Entry.finished_inDelivery : (e.finished events outcome).inDelivery = none := by
  cases outcome <;> rfl

@[simp] theorem Entry.finished_duringDelivery : (e.finished events outcome).duringDelivery = .empty := by
  cases outcome <;> rfl

end Finished

namespace EpollCore

/-- What holds of a core between calls. -/
structure WF (c : EpollCore U S) : Prop where
  ring : c.ready.Valid
  capacity : c.ready.capacity = c.entries.length
  nodup : c.ready.toList.Nodup
  queue : ∀ t, t ∈ c.ready.toList ↔ ∃ e, c.entry t = .ok e ∧ e.queued = true
  entries_ok : ∀ (i : Nat) (e : Entry U S), c.entries[i]? = some (some e) →
    EntryOk c.nextGeneration c.nextDelivery e
  no_rescan : c.rescan = none

/-! ## Lookups -/

variable {c c' : EpollCore U S} {t : EpollToken} {e e' : Entry U S}

theorem entry_eq_ok :
    c.entry t = .ok e ↔
      t.epoll = c.id ∧ c.entries[t.slot]? = some (some e) ∧ e.generation = t.generation := by
  unfold entry
  constructor
  · intro h
    split at h
    · cases h
    next hid =>
    split at h
    · next e' he' =>
      split at h
      · next hgen =>
        obtain rfl := Except.ok.inj h
        exact ⟨not_not.mp hid, he', hgen⟩
      · cases h
    · cases h
  · rintro ⟨hid, he, hgen⟩
    rw [if_neg (not_not.mpr hid), he]
    exact if_pos hgen

/-- Every failed lookup reports a stale token. -/
theorem entry_eq_error (h : c.entry t = .error x) : x = .staleToken := by
  unfold entry at h
  split at h
  · exact (Except.error.inj h).symm
  split at h
  · split at h
    · cases h
    · exact (Except.error.inj h).symm
  · exact (Except.error.inj h).symm

theorem WF.entryOk (hw : WF c)
    (he : c.entry t = .ok e) : EntryOk c.nextGeneration c.nextDelivery e :=
  hw.entries_ok t.slot e (entry_eq_ok.mp he).2.1

/-- Two live tokens of one slot are the same token. -/
theorem token_eq_of_slot_eq (h : c.entry t = .ok e) (h' : c.entry t' = .ok e')
    (hslot : t.slot = t'.slot) : t = t' := by
  obtain ⟨hid, he, hgen⟩ := entry_eq_ok.mp h
  obtain ⟨hid', he', hgen'⟩ := entry_eq_ok.mp h'
  rw [hslot, he'] at he
  cases he
  obtain ⟨epoll, slot, generation⟩ := t
  obtain ⟨epoll', slot', generation'⟩ := t'
  simp only at hid hid' hgen hgen' hslot
  rw [hid, hid', ← hgen, ← hgen', hslot]

/-- Lookups after the entry of a live token has been rewritten in place. -/
theorem entry_update (he : c.entry t = .ok e) (hid : c'.id = c.id)
    (hents : c'.entries = c.entries.set t.slot (some e')) (hgen : e'.generation = e.generation) :
    c'.entry t' = .ok f ↔ (t' = t ∧ f = e') ∨ (t' ≠ t ∧ c.entry t' = .ok f) := by
  obtain ⟨htid, htslot, htgen⟩ := entry_eq_ok.mp he
  have hi : t.slot < c.entries.length := Lib.lt_of_getElem? htslot
  by_cases hslot : t'.slot = t.slot
  · have hget : c'.entries[t'.slot]? = some (some e') := by
      rw [hents, hslot, List.getElem?_set_self hi]
    constructor
    · intro h
      obtain ⟨hid', hf, hgen'⟩ := entry_eq_ok.mp h
      rw [hget] at hf
      cases hf
      have hold : c.entry t' = .ok e :=
        entry_eq_ok.mpr ⟨hid'.trans hid, hslot ▸ htslot, hgen.symm.trans hgen'⟩
      exact .inl ⟨token_eq_of_slot_eq hold he hslot, rfl⟩
    · rintro (⟨rfl, rfl⟩ | ⟨hne, h⟩)
      · exact entry_eq_ok.mpr ⟨htid.trans hid.symm, hget, hgen.trans htgen⟩
      · exact absurd (token_eq_of_slot_eq h he hslot) hne
  · have hget : c'.entries[t'.slot]? = c.entries[t'.slot]? := by
      rw [hents, getElem?_set_ne (Ne.symm hslot)]
    have hne : t' ≠ t := fun h => hslot (congrArg EpollToken.slot h)
    rw [entry_eq_ok, entry_eq_ok, hget, hid]
    simp [hne]

/-- Lookups after a slot has been given new contents. -/
theorem entry_reslot (hslot : slot < c.entries.length)
    (hid : c'.id = c.id) (hents : c'.entries = c.entries.set slot new) :
    c'.entry t = .ok f ↔
      (t.slot = slot ∧ t.epoll = c.id ∧ new = some f ∧ f.generation = t.generation) ∨
        (t.slot ≠ slot ∧ c.entry t = .ok f) := by
  rw [entry_eq_ok, entry_eq_ok, hid, hents]
  by_cases h : t.slot = slot
  · rw [h, getElem?_set_self hslot]
    simp
  · rw [getElem?_set_ne (Ne.symm h)]
    simp [h]

/-! ## The two kinds of write -/

/-- Rewriting one live entry in place keeps the core well formed if the entry is
left in order and the queue follows its flag. -/
theorem WF.update (hw : WF c) (he : c.entry t = .ok e) (hid : c'.id = c.id)
    (hents : c'.entries = c.entries.set t.slot (some e')) (hgen : e'.generation = e.generation)
    (hnext : c'.nextGeneration = c.nextGeneration) (hser : c.nextDelivery ≤ c'.nextDelivery)
    (hok : EntryOk c'.nextGeneration c'.nextDelivery e') (hrescan : c'.rescan = c.rescan)
    (hring : c'.ready.Valid) (hcap : c'.ready.capacity = c.ready.capacity)
    (hnodup : c'.ready.toList.Nodup) (hqueue : ∀ u, u ∈ c'.ready.toList ↔
      (u = t ∧ e'.queued = true) ∨ (u ≠ t ∧ u ∈ c.ready.toList)) : WF c' := by
  refine ⟨hring, ?_, hnodup, ?_, ?_, hrescan.trans hw.no_rescan⟩
  · rw [hcap, hents, length_set]
    exact hw.capacity
  · intro u
    simp only [hqueue u, hw.queue u, entry_update he hid hents hgen]
    constructor
    · rintro (⟨rfl, hq⟩ | ⟨hne, f, hf, hq⟩)
      · exact ⟨e', .inl ⟨rfl, rfl⟩, hq⟩
      · exact ⟨f, .inr ⟨hne, hf⟩, hq⟩
    · rintro ⟨f, ⟨rfl, rfl⟩ | ⟨hne, hf⟩, hq⟩
      · exact .inl ⟨rfl, hq⟩
      · exact .inr ⟨hne, f, hf, hq⟩
  · intro i f hf
    rw [hents] at hf
    rcases Lib.getElem?_set_cases hf with ⟨rfl, heq⟩ | ⟨-, hf⟩
    · cases heq
      exact hok
    · exact (hw.entries_ok i f hf).mono (Nat.le_of_eq hnext.symm) hser

/-- Giving a slot new, unqueued contents keeps the core well formed if the slot's
old token leaves the queue. -/
theorem WF.reslot (hw : WF c) (hslot : slot < c.entries.length) (hid : c'.id = c.id)
    (hents : c'.entries = c.entries.set slot new) (hnext : c.nextGeneration ≤ c'.nextGeneration)
    (hser : c'.nextDelivery = c.nextDelivery) (hok : ∀ e, new = some e →
      EntryOk c'.nextGeneration c'.nextDelivery e ∧ e.queued = false)
    (hrescan : c'.rescan = c.rescan) (hring : c'.ready.Valid)
    (hcap : c'.ready.capacity = c.ready.capacity) (hnodup : c'.ready.toList.Nodup)
    (hqueue : ∀ u, u ∈ c'.ready.toList ↔ u.slot ≠ slot ∧ u ∈ c.ready.toList) : WF c' := by
  refine ⟨hring, ?_, hnodup, ?_, ?_, hrescan.trans hw.no_rescan⟩
  · rw [hcap, hents, length_set]
    exact hw.capacity
  · intro u
    simp only [hqueue u, hw.queue u, entry_reslot hslot hid hents]
    constructor
    · rintro ⟨hne, f, hf, hq⟩
      exact ⟨f, .inr ⟨hne, hf⟩, hq⟩
    · rintro ⟨f, ⟨-, -, hnew, -⟩ | ⟨hne, hf⟩, hq⟩
      · rw [(hok f hnew).2] at hq
        cases hq
      · exact ⟨hne, f, hf, hq⟩
  · intro i f hf
    rw [hents] at hf
    rcases Lib.getElem?_set_cases hf with ⟨rfl, heq⟩ | ⟨-, hf⟩
    · exact (hok f heq.symm).1
    · exact (hw.entries_ok i f hf).mono hnext (Nat.le_of_eq hser.symm)

/-- The queued tokens sit in different slots, and a live token that is not
queued sits in yet another one: there is room for it. -/
theorem WF.room (hw : WF c) (he : c.entry t = .ok e) (hq : e.queued = false) :
    c.ready.toList.length < c.ready.capacity := by
  have hnot : t ∉ c.ready.toList := by
    intro hmem
    obtain ⟨f, hf, hfq⟩ := (hw.queue t).mp hmem
    rw [he] at hf
    cases hf
    rw [hq] at hfq
    cases hfq
  have hlive : ∀ u ∈ t :: c.ready.toList, ∃ f, c.entry u = .ok f := by
    intro u hu
    rcases mem_cons.mp hu with rfl | hu
    · exact ⟨e, he⟩
    · obtain ⟨f, hf, -⟩ := (hw.queue u).mp hu
      exact ⟨f, hf⟩
  have hnodup : ((t :: c.ready.toList).map EpollToken.slot).Nodup := by
    refine Nodup.map_on ?_ (nodup_cons.mpr ⟨hnot, hw.nodup⟩)
    intro u hu v hv huv
    obtain ⟨f, hf⟩ := hlive u hu
    obtain ⟨g, hg⟩ := hlive v hv
    exact token_eq_of_slot_eq hf hg huv
  have hsub : (t :: c.ready.toList).map EpollToken.slot ⊆ range c.entries.length := by
    intro i hi
    obtain ⟨u, hu, rfl⟩ := List.mem_map.mp hi
    obtain ⟨f, hf⟩ := hlive u hu
    rw [List.mem_range]
    exact (Lib.lt_of_getElem? (entry_eq_ok.mp hf).2.1)
  have hlen := (hnodup.subperm hsub).length_le
  rw [List.length_map, List.length_cons, List.length_range] at hlen
  rw [hw.capacity]
  exact hlen

/-! ## The moves -/

/-- Rewrites one entry and the queue. -/
def put (c : EpollCore U S) (slot : Nat) (e : Entry U S) (ready : ReadyQueue) : EpollCore U S :=
  { c.setEntry slot e with ready }

/-- Gives a slot new contents under the next generation. -/
def renew (c : EpollCore U S) (slot : Nat) (interest : EpollInterest U S) (ready : ReadyQueue) :
    EpollCore U S :=
  { c.put slot (.fresh c.nextGeneration interest) ready with
    nextGeneration := c.nextGeneration + 1 }

/-- Everything one call can do to a core. -/
inductive Move (c : EpollCore U S) : List (EpollEvent U S) → EpollCore U S → Prop
  | refuse : Move c [] c
  | publish {slot : Nat} (interest : EpollInterest U S) (hslot : c.entries[slot]? = some none) :
      Move c [.published ⟨c.id, slot, c.nextGeneration⟩ interest] (c.renew slot interest c.ready)
  | replace (interest : EpollInterest U S) (he : c.entry u = .ok f) :
      Move c [.retired u, .published ⟨c.id, u.slot, c.nextGeneration⟩ interest]
        (c.renew u.slot interest (c.ready.remove u))
  | remove (he : c.entry u = .ok f) :
      Move c [.retired u]
        { c with entries := c.entries.set u.slot none, ready := c.ready.remove u }
  -- a notification during a delivery is set aside
  | absorb (ready : ReadyMask) (he : c.entry u = .ok f) (hen : f.enabled = true)
      (hin : f.inDelivery ≠ none) :
      Move c [.accepted u ready] (c.put u.slot
        { f with duringDelivery := f.duringDelivery ||| ready.deliverable f.interest.interest }
        c.ready)
  -- a notification of a queued interest is merged into it
  | merge (ready : ReadyMask) (he : c.entry u = .ok f) (hq : f.queued = true) :
      Move c [.accepted u ready] (c.put u.slot
        { f with ready := f.ready ||| ready.deliverable f.interest.interest } c.ready)
  | wake (ready : ReadyMask) (he : c.entry u = .ok f) (hen : f.enabled = true)
      (hin : f.inDelivery = none) (hq : f.queued = false) (hpush : c.ready.push u = some ready') :
      Move c [.accepted u ready] (c.put u.slot
        { f with ready := f.ready ||| ready.deliverable f.interest.interest, queued := true }
        ready')
  | commit (he : c.entry u = .ok f) (hq : f.queued = true) (hpeek : c.ready.peek = some u) :
      Move c [.committed ⟨u, c.nextDelivery, f.ready⟩]
        { c.put u.slot
            { f with queued := false, inDelivery := some c.nextDelivery, ready := .empty }
            c.ready.pop with
          nextDelivery := c.nextDelivery + 1 }
  | finish {d : DeliveryToken} {e : Entry U S} (outcome : DeliveryOutcome)
      (he : c.entry d.interest = .ok e) (hin : e.inDelivery = some d.serial)
      (hidle : (e.finished d.events outcome).enabled = true →
        (e.finished d.events outcome).ready = .empty) :
      Move c [.finished d outcome] (c.put d.interest.slot (e.finished d.events outcome) c.ready)
  | requeue {d : DeliveryToken} {e : Entry U S} {ready' : ReadyQueue} (outcome : DeliveryOutcome)
      (he : c.entry d.interest = .ok e) (hin : e.inDelivery = some d.serial)
      (hen : (e.finished d.events outcome).enabled = true)
      (hpush : c.ready.push d.interest = some ready') :
      Move c [.finished d outcome] (c.put d.interest.slot
        { e.finished d.events outcome with queued := true } ready')

/-- The move a call makes, labelled with the events its reply stands for. -/
abbrev CallMove (c : EpollCore U S) (call : EpollCall U S V) : Prop :=
  Move c (epollEvents call (c.call call).1) (c.call call).2

section

variable (c : EpollCore U S)

theorem allocateGeneration_cases :
    c.allocateGeneration = (.error .generationExhausted, c) ∨
      c.allocateGeneration
        = (.ok c.nextGeneration, { c with nextGeneration := c.nextGeneration + 1 }) := by
  unfold allocateGeneration
  split
  · exact .inr rfl
  · exact .inl rfl

theorem allocateDelivery_cases :
    c.allocateDelivery = (.error .generationExhausted, c) ∨
      c.allocateDelivery
        = (.ok c.nextDelivery, { c with nextDelivery := c.nextDelivery + 1 }) := by
  unfold allocateDelivery
  split
  · exact .inr rfl
  · exact .inl rfl

/-! ### Interest control -/

theorem add_move (interest : EpollInterest U S) : CallMove c (.add interest : EpollCall U S V) := by
  dsimp only [CallMove, call, add]
  split
  · exact .refuse
  split
  · exact .refuse
  split
  · exact .refuse
  next slot hfind =>
  have hslot : c.entries[slot]? = some none := by
    obtain ⟨hlt, hnone, -⟩ := findIdx?_eq_some_iff_getElem.mp hfind
    rw [getElem?_eq_getElem hlt, Option.isNone_iff_eq_none.mp hnone]
  rcases c.allocateGeneration_cases with h | h
  · rw [h]
    exact .refuse
  · rw [h]
    exact .publish interest hslot

theorem modify_move (t : EpollToken) (replacement : EpollInterest U S) :
    CallMove c (.modify t replacement : EpollCall U S V) := by
  dsimp only [CallMove, call, modify]
  split
  · exact .refuse
  cases he : c.entry t with
  | error x => exact .refuse
  | ok e =>
    dsimp only
    split
    · exact .refuse
    rcases c.allocateGeneration_cases with h | h
    · rw [h]
      exact .refuse
    rw [h]
    dsimp only
    rw [(entry_eq_ok.mp he).2.1]
    exact .replace replacement he

theorem remove_move (t : EpollToken) : CallMove c (.remove t : EpollCall U S V) := by
  dsimp only [CallMove, call, remove]
  split
  · exact .refuse
  next e he =>
  rw [(entry_eq_ok.mp he).2.1]
  exact .remove he

/-! ### Readiness and delivery -/

theorem setEntry_setEntry (slot : Nat) (e e' : Entry U S) :
    (c.setEntry slot e).setEntry slot e' = c.setEntry slot e' := by
  unfold setEntry
  rw [set_set]

end

theorem entry_setEntry (he : c.entry t = .ok e) (hgen : e'.generation = e.generation) :
    (c.setEntry t.slot e').entry t = .ok e' := by
  have hid : (c.setEntry t.slot e').id = c.id := rfl
  exact (entry_update he hid rfl hgen).mpr (.inl ⟨rfl, rfl⟩)

/-- Under `WF` the queueing tail always succeeds. -/
theorem WF.enqueue_eq (hw : WF c) (he : c.entry t = .ok e) (hq : e.queued = false) (e' : Entry U S)
    (hgen : e'.generation = e.generation) :
    ∃ ready', c.ready.push t = some ready' ∧
      (c.setEntry t.slot e').enqueue t = (.ok (), c.put t.slot { e' with queued := true } ready') := by
  obtain ⟨ready', hpush, -⟩ := hw.ring.push (hw.room he hq) t
  refine ⟨ready', hpush, ?_⟩
  have hpush' : (c.setEntry t.slot e').ready.push t = some ready' := hpush
  have hentry : ({ c.setEntry t.slot e' with ready := ready' } : EpollCore U S).entry t = .ok e' :=
    entry_setEntry he hgen
  unfold enqueue
  rw [hpush']
  dsimp only
  rw [hentry]
  show (_, ({ c.setEntry t.slot e' with ready := ready' } : EpollCore U S).setEntry t.slot _) = _
  unfold put
  rw [← setEntry_setEntry c t.slot e' { e' with queued := true }]
  rfl

theorem WF.notify_move (hw : WF c) (t : EpollToken) (ready : ReadyMask) :
    CallMove c (.notify t ready : EpollCall U S V) := by
  dsimp only [CallMove, call, notify]
  split
  · exact .refuse
  next e he =>
  split
  · exact .refuse
  next hen =>
  have hen' : e.enabled = true := by simpa using hen
  split
  · exact .refuse
  split
  · next hin => exact .absorb ready he hen' (Option.isSome_iff_ne_none.mp hin)
  next hin =>
  have hin' : e.inDelivery = none := by simpa using hin
  split
  · next hq => exact .merge ready he hq
  next hq =>
  have hq' : e.queued = false := by simpa using hq
  obtain ⟨ready', hpush, heq⟩ := hw.enqueue_eq he hq'
    { e with ready := e.ready ||| ready.deliverable e.interest.interest } rfl
  rw [heq]
  exact .wake ready he hen' hin' hq' hpush

/-- The head of the queue is always a valid candidate. -/
theorem WF.prepareDelivery_eq (hw : WF c) :
    c.prepareDelivery = (.ok (c.ready.peek.map fun t => ⟨t⟩), c) := by
  have hlen := hw.ring.length_toList
  have hpeek := hw.ring.peek_eq
  unfold prepareDelivery
  cases hn : c.ready.len with
  | zero =>
    rw [hn] at hlen
    rw [eq_nil_of_length_eq_zero hlen] at hpeek
    rw [hpeek]
    show (if c.rescan.isSome then _ else _) = _
    rw [hw.no_rescan]
    rfl
  | succ n =>
    rw [hn] at hlen
    obtain ⟨t, rest, hlist⟩ := exists_cons_of_length_eq_add_one hlen
    rw [hlist] at hpeek
    obtain ⟨e, he, hq⟩ := (hw.queue t).mp (by rw [hlist]; exact mem_cons_self)
    have hval : c.isQueued t = true := by
      unfold isQueued
      rw [he]
      exact hq
    unfold prepareLoop
    rw [hpeek]
    simp [hval]

theorem commitDelivery_cases (c : EpollCore U S) (p : DeliveryPreparation) (userData : V) :
    (∃ x, c.commitDelivery p userData = (.error ⟨x, userData⟩, c)) ∨
      ∃ e, c.entry p.interest = .ok e ∧ e.queued = true ∧ c.ready.peek = some p.interest ∧
        c.commitDelivery p userData =
          (.ok ⟨⟨p.interest, c.nextDelivery, e.ready⟩, e.ready, userData⟩,
            { c.put p.interest.slot
                { e with queued := false, inDelivery := some c.nextDelivery, ready := .empty }
                c.ready.pop with
              nextDelivery := c.nextDelivery + 1 }) := by
  unfold commitDelivery
  dsimp only
  split
  · exact .inl ⟨_, rfl⟩
  next hval =>
  obtain ⟨hpeek, hq⟩ := not_not.mp hval
  unfold isQueued at hq
  split at hq
  · next e he =>
    rcases c.allocateDelivery_cases with h | h
    · rw [h]
      exact .inl ⟨_, rfl⟩
    right
    rw [h]
    refine ⟨e, he, hq, hpeek, ?_⟩
    have hentry : ({ c with ready := c.ready.pop, nextDelivery := c.nextDelivery + 1 }
        : EpollCore U S).entry p.interest = .ok e := he
    dsimp only
    rw [hentry]
    rfl
  · cases hq

theorem commitDelivery_move (c : EpollCore U S) (p : DeliveryPreparation) (userData : V) :
    CallMove c (.commitDelivery p userData : EpollCall U S V) := by
  show Move c (epollEvents _ (((c.commitDelivery p userData).1.map _).mapError _))
    (c.commitDelivery p userData).2
  rcases c.commitDelivery_cases p userData with ⟨x, h⟩ | ⟨e, he, hq, hpeek, h⟩
  · rw [h]
    exact .refuse
  · rw [h]
    exact .commit he hq hpeek

theorem WF.beginDelivery_move (hw : WF c) : CallMove c (.beginDelivery : EpollCall U S V) := by
  dsimp only [CallMove, call, beginDelivery]
  rw [hw.prepareDelivery_eq]
  cases hpeek : c.ready.peek with
  | none => exact .refuse
  | some t =>
    dsimp only [Option.map]
    cases he : c.entry t with
    | error x => exact .refuse
    | ok e =>
      dsimp only
      rcases c.commitDelivery_cases ⟨t⟩ e.interest.userData with ⟨x, h⟩ | ⟨e', he', hq, hpeek', h⟩
      · rw [h]
        exact .refuse
      · rw [h]
        exact .commit he' hq hpeek'

theorem WF.finishDelivery_move (hw : WF c) (d : DeliveryToken)
    (outcome : DeliveryOutcome) : CallMove c (.finishDelivery d outcome : EpollCall U S V) := by
  dsimp only [CallMove, call, finishDelivery]
  split
  · exact .refuse
  next e he =>
  split
  · exact .refuse
  next hin =>
  have hin' : e.inDelivery = some d.serial := not_not.mp hin
  have hq : e.queued = false := (hw.entryOk he).not_queued hin'
  split
  · next hcond =>
    obtain ⟨ready', hpush, heq⟩ := hw.enqueue_eq he hq (e.finished d.events outcome)
      (e.finished_generation d.events outcome)
    rw [heq]
    exact .requeue outcome he hin' hcond.1 hpush
  · next hcond =>
    refine .finish outcome he hin' ?_
    intro hen
    by_contra hready
    refine hcond ⟨hen, hready, ?_⟩
    rw [e.finished_queued, hq]
    exact Bool.false_ne_true

theorem WF.rescanReady_move (hw : WF c) (token : RescanToken)
    (maxEntries : Nat) : CallMove c (.rescanReady token maxEntries : EpollCall U S V) := by
  dsimp only [CallMove, call, rescanReady]
  rw [hw.no_rescan]
  exact .refuse

/-- **Every call on a well-formed core is one of the moves.** -/
theorem WF.call_move (hw : WF c) (call : EpollCall U S V) : CallMove c call := by
  cases call with
  | add interest => exact add_move c interest
  | modify t replacement => exact modify_move c t replacement
  | remove t => exact remove_move c t
  | notify t ready => exact hw.notify_move t ready
  | prepareDelivery =>
    show Move c (epollEvents _ (c.prepareDelivery.1.map _)) c.prepareDelivery.2
    rw [hw.prepareDelivery_eq]
    exact .refuse
  | commitDelivery p userData => exact commitDelivery_move c p userData
  | beginDelivery => exact hw.beginDelivery_move
  | finishDelivery d outcome => exact hw.finishDelivery_move d outcome
  | rescanReady token maxEntries => exact hw.rescanReady_move token maxEntries

end EpollCore

end LinuxAbi.Fd
