import LinuxAbi.Fd.EpollMoves

/-!
# The ready queue is exact

Every move keeps `WF`: the queue lists each queued entry once and nothing else,
and an entry is never queued and in delivery at the same time. The overflow
paths of the source are dead code in every reachable core.
-/

namespace LinuxAbi.Fd

open Nat
open List
open Lib (RingBuffer run events)

universe u

variable {U S V : Type u}

namespace EpollCore

/-! ## What each kind of move does to the queue -/

section Queue

variable {c : EpollCore U S} {t : EpollToken} {e : Entry U S}

/-- The queue seen from one live token. -/
theorem WF.mem_queue_iff (hw : WF c) (he : c.entry t = .ok e) (u : EpollToken) :
    u ∈ c.ready.toList ↔ (u = t ∧ e.queued = true) ∨ (u ≠ t ∧ u ∈ c.ready.toList) := by
  by_cases hut : u = t
  · subst hut
    rw [hw.queue u]
    constructor
    · rintro ⟨f, hf, hq⟩
      rw [he] at hf
      cases hf
      exact .inl ⟨rfl, hq⟩
    · rintro (⟨-, hq⟩ | ⟨hne, -⟩)
      · exact ⟨e, he, hq⟩
      · exact absurd rfl hne
  · simp [hut]

/-- Removing a live token empties its slot of queued tokens. -/
theorem WF.mem_remove_iff (hw : WF c) (he : c.entry t = .ok e) (u : EpollToken) :
    u ∈ (c.ready.remove t).toList ↔ u.slot ≠ t.slot ∧ u ∈ c.ready.toList := by
  rw [(hw.ring.remove t).2.2, mem_filter, decide_eq_true_iff]
  constructor
  · rintro ⟨hmem, hne⟩
    refine ⟨fun hslot => hne ?_, hmem⟩
    obtain ⟨f, hf, -⟩ := (hw.queue u).mp hmem
    exact token_eq_of_slot_eq hf he hslot
  · rintro ⟨hslot, hmem⟩
    exact ⟨hmem, fun h => hslot (congrArg EpollToken.slot h)⟩

theorem WF.nodup_remove (hw : WF c) (t : EpollToken) : (c.ready.remove t).toList.Nodup := by
  rw [(hw.ring.remove t).2.2]
  exact hw.nodup.filter _

/-- A token whose entry is not queued is not in the queue. -/
theorem WF.not_mem_of_not_queued (hw : WF c) (he : c.entry t = .ok e) (hq : e.queued = false) :
    t ∉ c.ready.toList := by
  intro hmem
  rcases (hw.mem_queue_iff he t).mp hmem with ⟨-, hq'⟩ | ⟨hne, -⟩
  · rw [hq] at hq'
    cases hq'
  · exact hne rfl

/-- A successful push of a live token that is not queued. -/
theorem WF.push_spec (hw : WF c) (he : c.entry t = .ok e) (hq : e.queued = false)
    (hpush : c.ready.push t = some ready') :
    ready'.Valid ∧ ready'.capacity = c.ready.capacity ∧ ready'.toList.Nodup ∧
      ∀ u, u ∈ ready'.toList ↔ (u = t ∧ true = true) ∨ (u ≠ t ∧ u ∈ c.ready.toList) := by
  obtain ⟨ready'', hpush'', hval, hcap, hlist⟩ := hw.ring.push (hw.room he hq) t
  rw [hpush] at hpush''
  cases hpush''
  have hnot := hw.not_mem_of_not_queued he hq
  refine ⟨hval, hcap, ?_, ?_⟩
  · rw [hlist]
    exact nodup_append_comm.mp (nodup_cons.mpr ⟨hnot, hw.nodup⟩)
  · intro u
    rw [hlist, mem_append, mem_singleton]
    by_cases hut : u = t
    · simp [hut]
    · simp [hut]

/-- Popping a live token from the head. -/
theorem WF.pop_spec (hw : WF c) (hpeek : c.ready.peek = some t) :
    c.ready.pop.Valid ∧ c.ready.pop.capacity = c.ready.capacity ∧ c.ready.pop.toList.Nodup ∧
      ∀ u, u ∈ c.ready.pop.toList ↔ (u = t ∧ false = true) ∨ (u ≠ t ∧ u ∈ c.ready.toList) := by
  obtain ⟨hval, hcap, hlist⟩ := hw.ring.pop
  have hnodup := hw.nodup
  rw [hw.ring.peek_eq] at hpeek
  obtain ⟨rest, hrest⟩ := head?_eq_some_iff.mp hpeek
  rw [hrest] at hlist hnodup
  obtain ⟨hnot, hrestNodup⟩ := nodup_cons.mp hnodup
  refine ⟨hval, hcap, hlist ▸ hrestNodup, ?_⟩
  intro u
  rw [hlist, hrest, tail_cons, mem_cons]
  by_cases hut : u = t
  · subst hut
    simp [hnot]
  · simp [hut]

end Queue

variable {c : EpollCore U S} {readyReserved entriesReserved : Bool} {id : EpollId} {capacity : Nat}

/-- **Every move keeps the core well formed.** -/
theorem Move.wf (hm : Move c evs c') (hw : WF c) : WF c' := by
  cases hm with
  | refuse => exact hw
  | @publish slot interest hslot =>
    have hlt : slot < c.entries.length := Lib.lt_of_getElem? hslot
    refine hw.reslot hlt rfl rfl (le_succ _) rfl ?_ rfl hw.ring rfl hw.nodup ?_
    · rintro e ⟨⟩
      exact ⟨EntryOk.fresh interest, rfl⟩
    · intro u
      refine ⟨fun hmem => ⟨?_, hmem⟩, And.right⟩
      -- the slot was empty, so no queued token points at it
      rintro rfl
      obtain ⟨f, hf, -⟩ := (hw.queue u).mp hmem
      rw [(entry_eq_ok.mp hf).2.1] at hslot
      cases hslot
  | @replace t e interest he =>
    have hlt := Lib.lt_of_getElem? (entry_eq_ok.mp he).2.1
    obtain ⟨hval, hcap, -⟩ := hw.ring.remove t
    refine hw.reslot hlt rfl rfl (le_succ _) rfl ?_ rfl hval hcap (hw.nodup_remove t)
      (hw.mem_remove_iff he)
    rintro f ⟨⟩
    exact ⟨EntryOk.fresh interest, rfl⟩
  | @remove t e he =>
    have hlt := Lib.lt_of_getElem? (entry_eq_ok.mp he).2.1
    obtain ⟨hval, hcap, -⟩ := hw.ring.remove t
    refine hw.reslot hlt rfl rfl (le_refl _) rfl ?_ rfl hval hcap (hw.nodup_remove t)
      (hw.mem_remove_iff he)
    rintro f ⟨⟩
  | @absorb t e ready he hen hin =>
    have hok := hw.entryOk he
    have hqueue := hw.mem_queue_iff he
    refine hw.update he rfl rfl rfl rfl (le_refl _) ?_ rfl hw.ring rfl hw.nodup hqueue
    exact ⟨hok.gen_lt, hok.queued_idle, hok.disabled_idle, hok.wakeup,
      fun h => absurd h hin, hok.serial_lt⟩
  | @merge t e ready he hq =>
    have hok := hw.entryOk he
    have hqueue := hw.mem_queue_iff he
    refine hw.update he rfl rfl rfl rfl (le_refl _) ?_ rfl hw.ring rfl hw.nodup hqueue
    exact ⟨hok.gen_lt, hok.queued_idle, hok.disabled_idle, fun _ _ _ => hq, hok.during,
      hok.serial_lt⟩
  | @wake t e ready' ready he hen hin hq hpush =>
    have hok := hw.entryOk he
    obtain ⟨hval, hcap, hnodup, hqueue⟩ := hw.push_spec he hq hpush
    refine hw.update he rfl rfl rfl rfl (le_refl _) ?_ rfl hval hcap hnodup hqueue
    refine ⟨hok.gen_lt, fun _ => hin, fun h => ?_, fun _ _ _ => rfl, hok.during, hok.serial_lt⟩
    exact absurd (hen.symm.trans h) (by decide)
  | @commit t e he hq hpeek =>
    have hok := hw.entryOk he
    obtain ⟨hval, hcap, hnodup, hqueue⟩ := hw.pop_spec hpeek
    refine hw.update he rfl rfl rfl rfl (le_succ _) ?_ rfl hval hcap hnodup hqueue
    refine ⟨hok.gen_lt, fun h => Bool.noConfusion h, fun h => ?_, fun _ h _ => absurd rfl h,
      fun h => Option.noConfusion rfl (heq_of_eq h), ?_⟩
    · -- a queued entry is enabled
      have hidle := (hok.disabled_idle h).1
      rw [hq] at hidle
      cases hidle
    · rintro serial ⟨⟩
      exact lt_succ_self _
  | @finish d e outcome he hin hidle =>
    have hok := hw.entryOk he
    have hq := hok.not_queued hin
    refine hw.update he rfl rfl (by simp) rfl (le_refl _) ?_ rfl hw.ring rfl hw.nodup ?_
    · refine ⟨lt_of_eq_of_lt (e.finished_generation d.events outcome) hok.gen_lt,
        fun _ => by simp, fun _ => ⟨by simpa using hq, by simp⟩,
        fun hen hready _ => absurd (hidle hen) hready, fun _ => by simp, by simp⟩
    · intro u
      rw [e.finished_queued]
      exact hw.mem_queue_iff he u
  | @requeue d e ready' outcome he hin hen hpush =>
    have hok := hw.entryOk he
    obtain ⟨hval, hcap, hnodup, hqueue⟩ := hw.push_spec he (hok.not_queued hin) hpush
    refine hw.update he rfl rfl (by simp) rfl (le_refl _) ?_ rfl hval hcap hnodup hqueue
    refine ⟨lt_of_eq_of_lt (e.finished_generation d.events outcome) hok.gen_lt,
      fun _ => by simp, fun h => ?_, fun _ _ _ => rfl, fun _ => by simp, by simp⟩
    exact absurd (hen.symm.trans h) (by decide)

/-! ## Construction and runs -/

section

variable (h : tryNew readyReserved entriesReserved id capacity = .ok c)
include h

/-- What `try_new` builds. -/
theorem tryNew_eq_ok :
    c = { id, entries := List.replicate capacity none
          ready := ⟨List.replicate capacity ⟨id, 0, 0⟩, 0, 0⟩
          nextGeneration := 1, nextDelivery := 1, nextRescan := 1, rescan := none } := by
  unfold tryNew ReadyQueue.tryNew at h
  split at h
  · cases h
  split at h
  · cases h
  next ready hready =>
  split at hready
  · cases hready
  obtain rfl := Except.ok.inj hready
  split at h
  · cases h
  · exact (Except.ok.inj h).symm

/-- A new core has no live token. -/
theorem tryNew_entry (t : EpollToken) (e : Entry U S) : c.entry t ≠ .ok e := by
  obtain rfl := tryNew_eq_ok h
  intro he
  have hmem := mem_of_getElem? (entry_eq_ok.mp he).2.1
  exact absurd (eq_of_mem_replicate hmem) (by simp)

theorem tryNew_wf : WF c := by
  have hnone := tryNew_entry h
  obtain rfl := tryNew_eq_ok h
  refine ⟨⟨fun hpos => hpos, zero_le _⟩, ?_, ?_, ?_, ?_, rfl⟩
  · simp [RingBuffer.capacity]
  · simp [RingBuffer.toList]
  · intro t
    simp only [RingBuffer.toList, take_zero, not_mem_nil, false_iff]
    rintro ⟨e, he, -⟩
    exact hnone t e he
  · intro i e he
    exact absurd (eq_of_mem_replicate (mem_of_getElem? he)) (by simp)

end

theorem run_wf (hw : WF c) (calls : List (EpollCall U S V)) :
    WF (run call c calls) :=
  Lib.run_preserves (fun _ call h => (h.call_move call).wf h) hw calls

/-- What is observable along a run. -/
abbrev history (c : EpollCore U S) (calls : List (EpollCall U S V)) : List (EpollEvent U S) :=
  events call epollEvents c calls

/-! ## The overflow paths are dead -/

theorem WF.notify_ne_full (hw : WF c) (t : EpollToken) (ready : ReadyMask) :
    (c.notify t ready).1 ≠ .error .readyQueueFull := by
  unfold notify
  split
  · next x hx =>
    rw [entry_eq_error hx]
    simp
  · next e he =>
    split
    · simp
    dsimp only
    split
    · simp
    split
    · simp
    split
    · simp
    next hq =>
    obtain ⟨ready', -, heq⟩ := hw.enqueue_eq he (by simpa using hq)
      { e with ready := e.ready ||| ready.deliverable e.interest.interest } rfl
    rw [heq]
    simp

/-- A finished delivery succeeds exactly when its serial is in flight. -/
theorem WF.finishDelivery_cases (hw : WF c) (d : DeliveryToken) (outcome : DeliveryOutcome) :
    c.finishDelivery d outcome = (.error .staleToken, c) ∨
      (c.finishDelivery d outcome).1 = .ok () ∧
        ∃ e, c.entry d.interest = .ok e ∧ e.inDelivery = some d.serial := by
  unfold finishDelivery
  dsimp only
  split
  · next x hx =>
    rw [entry_eq_error hx]
    exact .inl rfl
  · next e he =>
    split
    · exact .inl rfl
    next hin =>
    right
    have hin' : e.inDelivery = some d.serial := not_not.mp hin
    refine ⟨?_, e, he, hin'⟩
    split
    · obtain ⟨ready', -, heq⟩ := hw.enqueue_eq he ((hw.entryOk he).not_queued hin')
        (e.finished d.events outcome) (e.finished_generation d.events outcome)
      rw [heq]
    · rfl

/-- **The ready queue is exact.** In every state a core reaches under any calls
with any tokens, the queue holds distinct tokens, a token is queued exactly when
its live entry carries the queued flag, no entry is queued and in delivery, and
the overflow errors and the rescan request never occur. -/
theorem run_queue_exact {readyReserved entriesReserved : Bool} {id : EpollId} {capacity : Nat}
    {c₀ : EpollCore U S} (hnew : tryNew readyReserved entriesReserved id capacity = .ok c₀)
    (calls : List (EpollCall U S V)) :
    let c := run call c₀ calls
    c.ready.toList.length = c.ready.len ∧ c.ready.toList.Nodup ∧
      (∀ t, t ∈ c.ready.toList ↔ ∃ e, c.entry t = .ok e ∧ e.queued = true) ∧
      (∀ (i : Nat) (e : Entry U S), c.entries[i]? = some (some e) →
        ¬ (e.queued = true ∧ e.inDelivery.isSome = true)) ∧
      (∀ t ready, (c.notify t ready).1 ≠ .error .readyQueueFull) ∧
      (∀ d outcome, (c.finishDelivery d outcome).1 ≠ .error .readyQueueFull) ∧
      c.needsRescan = false ∧ c.prepareDelivery.1 ≠ .error .rescanRequired := by
  intro c
  have hw : WF c := run_wf (tryNew_wf hnew) calls
  refine ⟨hw.ring.length_toList, hw.nodup, hw.queue, ?_, hw.notify_ne_full, ?_, ?_, ?_⟩
  · rintro i e he ⟨hq, hin⟩
    rw [(hw.entries_ok i e he).queued_idle hq] at hin
    cases hin
  · intro d outcome
    rcases hw.finishDelivery_cases d outcome with h | ⟨h, -⟩
    · rw [h]
      simp
    · rw [h]
      simp
  · unfold needsRescan
    rw [hw.no_rescan]
    rfl
  · rw [hw.prepareDelivery_eq]
    simp

/-- One interest, woken, delivered, woken again during the delivery, and faulted. -/
def faultingCalls : List (EpollCall Unit Unit Unit) :=
  let token : EpollToken := ⟨⟨.one⟩, 0, 1⟩
  [.add ⟨⟨⟨.one⟩, ⟨3⟩⟩, 1, ⟨false, false, false⟩, (), ()⟩, .notify token 1, .commitDelivery ⟨token⟩ (),
    .notify token 8, .finishDelivery ⟨token, 1, 1⟩ .fault]

/-- The queue after a faulted delivery: the interest is back in it, once. -/
theorem run_queue_exact_faulting : ∃ c₀ : EpollCore Unit Unit,
    tryNew true true ⟨.one⟩ 1 = .ok c₀ ∧
      (run call c₀ faultingCalls).ready.len = 1 ∧
      (run call c₀ faultingCalls).ready.toList.Nodup := by
  have hnew : tryNew (U := Unit) (S := Unit) true true ⟨.one⟩ 1 = .ok _ := rfl
  exact ⟨_, hnew, by decide, (run_queue_exact hnew _).2.1⟩

end EpollCore

end LinuxAbi.Fd
