import LinuxAbi.IoUring.Moves

/-!
# Terminal credits

A credit is charged when a request is admitted and given back when its
completion leaves the system: consumed by user space, discarded during a drain,
or withdrawn before it was accepted. In between the credit stands for a place in
the completion queue, so a queue with `cq_entries` places never has to drop a
completion.

`Move.wf` shows that each move keeps `WF`; the accounting equation is one of its
fields. The places themselves are followed with a ghost queue: `RegistryEvent` records
what is appended to the completion ring and what user space takes from it, and
`CqView` says that the elements still there sit in consecutive ring slots from
`cq_head` to `cq_tail`.
-/

namespace LinuxAbi.IoUring

open List
open Lib (span run events)

/-- An edge starts a publication, ends one, or has nothing to do with it. -/
theorem Advance.flight_cases (h : Advance d st step st') :
    (∃ c, st = .completionPending c ∧ step = .publishing ∧ st' = .publishing c) ∨
      (∃ c, st = .publishing c ∧ step = .unpublished ∧ st' = .completionPending c) ∨
      (∀ c, st ≠ .publishing c) ∧ (∀ c, st' ≠ .publishing c) ∧
        ∀ id flight, flightAfter id step flight = flight := by
  cases h with
  | publish c => exact .inl ⟨c, rfl, rfl, rfl⟩
  | unpublish c => exact .inr (.inl ⟨c, rfl, rfl, rfl⟩)
  | _ => exact .inr (.inr ⟨by simp, by simp, fun _ _ => rfl⟩)

theorem Advance.ne_committed
    (h : Advance d st step st') (c : Completion) (cqSlot : Nat) : step ≠ .committed c cqSlot := by
  cases h <;> simp

namespace RequestRegistry

/-! ## Writing one slot -/

section SlotWrite

variable {r r' : RequestRegistry} {i : Nat} {s old : RequestSlot}

/-- Lookups after slot `i` has been overwritten. -/
theorem entry_ok_of_set (hring : r'.ring = r.ring) (hslots : r'.slots = r.slots.set i s)
    (hold : r.slots[i]? = some old) {id : RequestId} {e : RequestEntry} :
    r'.entry id = .ok e ↔
      (id.slot = i ∧ id.ring = r.ring ∧ s = ⟨some id.generation, some e⟩) ∨
        (id.slot ≠ i ∧ r.entry id = .ok e) := by
  have hi : i < r.slots.length := Lib.lt_of_getElem? hold
  rw [entry_eq_ok, entry_eq_ok, hring, hslots]
  by_cases h : id.slot = i
  · rw [h, List.getElem?_set_self hi]
    simp
  · rw [getElem?_set_ne (Ne.symm h)]
    simp [h]

/-- Overwriting a slot changes the number of occupied slots by what it held and
what it holds. -/
theorem occupied_of_set (hslots : r'.slots = r.slots.set i s) (hold : r.slots[i]? = some old) :
    r'.occupied + (if old.entry.isSome then 1 else 0)
      = r.occupied + (if s.entry.isSome then 1 else 0) := by
  obtain ⟨hi, hget⟩ := List.getElem?_eq_some_iff.mp hold
  have hpos : (if old.entry.isSome then 1 else 0) ≤ r.slots.countP (·.entry.isSome) := by
    split
    · next hsome => exact List.countP_pos_iff.mpr ⟨old, List.mem_of_getElem? hold, hsome⟩
    · exact Nat.zero_le _
  unfold occupied
  rw [hslots, countP_set hi, hget]
  omega

/-- A write that leaves nothing publishing in slot `i`. -/
theorem publishing_of_set (hring : r'.ring = r.ring) (hslots : r'.slots = r.slots.set i s)
    (hold : r.slots[i]? = some old)
    (hquiet : ∀ g e c, s = ⟨some g, some e⟩ → e.state ≠ .publishing c) (id : RequestId) :
    r'.Publishing id ↔ id.slot ≠ i ∧ r.Publishing id := by
  unfold Publishing
  simp only [entry_ok_of_set hring hslots hold]
  constructor
  · rintro ⟨e, c, ⟨-, -, hs⟩ | ⟨hne, he⟩, hc⟩
    · exact absurd hc (hquiet _ _ _ hs)
    · exact ⟨hne, e, c, he, hc⟩
  · rintro ⟨hne, e, c, he, hc⟩
    exact ⟨e, c, .inr ⟨hne, he⟩, hc⟩

theorem occupied_gen_of_set (hw : WF r) (hslots : r'.slots = r.slots.set i s)
    (hs : s.entry.isSome → s.generation.isSome) (j : Nat) (t : RequestSlot)
    (ht : r'.slots[j]? = some t) : t.entry.isSome → t.generation.isSome := by
  rw [hslots] at ht
  rcases Lib.getElem?_set_cases ht with ⟨-, rfl⟩ | ⟨-, hold⟩
  · exact hs
  · exact hw.occupied_gen j t hold

end SlotWrite

variable {r r' : RequestRegistry} {id : RequestId} {slotsReserved freeReserved : Bool}
  {ring : RingId} {capacity entries : Nat} {past : List RegistryEvent} {ev : Option RegistryEvent}

/-- Two live ids in one slot are the same id. -/
theorem id_eq_of_slot_eq (h : r.entry id = .ok e)
    (h' : r.entry id' = .ok e') (hslot : id.slot = id'.slot) : id = id' := by
  obtain ⟨hring, hs⟩ := entry_eq_ok.mp h
  obtain ⟨hring', hs'⟩ := entry_eq_ok.mp h'
  rw [hslot, hs'] at hs
  obtain ⟨ring, slot, gen⟩ := id
  obtain ⟨ring', slot', gen'⟩ := id'
  simp only [Option.some.injEq, RequestSlot.mk.injEq] at hs hring hring' hslot
  simp [hring, hring', hslot, hs.1.symm]

/-! ## Each move keeps the registry well formed -/

section Wf

variable {r : RequestRegistry}

variable {id : RequestId} {e : RequestEntry} {step : RequestStep}

/-- A slot whose request is not publishing can be rewritten without touching the
publication in flight. -/
theorem publishing_elsewhere (he : r.entry id = .ok e) (hst : ∀ c, e.state ≠ .publishing c)
    (id' : RequestId) : r.Publishing id' ↔ id'.slot ≠ id.slot ∧ r.Publishing id' := by
  refine ⟨fun h => ⟨?_, h⟩, And.right⟩
  intro hslot
  obtain ⟨e', c, he', hc⟩ := h
  obtain rfl := id_eq_of_slot_eq he' he hslot
  rw [he] at he'
  cases he'
  exact hst c hc

/-- The request in flight is the only one publishing. -/
theorem WF.publishing_only (hw : WF r) (h : r.Publishing id) (id' : RequestId) :
    none = some id' ↔ id'.slot ≠ id.slot ∧ r.Publishing id' := by
  rw [← hw.flight, (hw.flight id).mpr h]
  simp only [reduceCtorEq, Option.some.injEq, false_iff, not_and]
  rintro hne rfl
  exact hne rfl

theorem WF.enter (hw : WF r) (d : RequestDescriptor) (sequence : Lib.NonZeroU64)
    (hfree : r.freeSlots.getLast? = some i) (hslot : r.slots[i]? = some ⟨some g, none⟩)
    (hroom : r.terminalCredits < r.cqEntries) : WF (r.admitted i g d sequence) := by
  obtain ⟨rest, hrest⟩ := getLast?_eq_some_iff.mp hfree
  have hdrop : (r.admitted i g d sequence).freeSlots = rest := by
    show r.freeSlots.dropLast = rest
    rw [hrest, dropLast_concat]
  have hnodup := hw.free_nodup
  rw [hrest] at hnodup
  obtain ⟨hirest, hrestNodup⟩ := nodup_cons.mp (nodup_append_comm.mp hnodup)
  have hslots : (r.admitted i g d sequence).slots
      = r.slots.set i ⟨some g, some ⟨d, sequence, .reserved⟩⟩ := rfl
  have hocc : (r.admitted i g d sequence).occupied + 0 = r.occupied + 1 :=
    occupied_of_set hslots hslot
  have hpub : ∀ id, (r.admitted i g d sequence).Publishing id ↔ id.slot ≠ i ∧ r.Publishing id :=
    publishing_of_set rfl rfl hslot (by rintro g' e c ⟨⟩; simp)
  refine ⟨hw.entries_pow, hw.entries_le, hdrop ▸ hrestNodup, ?_, ?_, ?_, hroom, ?_⟩
  · intro j hj
    rw [hdrop] at hj
    have hij : i ≠ j := fun h => hirest (h ▸ hj)
    obtain ⟨g', hg'⟩ := hw.free_vacant j (by rw [hrest]; exact mem_append_left _ hj)
    exact ⟨g', (getElem?_set_ne hij).trans hg'⟩
  · exact occupied_gen_of_set hw rfl (fun _ => rfl)
  · have heq := hw.credits_eq
    show r.terminalCredits + 1 = (r.admitted i g d sequence).occupied + span r.cqHead r.cqTail
    omega
  · intro id
    refine (hw.flight id).trans (.trans ⟨fun h => ⟨?_, h⟩, And.right⟩ (hpub id).symm)
    -- the slot being filled was vacant, so nothing in it was publishing
    rintro rfl
    obtain ⟨e, c, he, -⟩ := h
    rw [(entry_eq_ok.mp he).2] at hslot
    exact absurd hslot (by simp)

theorem WF.advance (hw : WF r) {st : EntryState} (he : r.entry id = .ok e)
    (ha : Advance e.descriptor e.state step st)
    (hflight : step = .publishing → r.publicationInFlight = none) : WF (r.advanced id step st) := by
  have hold := (entry_eq_ok.mp he).2
  have hring : (r.advanced id step st).ring = r.ring := rfl
  have hslots : (r.advanced id step st).slots
      = r.slots.set id.slot ⟨some id.generation, some { e with state := st }⟩ :=
    slots_setState he st
  have hocc : (r.advanced id step st).occupied + 1 = r.occupied + 1 := occupied_of_set hslots hold
  refine ⟨hw.entries_pow, hw.entries_le, hw.free_nodup, ?_, ?_, ?_, hw.credits_le, ?_⟩
  · intro j hj
    have hij : id.slot ≠ j := fun h => hw.slot_not_free he (h ▸ hj)
    obtain ⟨g, hg⟩ := hw.free_vacant j hj
    refine ⟨g, ?_⟩
    rw [hslots, getElem?_set_ne hij]
    exact hg
  · exact occupied_gen_of_set hw hslots (fun _ => rfl)
  · have heq := hw.credits_eq
    show r.terminalCredits = (r.advanced id step st).occupied + span r.cqHead r.cqTail
    omega
  · intro id'
    rcases ha.flight_cases with ⟨c, -, rfl, rfl⟩ | ⟨c, hst, rfl, rfl⟩ | ⟨hst, hst', hf⟩
    · -- a publication starts: none was in flight, so nothing else is publishing
      have hnone := hflight rfl
      have hothers : ∀ id'', ¬ r.Publishing id'' := by
        intro id'' hpub
        rw [← hw.flight, hnone] at hpub
        cases hpub
      show some id = some id' ↔ _
      unfold Publishing
      simp only [entry_ok_of_set hring hslots hold]
      constructor
      · rintro ⟨⟩
        exact ⟨_, c, .inl ⟨rfl, (entry_eq_ok.mp he).1, rfl⟩, rfl⟩
      · rintro ⟨e', c', ⟨hslot, hring', hs⟩ | ⟨-, he'⟩, hc'⟩
        · have hgen : id.generation = id'.generation := by
            simp only [RequestSlot.mk.injEq, Option.some.injEq] at hs
            exact hs.1
          have hown := (entry_eq_ok.mp he).1
          obtain ⟨_, _, _⟩ := id
          obtain ⟨_, _, _⟩ := id'
          simp_all
        · exact absurd ⟨e', c', he', hc'⟩ (hothers id')
    · -- a publication ends: it was the only one
      rw [publishing_of_set hring hslots hold (by rintro g' e' c' ⟨⟩; simp)]
      exact hw.publishing_only ⟨e, c, he, hst⟩ id'
    · rw [publishing_of_set hring hslots hold (by rintro g' e' c' ⟨⟩; exact hst' c')]
      show flightAfter id step r.publicationInFlight = some id' ↔ _
      rw [hf, hw.flight]
      exact publishing_elsewhere he hst id'

/-- What emptying a live slot does to the fields of `WF` that it touches. -/
theorem WF.vacate (hw : WF r) (he : r.entry id = .ok e) :
    (r.vacate id).freeSlots.Nodup ∧
      (∀ i ∈ (r.vacate id).freeSlots, ∃ g, (r.vacate id).slots[i]? = some ⟨some g, none⟩) ∧
      (∀ (i : Nat) (s : RequestSlot), (r.vacate id).slots[i]? = some s →
        s.entry.isSome → s.generation.isSome) ∧
      (r.vacate id).occupied + 1 = r.occupied ∧
      ∀ id', (r.vacate id).Publishing id' ↔ id'.slot ≠ id.slot ∧ r.Publishing id' := by
  have hold := (entry_eq_ok.mp he).2
  have hi : id.slot < r.slots.length := Lib.lt_of_getElem? hold
  have hslots : (r.vacate id).slots = r.slots.set id.slot ⟨id.generation.checkedSucc, none⟩ := rfl
  have hfree := hw.slot_not_free he
  have hkept : ∀ i ∈ r.freeSlots, ∃ g, (r.vacate id).slots[i]? = some ⟨some g, none⟩ := by
    intro i hmem
    have hne : id.slot ≠ i := fun h => hfree (h ▸ hmem)
    obtain ⟨g, hg⟩ := hw.free_vacant i hmem
    exact ⟨g, (getElem?_set_ne hne).trans hg⟩
  refine ⟨?_, ?_, occupied_gen_of_set hw hslots (by simp), occupied_of_set hslots hold,
    publishing_of_set rfl hslots hold (fun g e c h => absurd h (by simp))⟩
  · show (if _ then _ else _ : List Nat).Nodup
    split
    · exact nodup_append_comm.mp (nodup_cons.mpr ⟨hfree, hw.free_nodup⟩)
    · exact hw.free_nodup
  · intro i hmem
    -- the freed slot joins the pool only while it still has a generation
    rcases hsucc : id.generation.checkedSucc with _ | g
    · refine hkept i ?_
      simpa [RequestRegistry.vacate, hsucc] using hmem
    have hmem' : i ∈ r.freeSlots ∨ i = id.slot := by
      simpa [RequestRegistry.vacate, hsucc] using hmem
    rcases hmem' with hmem' | rfl
    · exact hkept i hmem'
    · refine ⟨g, ?_⟩
      rw [hslots, getElem?_set_self hi, hsucc]

/-- An ending either commits the publication in flight or refunds the credit of
a request that has none. -/
theorem Ending_cases (h : Ending st step) :
    (∃ c cqSlot, st = .publishing c ∧ step = .committed c cqSlot) ∨
      (∀ c, st ≠ .publishing c) ∧ (∀ c cqSlot, step ≠ .committed c cqSlot) ∧
        ∀ (r : RequestRegistry) (id : RequestId),
          r.released id step = { r.vacate id with terminalCredits := r.terminalCredits - 1 } := by
  cases h with
  | withdraw | discard => exact .inr ⟨by simp, by simp, fun _ _ => rfl⟩
  | commit c cqSlot => exact .inl ⟨c, cqSlot, rfl, rfl⟩

theorem WF.release (hw : WF r) (he : r.entry id = .ok e)
    (hend : Ending e.state step) : WF (r.released id step) := by
  obtain ⟨hnodup, hvacant, hgen, hocc, hpub⟩ := hw.vacate he
  have heq := hw.credits_eq
  have hle := hw.credits_le
  have hbound : r.cqEntries ≤ 65536 := hw.entries_le
  rcases Ending_cases hend with ⟨c, cqSlot, hst, rfl⟩ | ⟨hst, -, hrel⟩
  · refine ⟨hw.entries_pow, hw.entries_le, hnodup, hvacant, hgen, ?_, hle, ?_⟩
    · show r.terminalCredits = (r.vacate id).occupied + span r.cqHead (r.cqTail + 1)
      rw [Lib.span_succ (by omega)]
      omega
    · intro id'
      show none = some id' ↔ (r.vacate id).Publishing id'
      rw [hpub]
      exact hw.publishing_only ⟨e, c, he, hst⟩ id'
  · rw [hrel]
    refine ⟨hw.entries_pow, hw.entries_le, hnodup, hvacant, hgen, ?_, ?_, ?_⟩
    · show r.terminalCredits - 1 = (r.vacate id).occupied + span r.cqHead r.cqTail
      omega
    · show r.terminalCredits - 1 ≤ r.cqEntries
      omega
    · intro id'
      show r.publicationInFlight = some id' ↔ (r.vacate id).Publishing id'
      rw [hpub, hw.flight]
      exact publishing_elsewhere he hst id'

/-- **Every move keeps the registry well formed.** -/
theorem Move.wf (hm : Move r ev r') (hw : WF r) : WF r' := by
  cases hm with
  | refuse => exact hw
  | phase l =>
    exact ⟨hw.entries_pow, hw.entries_le, hw.free_nodup, hw.free_vacant, hw.occupied_gen,
      hw.credits_eq, hw.credits_le, hw.flight⟩
  | enter d sequence hfree hslot hroom => exact hw.enter d sequence hfree hslot hroom
  | advance he ha hflight => exact hw.advance he ha hflight
  | release he hend _ => exact hw.release he hend
  | consume head hflight hle =>
    have heq := hw.credits_eq
    have hcred := hw.credits_le
    refine ⟨hw.entries_pow, hw.entries_le, hw.free_nodup, hw.free_vacant, hw.occupied_gen,
      ?_, ?_, hw.flight⟩
    · show r.terminalCredits - span r.cqHead head = r.occupied + span head r.cqTail
      rw [Lib.span_advance hle]
      omega
    · show r.terminalCredits - span r.cqHead head ≤ r.cqEntries
      omega

end Wf

/-- What `new` builds. -/
theorem new_eq_ok (h : new slotsReserved freeReserved ring capacity entries = .ok r) :
    entries.isPowerOfTwo ∧ entries ≤ maxCqEntries ∧ r = {
      ring, capacity
      slots := replicate capacity ⟨some .one, none⟩
      freeSlots := (range capacity).reverse
      nextSequence := some .one
      lifecycle := .opened
      cqEntries := entries
      cqHead := 0
      cqTail := 0
      terminalCredits := 0
      publicationInFlight := none } := by
  unfold new at h
  split at h
  · cases h
  split at h
  · cases h
  next hgeom =>
  split at h
  · cases h
  split at h
  · cases h
  · simp only [not_or, not_not, Nat.not_lt] at hgeom
    exact ⟨hgeom.2.1, hgeom.2.2, (Except.ok.inj h).symm⟩

theorem new_wf (h : new slotsReserved freeReserved ring capacity entries = .ok r) : WF r := by
  obtain ⟨hpow, hle, rfl⟩ := new_eq_ok h
  have hslot : ∀ {i : Nat} {s : RequestSlot},
      (replicate capacity (⟨some .one, none⟩ : RequestSlot))[i]? = some s →
        s = ⟨some .one, none⟩ :=
    fun hs => eq_of_mem_replicate (mem_of_getElem? hs)
  refine ⟨hpow, hle, nodup_reverse.mpr nodup_range, ?_, ?_, ?_, Nat.zero_le _, ?_⟩
  · intro i hi
    rw [mem_reverse, mem_range] at hi
    exact ⟨.one, getElem?_replicate_of_lt hi⟩
  · intro i s hs hsome
    rw [hslot hs] at hsome
    cases hsome
  · simp [occupied, countP_replicate]
  · intro id
    simp only [reduceCtorEq, false_iff]
    rintro ⟨e, c, he, -⟩
    have hbad := hslot (entry_eq_ok.mp he).2
    simp at hbad

/-! ## The completion ring -/

/-- A completion queue entry that has been written and committed. -/
structure Cqe where
  id : RequestId
  completion : Completion
  slot : Nat

/-- How an event changes the queue of committed entries user space has not
consumed. -/
def cqAfter (queue : List Cqe) : RegistryEvent → List Cqe
  | .request id (.committed completion slot) => queue ++ [⟨id, completion, slot⟩]
  | .request _ _ => queue
  | .consumed count => queue.drop count

theorem cqAfter_of_ne (h : ∀ c cqSlot, step ≠ .committed c cqSlot)
    (queue : List Cqe) : cqAfter queue (.request id step) = queue := by
  cases step with
  | committed c cqSlot => exact absurd rfl (h c cqSlot)
  | _ => rfl

/-- The committed entries that user space has not consumed, oldest first. -/
def unconsumed (past : List RegistryEvent) : List Cqe := past.foldl cqAfter []

/-- What a run of calls makes observable. -/
abbrev history (r : RequestRegistry) (calls : List RequestCall) : List RegistryEvent :=
  events call (fun c reply => (registryEvent c reply).toList) r calls

/-- The ring slot `i` places after `cq_head`. -/
def ringSlot (r : RequestRegistry) (i : Nat) : Nat :=
  (r.cqHead + BitVec.ofNat 32 i).toNat &&& (r.cqEntries - 1)

/-- The unconsumed entries sit in the ring slots from `cq_head` to `cq_tail`. -/
structure CqView (past : List RegistryEvent) (r : RequestRegistry) : Prop where
  wf : WF r
  slots : (unconsumed past).map Cqe.slot
    = (range (span r.cqHead r.cqTail)).map r.ringSlot

theorem unconsumed_append (past : List RegistryEvent) (ev : Option RegistryEvent) :
    unconsumed (past ++ ev.toList) = ev.toList.foldl cqAfter (unconsumed past) :=
  foldl_append ..

/-- An event that neither commits nor consumes leaves the ring as it was. -/
theorem CqView.quiet (hv : CqView past r) (hw : WF r')
    (hev : ∀ queue, ev.toList.foldl cqAfter queue = queue) (hhead : r'.cqHead = r.cqHead)
    (htail : r'.cqTail = r.cqTail)
    (hents : r'.cqEntries = r.cqEntries) : CqView (past ++ ev.toList) r' := by
  refine ⟨hw, ?_⟩
  have hslot : r'.ringSlot = r.ringSlot := by
    unfold ringSlot
    rw [hhead, hents]
  rw [unconsumed_append, hev, hhead, htail, hslot]
  exact hv.slots

/-- The slot under the tail is the one after the last unconsumed entry. -/
theorem ringSlot_span (r : RequestRegistry) : r.ringSlot (span r.cqHead r.cqTail) = r.tailSlot := by
  have h := Lib.add_span r.cqHead r.cqTail 0
  rw [Nat.add_zero, BitVec.add_zero] at h
  unfold ringSlot tailSlot
  rw [h]

theorem CqView.append (hv : CqView past r) (hw : WF r')
    (hroom : span r.cqHead r.cqTail < r.cqEntries) (hhead : r'.cqHead = r.cqHead)
    (htail : r'.cqTail = r.cqTail + 1) (hents : r'.cqEntries = r.cqEntries) :
    CqView (past ++ [.request id (.committed c r.tailSlot)]) r' := by
  refine ⟨hw, ?_⟩
  have hbound : r.cqEntries ≤ 65536 := hv.wf.entries_le
  have hslot : r'.ringSlot = r.ringSlot := by
    unfold ringSlot
    rw [hhead, hents]
  have hqueue : unconsumed (past ++ [.request id (.committed c r.tailSlot)])
      = unconsumed past ++ [⟨id, c, r.tailSlot⟩] := unconsumed_append past (some _)
  rw [hqueue, map_append, hv.slots, hslot, hhead, htail, Lib.span_succ (by omega),
    range_succ, map_append]
  show _ ++ [r.tailSlot] = _ ++ [r.ringSlot (span r.cqHead r.cqTail)]
  rw [ringSlot_span]

theorem CqView.consume (hv : CqView past r) {head : BitVec 32}
    (hle : span r.cqHead head ≤ span r.cqHead r.cqTail) (hw : WF { r with
      cqHead := head
      terminalCredits := r.terminalCredits - span r.cqHead head }) :
    CqView (past ++ [.consumed (span r.cqHead head)]) { r with
      cqHead := head
      terminalCredits := r.terminalCredits - span r.cqHead head } := by
  refine ⟨hw, ?_⟩
  have hqueue : unconsumed (past ++ [.consumed (span r.cqHead head)])
      = (unconsumed past).drop (span r.cqHead head) := unconsumed_append past (some _)
  rw [hqueue, map_drop, hv.slots]
  show _ = (range (span head r.cqTail)).map _
  rw [Lib.span_advance hle]
  refine ext_getElem (by simp) ?_
  intro i hi _
  simp only [getElem_drop, getElem_map, getElem_range]
  show (r.cqHead + BitVec.ofNat 32 (span r.cqHead head + i)).toNat &&& _ = _
  rw [Lib.add_span]
  rfl

/-- **One move keeps the ring view.** -/
theorem Move.cqView (hm : Move r ev r') (hv : CqView past r) : CqView (past ++ ev.toList) r' := by
  have hw := hm.wf hv.wf
  cases hm with
  | refuse | phase | enter => exact hv.quiet hw (fun _ => rfl) rfl rfl rfl
  | advance he ha hflight => exact hv.quiet hw (cqAfter_of_ne ha.ne_committed) rfl rfl rfl
  | @release id e step he hend hslot =>
    rcases Ending_cases hend with ⟨c, cqSlot, -, rfl⟩ | ⟨-, hne, hrel⟩
    · obtain rfl := hslot c cqSlot rfl
      have hone := hv.wf.one_le_credits he
      have hle := hv.wf.credits_le
      exact hv.append hw (by omega) rfl rfl rfl
    · refine hv.quiet hw (cqAfter_of_ne hne) ?_ ?_ ?_
      all_goals rw [hrel]; rfl
  | consume head hflight hle => exact hv.consume hle hw

/-! ## No refund underflows -/

theorem entry_error_ne (h : r.entry id = .error x) (hy : y ≠ .unknownRequest) : x ≠ y := by
  rw [entry_eq_error h]
  exact hy.symm

theorem requireState_error_ne (h : r.requireState id st = .error x) (hy : y ≠ .unknownRequest)
    (hy' : y ≠ .invalidRequestState) : x ≠ y := by
  unfold requireState at h
  split at h
  · next x' hx' =>
    cases h
    exact entry_error_ne hx' hy
  · split at h
    · cases h
    · cases h
      exact hy'.symm

/-- The two operations that give up a slot find its credit to refund. -/
theorem WF.rollback_ne_underflow (hw : WF r) (res : RequestReservation) :
    (r.rollback res).1 ≠ .error .invalidCompletionConsumption := by
  unfold rollback
  split
  · next x hx =>
    intro h
    exact requireState_error_ne hx (by simp) (by simp) (Except.error.inj h)
  · next hreq =>
    obtain ⟨e, he, -⟩ := requireState_eq_ok hreq
    rw [hw.clearSlot_eq he]
    dsimp only
    rw [hw.refund_vacate he]
    simp

theorem WF.discardCompletion_ne_underflow (hw : WF r) (token : CompletionToken) :
    (r.discardCompletion token).1 ≠ .error .invalidCompletionConsumption := by
  unfold discardCompletion
  split
  · simp
  split
  · next x hx =>
    intro h
    exact requireState_error_ne hx (by simp) (by simp) (Except.error.inj h)
  · next hreq =>
    obtain ⟨e, he, -⟩ := requireState_eq_ok hreq
    rw [hw.clearSlot_eq he]
    dsimp only
    rw [hw.refund_vacate he]
    simp

/-- The two operations that move `cq_head` find the credits of what they pass. -/
theorem WF.observeCompletionHead_ne_underflow (hw : WF r) (head : BitVec 32) :
    (r.observeCompletionHead head).1 ≠ .error .invalidCompletionConsumption := by
  by_cases hflight : r.publicationInFlight = none
  · rw [hw.observeCompletionHead_eq hflight]
    split <;> simp
  · rw [observeCompletionHead_inFlight hflight]
    simp

theorem WF.discardPublished_ne_underflow (hw : WF r) :
    r.discardPublished.1 ≠ .error .invalidCompletionConsumption := by
  rcases hw.discardPublished_cases with ⟨x, hx, heq⟩ | ⟨-, heq⟩
  · rw [heq]
    exact fun h => hx (Except.error.inj h)
  · rw [heq]
    simp

/-! ## Publication always finds room -/

/-- A pending completion still holds its credit, so the ring has a free place. -/
theorem WF.span_lt (hw : WF r)
    (he : r.entry id = .ok e) : span r.cqHead r.cqTail < r.cqEntries := by
  have hone := hw.one_le_credits he
  have hle := hw.credits_le
  omega

theorem WF.publish_finds_room (hw : WF r) (token : CompletionToken) :
    (r.publish token).1 ≠ .error .completionQueueFull ∧
      (r.publish token).1 ≠ .error .invalidQueueGeometry := by
  unfold publish
  split
  · simp
  split
  · simp
  split
  · simp
  split
  · next x hx =>
    rw [entry_eq_error hx]
    simp
  · next e he =>
    split
    · rw [hw.publishedCount_eq]
      have hlt := hw.span_lt he
      dsimp only
      rw [if_neg (by omega)]
      simp
    all_goals simp

theorem publish_ok
    (h : (r.publish token).1 = .ok p) : p.slot = r.tailSlot ∧ ∃ e, r.entry token.id = .ok e := by
  unfold publish at h
  split at h
  · cases h
  split at h
  · cases h
  split at h
  · cases h
  split at h
  · cases h
  next e he =>
  split at h
  · split at h
    · cases h
    · split at h
      · cases h
      · obtain rfl := Except.ok.inj h
        exact ⟨rfl, e, he⟩
  all_goals cases h

theorem WF.tailSlot_fresh (hw : WF r) (hroom : span r.cqHead r.cqTail < r.cqEntries)
    (hi : i < span r.cqHead r.cqTail) : r.ringSlot i ≠ r.tailSlot := by
  obtain ⟨k, hk⟩ := hw.entries_pow
  have hk16 : k ≤ 16 := by
    have hle : r.cqEntries ≤ 2 ^ 16 := hw.entries_le
    rw [hk] at hle
    exact (Nat.pow_le_pow_iff_right (by decide)).mp hle
  have hdvd : r.cqEntries ∣ 2 ^ 32 := hk ▸ Nat.pow_dvd_pow 2 (by omega)
  unfold ringSlot tailSlot
  rw [hk, Nat.and_two_pow_sub_one_eq_mod, Nat.and_two_pow_sub_one_eq_mod, ← hk]
  exact Lib.slot_ne_of_lt_span hdvd hroom hi

/-- The place `publish` hands out holds no unconsumed entry. -/
theorem CqView.publish_slot (hv : CqView past r) (h : (r.publish token).1 = .ok p)
    (hq : q ∈ unconsumed past) : q.slot ≠ p.slot := by
  obtain ⟨hslot, e, he⟩ := publish_ok h
  have hmem : q.slot ∈ (unconsumed past).map Cqe.slot := mem_map_of_mem hq
  rw [hv.slots] at hmem
  obtain ⟨i, hi, hqi⟩ := mem_map.mp hmem
  rw [hslot, ← hqi]
  exact hv.wf.tailSlot_fresh (hv.wf.span_lt he) (mem_range.mp hi)

/-! ## The accounting of every run -/

/-- What the credits of a registry with `entries` completion slots guarantee,
`queue` being the committed entries user space has not consumed. -/
structure Nodrop (entries : Nat) (queue : List Cqe) (r : RequestRegistry) : Prop where
  credits : r.terminalCredits = r.occupied + span r.cqHead r.cqTail
  published : queue.length = span r.cqHead r.cqTail
  bound : r.cqEntries = entries ∧ r.terminalCredits ≤ entries
  room : ∀ token, (r.publish token).1 ≠ .error .completionQueueFull ∧
    (r.publish token).1 ≠ .error .invalidQueueGeometry
  -- the four callers of `refund_credits`
  refund_rollback : ∀ res, (r.rollback res).1 ≠ .error .invalidCompletionConsumption
  refund_discard : ∀ token, (r.discardCompletion token).1 ≠ .error .invalidCompletionConsumption
  refund_observe : ∀ head, (r.observeCompletionHead head).1 ≠ .error .invalidCompletionConsumption
  refund_drain : r.discardPublished.1 ≠ .error .invalidCompletionConsumption
  observe : r.publicationInFlight = none → ∀ head,
    (∃ n, (r.observeCompletionHead head).1 = .ok n) ↔
      ∃ k ≤ span r.cqHead r.cqTail, head = r.cqHead + BitVec.ofNat 32 k
  observe_inFlight : r.publicationInFlight ≠ none → ∀ head,
    (r.observeCompletionHead head).1 = .error .publicationInFlight
  fresh : ∀ token p, (r.publish token).1 = .ok p → ∀ q ∈ queue, q.slot ≠ p.slot

theorem CqView.nodrop (hv : CqView past r) :
    Nodrop r.cqEntries (unconsumed past) r where
  credits := hv.wf.credits_eq
  published := by
    have hlen := congrArg length hv.slots
    rwa [length_map, length_map, length_range] at hlen
  bound := ⟨rfl, hv.wf.credits_le⟩
  room := hv.wf.publish_finds_room
  refund_rollback := hv.wf.rollback_ne_underflow
  refund_discard := hv.wf.discardCompletion_ne_underflow
  refund_observe := hv.wf.observeCompletionHead_ne_underflow
  refund_drain := hv.wf.discardPublished_ne_underflow
  observe := by
    intro hflight head
    rw [hv.wf.observeCompletionHead_eq hflight, ← Lib.span_le_iff]
    split
    · next hle => exact ⟨fun _ => hle, fun _ => ⟨_, rfl⟩⟩
    · next hle => exact ⟨fun ⟨n, hn⟩ => (by cases hn), fun h => absurd h hle⟩
  observe_inFlight := by
    intro hflight head
    rw [observeCompletionHead_inFlight hflight]
  fresh := fun _ _ h _ hq => hv.publish_slot h hq

theorem Move.cqEntries_eq (hm : Move r ev r') : r'.cqEntries = r.cqEntries := by
  cases hm with
  | @release id e step he hend hslot => cases step <;> rfl
  | _ => rfl

theorem new_cqView (h : new slotsReserved freeReserved ring capacity entries = .ok r) :
    CqView [] r ∧ r.cqEntries = entries := by
  have hw := new_wf h
  obtain ⟨-, -, rfl⟩ := new_eq_ok h
  exact ⟨⟨hw, by simp [unconsumed]⟩, rfl⟩

/-- **No completion is ever dropped.** In every state a registry reaches, under
any sequence of calls with any tokens, the credits are the occupied slots plus
the unconsumed completions and fit the completion queue. -/
theorem run_nodrop {slotsReserved freeReserved : Bool} {ring : RingId} {capacity entries : Nat}
    {r : RequestRegistry} (hnew : new slotsReserved freeReserved ring capacity entries = .ok r)
    (calls : List RequestCall) :
    Nodrop entries (unconsumed (history r calls)) (run call r calls) := by
  obtain ⟨hview, hentries⟩ := new_cqView hnew
  have hrun : CqView ([] ++ history r calls) (run call r calls) ∧
      (run call r calls).cqEntries = entries := by
    refine Lib.run_invariant (I := fun past s => CqView past s ∧ s.cqEntries = entries) ?_ calls [] r
      ⟨hview, hentries⟩
    rintro past s c ⟨hv, he⟩
    have hm := hv.wf.call_move c
    exact ⟨hm.cqView hv, hm.cqEntries_eq.trans he⟩
  obtain ⟨hv, he⟩ := hrun
  have hnodrop := hv.nodrop
  rw [he] at hnodrop
  exact hnodrop

/-- One no-op request taken as far as an uncommitted publication. -/
def publishingCalls : List RequestCall :=
  let id : RequestId := ⟨⟨.one⟩, 0, .one⟩
  let descriptor : RequestDescriptor := ⟨7, .nop⟩
  [.reserve descriptor, .commit ⟨id, descriptor⟩, .claimTerminal id .completed,
    .finishTerminal ⟨id, descriptor, .completed⟩ 0 0, .publish ⟨id⟩]

/-- The accounting holds of a ring with one place, in the middle of a publication. -/
theorem run_nodrop_publishing : ∃ r, new true true ⟨.one⟩ 1 1 = .ok r ∧
    Nodrop 1 (unconsumed (history r publishingCalls)) (run call r publishingCalls) := by
  have hnew : new true true ⟨.one⟩ 1 1 = .ok _ := rfl
  exact ⟨_, hnew, run_nodrop hnew publishingCalls⟩

/-- While a publication is in flight even the current head is refused. -/
theorem observe_refuses_current_head : ∃ r, new true true ⟨.one⟩ 1 1 = .ok r ∧
    let s := run call r publishingCalls
    (∃ k ≤ span s.cqHead s.cqTail, s.cqHead = s.cqHead + BitVec.ofNat 32 k) ∧
      (s.observeCompletionHead s.cqHead).1 = .error .publicationInFlight :=
  ⟨_, rfl, ⟨0, Nat.zero_le _, by decide⟩, by decide⟩

end RequestRegistry

end LinuxAbi.IoUring
