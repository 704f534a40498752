import LinuxAbi.IoUring.Close

/-!
# Request identities

A `RequestId` names a slot and a generation of that slot. Slots are recycled,
so what makes an id safe to keep is that the generation of a slot never goes
back: `Aged` is what can happen to a slot between two moments of a run, and
`Later` collects it for the table, together with the admission sequence. Both
are transitive, so a step lemma (`Touch.later`) gives them for any stretch of
a run, and "an id that became invalid stays invalid" is read off from three
moments.

The other half is the pool: the free list is exactly the vacant slots that still
have a generation, which is why `clear_slot` finds room to push and a slot that
has used its last generation is never handed out again.
-/

namespace LinuxAbi.IoUring

open Nat
open Option
open Lib (NonZeroU64 run)
open Lib.NonZeroU64 (rank rank_some rank_le lt_rank_checkedSucc)

namespace RequestRegistry

/-! ## What a call does to the table -/

/-- A call seen from the slots, the pool and the admission counter. -/
inductive Touch (r : RequestRegistry) : RequestRegistry → Prop
  | keep {r' : RequestRegistry} (hring : r'.ring = r.ring) (hslots : r'.slots = r.slots)
      (hfree : r'.freeSlots = r.freeSlots) (hseq : r'.nextSequence = r.nextSequence) : Touch r r'
  | enter {sequence g : NonZeroU64} {i : Nat} (d : RequestDescriptor)
      (hseq : r.nextSequence = some sequence) (hfree : r.freeSlots.getLast? = some i)
      (hslot : r.slots[i]? = some ⟨some g, none⟩) : Touch r (r.admitted i g d sequence)
  | advance {r' : RequestRegistry} {id : RequestId} {e : RequestEntry} {st : EntryState}
      (he : r.entry id = .ok e) (hring : r'.ring = r.ring)
      (hslots : r'.slots = r.slots.set id.slot ⟨some id.generation, some { e with state := st }⟩)
      (hfree : r'.freeSlots = r.freeSlots) (hseq : r'.nextSequence = r.nextSequence) : Touch r r'
  | release {r' : RequestRegistry} {id : RequestId} {e : RequestEntry}
      (he : r.entry id = .ok e) (hring : r'.ring = r.ring)
      (hslots : r'.slots = (r.vacate id).slots)
      (hfree : r'.freeSlots = (r.vacate id).freeSlots)
      (hseq : r'.nextSequence = r.nextSequence) : Touch r r'

section

variable {r r' : RequestRegistry}

theorem WF.call_touch (hw : WF r) (c : RequestCall) : Touch r (r.call c).2 := by
  have hmove := hw.call_move c
  unfold CallMove at hmove
  generalize hev : registryEvent c (r.call c).1 = ev at hmove
  generalize hr' : (r.call c).2 = r' at hmove
  cases hmove with
  | refuse | phase | consume => exact .keep rfl rfl rfl rfl
  | advance he ha hflight => exact .advance he rfl (slots_setState he _) rfl rfl
  | @release id e step he hend hslot =>
    rcases Ending_cases hend with ⟨c, cqSlot, -, rfl⟩ | ⟨-, -, hrel⟩
    · exact .release he rfl rfl rfl rfl
    · rw [hrel]
      exact .release he rfl rfl rfl rfl
  | @enter i g d sequence hfree hslot hroom =>
    -- the move does not say which sequence the entry got; `reserve` does
    obtain ⟨d', rfl⟩ := reserve_of_event hev
    have hcall : (r.reserve d').2 = r.admitted i g d sequence := hr'
    rcases reserve_cases r d' with ⟨x, hx⟩ | ⟨sequence', i', g', hseq, hfree', hslot', -, hx⟩
    · simp [call, Outcome.tag, hx, registryEvent, Except.map] at hev
    · rw [← hcall, hx]
      exact .enter d' hseq hfree' hslot'

/-! ## Slots age -/

/-- What can become of a slot: it keeps its generation, and then an entry it
holds stays but for its state, or its generation has moved on. -/
def Aged (s s' : RequestSlot) : Prop :=
  s'.generation = s.generation ∧
      (∀ e, s.entry = some e → ∃ st, s'.entry = some { e with state := st }) ∨
    rank s.generation < rank s'.generation

theorem Aged.refl (s : RequestSlot) : Aged s s := .inl ⟨rfl, fun e he => ⟨e.state, he⟩⟩

variable {s : RequestSlot} {id : RequestId} {e : RequestEntry}

theorem Aged.rank_le (h : Aged s s') : rank s.generation ≤ rank s'.generation := by
  rcases h with ⟨hgen, -⟩ | hlt
  · rw [hgen]
  · exact le_of_lt hlt

theorem Aged.trans (h : Aged s₁ s₂) (h' : Aged s₂ s₃) : Aged s₁ s₃ := by
  rcases h with ⟨hgen, hentry⟩ | hlt
  · rcases h' with ⟨hgen', hentry'⟩ | hlt'
    · refine .inl ⟨hgen'.trans hgen, fun e he => ?_⟩
      obtain ⟨st, hst⟩ := hentry e he
      obtain ⟨st', hst'⟩ := hentry' _ hst
      exact ⟨st', hst'⟩
    · rw [hgen] at hlt'
      exact .inr hlt'
  · exact .inr (lt_of_lt_of_le hlt h'.rank_le)

/-- What a later registry of the same run has kept. -/
structure Later (r r' : RequestRegistry) : Prop where
  ring : r'.ring = r.ring
  slots : ∀ (i : Nat) s, r.slots[i]? = some s → ∃ s', r'.slots[i]? = some s' ∧ Aged s s'
  sequence : rank r.nextSequence ≤ rank r'.nextSequence
  -- an entry was there before, or was admitted since under a new sequence
  older : ∀ id e', r'.entry id = .ok e' →
    (∃ e, r.entry id = .ok e ∧ e.sequence = e'.sequence) ∨ rank r.nextSequence ≤ e'.sequence.val

theorem Later.refl (r : RequestRegistry) : Later r r where
  ring := rfl
  slots := fun _ s hs => ⟨s, hs, Aged.refl s⟩
  sequence := le_refl _
  older := fun _ e he => .inl ⟨e, he, rfl⟩

theorem Later.trans (h : Later r r') (h' : Later r' r'') :
    Later r r'' where
  ring := h'.ring.trans h.ring
  slots := by
    intro i s hs
    obtain ⟨s', hs', hage⟩ := h.slots i s hs
    obtain ⟨s'', hs'', hage'⟩ := h'.slots i s' hs'
    exact ⟨s'', hs'', hage.trans hage'⟩
  sequence := le_trans h.sequence h'.sequence
  older := by
    intro id e'' he''
    rcases h'.older id e'' he'' with ⟨e', he', hseq'⟩ | hnew
    · rw [← hseq']
      exact h.older id e' he'
    · exact .inr (le_trans h.sequence hnew)

/-- One write to slot `i` ages the table if it ages that slot. -/
theorem aged_set (hold : r.slots[i]? = some old)
    (hslots : r'.slots = r.slots.set i s) (hage : Aged old s) :
    ∀ (j : Nat) t, r.slots[j]? = some t → ∃ t', r'.slots[j]? = some t' ∧ Aged t t' := by
  intro j t ht
  rw [hslots]
  by_cases hij : i = j
  · subst hij
    have hi : i < r.slots.length := Lib.lt_of_getElem? ht
    rw [hold] at ht
    obtain rfl := some.inj ht
    exact ⟨s, List.getElem?_set_self hi, hage⟩
  · exact ⟨t, (List.getElem?_set_ne hij).trans ht, Aged.refl t⟩

theorem Touch.slots (ht : Touch r r') :
    ∀ (i : Nat) s, r.slots[i]? = some s → ∃ s', r'.slots[i]? = some s' ∧ Aged s s' := by
  cases ht with
  | keep hring hslots hfree hseq =>
    intro i s hs
    exact ⟨s, by rw [hslots]; exact hs, Aged.refl s⟩
  | enter d hseq hfree hslot =>
    exact aged_set hslot rfl (.inl ⟨rfl, fun e he => by cases he⟩)
  | advance he hring hslots hfree hseq =>
    refine aged_set (entry_eq_ok.mp he).2 hslots (.inl ⟨rfl, ?_⟩)
    rintro e ⟨⟩
    exact ⟨_, rfl⟩
  | @release _ id e he hring hslots hfree hseq =>
    exact aged_set (entry_eq_ok.mp he).2 hslots (.inr (lt_rank_checkedSucc id.generation))

/-- The entries after a call: old ones under their old sequence, and at most one
new one, under the next. -/
theorem Touch.entries (ht : Touch r r') : ∃ fresh : Option RequestId, ∀ id e',
    r'.entry id = .ok e' → (∃ e, r.entry id = .ok e ∧ e.sequence = e'.sequence) ∨
      fresh = some id ∧ r.nextSequence = some e'.sequence ∧
        r'.nextSequence = e'.sequence.checkedSucc := by
  cases ht with
  | keep hring hslots hfree hseq =>
    refine ⟨none, fun id e' he' => .inl ⟨e', ?_, rfl⟩⟩
    rw [← entry_congr hslots hring]
    exact he'
  | @enter sequence g i d hseq hfree hslot =>
    refine ⟨some ⟨r.ring, i, g⟩, fun id e' he' => ?_⟩
    have hring : (r.admitted i g d sequence).ring = r.ring := rfl
    rcases (entry_ok_of_set hring rfl hslot).mp he' with ⟨hi, hown, hs⟩ | ⟨-, he⟩
    · simp only [RequestSlot.mk.injEq, some.injEq] at hs
      obtain ⟨rfl, rfl⟩ := hs
      refine .inr ⟨?_, hseq, rfl⟩
      rw [← hi, ← hown]
    · exact .inl ⟨e', he, rfl⟩
  | @advance _ id₀ e₀ st he hring hslots hfree hseq =>
    refine ⟨none, fun id e' he' => .inl ?_⟩
    rcases (entry_ok_of_set hring hslots (entry_eq_ok.mp he).2).mp he' with
      ⟨hi, hown, hs⟩ | ⟨-, hold⟩
    · simp only [RequestSlot.mk.injEq, some.injEq] at hs
      obtain ⟨hgen, rfl⟩ := hs
      refine ⟨e₀, entry_eq_ok.mpr ⟨hown, ?_⟩, rfl⟩
      rw [hi, ← hgen]
      exact (entry_eq_ok.mp he).2
    · exact ⟨e', hold, rfl⟩
  | @release _ id₀ e₀ he hring hslots hfree hseq =>
    refine ⟨none, fun id e' he' => .inl ?_⟩
    rcases (entry_ok_of_set hring hslots (entry_eq_ok.mp he).2).mp he' with
      ⟨-, -, hs⟩ | ⟨-, hold⟩
    · simp at hs
    · exact ⟨e', hold, rfl⟩

theorem Touch.sequence (ht : Touch r r') : rank r.nextSequence ≤ rank r'.nextSequence := by
  cases ht with
  | keep _ _ _ hseq | advance _ _ _ _ hseq | release _ _ _ _ hseq => rw [hseq]
  | @enter sequence g i d hseq hfree hslot =>
    rw [hseq]
    exact le_of_lt (lt_rank_checkedSucc sequence)

theorem Touch.later (ht : Touch r r') : Later r r' where
  ring := by
    cases ht with
    | keep hring | advance _ hring | release _ hring => exact hring
    | enter => rfl
  slots := ht.slots
  sequence := ht.sequence
  older := by
    obtain ⟨fresh, hfresh⟩ := ht.entries
    intro id e' he'
    rcases hfresh id e' he' with hold | ⟨-, hseq, -⟩
    · exact .inl hold
    · rw [hseq]
      exact .inr (le_refl _)

theorem WF.run_calls (hw : WF r) (calls : List RequestCall) :
    WF (run RequestRegistry.call r calls) :=
  Lib.run_preserves (I := WF) (fun _ c h => (h.call_move c).wf h) hw calls

theorem WF.later_run (hw : WF r) (calls : List RequestCall) :
    Later r (run RequestRegistry.call r calls) := by
  have hstep : ∀ (s : RequestRegistry) (c : RequestCall), WF s ∧ Later r s →
      WF (s.call c).2 ∧ Later r (s.call c).2 := by
    rintro s c ⟨hs, hlater⟩
    exact ⟨(hs.call_move c).wf hs, hlater.trans (hs.call_touch c).later⟩
  exact (Lib.run_preserves hstep ⟨hw, Later.refl r⟩ calls).2

/-! ## The pool and the sequences -/

/-- What identifies the requests of a reachable registry. -/
structure Identified (r : RequestRegistry) : Prop where
  wf : WF r
  free_all : ∀ (i : Nat) g, r.slots[i]? = some ⟨some g, none⟩ → i ∈ r.freeSlots
  sequenced : ∀ id e, r.entry id = .ok e → e.sequence.val < rank r.nextSequence
  distinct : ∀ id id' e e', r.entry id = .ok e → r.entry id' = .ok e' →
    e.sequence = e'.sequence → id = id'

theorem Touch.free_all (ht : Touch r r')
    (h : ∀ (i : Nat) g, r.slots[i]? = some ⟨some g, none⟩ → i ∈ r.freeSlots) :
    ∀ (i : Nat) g, r'.slots[i]? = some ⟨some g, none⟩ → i ∈ r'.freeSlots := by
  intro j g' hj
  cases ht with
  | keep hring hslots hfree hseq =>
    rw [hslots] at hj
    rw [hfree]
    exact h j g' hj
  | @enter sequence g i d hseq hfree hslot =>
    obtain ⟨rest, hrest⟩ := List.getLast?_eq_some_iff.mp hfree
    show j ∈ r.freeSlots.dropLast
    rcases Lib.getElem?_set_cases hj with ⟨-, heq⟩ | ⟨hne, hj⟩
    · cases heq
    have hmem := h j g' hj
    rw [hrest] at hmem ⊢
    simpa [hne] using hmem
  | @advance _ id e st he hring hslots hfree hseq =>
    rw [hfree]
    rw [hslots] at hj
    rcases Lib.getElem?_set_cases hj with ⟨-, heq⟩ | ⟨-, hj⟩
    · cases heq
    · exact h j g' hj
  | @release _ id e he hring hslots hfree hseq =>
    rw [hslots] at hj
    rw [hfree]
    unfold vacate
    rcases Lib.getElem?_set_cases hj with ⟨rfl, heq⟩ | ⟨-, hj⟩
    · have hsucc : id.generation.checkedSucc = some g' := by simpa using heq.symm
      simp [hsucc]
    · have hmem := h j g' hj
      split
      · exact List.mem_append_left _ hmem
      · exact hmem

theorem Identified.touch (hid : Identified r) (ht : Touch r r') (hw' : WF r') : Identified r' := by
  obtain ⟨fresh, hfresh⟩ := ht.entries
  refine ⟨hw', ht.free_all hid.free_all, ?_, ?_⟩
  · intro id e' he'
    rcases hfresh id e' he' with ⟨e, he, hseq⟩ | ⟨-, -, hnext⟩
    · rw [← hseq]
      exact lt_of_lt_of_le (hid.sequenced id e he) ht.sequence
    · rw [hnext]
      exact lt_rank_checkedSucc _
  · intro id id' e₁ e₂ h₁ h₂ heq
    rcases hfresh id e₁ h₁ with ⟨e, he, hseq⟩ | ⟨hf, hseq, -⟩
    · rcases hfresh id' e₂ h₂ with ⟨e', he', hseq'⟩ | ⟨-, hseq', -⟩
      · exact hid.distinct id id' e e' he he' (by rw [hseq, hseq', heq])
      · -- the new request carries the next sequence, which no old one has
        have hlt := hid.sequenced id e he
        rw [hseq', rank_some, hseq, heq] at hlt
        exact absurd hlt (lt_irrefl _)
    · rcases hfresh id' e₂ h₂ with ⟨e', he', hseq'⟩ | ⟨hf', -, -⟩
      · have hlt := hid.sequenced id' e' he'
        rw [hseq, rank_some, hseq', heq] at hlt
        exact absurd hlt (lt_irrefl _)
      · rw [hf] at hf'
        exact some.inj hf'

theorem Identified.call (hid : Identified r) (c : RequestCall) : Identified (r.call c).2 :=
  hid.touch (hid.wf.call_touch c) ((hid.wf.call_move c).wf hid.wf)

theorem Identified.free_iff (hid : Identified r) (i : Nat) :
    i ∈ r.freeSlots ↔ ∃ g, r.slots[i]? = some ⟨some g, none⟩ :=
  ⟨hid.wf.free_vacant i, fun ⟨g, hg⟩ => hid.free_all i g hg⟩

/-! ## Errors -/

theorem registryEvent_error (c : RequestCall) (x : IoUringError) :
    registryEvent c (.error x) = none := by
  cases c <;> rfl

/-- A call that fails has changed nothing. -/
theorem WF.call_error (hw : WF r) (h : (r.call c).1 = .error x) : (r.call c).2 = r := by
  have hlife : (r.call c).2.lifecycle = r.lifecycle := by
    rcases hw.call_phase c with hkept | ⟨l, reply, -, heq⟩
    · exact hkept
    · rw [heq] at h
      cases h
  have hmove := hw.call_move c
  unfold CallMove at hmove
  rw [h, registryEvent_error] at hmove
  generalize (r.call c).2 = r' at hmove hlife
  cases hmove with
  | refuse => rfl
  | phase l =>
    obtain rfl : l = r.lifecycle := hlife
    rfl

/-- The pool never overflows, whatever id is cleared. -/
theorem WF.clearSlot_ne_invalid (hw : WF r) (id : RequestId) :
    (r.clearSlot id).1 ≠ .error .invalidRequestState := by
  cases he : r.entry id with
  | ok e =>
    rw [hw.clearSlot_eq he]
    simp
  | error x =>
    obtain rfl := entry_eq_error he
    unfold entry at he
    unfold clearSlot
    repeat' split at he
    all_goals simp_all

/-! ## Stale identities -/

/-- A dead id whose slot has not gone back: the generation has moved past it. -/
theorem rank_of_dead (hlater : Later r r') (he : r.entry id = .ok e)
    (hdead : ∀ e', r'.entry id ≠ .ok e') :
    ∃ s, r'.slots[id.slot]? = some s ∧ id.generation.val < rank s.generation := by
  obtain ⟨hring, hslot⟩ := entry_eq_ok.mp he
  obtain ⟨⟨gen, ent⟩, hs, hgen, hentry⟩ | ⟨s, hs, hlt⟩ :
      (∃ s, r'.slots[id.slot]? = some s ∧ s.generation = some id.generation ∧
        ∃ st, s.entry = some { e with state := st }) ∨
      ∃ s, r'.slots[id.slot]? = some s ∧ id.generation.val < rank s.generation := by
    obtain ⟨s, hs, ⟨hgen, hentry⟩ | hlt⟩ := hlater.slots _ _ hslot
    · exact .inl ⟨s, hs, hgen, hentry e rfl⟩
    · exact .inr ⟨s, hs, hlt⟩
  · -- with its generation the slot would have kept the entry
    obtain ⟨st, hst⟩ := hentry
    subst hgen hst
    exact absurd (entry_eq_ok.mpr ⟨hring.trans hlater.ring.symm, hs⟩) (hdead _)
  · exact ⟨s, hs, hlt⟩

/-- Past its generation an id stays dead. -/
theorem dead_of_rank (hlater : Later r r') (hs : r.slots[id.slot]? = some s)
    (hlt : id.generation.val < rank s.generation) (e : RequestEntry) : r'.entry id ≠ .ok e := by
  intro he
  obtain ⟨s', hs', hage⟩ := hlater.slots _ _ hs
  have hle := hage.rank_le
  rw [(entry_eq_ok.mp he).2] at hs'
  obtain rfl := some.inj hs'
  rw [rank_some] at hle
  omega

theorem generation_lt (hlater : Later r r') (he : r.entry id = .ok e) (he' : r'.entry id' = .ok e')
    (hslot : id'.slot = id.slot) (hne : id' ≠ id) : id.generation.val < id'.generation.val := by
  obtain ⟨hring', hs'⟩ := entry_eq_ok.mp he'
  have hdead : ∀ e₂, r'.entry id ≠ .ok e₂ := fun e₂ he₂ => hne (id_eq_of_slot_eq he' he₂ hslot)
  obtain ⟨s, hs, hlt⟩ := rank_of_dead hlater he hdead
  rw [← hslot, hs'] at hs
  obtain rfl := some.inj hs
  exact hlt

theorem Identified.sequence_eq (hid : Identified r) (hlater : Later r r') (he : r.entry id = .ok e)
    (he' : r'.entry id' = .ok e') (hseq : e.sequence = e'.sequence) : id = id' := by
  rcases hlater.older id' e' he' with ⟨e₀, he₀, heq⟩ | hnew
  · exact hid.distinct id id' e e₀ he he₀ (hseq.trans heq.symm)
  have hlt := hid.sequenced id e he
  rw [hseq] at hlt
  omega

/-- A slot past the last generation is retired for good. -/
theorem WF.retired (hw' : WF r') (hlater : Later r r') (hs : r.slots[i]? = some s)
    (hmax : rank s.generation = 2 ^ 64) : r'.slots[i]? = some ⟨none, none⟩ ∧ i ∉ r'.freeSlots := by
  obtain ⟨⟨gen, ent⟩, hs', hage⟩ := hlater.slots i s hs
  have hle := hage.rank_le
  have hgen : gen = none := by
    cases gen with
    | none => rfl
    | some g =>
      have hlt := g.lt
      rw [hmax, rank_some] at hle
      omega
  subst hgen
  have hent : ent = none := by
    cases ent with
    | none => rfl
    | some e => exact absurd (hw'.occupied_gen i _ hs' rfl) (by simp)
  subst hent
  refine ⟨hs', fun hmem => ?_⟩
  obtain ⟨g, hg⟩ := hw'.free_vacant i hmem
  rw [hs'] at hg
  simp at hg

end

/-! ## The identities of every run -/

/-- What the ids and the pool of a state `r` of a run guarantee, now and after
any further calls. -/
structure RequestIdentity (r : RequestRegistry) : Prop where
  free_nodup : r.freeSlots.Nodup
  free_exact : ∀ i, i ∈ r.freeSlots ↔ ∃ g, r.slots[i]? = some ⟨some g, none⟩
  generations : ∀ later id id' e e', r.entry id = .ok e →
    (run call r later).entry id' = .ok e' → id'.slot = id.slot → id' ≠ id →
      id.generation.val < id'.generation.val
  sequences : ∀ later id id' e e', r.entry id = .ok e → (run call r later).entry id' = .ok e' →
    e.sequence = e'.sequence → id = id'
  stale : ∀ mid later id e, r.entry id = .ok e → (∀ e', (run call r mid).entry id ≠ .ok e') →
    ∀ e', (run call r (mid ++ later)).entry id ≠ .ok e'
  -- the request of generation `u64::MAX` is the last its slot ever holds
  retired : ∀ mid later id e, r.entry id = .ok e → id.generation.val = 2 ^ 64 - 1 →
    (∀ e', (run call r mid).entry id ≠ .ok e') →
      (run call r (mid ++ later)).slots[id.slot]? = some ⟨none, none⟩ ∧
        id.slot ∉ (run call r (mid ++ later)).freeSlots
  clear : ∀ id, (r.clearSlot id).1 ≠ .error .invalidRequestState ∧
    ∀ e, r.entry id = .ok e → (r.clearSlot id).1 = .ok ()
  -- the four callers of `refund_credits`
  refund : (∀ res, (r.rollback res).1 ≠ .error .invalidCompletionConsumption) ∧
    (∀ token, (r.discardCompletion token).1 ≠ .error .invalidCompletionConsumption) ∧
    (∀ head, (r.observeCompletionHead head).1 ≠ .error .invalidCompletionConsumption) ∧
    r.discardPublished.1 ≠ .error .invalidCompletionConsumption
  atomic : ∀ c x, (r.call c).1 = .error x → (r.call c).2 = r

theorem Identified.requestIdentity (hid : Identified r) :
    RequestIdentity r where
  free_nodup := hid.wf.free_nodup
  free_exact := hid.free_iff
  generations := fun later _ _ _ _ he he' => generation_lt (hid.wf.later_run later) he he'
  sequences := fun later _ _ _ _ he he' => hid.sequence_eq (hid.wf.later_run later) he he'
  stale := by
    intro mid later id e he hdead e'
    have hmid := hid.wf.run_calls mid
    obtain ⟨s, hs, hlt⟩ := rank_of_dead (hid.wf.later_run mid) he hdead
    rw [Lib.run_append]
    exact dead_of_rank (hmid.later_run later) hs hlt e'
  retired := by
    intro mid later id e he hmax hdead
    have hmid := hid.wf.run_calls mid
    obtain ⟨s, hs, hlt⟩ := rank_of_dead (hid.wf.later_run mid) he hdead
    have hle := rank_le s.generation
    rw [Lib.run_append]
    exact (hmid.run_calls later).retired (hmid.later_run later) hs (by omega)
  clear := by
    intro id
    refine ⟨hid.wf.clearSlot_ne_invalid id, fun e he => ?_⟩
    rw [hid.wf.clearSlot_eq he]
  refund := ⟨hid.wf.rollback_ne_underflow, hid.wf.discardCompletion_ne_underflow,
    hid.wf.observeCompletionHead_ne_underflow, hid.wf.discardPublished_ne_underflow⟩
  atomic := fun _ _ h => hid.wf.call_error h

theorem new_identified {slotsReserved freeReserved : Bool} {ring : RingId} {capacity entries : Nat}
    (hnew : new slotsReserved freeReserved ring capacity entries = .ok r) : Identified r := by
  have hw := new_wf hnew
  obtain ⟨-, -, rfl⟩ := new_eq_ok hnew
  have hvacant : ∀ {id : RequestId} {e : RequestEntry},
      (List.replicate capacity (⟨some .one, none⟩ : RequestSlot))[id.slot]?
        ≠ some ⟨some id.generation, some e⟩ := by
    intro id e hs
    have hbad := List.eq_of_mem_replicate (List.mem_of_getElem? hs)
    simp at hbad
  refine ⟨hw, ?_, ?_, ?_⟩
  · intro i g hi
    have hlt := Lib.lt_of_getElem? hi
    simpa using hlt
  · intro id e he
    exact absurd (entry_eq_ok.mp he).2 hvacant
  · intro id id' e e' he
    exact absurd (entry_eq_ok.mp he).2 hvacant

/-- **Request identities are never reused.** In every state a registry reaches,
under any sequence of calls with any tokens, the pool is exact, ids and
sequences are fresh, no internal error is reachable and errors are atomic. -/
theorem run_request_identity {slotsReserved freeReserved : Bool} {ring : RingId}
    {capacity entries : Nat} {r : RequestRegistry}
    (hnew : new slotsReserved freeReserved ring capacity entries = .ok r)
    (calls : List RequestCall) : RequestIdentity (run call r calls) := by
  have hrun : Identified (run call r calls) :=
    Lib.run_preserves (I := Identified) (fun _ c h => h.call c) (new_identified hnew) calls
  exact hrun.requestIdentity

/-- The ids of a ring with one slot, while its first request publishes. -/
theorem run_request_identity_publishing : ∃ r, new true true ⟨.one⟩ 1 1 = .ok r ∧
    (run call r publishingCalls).freeSlots = [] ∧
      RequestIdentity (run call r publishingCalls) := by
  have hnew : new true true ⟨.one⟩ 1 1 = .ok _ := rfl
  exact ⟨_, hnew, by decide, run_request_identity hnew publishingCalls⟩

end RequestRegistry

end LinuxAbi.IoUring
