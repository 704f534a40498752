import LinuxAbi.Fd.EpollQueue

/-!
# Deliveries are linear, slots are safe to reuse

Interest generations and delivery serials are handed out once each. What a move
does to the live entries is summarised once more in `Effect`, in terms of tokens
instead of slots; the history invariant `Linear` then follows from `Effect`
alone. A token that is not live any more is refused by every operation, with the
core left as it was.

Tokens are arbitrary throughout, delivery tokens included: a serial can be
finished once whoever claims to hold it.
-/

namespace LinuxAbi.Fd

open EpollEvent
open Nat
open List
open Lib (run events)

universe u

variable {U S V : Type u}

namespace EpollEvent

/-- The generation an event publishes. -/
def generation? : EpollEvent U S → Option Nat
  | .published t _ => some t.generation
  | _ => none

/-- The serial an event hands out. -/
def serial? : EpollEvent U S → Option Nat
  | .committed d => some d.serial
  | _ => none

/-- The event finishes the delivery `d`. -/
def finishes (d : DeliveryToken) : EpollEvent U S → Bool
  | .finished d' _ => d' = d
  | _ => false

/-- The event finishes a delivery of the interest `t` as copied. -/
def copies (t : EpollToken) : EpollEvent U S → Bool
  | .finished d (.copied _) => d.interest = t
  | _ => false

theorem finishes_iff {d : DeliveryToken} {ev : EpollEvent U S} :
    ev.finishes d = true ↔ ∃ outcome, ev = .finished d outcome := by
  cases ev with
  | finished d' outcome => simp [finishes]
  | _ => simp [finishes]

theorem copies_iff {t : EpollToken} {ev : EpollEvent U S} :
    ev.copies t = true ↔ ∃ d stillReady, ev = .finished d (.copied stillReady) ∧ d.interest = t := by
  cases ev with
  | finished d outcome => cases outcome <;> simp [copies]
  | _ => simp [copies]

end EpollEvent

namespace EpollCore

/-- What a move does to the live tokens. -/
structure Effect (c : EpollCore U S) (evs : List (EpollEvent U S)) (c' : EpollCore U S) : Prop where
  entry_back : ∀ t e', c'.entry t = .ok e' →
    (∃ e, c.entry t = .ok e ∧ (e'.enabled = true → e.enabled = true) ∧
      ∀ serial, e'.inDelivery = some serial →
        e.inDelivery = some serial ∨ serial = c.nextDelivery) ∨
    (t.generation = c.nextGeneration ∧ e'.inDelivery = none)
  entry_forth : ∀ t e, c.entry t = .ok e →
    .retired t ∈ evs ∨ ∃ e', c'.entry t = .ok e' ∧ e'.interest = e.interest
  retired : ∀ t, .retired t ∈ evs → (∃ e, c.entry t = .ok e) ∧ ∀ e', c'.entry t ≠ .ok e'
  published : ∀ t i, .published t i ∈ evs →
    t.generation = c.nextGeneration ∧ ∃ e', c'.entry t = .ok e' ∧ e'.interest = i
  finished : ∀ d outcome, .finished d outcome ∈ evs → evs = [.finished d outcome] ∧
    ∃ e e', c.entry d.interest = .ok e ∧ e.inDelivery = some d.serial ∧
      c'.entry d.interest = .ok e' ∧ e'.inDelivery = none ∧
      ∀ stillReady, outcome = .copied stillReady → e.interest.mode.oneShot = true →
        e'.enabled = false
  generations : evs.filterMap generation? = [] ∧ c'.nextGeneration = c.nextGeneration ∨
    evs.filterMap generation? = [c.nextGeneration] ∧
      c'.nextGeneration = c.nextGeneration + 1
  serials : evs.filterMap serial? = [] ∧ c'.nextDelivery = c.nextDelivery ∨
    evs.filterMap serial? = [c.nextDelivery] ∧ c'.nextDelivery = c.nextDelivery + 1

section Effects

variable {c c' : EpollCore U S}

variable {t₀ : EpollToken} {e e' : Entry U S} {ev : EpollEvent U S}

section

variable (he : c.entry t₀ = .ok e) (hid : c'.id = c.id)
  (hentries : c'.entries = c.entries.set t₀.slot (some e')) (hgen : e'.generation = e.generation)
include he hid hentries hgen

/-- Rewriting one entry in place keeps every token live. -/
theorem update_back (hen : e'.enabled = true → e.enabled = true)
    (hin : ∀ serial, e'.inDelivery = some serial →
      e.inDelivery = some serial ∨ serial = c.nextDelivery) (t : EpollToken) (f : Entry U S)
    (hf : c'.entry t = .ok f) :
    (∃ e, c.entry t = .ok e ∧ (f.enabled = true → e.enabled = true) ∧
      ∀ serial, f.inDelivery = some serial →
        e.inDelivery = some serial ∨ serial = c.nextDelivery) ∨
    (t.generation = c.nextGeneration ∧ f.inDelivery = none) := by
  left
  rcases (entry_update he hid hentries hgen).mp hf with ⟨rfl, rfl⟩ | ⟨-, hf⟩
  · exact ⟨e, he, hen, hin⟩
  · exact ⟨f, hf, fun h => h, fun _ h => .inl h⟩

theorem update_forth (hint : e'.interest = e.interest) (t : EpollToken) (f : Entry U S)
    (hf : c.entry t = .ok f) : ∃ f', c'.entry t = .ok f' ∧ f'.interest = f.interest := by
  by_cases ht : t = t₀
  · subst ht
    rw [he] at hf
    cases hf
    exact ⟨e', (entry_update he hid hentries hgen).mpr (.inl ⟨rfl, rfl⟩), hint⟩
  · exact ⟨f, (entry_update he hid hentries hgen).mpr (.inr ⟨ht, hf⟩), rfl⟩

/-- The effect of rewriting one entry in place, without a finish. -/
theorem Effect.of_update (hint : e'.interest = e.interest)
    (hen : e'.enabled = true → e.enabled = true) (hin : ∀ serial, e'.inDelivery = some serial →
      e.inDelivery = some serial ∨ serial = c.nextDelivery)
    (hnext : c'.nextGeneration = c.nextGeneration)
    (hev : (∃ ready, ev = .accepted t₀ ready) ∧ c'.nextDelivery = c.nextDelivery ∨
      (∃ events, ev = .committed ⟨t₀, c.nextDelivery, events⟩) ∧
        c'.nextDelivery = c.nextDelivery + 1) : Effect c [ev] c' := by
  have hquiet : (∀ t, ev ≠ .retired t) ∧ (∀ t i, ev ≠ .published t i) ∧
      ∀ d outcome, ev ≠ .finished d outcome := by
    rcases hev with ⟨⟨ready, rfl⟩, -⟩ | ⟨⟨events, rfl⟩, -⟩ <;> simp
  refine ⟨update_back he hid hentries hgen hen hin,
    fun t f hf => .inr (update_forth he hid hentries hgen hint t f hf), ?_, ?_, ?_, ?_, ?_⟩
  · intro t ht
    exact absurd (mem_singleton.mp ht).symm (hquiet.1 t)
  · intro t i ht
    exact absurd (mem_singleton.mp ht).symm (hquiet.2.1 t i)
  · intro d outcome hd
    exact absurd (mem_singleton.mp hd).symm (hquiet.2.2 d outcome)
  · left
    refine ⟨?_, hnext⟩
    rcases hev with ⟨⟨ready, rfl⟩, -⟩ | ⟨⟨events, rfl⟩, -⟩ <;> rfl
  · rcases hev with ⟨⟨ready, rfl⟩, hser⟩ | ⟨⟨events, rfl⟩, hser⟩
    · exact .inl ⟨rfl, hser⟩
    · exact .inr ⟨rfl, hser⟩

end

/-- The effect of finishing a delivery; `e'` is the finished entry, possibly
queued again. -/
theorem Effect.of_finish (he : c.entry d.interest = .ok e) (hin : e.inDelivery = some d.serial)
    (hid : c'.id = c.id) (hentries : c'.entries = c.entries.set d.interest.slot (some e'))
    (hgen : e'.generation = e.generation) (hint : e'.interest = e.interest)
    (hen : e'.enabled = (e.finished d.events outcome).enabled) (hidle : e'.inDelivery = none)
    (hnext : c'.nextGeneration = c.nextGeneration) (hser : c'.nextDelivery = c.nextDelivery) :
    Effect c [.finished d outcome] c' := by
  have hen' : e'.enabled = true → e.enabled = true := by
    rw [hen]
    cases outcome with
    | copied stillReady =>
      show (if _ then _ else _ : Bool) = true → _
      split
      · exact fun h => by cases h
      · exact fun h => h
    | suppressed | fault => exact fun h => h
  refine ⟨update_back he hid hentries hgen hen' (by simp [hidle]),
    fun t f hf => .inr (update_forth he hid hentries hgen hint t f hf), by simp, by simp, ?_,
    .inl ⟨rfl, hnext⟩, .inl ⟨rfl, hser⟩⟩
  intro d' outcome' hd
  cases mem_singleton.mp hd
  refine ⟨rfl, e, e', he, hin, (entry_update he hid hentries hgen).mpr (.inl ⟨rfl, rfl⟩), hidle, ?_⟩
  rintro stillReady rfl honce
  rw [hen]
  exact if_pos honce

/-- The effect of publishing under the next generation in a slot whose old token,
if any, is retired. -/
theorem Effect.of_renew {slot : Nat} {interest : EpollInterest U S} {ready : ReadyQueue}
    (evs : List (EpollEvent U S)) (hw : WF c) (hlt : slot < c.entries.length)
    (hevs : evs = [] ∧ c.entries[slot]? = some none ∨
      ∃ t e, evs = [.retired t] ∧ c.entry t = .ok e ∧ t.slot = slot) :
    Effect c (evs ++ [.published ⟨c.id, slot, c.nextGeneration⟩ interest])
      (c.renew slot interest ready) := by
  have hentry : ∀ t f, (c.renew slot interest ready).entry t = .ok f ↔
      (t.slot = slot ∧ t.epoll = c.id ∧ some (Entry.fresh c.nextGeneration interest) = some f ∧
        f.generation = t.generation) ∨ (t.slot ≠ slot ∧ c.entry t = .ok f) := by
    have hid : (c.renew slot interest ready).id = c.id := rfl
    exact fun t f => entry_reslot hlt hid rfl
  have hpub : ∀ t i, .published t i ∈ evs ++ [.published ⟨c.id, slot, c.nextGeneration⟩ interest] →
      t = ⟨c.id, slot, c.nextGeneration⟩ ∧ i = interest := by
    intro t i ht
    rcases hevs with ⟨rfl, -⟩ | ⟨t', e, rfl, -, -⟩
    · simpa using ht
    · simpa using ht
  refine ⟨?_, ?_, ?_, ?_, ?_, ?_, ?_⟩
  · intro t f hf
    rcases (hentry t f).mp hf with ⟨-, -, hfresh, hgen⟩ | ⟨-, hf⟩
    · cases hfresh
      exact .inr ⟨hgen.symm, rfl⟩
    · exact .inl ⟨f, hf, fun h => h, fun _ h => .inl h⟩
  · intro t e he
    by_cases hslot : t.slot = slot
    · left
      rcases hevs with ⟨rfl, hnone⟩ | ⟨t', e', rfl, he', hslot'⟩
      · rw [← hslot, (entry_eq_ok.mp he).2.1] at hnone
        cases hnone
      · rw [token_eq_of_slot_eq he he' (hslot.trans hslot'.symm)]
        exact mem_append_left _ mem_cons_self
    · exact .inr ⟨e, (hentry t e).mpr (.inr ⟨hslot, he⟩), rfl⟩
  · intro t ht
    rcases hevs with ⟨rfl, -⟩ | ⟨t', e', rfl, he', hslot'⟩
    · simp at ht
    have htt : t = t' := by simpa using ht
    subst htt
    refine ⟨⟨e', he'⟩, ?_⟩
    intro f hf
    rcases (hentry t f).mp hf with ⟨-, -, hfresh, hgen⟩ | ⟨hne, -⟩
    · cases hfresh
      -- the retired generation is older than the one just published
      have hold := (hw.entryOk he').gen_lt
      have hgen' : e'.generation = c.nextGeneration := by
        rw [(entry_eq_ok.mp he').2.2]
        exact hgen.symm
      omega
    · exact hne hslot'
  · intro t i ht
    obtain ⟨rfl, rfl⟩ := hpub t i ht
    exact ⟨rfl, _, (hentry _ _).mpr (.inl ⟨rfl, rfl, rfl, rfl⟩), rfl⟩
  · intro d outcome hd
    rcases hevs with ⟨rfl, -⟩ | ⟨t', e, rfl, -, -⟩ <;> simp at hd
  · right
    rcases hevs with ⟨rfl, -⟩ | ⟨t', e, rfl, -, -⟩ <;> exact ⟨rfl, rfl⟩
  · left
    rcases hevs with ⟨rfl, -⟩ | ⟨t', e, rfl, -, -⟩ <;> exact ⟨rfl, rfl⟩

theorem Effect.of_remove {t : EpollToken} {ready : ReadyQueue} (he : c.entry t = .ok e) :
    Effect c [.retired t] { c with entries := c.entries.set t.slot none, ready } := by
  have hlt : t.slot < c.entries.length := Lib.lt_of_getElem? (entry_eq_ok.mp he).2.1
  have hentry : ∀ u f, ({ c with entries := c.entries.set t.slot none, ready }
      : EpollCore U S).entry u = .ok f ↔ u.slot ≠ t.slot ∧ c.entry u = .ok f := by
    intro u f
    have hid : ({ c with entries := c.entries.set t.slot none, ready } : EpollCore U S).id = c.id :=
      rfl
    have hre := entry_reslot (t := u) (f := f) hlt hid rfl
    simpa using hre
  refine ⟨?_, ?_, ?_, by simp, by simp, .inl ⟨rfl, rfl⟩, .inl ⟨rfl, rfl⟩⟩
  · intro u f hf
    exact .inl ⟨f, ((hentry u f).mp hf).2, fun h => h, fun _ h => .inl h⟩
  · intro u f hf
    by_cases hslot : u.slot = t.slot
    · left
      rw [token_eq_of_slot_eq hf he hslot]
      exact List.mem_cons_self
    · exact .inr ⟨f, (hentry u f).mpr ⟨hslot, hf⟩, rfl⟩
  · intro u hu
    cases List.mem_singleton.mp hu
    exact ⟨⟨e, he⟩, fun f hf => ((hentry t f).mp hf).1 rfl⟩

theorem Move.effect (hm : Move c evs c') (hw : WF c) : Effect c evs c' := by
  cases hm with
  | refuse =>
    exact ⟨fun t e he => .inl ⟨e, he, fun h => h, fun _ h => .inl h⟩,
      fun t e he => .inr ⟨e, he, rfl⟩, by simp, by simp, by simp, .inl ⟨rfl, rfl⟩,
      .inl ⟨rfl, rfl⟩⟩
  | @publish slot interest hslot =>
    exact Effect.of_renew [] hw (Lib.lt_of_getElem? hslot) (.inl ⟨rfl, hslot⟩)
  | @replace t e interest he =>
    exact Effect.of_renew [.retired t] hw
      (Lib.lt_of_getElem? (entry_eq_ok.mp he).2.1) (.inr ⟨t, e, rfl, he, rfl⟩)
  | @remove t e he => exact Effect.of_remove he
  | @absorb _ _ ready he | @merge _ _ ready he | @wake _ _ _ ready he =>
    exact Effect.of_update he rfl rfl rfl rfl (fun h => h) (fun _ h => .inl h) rfl
      (.inl ⟨⟨ready, rfl⟩, rfl⟩)
  | @commit t e he hq hpeek =>
    exact Effect.of_update he rfl rfl rfl rfl (fun h => h)
      (fun _ h => .inr (Option.some.inj h).symm) rfl (.inr ⟨⟨e.ready, rfl⟩, rfl⟩)
  | @finish d e outcome he hin hidle =>
    exact Effect.of_finish he hin rfl rfl (by simp) (by simp) rfl (by simp) rfl rfl
  | @requeue d e ready' outcome he hin hen hpush =>
    exact Effect.of_finish he hin rfl rfl (e.finished_generation d.events outcome)
      (e.finished_interest d.events outcome) rfl (e.finished_inDelivery d.events outcome) rfl rfl

end Effects

/-! ## The history invariant -/

/-- What the history of a run says about the live entries. -/
structure Linear (past : List (EpollEvent U S)) (c : EpollCore U S) : Prop where
  wf : WF c
  generations : (past.filterMap generation?).Pairwise (· < ·) ∧
    ∀ g ∈ past.filterMap generation?, g < c.nextGeneration
  serials : (past.filterMap serial?).Pairwise (· < ·) ∧
    ∀ serial ∈ past.filterMap serial?, serial < c.nextDelivery
  retired : ∀ t, .retired t ∈ past →
    t.generation < c.nextGeneration ∧ ∀ e, c.entry t ≠ .ok e
  alive : ∀ t i, .published t i ∈ past →
    .retired t ∈ past ∨ ∃ e, c.entry t = .ok e ∧ e.interest = i
  finished : ∀ d outcome, .finished d outcome ∈ past →
    d.interest.generation < c.nextGeneration ∧ d.serial < c.nextDelivery ∧
      ∀ e, c.entry d.interest = .ok e → e.inDelivery ≠ some d.serial
  once : ∀ d, past.countP (finishes d) ≤ 1
  one_shot : ∀ t i, .published t i ∈ past → i.mode.oneShot = true →
    past.countP (copies t) ≤ 1 ∧
      ∀ e, c.entry t = .ok e → e.enabled = true → past.countP (copies t) = 0

/-- A counter handed out in order: appending nothing or the next value. -/
theorem pairwise_counter (h : l.Pairwise (· < ·) ∧ ∀ x ∈ l, x < n)
    (hnext : l' = [] ∧ n' = n ∨ l' = [n] ∧ n' = n + 1) :
    (l ++ l').Pairwise (· < ·) ∧ ∀ x ∈ l ++ l', x < n' := by
  obtain ⟨hpair, hlt⟩ := h
  rcases hnext with ⟨rfl, rfl⟩ | ⟨rfl, rfl⟩
  · rw [append_nil]
    exact ⟨hpair, hlt⟩
  refine ⟨pairwise_append.mpr ⟨hpair, pairwise_singleton _ _, ?_⟩, ?_⟩
  · intro x hx y hy
    rw [mem_singleton.mp hy]
    exact hlt x hx
  · exact Lib.forall_mem_concat (fun x hx => lt_succ_of_lt (hlt x hx)) (lt_succ_self n)

theorem live_generation_lt (hw : WF c)
    (he : c.entry t = .ok e) : t.generation < c.nextGeneration := by
  rw [← (entry_eq_ok.mp he).2.2]
  exact (hw.entryOk he).gen_lt

section Step

variable {c c' : EpollCore U S} {past evs : List (EpollEvent U S)}

theorem Effect.nextGeneration_le (heff : Effect c evs c') :
    c.nextGeneration ≤ c'.nextGeneration := by
  rcases heff.generations with ⟨-, h⟩ | ⟨-, h⟩ <;> omega

theorem Effect.nextDelivery_le (heff : Effect c evs c') : c.nextDelivery ≤ c'.nextDelivery := by
  rcases heff.serials with ⟨-, h⟩ | ⟨-, h⟩ <;> omega

section

variable (hl : Linear past c) (heff : Effect c evs c')
include hl heff

theorem Linear.retired_step (t : EpollToken) (ht : .retired t ∈ past ++ evs) :
    t.generation < c'.nextGeneration ∧ ∀ e, c'.entry t ≠ .ok e := by
  have hle := heff.nextGeneration_le
  rcases mem_append.mp ht with ht | ht
  · obtain ⟨hlt, hdead⟩ := hl.retired t ht
    refine ⟨lt_of_lt_of_le hlt hle, ?_⟩
    intro e' he'
    rcases heff.entry_back t e' he' with ⟨e, he, -⟩ | ⟨hgen, -⟩
    · exact hdead e he
    · omega
  · obtain ⟨⟨e, he⟩, hdead⟩ := heff.retired t ht
    exact ⟨lt_of_lt_of_le (live_generation_lt hl.wf he) hle, hdead⟩

theorem Linear.alive_step (t : EpollToken) (i : EpollInterest U S)
    (ht : .published t i ∈ past ++ evs) :
    .retired t ∈ past ++ evs ∨ ∃ e, c'.entry t = .ok e ∧ e.interest = i := by
  rcases mem_append.mp ht with ht | ht
  · rcases hl.alive t i ht with hret | ⟨e, he, hint⟩
    · exact .inl (mem_append_left _ hret)
    · rcases heff.entry_forth t e he with hret | ⟨e', he', hint'⟩
      · exact .inl (mem_append_right _ hret)
      · exact .inr ⟨e', he', hint'.trans hint⟩
  · exact .inr (heff.published t i ht).2

theorem Linear.finished_step (d : DeliveryToken) (outcome : DeliveryOutcome)
    (hd : .finished d outcome ∈ past ++ evs) :
    d.interest.generation < c'.nextGeneration ∧ d.serial < c'.nextDelivery ∧
      ∀ e, c'.entry d.interest = .ok e → e.inDelivery ≠ some d.serial := by
  have hle := heff.nextGeneration_le
  have hle' := heff.nextDelivery_le
  rcases mem_append.mp hd with hd | hd
  · obtain ⟨hgen, hser, hdone⟩ := hl.finished d outcome hd
    refine ⟨lt_of_lt_of_le hgen hle, lt_of_lt_of_le hser hle', ?_⟩
    intro e' he' hin
    rcases heff.entry_back _ e' he' with ⟨e, he, -, hback⟩ | ⟨hgen', -⟩
    · rcases hback _ hin with h | h
      · exact hdone e he h
      · omega
    · omega
  · obtain ⟨-, e, e', he, hin, he', hidle, -⟩ := heff.finished d outcome hd
    refine ⟨lt_of_lt_of_le (live_generation_lt hl.wf he) hle,
      lt_of_lt_of_le ((hl.wf.entryOk he).serial_lt _ hin) hle', ?_⟩
    intro f hf
    rw [he'] at hf
    cases hf
    rw [hidle]
    simp

theorem Linear.once_step (d : DeliveryToken) :
    (past ++ evs).countP (finishes d) ≤ 1 := by
  rw [countP_append]
  have hzero {l : List (EpollEvent U S)} (hnone : ∀ outcome, .finished d outcome ∉ l) :
      l.countP (finishes d) = 0 := by
    refine countP_eq_zero.mpr fun ev hev hfin => ?_
    obtain ⟨outcome', rfl⟩ := finishes_iff.mp hfin
    exact hnone outcome' hev
  by_cases hd : ∃ outcome, .finished d outcome ∈ evs
  · obtain ⟨outcome, hd⟩ := hd
    obtain ⟨hevs, e, -, he, hin, -⟩ := heff.finished d outcome hd
    -- the delivery is still in flight, so it has not been finished before
    rw [hzero fun _ hev => (hl.finished d _ hev).2.2 e he hin, hevs, zero_add]
    exact countP_le_length
  · rw [hzero (not_exists.mp hd)]
    exact hl.once d

/-- A one-shot interest that is copied now has not been copied before, and is
disabled from now on. -/
theorem Linear.copied_now (hpub : .published d.interest i ∈ past) (honce : i.mode.oneShot = true)
    (hd : .finished d (.copied stillReady) ∈ evs) :
    (past ++ evs).countP (copies d.interest) = 1 ∧
      ∀ e', c'.entry d.interest = .ok e' → e'.enabled = false := by
  obtain ⟨hevs, e, e', he, hin, he', -, hdis⟩ := heff.finished d _ hd
  -- the live entry carries the published interest
  have hint : e.interest = i := by
    rcases hl.alive _ i hpub with hret | ⟨f, hf, hint⟩
    · exact absurd he ((hl.retired _ hret).2 e)
    rw [he] at hf
    cases hf
    exact hint
  have hen : e.enabled = true := by
    cases hen : e.enabled with
    | true => rfl
    | false =>
      have hidle := ((hl.wf.entryOk he).disabled_idle hen).2
      rw [hin] at hidle
      cases hidle
  have hzero := (hl.one_shot _ i hpub honce).2 e he hen
  refine ⟨?_, ?_⟩
  · rw [countP_append, hzero, hevs, zero_add]
    simp [copies]
  · intro f hf
    rw [he'] at hf
    cases hf
    exact hdis stillReady rfl (by rw [hint]; exact honce)

theorem Linear.one_shot_step (t : EpollToken) (i : EpollInterest U S)
    (hpub : .published t i ∈ past ++ evs) (honce : i.mode.oneShot = true) :
    (past ++ evs).countP (copies t) ≤ 1 ∧
      ∀ e, c'.entry t = .ok e → e.enabled = true →
        (past ++ evs).countP (copies t) = 0 := by
  rcases mem_append.mp hpub with hpub | hpub
  · by_cases hcopy : ∃ d stillReady, .finished d (.copied stillReady) ∈ evs ∧ d.interest = t
    · obtain ⟨d, stillReady, hd, rfl⟩ := hcopy
      obtain ⟨hcount, hdis⟩ := hl.copied_now heff hpub honce hd
      refine ⟨le_of_eq hcount, ?_⟩
      intro e he hen
      rw [hdis e he] at hen
      cases hen
    · have hzero : evs.countP (copies t) = 0 := by
        refine countP_eq_zero.mpr fun ev hev hc => ?_
        obtain ⟨d, stillReady, rfl, hd⟩ := copies_iff.mp hc
        exact hcopy ⟨d, stillReady, hev, hd⟩
      rw [countP_append, hzero, add_zero]
      obtain ⟨hle, hfresh⟩ := hl.one_shot t i hpub honce
      refine ⟨hle, ?_⟩
      intro e' he' hen'
      rcases heff.entry_back t e' he' with ⟨e, he, hen, -⟩ | ⟨hgen, -⟩
      · exact hfresh e he (hen hen')
      · have hlt := hl.generations.2 _ (mem_filterMap.mpr ⟨_, hpub, rfl⟩)
        omega
  · -- a generation published now has no deliveries in the past
    have hgen := (heff.published t i hpub).1
    have hzero : (past ++ evs).countP (copies t) = 0 := by
      refine countP_eq_zero.mpr fun ev hev hc => ?_
      obtain ⟨d, stillReady, rfl, rfl⟩ := copies_iff.mp hc
      rcases mem_append.mp hev with hev | hev
      · have hlt := (hl.finished d _ hev).1
        omega
      have hevs := (heff.finished d _ hev).1
      rw [hevs] at hpub
      simp at hpub
    rw [hzero]
    exact ⟨zero_le 1, fun _ _ _ => rfl⟩

end

/-- **One move keeps the history invariant.** -/
theorem Move.linear (hm : Move c evs c') (hl : Linear past c) : Linear (past ++ evs) c' := by
  have heff := hm.effect hl.wf
  refine ⟨hm.wf hl.wf, ?_, ?_, hl.retired_step heff, hl.alive_step heff, hl.finished_step heff,
    hl.once_step heff, hl.one_shot_step heff⟩
  · rw [filterMap_append]
    exact pairwise_counter hl.generations heff.generations
  · rw [filterMap_append]
    exact pairwise_counter hl.serials heff.serials

end Step

/-! ## Stale tokens are refused -/

section Stale

variable {c : EpollCore U S} {t : EpollToken}

section

variable (h : ∀ e, c.entry t ≠ .ok e)
include h

theorem entry_of_dead : c.entry t = .error .staleToken := by
  cases he : c.entry t with
  | error x => rw [entry_eq_error he]
  | ok e => exact absurd he (h e)

theorem notify_stale (ready : ReadyMask) : c.notify t ready = (.error .staleToken, c) := by
  unfold notify
  rw [entry_of_dead h]

theorem remove_stale : c.remove t = (.error .staleToken, c) := by
  unfold remove
  rw [entry_of_dead h]

/-- A stale replacement fails; the mode is checked first. -/
theorem modify_stale (replacement : EpollInterest U S) :
    ∃ x, c.modify t replacement = (.error ⟨x, replacement⟩, c) := by
  unfold modify
  split
  · exact ⟨_, rfl⟩
  · rw [entry_of_dead h]
    exact ⟨_, rfl⟩

theorem commitDelivery_stale (userData : V) :
    c.commitDelivery ⟨t⟩ userData = (.error ⟨.staleToken, userData⟩, c) := by
  have hnot : c.isQueued t = false := by
    unfold isQueued
    rw [entry_of_dead h]
  exact if_pos fun hval => by rw [hnot] at hval; cases hval.2

end

theorem finishDelivery_stale (h : ∀ e, c.entry d.interest = .ok e → e.inDelivery ≠ some d.serial)
    (outcome : DeliveryOutcome) : c.finishDelivery d outcome = (.error .staleToken, c) := by
  unfold finishDelivery
  dsimp only
  split
  · next x hx => rw [entry_eq_error hx]
  · next e he => exact if_pos (h e he)

theorem notify_disabled (he : c.entry t = .ok e) (hen : e.enabled = false)
    (ready : ReadyMask) : c.notify t ready = (.ok .ignored, c) := by
  unfold notify
  rw [he]
  exact if_pos (by rw [hen]; exact Bool.false_ne_true)

end Stale

theorem run_linear {readyReserved entriesReserved : Bool} {id : EpollId}
    (hnew : tryNew readyReserved entriesReserved id capacity = .ok c₀)
    (calls : List (EpollCall U S V)) : Linear (history c₀ calls) (run call c₀ calls) := by
  have hinit : Linear [] c₀ := by
    refine ⟨tryNew_wf hnew, ?_, ?_, ?_, ?_, ?_, ?_, ?_⟩ <;> simp
  have hrun : Linear ([] ++ history c₀ calls) (run call c₀ calls) := by
    refine Lib.run_invariant (I := Linear) ?_ calls [] c₀ hinit
    intro past c o hl
    exact (hl.wf.call_move o).linear hl
  exact hrun

/-- **Deliveries are linear and slots are safe to reuse.** Along every run with
any tokens: a delivery is finished at most once, and after its finish or the end
of its interest every further attempt is refused without effect; generations
and serials are never handed out twice; a retired interest token is refused by
every operation without effect; and a one-shot generation is copied at most
once, after which its notifications are ignored as long as it is there. -/
theorem run_delivery_linear {readyReserved entriesReserved : Bool} {id : EpollId} {capacity : Nat}
    {c₀ : EpollCore U S} (hnew : tryNew readyReserved entriesReserved id capacity = .ok c₀)
    (calls : List (EpollCall U S V)) :
    let c := run call c₀ calls
    let past := history c₀ calls
    (∀ d, past.countP (finishes d) ≤ 1) ∧
    (∀ d, ((∃ outcome, .finished d outcome ∈ past) ∨ .retired d.interest ∈ past) →
      ∀ outcome, c.finishDelivery d outcome = (.error .staleToken, c)) ∧
    (past.filterMap generation?).Pairwise (· < ·) ∧
    (past.filterMap serial?).Pairwise (· < ·) ∧
    (∀ t, .retired t ∈ past →
      (∀ ready, c.notify t ready = (.error .staleToken, c)) ∧
      c.remove t = (.error .staleToken, c) ∧
      (∀ replacement, ∃ x, c.modify t replacement = (.error ⟨x, replacement⟩, c)) ∧
      ∀ userData : V, c.commitDelivery ⟨t⟩ userData = (.error ⟨.staleToken, userData⟩, c)) ∧
    ∀ t i, .published t i ∈ past → i.mode.oneShot = true →
      past.countP (copies t) ≤ 1 ∧
      (past.countP (copies t) = 1 → .retired t ∉ past →
        ∀ ready, c.notify t ready = (.ok .ignored, c)) := by
  intro c past
  have hl : Linear past c := run_linear hnew calls
  refine ⟨hl.once, ?_, hl.generations.1, hl.serials.1, ?_, ?_⟩
  · rintro d (⟨outcome', hd⟩ | hret) outcome
    · exact finishDelivery_stale (hl.finished d outcome' hd).2.2 outcome
    · exact finishDelivery_stale (fun e he => absurd he ((hl.retired _ hret).2 e)) outcome
  · intro t hret
    have hdead := (hl.retired t hret).2
    exact ⟨notify_stale hdead, remove_stale hdead, modify_stale hdead, commitDelivery_stale hdead⟩
  · intro t i hpub honce
    obtain ⟨hle, hfresh⟩ := hl.one_shot t i hpub honce
    refine ⟨hle, ?_⟩
    intro hone hret ready
    rcases hl.alive t i hpub with hret' | ⟨e, he, -⟩
    · exact absurd hret' hret
    refine notify_disabled he ?_ ready
    cases hen : e.enabled with
    | false => rfl
    | true =>
      have hzero := hfresh e he hen
      omega

/-- A one-shot interest, delivered once. -/
def oneShotCalls : List (EpollCall Unit Unit Unit) :=
  let token : EpollToken := ⟨⟨.one⟩, 0, 1⟩
  [.add ⟨⟨⟨.one⟩, ⟨3⟩⟩, 1, ⟨false, true, false⟩, (), ()⟩, .notify token 1,
    .commitDelivery ⟨token⟩ (), .finishDelivery ⟨token, 1, 1⟩ (.copied 1)]

/-- The delivery of `oneShotCalls` is finished once and cannot be finished again. -/
theorem run_delivery_linear_one_shot : ∃ c₀ : EpollCore Unit Unit,
    tryNew true true ⟨.one⟩ 1 = .ok c₀ ∧
      (history c₀ oneShotCalls).countP (finishes ⟨⟨⟨.one⟩, 0, 1⟩, 1, 1⟩) = 1 ∧
      ∀ d, (history c₀ oneShotCalls).countP (finishes d) ≤ 1 := by
  have hnew : tryNew (U := Unit) (S := Unit) true true ⟨.one⟩ 1 = .ok _ := rfl
  exact ⟨_, hnew, by decide, (run_delivery_linear hnew oneShotCalls).1⟩

end EpollCore

end LinuxAbi.Fd
