import LinuxAbi.Fd.EpollQueue

/-!
# No lost wakeup

An event bit that `notify` accepts is in one of three places until it is
released: the ready set of its interest, the set collected during a delivery, or
the events of the delivery in flight (`Recorded`). The third place is the
delivery token, which the adapter holds; the core keeps only the serial. The
tokens are therefore read off the history of the run.

`DeliveryToken` has private fields and no constructor, so the only tokens a
caller can pass to `finish_delivery` are the ones some epoll instance has handed
out; `HoldsToken` says so. All other tokens are arbitrary.
-/

namespace LinuxAbi.Fd

open List
open Lib (run events Guarded)

universe u

variable {U S V : Type u}

/-- A delivery token passed to `finish_delivery` was committed before, or is a
token of another epoll instance. -/
def HoldsToken (id : EpollId) (past : List (EpollEvent U S)) : EpollCall U S V → Prop
  | .finishDelivery d _ => .committed d ∈ past ∨ d.interest.epoll ≠ id
  | _ => True

/-- The events that give up bit `b` of the interest `t`: its generation is
removed or replaced, or a delivery that carries the bit is copied or suppressed. -/
def Releases (t : EpollToken) (b : Nat) : EpollEvent U S → Prop
  | .retired t' => t' = t
  | .finished d (.copied _) => d.interest = t ∧ d.events.getLsbD b = true
  | .finished d .suppressed => d.interest = t ∧ d.events.getLsbD b = true
  | _ => False

/-- Bit `b` is somewhere in the entry or in its delivery in flight. -/
def RecordedIn (past : List (EpollEvent U S)) (t : EpollToken) (e : Entry U S) (b : Nat) : Prop :=
  e.ready.getLsbD b = true ∨ e.duringDelivery.getLsbD b = true ∨
    ∃ d, .committed d ∈ past ∧ d.interest = t ∧ e.inDelivery = some d.serial ∧
      d.events.getLsbD b = true

namespace EpollCore

/-- Bit `b` of the live interest `t` is recorded. -/
def Recorded (past : List (EpollEvent U S)) (c : EpollCore U S) (t : EpollToken) (b : Nat) :
    Prop :=
  ∃ e, c.entry t = .ok e ∧ RecordedIn past t e b

/-- The delivery tokens handed out so far have distinct serials below the next one. -/
structure Serials (past : List (EpollEvent U S)) (c : EpollCore U S) : Prop where
  wf : WF c
  lt : ∀ d, .committed d ∈ past → d.serial < c.nextDelivery
  inj : ∀ d d', .committed d ∈ past → .committed d' ∈ past → d.serial = d'.serial → d = d'

end EpollCore

/-! ## Bits of a finished entry -/

variable {e : Entry U S} {b : Nat}

/-- What was ready or arrived during the delivery is ready afterwards, whatever the outcome. -/
theorem Entry.finished_ready {events : ReadyMask}
    (h : e.ready.getLsbD b = true ∨ e.duringDelivery.getLsbD b = true) :
    (e.finished events outcome).ready.getLsbD b = true := by
  cases outcome with
  | copied stillReady =>
    show (if _ then _ else _ : ReadyMask).getLsbD b = true
    rcases h with h | h <;> split <;> simp [h]
  | suppressed | fault => rcases h with h | h <;> simp [Entry.finished, h]

theorem RecordedIn.mono
    (h : RecordedIn past t e b) (hsub : past ⊆ past') : RecordedIn past' t e b := by
  rcases h with h | h | ⟨d, hd, hrest⟩
  · exact .inl h
  · exact .inr (.inl h)
  · exact .inr (.inr ⟨d, hsub hd, hrest⟩)

namespace EpollCore

section Step

variable {c c' : EpollCore U S} {past : List (EpollEvent U S)} {t : EpollToken} {b : Nat}

/-- A rewrite of the entry of `t₀` matters only for `t₀`. -/
theorem Recorded.update (h : Recorded past c t b) (he : c.entry t₀ = .ok e) (hid : c'.id = c.id)
    (hents : c'.entries = c.entries.set t₀.slot (some e')) (hgen : e'.generation = e.generation)
    (hsub : past ⊆ past') (hself : t = t₀ → RecordedIn past t₀ e b → RecordedIn past' t₀ e' b) :
    Recorded past' c' t b := by
  obtain ⟨f, hf, hrec⟩ := h
  by_cases ht : t = t₀
  · subst ht
    rw [he] at hf
    cases hf
    exact ⟨e', (entry_update he hid hents hgen).mpr (.inl ⟨rfl, rfl⟩), hself rfl hrec⟩
  · exact ⟨f, (entry_update he hid hents hgen).mpr (.inr ⟨ht, hf⟩), hrec.mono hsub⟩

/-- New contents of another slot do not matter for `t`. -/
theorem Recorded.reslot (h : Recorded past c t b) (hlt : slot < c.entries.length)
    (hid : c'.id = c.id) (hents : c'.entries = c.entries.set slot new) (hsub : past ⊆ past')
    (hne : t.slot ≠ slot) : Recorded past' c' t b := by
  obtain ⟨f, hf, hrec⟩ := h
  exact ⟨f, (entry_reslot hlt hid hents).mpr (.inr ⟨hne, hf⟩), hrec.mono hsub⟩

end Step

variable {c c' : EpollCore U S} {past evs : List (EpollEvent U S)} {b : Nat} {d : DeliveryToken}
  {e : Entry U S} {t : EpollToken} {outcome : DeliveryOutcome}

/-- A finished delivery of a held token either releases the bit or keeps it. -/
theorem recorded_finished (hs : Serials past c) (hd : .committed d ∈ past)
    (hin : e.inDelivery = some d.serial) (outcome : DeliveryOutcome)
    (h : RecordedIn past d.interest e b) :
    Releases d.interest b (.finished d outcome : EpollEvent U S) ∨
      (e.finished d.events outcome).ready.getLsbD b = true := by
  rcases h with h | h | ⟨d', hd', -, hin', hbit⟩
  · exact .inr (Entry.finished_ready (.inl h))
  · exact .inr (Entry.finished_ready (.inr h))
  -- the delivery in flight is the one being finished, serials being unique
  rw [hin] at hin'
  obtain rfl := hs.inj d d' hd hd' (Option.some.inj hin')
  cases outcome with
  | copied | suppressed => exact .inl ⟨rfl, hbit⟩
  | fault => exact .inr (by simp [Entry.finished, hbit])

/-- **A recorded bit survives a move that does not release it.** -/
theorem Move.recorded (hm : Move c evs c') (hs : Serials past c)
    (hheld : ∀ d outcome, .finished d outcome ∈ evs → .committed d ∈ past)
    (hrel : ∀ ev ∈ evs, ¬ Releases t b ev) (h : Recorded past c t b) :
    Recorded (past ++ evs) c' t b := by
  have hsub : past ⊆ past ++ evs := List.subset_append_left past evs
  cases hm with
  | refuse =>
    rw [List.append_nil]
    exact h
  | @publish slot interest hslot =>
    have hlt : slot < c.entries.length := Lib.lt_of_getElem? hslot
    refine h.reslot hlt rfl rfl hsub ?_
    obtain ⟨f, hf, -⟩ := h
    rintro rfl
    rw [(entry_eq_ok.mp hf).2.1] at hslot
    cases hslot
  | @replace _ _ _ he | @remove _ _ he =>
    have hlt := Lib.lt_of_getElem? (entry_eq_ok.mp he).2.1
    refine h.reslot hlt rfl rfl hsub ?_
    obtain ⟨f, hf, -⟩ := h
    exact fun hslot => hrel _ List.mem_cons_self (token_eq_of_slot_eq he hf hslot.symm)
  | @absorb t₀ e ready he hen hin =>
    refine h.update he rfl rfl rfl hsub ?_
    rintro - (hb | hb | ⟨d, hd, hrest⟩)
    · exact .inl hb
    · exact .inr (.inl (by simp [hb]))
    · exact .inr (.inr ⟨d, hsub hd, hrest⟩)
  | @merge _ _ _ he | @wake _ _ _ _ he =>
    refine h.update he rfl rfl rfl hsub ?_
    rintro - (hb | hb | ⟨d, hd, hrest⟩)
    · exact .inl (by simp [hb])
    · exact .inr (.inl hb)
    · exact .inr (.inr ⟨d, hsub hd, hrest⟩)
  | @commit t₀ e he hq hpeek =>
    refine h.update he rfl rfl rfl hsub ?_
    rintro - (hb | hb | ⟨d, hd, -, hin, hbit⟩)
    · -- the ready set moves into the new delivery token
      exact .inr (.inr ⟨⟨t₀, c.nextDelivery, e.ready⟩, by simp, rfl, rfl, hb⟩)
    · exact .inr (.inl hb)
    · rw [(hs.wf.entryOk he).queued_idle hq] at hin
      cases hin
  | @finish d _ outcome he hin | @requeue d _ _ outcome he hin =>
    refine h.update he rfl rfl (by simp) hsub ?_
    rintro rfl hrec
    rcases recorded_finished hs (hheld d outcome List.mem_cons_self) hin outcome hrec with hr | hb
    · exact absurd hr (hrel _ List.mem_cons_self)
    · exact .inl hb

/-- Handing out a delivery token uses up the next serial. -/
theorem Move.serials (hm : Move c evs c') (hs : Serials past c) : Serials (past ++ evs) c' := by
  have hw := hm.wf hs.wf
  have hquiet : (∀ d, .committed d ∉ evs) → c'.nextDelivery = c.nextDelivery →
      Serials (past ++ evs) c' := by
    intro hnone hnext
    have hold : ∀ d, .committed d ∈ past ++ evs → .committed d ∈ past :=
      fun d hd => (mem_append.mp hd).resolve_right (hnone d)
    exact ⟨hw, fun d hd => hnext ▸ hs.lt d (hold d hd),
      fun d d' hd hd' => hs.inj d d' (hold d hd) (hold d' hd')⟩
  cases hm with
  | @commit t e he hq hpeek =>
    have hmem : ∀ d, .committed d ∈ past ++ [.committed ⟨t, c.nextDelivery, e.ready⟩] →
        .committed d ∈ past ∨ d = ⟨t, c.nextDelivery, e.ready⟩ := by
      intro d hd
      rcases mem_append.mp hd with hd | hd
      · exact .inl hd
      · exact .inr (by simpa using hd)
    refine ⟨hw, ?_, ?_⟩
    · intro d hd
      show d.serial < c.nextDelivery + 1
      rcases hmem d hd with hd | rfl
      · exact Nat.lt_succ_of_lt (hs.lt d hd)
      · exact Nat.lt_succ_self _
    · intro d d' hd hd' heq
      rcases hmem d hd with hd | rfl <;> rcases hmem d' hd' with hd' | rfl
      · exact hs.inj d d' hd hd' heq
      · exact absurd heq (Nat.ne_of_lt (hs.lt d hd))
      · exact absurd heq.symm (Nat.ne_of_lt (hs.lt d' hd'))
      · rfl
  | _ => exact hquiet (by simp) rfl

/-- A successful finish of a held token finishes a delivery of this core. -/
theorem Move.held (hm : Move c evs c') (hev : .finished d outcome ∈ evs)
    (hd : .committed d ∈ past ∨ d.interest.epoll ≠ c.id) : .committed d ∈ past := by
  refine hd.resolve_right (not_not.mpr ?_)
  cases hm with
  | finish _ he | requeue _ he =>
    cases mem_singleton.mp hev
    exact (entry_eq_ok.mp he).1
  | _ => simp at hev

/-- An accepted notification records every deliverable bit. -/
theorem Move.accepted {ready : ReadyMask} (hm : Move c [.accepted t ready] c')
    (he : c.entry t = .ok e) (hb : (ready.deliverable e.interest.interest).getLsbD b = true) :
    Recorded past c' t b := by
  cases hm with
  | @absorb _ f _ hf hen hin =>
    rw [he] at hf
    cases hf
    exact ⟨_, entry_setEntry he rfl, .inr (.inl (by simp [hb]))⟩
  | @merge _ _ _ hf | @wake _ _ _ _ hf =>
    rw [he] at hf
    cases hf
    exact ⟨_, entry_setEntry he rfl, .inl (by simp [hb])⟩

/-- What came in during a delivery is ready once it is finished. -/
theorem Move.finished_during (hm : Move c [.finished d outcome] c')
    (he : c.entry d.interest = .ok e) (hb : e.duringDelivery.getLsbD b = true) :
    ∃ e', c'.entry d.interest = .ok e' ∧ e'.ready.getLsbD b = true := by
  cases hm with
  | @finish _ f _ hf hin hidle =>
    rw [he] at hf
    cases hf
    exact ⟨_, entry_setEntry he (by simp), Entry.finished_ready (.inr hb)⟩
  | @requeue _ f _ _ hf hin hen hpush =>
    rw [he] at hf
    cases hf
    exact ⟨_, entry_setEntry he (e.finished_generation d.events outcome),
      Entry.finished_ready (.inr hb)⟩

theorem Move.id_eq (hm : Move c evs c') : c'.id = c.id := by
  cases hm <;> rfl

/-! ## Runs -/

/-- The deliveries a call finishes are deliveries of this core. -/
theorem Serials.held (hs : Serials past c) {call : EpollCall U S V} (hg : HoldsToken c.id past call)
    (d : DeliveryToken) (outcome : DeliveryOutcome)
    (h : .finished d outcome ∈ epollEvents call (c.call call).1) : .committed d ∈ past := by
  obtain rfl : call = .finishDelivery d outcome := by
    unfold epollEvents at h
    split at h <;> simp_all
  exact (hs.wf.call_move _).held h hg

section Run

variable {c₀ : EpollCore U S} {calls : List (EpollCall U S V)}

/-- The tokens of a run are held: each was committed earlier in the run, or is a
token of another instance. -/
abbrev Held (c₀ : EpollCore U S) (calls : List (EpollCall U S V)) : Prop :=
  Guarded call epollEvents (HoldsToken c₀.id) c₀ calls

theorem run_serials (hw : WF c₀) (hheld : Held c₀ calls) :
    Serials (history c₀ calls) (run call c₀ calls) ∧ (run call c₀ calls).id = c₀.id := by
  refine Lib.run_guarded (I := fun past c => Serials past c ∧ c.id = c₀.id) ?_
    ⟨⟨hw, by simp, by simp⟩, rfl⟩ calls hheld
  rintro past c o ⟨hs, hid⟩ -
  have hm := hs.wf.call_move o
  exact ⟨hm.serials hs, hm.id_eq.trans hid⟩

/-- Accepted bits stay recorded along the rest of the run, or are released in it. -/
theorem run_recorded (hw : WF c₀) {pre : List (EpollCall U S V)} {t : EpollToken}
    {ready : ReadyMask} {e : Entry U S} {b : Nat} (he : (run call c₀ pre).entry t = .ok e)
    (hacc : epollEvents (.notify t ready : EpollCall U S V)
      ((run call c₀ pre).call (.notify t ready)).1 = [.accepted t ready])
    (hb : (ready.deliverable e.interest.interest).getLsbD b = true) :
    ∀ post : List (EpollCall U S V), Held c₀ ((pre ++ [.notify t ready]) ++ post) →
      (∀ ev ∈ events call epollEvents (run call c₀ (pre ++ [.notify t ready])) post,
        ¬ Releases t b ev) →
      Recorded (history c₀ ((pre ++ [.notify t ready]) ++ post))
        (run call c₀ ((pre ++ [.notify t ready]) ++ post)) t b := by
  intro post
  -- induction on the calls after the notification, last one first
  induction post using reverseRecOn with
  | nil =>
    intro hheld _
    rw [append_nil] at hheld ⊢
    have hs := (run_serials hw hheld.take_append).1
    have hm := hs.wf.call_move (.notify t ready : EpollCall U S V)
    unfold CallMove at hm
    rw [hacc] at hm
    rw [Lib.run_snoc]
    exact hm.accepted he hb
  | append_singleton post o ih =>
    intro hheld hrel
    rw [← append_assoc] at hheld ⊢
    rw [Lib.events_snoc, ← Lib.run_append] at hrel
    have hrec := ih hheld.take_append fun ev hev => hrel ev (mem_append_left _ hev)
    obtain ⟨hs, hid⟩ := run_serials hw hheld.take_append
    have hguard := hheld.last
    rw [← hid] at hguard
    rw [Lib.run_snoc, show history c₀ _ = _ from Lib.events_snoc ..]
    exact (hs.wf.call_move o).recorded hs (hs.held hguard)
      (fun ev hev => hrel ev (mem_append_right _ hev)) hrec

end Run

theorem finishDelivery_ok_move (hw : WF c) (h : (c.finishDelivery d outcome).1 = .ok ()) :
    Move c [.finished d outcome] (c.finishDelivery d outcome).2 := by
  have hm := hw.finishDelivery_move (V := U) d outcome
  unfold CallMove at hm
  have hreply : (c.call (.finishDelivery d outcome : EpollCall U S U)).1
      = (c.finishDelivery d outcome).1.map fun _ => .done := rfl
  rw [hreply, h] at hm
  exact hm

/-- The reply of a notification that took the readiness in. -/
def Accepted (reply : Except EpollError NotifyOutcome) : Prop :=
  reply = .ok .enqueued ∨ reply = .ok .coalesced

theorem events_of_accepted {ready : ReadyMask} (h : Accepted (c.notify t ready).1) :
    epollEvents (.notify t ready : EpollCall U S V) (c.call (.notify t ready)).1
      = [.accepted t ready] := by
  have hreply : (c.call (.notify t ready : EpollCall U S V)).1
      = (c.notify t ready).1.map .notified := rfl
  rcases h with h | h
  · rw [hreply, h]
    rfl
  · rw [hreply, h]
    rfl

/-- **No lost wakeup.** In every state a run reaches: an enabled interest with a
ready bit and no delivery in flight is in the ready queue; every deliverable bit
of an accepted notification is still recorded unless a later event released it
(a one-shot Copied finish is no exception: it releases only what it delivered);
a faulted delivery loses no recorded bit; and what was collected during a
delivery is ready once the delivery is finished. -/
theorem run_no_lost_wakeup {readyReserved entriesReserved : Bool} {id : EpollId} {capacity : Nat}
    {c₀ : EpollCore U S} (hnew : tryNew readyReserved entriesReserved id capacity = .ok c₀)
    (calls : List (EpollCall U S V)) (hheld : Held c₀ calls) :
    let c := run call c₀ calls
    (∀ t e, c.entry t = .ok e → e.enabled = true → e.ready ≠ .empty → e.inDelivery = none →
      t ∈ c.ready.toList) ∧
    (∀ pre post t ready e b, calls = pre ++ .notify t ready :: post →
      (run call c₀ pre).entry t = .ok e → Accepted ((run call c₀ pre).notify t ready).1 →
      (ready.deliverable e.interest.interest).getLsbD b = true →
      (∃ ev ∈ events call epollEvents (run call c₀ (pre ++ [.notify t ready])) post,
        Releases t b ev) ∨ Recorded (history c₀ calls) c t b) ∧
    (∀ d t b, .committed d ∈ history c₀ calls → (c.finishDelivery d .fault).1 = .ok () →
      Recorded (history c₀ calls) c t b →
      Recorded (history c₀ calls ++ [.finished d .fault]) (c.finishDelivery d .fault).2 t b) ∧
    (∀ d outcome e b, c.entry d.interest = .ok e → e.duringDelivery.getLsbD b = true →
      (c.finishDelivery d outcome).1 = .ok () →
      ∃ e', (c.finishDelivery d outcome).2.entry d.interest = .ok e' ∧
        e'.ready.getLsbD b = true) := by
  intro c
  have hw₀ := tryNew_wf hnew
  have hs : Serials (history c₀ calls) c := (run_serials hw₀ hheld).1
  refine ⟨?_, ?_, ?_, ?_⟩
  · intro t e he hen hready hin
    exact (hs.wf.queue t).mpr ⟨e, he, (hs.wf.entryOk he).wakeup hen hready hin⟩
  · intro pre post t ready e b hcalls he hacc hb
    have hsplit : calls = pre ++ [.notify t ready] ++ post := by
      rw [hcalls, append_assoc]
      rfl
    by_cases hrel : ∃ ev ∈ events call epollEvents (run call c₀ (pre ++ [.notify t ready])) post,
        Releases t b ev
    · exact .inl hrel
    right
    have hnone := fun ev hev hr => hrel ⟨ev, hev, hr⟩
    have hrec := run_recorded hw₀ he (events_of_accepted hacc) hb post (hsplit ▸ hheld) hnone
    rwa [← hsplit] at hrec
  · intro d t b hd hok hrec
    refine (finishDelivery_ok_move hs.wf hok).recorded hs ?_ ?_ hrec
    · intro d' outcome hmem
      cases mem_singleton.mp hmem
      exact hd
    · intro ev hev
      cases mem_singleton.mp hev
      exact not_false
  · intro d outcome e b he hb hok
    exact (finishDelivery_ok_move hs.wf hok).finished_during he hb

/-- The token finished at the end of `faultingCalls` is the one committed before. -/
theorem faultingCalls_held (hnew : tryNew true true ⟨.one⟩ 1 = .ok c₀) : Held c₀ faultingCalls := by
  obtain rfl := tryNew_eq_ok hnew
  intro n o ho
  match n, ho with
  | 0, ho | 1, ho | 2, ho | 3, ho =>
    cases ho
    trivial
  | 4, ho =>
    cases ho
    exact .inl (by decide)
  | n + 5, ho => cases ho

/-- The bit raised during the delivery that then faults is still recorded. -/
theorem run_no_lost_wakeup_faulting : ∃ c₀ : EpollCore Unit Unit,
    tryNew true true ⟨.one⟩ 1 = .ok c₀ ∧ Held c₀ faultingCalls ∧
      Recorded (history c₀ faultingCalls) (run call c₀ faultingCalls) ⟨⟨.one⟩, 0, 1⟩ 3 := by
  have hnew : tryNew (U := Unit) (S := Unit) true true ⟨.one⟩ 1 = .ok _ := rfl
  have hheld := faultingCalls_held hnew
  refine ⟨_, hnew, hheld, ?_⟩
  rcases (run_no_lost_wakeup hnew _ hheld).2.1 (faultingCalls.take 3) (faultingCalls.drop 4)
    ⟨⟨.one⟩, 0, 1⟩ 8 _ 3 rfl rfl (.inr rfl) (by decide) with ⟨ev, hev, hrel⟩ | hrec
  · -- nothing but the fault came after it
    obtain rfl : ev = .finished ⟨⟨⟨.one⟩, 0, 1⟩, 1, 1⟩ .fault := mem_singleton.mp hev
    exact hrel.elim
  · exact hrec

end EpollCore

end LinuxAbi.Fd
