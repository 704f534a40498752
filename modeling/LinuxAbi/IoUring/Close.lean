import LinuxAbi.IoUring.Accounting

/-!
# Closing a ring

`begin_close`, `begin_draining` and `finish_close` are the only calls that write
the lifecycle (`call_phase`), and each only under its guard (`Closes`). The rest
of the close protocol follows from two observations about a registry that has
reached `Draining`: a pending completion has no way on except out of its slot,
because `publish` is refused, and nothing new comes in, because `reserve` is
refused. So the picture `begin_draining` checked once stays true (`Drained`),
and giving every pending completion up empties the table.
-/

namespace LinuxAbi.IoUring

open List
open Lib (span run Respects)

/-- The lifecycle edges. -/
inductive RequestLifecycle.Next : RequestLifecycle → RequestLifecycle → Prop
  | stay (l : RequestLifecycle) : Next l l
  | close : Next .opened .closing
  | drain : Next .closing .draining
  | skip : Next .closing .closed
  | finish : Next .draining .closed

theorem RequestLifecycle.Next.eq_opened {l : RequestLifecycle} (h : l.Next .opened) :
    l = .opened := by
  cases h with
  | stay => rfl

theorem RequestLifecycle.Next.late {l l' : RequestLifecycle} (h : l.Next l')
    (hl : l = .draining ∨ l = .closed) : l' = .draining ∨ l' = .closed := by
  cases h with
  | stay => exact hl
  | close => simp at hl
  | drain => exact .inl rfl
  | skip | finish => exact .inr rfl

namespace RequestRegistry

/-- Every live entry is a pending completion, and none is being published. -/
structure Drained (r : RequestRegistry) : Prop where
  pending : ∀ id e, r.entry id = .ok e → ∃ c, e.state = .completionPending c
  flight : r.publicationInFlight = none

/-- The three calls that move the lifecycle, with what they check. -/
inductive Closes (r : RequestRegistry) : RequestCall → RequestLifecycle → Prop
  | close (h : r.lifecycle = .opened) : Closes r .beginClose .closing
  | drain (h : r.lifecycle = .closing)
      (hpending : ∀ id e, r.entry id = .ok e → ∃ c, e.state = .completionPending c) :
      Closes r .beginDraining .draining
  | finish (h : r.lifecycle = .closing ∨ r.lifecycle = .draining)
      (hflight : r.publicationInFlight = none) (hslots : r.occupied = 0)
      (hcredits : r.terminalCredits = 0) : Closes r .finishClose .closed

section

variable {r : RequestRegistry}

/-! ## Who writes the lifecycle -/

theorem clearSlot_lifecycle (r : RequestRegistry) (id : RequestId) :
    (r.clearSlot id).2.lifecycle = r.lifecycle := by
  unfold clearSlot
  dsimp only
  repeat' split
  all_goals rfl

theorem refundCredits_lifecycle (r : RequestRegistry) (count : Nat) :
    (r.refundCredits count).2.lifecycle = r.lifecycle := by
  unfold refundCredits
  split <;> rfl

theorem claimTerminal_lifecycle (r : RequestRegistry) (id : RequestId) (cause : TerminalCause) :
    (r.claimTerminal id cause).2.lifecycle = r.lifecycle := by
  rcases claimTerminal_cases r id cause with ⟨x, hx⟩ | ⟨e, -, -, hx⟩
  · rw [hx]
  · rw [hx]
    rfl

/-- Clearing a slot and refunding its credit, as `rollback` and
`discard_completion` do it. -/
theorem clear_refund_lifecycle (r : RequestRegistry) (id : RequestId) :
    (match r.clearSlot id with
      | (.error error, r) => ((.error error, r) : Outcome Unit)
      | (.ok (), r) => r.refundCredits 1).2.lifecycle = r.lifecycle := by
  have hkept := clearSlot_lifecycle r id
  split
  · next hclear =>
    rw [hclear] at hkept
    exact hkept
  · next hclear =>
    rw [hclear] at hkept
    rw [refundCredits_lifecycle]
    exact hkept

variable {c : RequestCall} {id : RequestId}

/-- Thirteen of the sixteen calls never write the lifecycle. -/
theorem WF.call_lifecycle (hw : WF r) (hclose : c ≠ .beginClose) (hdrain : c ≠ .beginDraining)
    (hfinish : c ≠ .finishClose) : (r.call c).2.lifecycle = r.lifecycle := by
  cases c with
  | reserve d =>
    show (r.reserve d).2.lifecycle = _
    unfold reserve
    repeat' split
    all_goals rfl
  | rollback res =>
    show (r.rollback res).2.lifecycle = _
    unfold rollback
    split
    · rfl
    · exact clear_refund_lifecycle r res.id
  | commit res =>
    show (r.commit res).2.lifecycle = _
    unfold commit
    repeat' split
    all_goals rfl
  | issue p =>
    show (r.issue p).2.lifecycle = _
    unfold issue
    repeat' split
    all_goals rfl
  | claimTerminal id cause => exact claimTerminal_lifecycle r id cause
  | claimCancel selector exclude =>
    show (r.claimCancel selector exclude).2.lifecycle = _
    unfold claimCancel
    split
    · next id =>
      split
      · rfl
      rcases claimTerminal_cases r id .cancelled with ⟨x, hx⟩ | ⟨e, -, -, hx⟩
      · rw [hx]
        cases x <;> rfl
      · rw [hx]
        rfl
    · split
      · rfl
      · exact claimTerminal_lifecycle r _ _
      · rfl
  | finishTerminal permit result flags =>
    show (r.finishTerminal permit result flags).2.lifecycle = _
    unfold finishTerminal
    repeat' split
    all_goals rfl
  | publish token =>
    show (r.publish token).2.lifecycle = _
    unfold publish
    repeat' split
    all_goals rfl
  | commitPublication p =>
    have hkept := clearSlot_lifecycle r p.id
    show (r.commitPublication p).2.lifecycle = _
    unfold commitPublication
    split
    · rfl
    split
    · rfl
    split
    · rfl
    split
    · rfl
    split
    all_goals
      next hclear =>
      rw [hclear] at hkept
      exact hkept
  | rollbackPublication p =>
    show (r.rollbackPublication p).2.lifecycle = _
    unfold rollbackPublication
    repeat' split
    all_goals rfl
  | observeCompletionHead head =>
    show (r.observeCompletionHead head).2.lifecycle = _
    by_cases hflight : r.publicationInFlight = none
    · rw [hw.observeCompletionHead_eq hflight]
      split <;> rfl
    · rw [observeCompletionHead_inFlight hflight]
  | discardCompletion token =>
    show (r.discardCompletion token).2.lifecycle = _
    unfold discardCompletion
    split
    · rfl
    split
    · rfl
    · exact clear_refund_lifecycle r token.id
  | discardPublished =>
    show r.discardPublished.2.lifecycle = _
    rcases hw.discardPublished_cases with ⟨x, -, hx⟩ | ⟨-, hx⟩
    all_goals rw [hx]
  | beginClose => exact absurd rfl hclose
  | beginDraining => exact absurd rfl hdrain
  | finishClose => exact absurd rfl hfinish

/-- No entry is live exactly when every slot is empty. -/
theorem WF.occupied_eq_zero (hw : WF r) (h : ∀ id e, r.entry id ≠ .ok e) : r.occupied = 0 := by
  unfold occupied
  rw [countP_eq_zero]
  intro s hs hsome
  obtain ⟨i, hi⟩ := getElem?_of_mem hs
  obtain ⟨e, he⟩ := Option.isSome_iff_exists.mp hsome
  obtain ⟨g, hg⟩ := Option.isSome_iff_exists.mp (hw.occupied_gen i s hi hsome)
  obtain ⟨gen, ent⟩ := s
  subst he hg
  exact h ⟨r.ring, i, g⟩ e (entry_eq_ok.mpr ⟨rfl, hi⟩)

theorem WF.progress_ok (hw : WF r) : ∃ p, r.progress = .ok p := by
  unfold progress
  rw [hw.publishedCount_eq]
  exact ⟨_, rfl⟩

/-- **The lifecycle moves only through the three close calls**, each of which
then succeeds and writes nothing else. -/
theorem WF.call_phase (hw : WF r) (c : RequestCall) :
    (r.call c).2.lifecycle = r.lifecycle ∨
      ∃ l reply, Closes r c l ∧ r.call c = (.ok reply, { r with lifecycle := l }) := by
  by_cases hclose : c = .beginClose
  · subst hclose
    show (r.beginClose).2.lifecycle = _ ∨ ∃ l reply, _ ∧ Outcome.tag _ r.beginClose = _
    unfold beginClose
    split
    · next hl =>
      have hw' : WF { r with lifecycle := .closing } := (Move.phase .closing).wf hw
      obtain ⟨p, hp⟩ := hw'.progress_ok
      refine .inr ⟨.closing, .progress p, .close hl, ?_⟩
      show (Except.map _ (progress _), _) = _
      rw [hp]
      rfl
    all_goals exact .inl rfl
  by_cases hdrain : c = .beginDraining
  · subst hdrain
    show (r.beginDraining).2.lifecycle = _ ∨ ∃ l reply, _ ∧ Outcome.tag _ r.beginDraining = _
    unfold beginDraining
    split
    · exact .inl rfl
    split
    · exact .inl rfl
    next hl =>
    split
    · exact .inl rfl
    next hbusy =>
    have hw' : WF { r with lifecycle := .draining } := (Move.phase .draining).wf hw
    obtain ⟨p, hp⟩ := hw'.progress_ok
    refine .inr ⟨.draining, .progress p, .drain (not_not.mp hl) ?_, ?_⟩
    · intro id e he
      have hmem := mem_of_getElem? (entry_eq_ok.mp he).2
      by_contra hnot
      refine hbusy (any_eq_true.mpr ⟨_, hmem, ?_⟩)
      cases hst : e.state with
      | completionPending c => exact absurd ⟨c, hst⟩ hnot
      | _ => simp [hst]
    · show (Except.map _ (progress _), _) = _
      rw [hp]
      rfl
  by_cases hfinish : c = .finishClose
  · subst hfinish
    show (r.finishClose).2.lifecycle = _ ∨ ∃ l reply, _ ∧ Outcome.tag _ r.finishClose = _
    unfold finishClose
    split
    · exact .inl rfl
    · exact .inl rfl
    all_goals
      next hl =>
      split
      · exact .inl rfl
      next hfree =>
      simp only [not_or, not_not, Option.not_isSome_iff_eq_none] at hfree
      obtain ⟨hflight, hslots, hcred⟩ := hfree
      have hocc : r.occupied = 0 :=
        countP_eq_zero.mpr fun s hs hsome => hslots (any_eq_true.mpr ⟨s, hs, hsome⟩)
      exact .inr ⟨.closed, .done, .finish (by simp [hl]) hflight hocc hcred, rfl⟩
  exact .inl (hw.call_lifecycle hclose hdrain hfinish)

theorem WF.lifecycle_next (hw : WF r) (c : RequestCall) :
    r.lifecycle.Next (r.call c).2.lifecycle := by
  rcases hw.call_phase c with hkept | ⟨l, reply, hcloses, heq⟩
  · rw [hkept]
    exact .stay _
  rw [heq]
  show r.lifecycle.Next l
  cases hcloses with
  | close h =>
    rw [h]
    exact .close
  | drain h _ =>
    rw [h]
    exact .drain
  | finish h _ _ _ =>
    rcases h with h | h
    · rw [h]
      exact .skip
    · rw [h]
      exact .finish

/-! ## What a closing registry refuses -/

theorem reserve_refused (hl : r.lifecycle ≠ .opened) (d : RequestDescriptor) :
    ∃ x, r.reserve d = (.error x, r) := by
  unfold reserve
  split
  · exact ⟨_, rfl⟩
  · exact ⟨_, rfl⟩
  · exact ⟨_, rfl⟩
  · next hopen => exact absurd hopen hl

theorem publish_refused (hl : r.lifecycle = .draining ∨ r.lifecycle = .closed)
    (token : CompletionToken) : ∃ x, r.publish token = (.error x, r) := by
  unfold publish
  by_cases hdrain : r.lifecycle = .draining
  · rw [if_pos hdrain]
    exact ⟨_, rfl⟩
  · rw [if_neg hdrain, if_pos (hl.resolve_left hdrain)]
    exact ⟨_, rfl⟩

/-- Only `reserve` admits a request. -/
theorem reserve_of_event
    (h : registryEvent c reply = some (.request id (.reserved d))) : ∃ d', c = .reserve d' := by
  unfold registryEvent at h
  split at h
  all_goals simp_all

/-- Only `publish` starts a publication. -/
theorem publish_of_event
    (h : registryEvent c reply = some (.request id .publishing)) : ∃ token, c = .publish token := by
  unfold registryEvent at h
  split at h
  all_goals simp_all

/-- What is left of a call's moves once a registry drains: a request can only be
discarded. -/
theorem Drained.call_cases (hd : Drained r) (hw : WF r)
    (hl : r.lifecycle = .draining ∨ r.lifecycle = .closed) (c : RequestCall) :
    (r.call c).2.slots = r.slots ∧ (r.call c).2.ring = r.ring ∧
        (r.call c).2.publicationInFlight = none ∧
        (r.terminalCredits = 0 → (r.call c).2.terminalCredits = 0) ∨
      ∃ id e, r.entry id = .ok e ∧ (r.call c).2 = r.released id .discarded := by
  have hmove := hw.call_move c
  unfold CallMove at hmove
  generalize hev : registryEvent c (r.call c).1 = ev at hmove
  generalize hr' : (r.call c).2 = r' at hmove
  cases hmove with
  | refuse | phase => exact .inl ⟨rfl, rfl, hd.flight, fun h => h⟩
  | enter d sequence hfree hslot hroom =>
    cases c with
    | reserve d' =>
      have hopen : r.lifecycle ≠ .opened := by
        rcases hl with hl | hl
        all_goals simp [hl]
      obtain ⟨x, hx⟩ := reserve_refused hopen d'
      simp [call, Outcome.tag, hx, registryEvent, Except.map] at hev
    | _ => exact absurd (reserve_of_event hev) (by simp)
  | @advance id e step st he ha hflight =>
    obtain ⟨c₀, hc₀⟩ := hd.pending id e he
    rw [hc₀] at ha
    cases ha with
    | publish =>
      cases c with
      | publish token =>
        obtain ⟨x, hx⟩ := publish_refused hl token
        simp [call, Outcome.tag, hx, registryEvent, Except.map] at hev
      | _ => exact absurd (publish_of_event hev) (by simp)
  | @release id e step he hend hslot =>
    obtain ⟨c₀, hc₀⟩ := hd.pending id e he
    rw [hc₀] at hend
    cases hend with
    | discard => exact .inr ⟨id, e, he, rfl⟩
  | consume head hflight hle =>
    refine .inl ⟨rfl, rfl, hd.flight, fun h => ?_⟩
    show r.terminalCredits - _ = 0
    rw [h, Nat.zero_sub]

/-! ## The picture each phase guarantees -/

/-- What the lifecycle of a reachable registry says about its entries. -/
structure CloseView (r : RequestRegistry) : Prop where
  wf : WF r
  drained : r.lifecycle = .draining ∨ r.lifecycle = .closed → Drained r
  idle : r.lifecycle = .closed → r.occupied = 0 ∧ r.terminalCredits = 0

theorem entry_congr {r' : RequestRegistry} (hslots : r'.slots = r.slots) (hring : r'.ring = r.ring)
    (id : RequestId) : r'.entry id = r.entry id := by
  unfold entry
  rw [hslots, hring]

theorem entry_discarded (he : r.entry id = .ok e) :
    (r.released id .discarded).entry id' = .ok e' ↔ id'.slot ≠ id.slot ∧ r.entry id' = .ok e' := by
  have hslots : (r.released id .discarded).slots
      = r.slots.set id.slot ⟨id.generation.checkedSucc, none⟩ := rfl
  have hring : (r.released id .discarded).ring = r.ring := rfl
  rw [entry_ok_of_set hring hslots (entry_eq_ok.mp he).2]
  simp

theorem Drained.call (hd : Drained r) (hw : WF r)
    (hl : r.lifecycle = .draining ∨ r.lifecycle = .closed) (c : RequestCall) :
    Drained (r.call c).2 := by
  rcases hd.call_cases hw hl c with ⟨hslots, hring, hflight, -⟩ | ⟨id, e, he, heq⟩
  · refine ⟨fun id e he => ?_, hflight⟩
    rw [entry_congr hslots hring] at he
    exact hd.pending id e he
  · rw [heq]
    refine ⟨fun id' e' he' => ?_, hd.flight⟩
    exact hd.pending id' e' ((entry_discarded he).mp he').2

theorem CloseView.call (hv : CloseView r) (c : RequestCall) : CloseView (r.call c).2 := by
  have hw := hv.wf
  refine ⟨(hw.call_move c).wf hw, ?_, ?_⟩
  · intro hl
    rcases hw.call_phase c with hkept | ⟨l, reply, hcloses, heq⟩
    · rw [hkept] at hl
      exact (hv.drained hl).call hw hl c
    rw [heq] at hl ⊢
    cases hcloses with
    | close h => rcases hl with hl | hl <;> cases hl
    | drain h hpend =>
      -- a publication in flight would be an entry that is publishing, not pending
      refine ⟨hpend, Option.eq_none_iff_forall_ne_some.mpr fun id hid => ?_⟩
      obtain ⟨e, c, he, hc⟩ := (hw.flight id).mp hid
      obtain ⟨c', hc'⟩ := hpend id e he
      rw [hc] at hc'
      cases hc'
    | finish h hflight hslots hcred =>
      refine ⟨fun id e he => ?_, hflight⟩
      exact absurd hslots (Nat.ne_of_gt (occupied_pos he))
  · intro hl
    rcases hw.call_phase c with hkept | ⟨l, reply, hcloses, heq⟩
    · rw [hkept] at hl
      obtain ⟨hocc, hcred⟩ := hv.idle hl
      rcases (hv.drained (.inr hl)).call_cases hw (.inr hl) c with
        ⟨hslots, -, -, hzero⟩ | ⟨id, e, he, -⟩
      · refine ⟨?_, hzero hcred⟩
        unfold occupied at hocc ⊢
        rw [hslots]
        exact hocc
      · have hpos := occupied_pos he
        omega
    · rw [heq] at hl ⊢
      cases hcloses with
      | close | drain => cases hl
      | finish h hflight hslots hcred => exact ⟨hslots, hcred⟩

/-- Once closing has begun the ring never reopens. -/
theorem WF.not_reopened (hw : WF r) (hl : r.lifecycle ≠ .opened) (calls : List RequestCall) :
    (run RequestRegistry.call r calls).lifecycle ≠ .opened := by
  have hstep : ∀ (s : RequestRegistry) (c : RequestCall), WF s ∧ s.lifecycle ≠ .opened →
      WF (s.call c).2 ∧ (s.call c).2.lifecycle ≠ .opened := by
    rintro s c ⟨hs, hne⟩
    refine ⟨(hs.call_move c).wf hs, fun hopen => hne ?_⟩
    exact (hopen ▸ hs.lifecycle_next c).eq_opened
  exact (Lib.run_preserves hstep ⟨hw, hl⟩ calls).2

/-- From `Draining` on, every later registry is drained. -/
theorem CloseView.drained_run (hv : CloseView r) (hl : r.lifecycle = .draining)
    (calls : List RequestCall) : Drained (run RequestRegistry.call r calls) := by
  have hstep : ∀ (s : RequestRegistry) (c : RequestCall),
      CloseView s ∧ (s.lifecycle = .draining ∨ s.lifecycle = .closed) →
        CloseView (s.call c).2 ∧
          ((s.call c).2.lifecycle = .draining ∨ (s.call c).2.lifecycle = .closed) := by
    rintro s c ⟨hs, hlate⟩
    exact ⟨hs.call c, (hs.wf.lifecycle_next c).late hlate⟩
  obtain ⟨hend, hlate⟩ := Lib.run_preserves hstep ⟨hv, .inl hl⟩ calls
  exact hend.drained hlate

/-! ## Draining comes to an end -/

/-- The live request in slot `i`. -/
def occupantAt (r : RequestRegistry) (i : Nat) : Option RequestId :=
  match r.slots[i]? with
  | some ⟨some generation, some _⟩ => some ⟨r.ring, i, generation⟩
  | _ => none

/-- The live requests, in slot order. -/
def occupants (r : RequestRegistry) : List RequestId :=
  (List.range r.slots.length).filterMap r.occupantAt

theorem occupantAt_eq_some : r.occupantAt i = some id ↔ id.slot = i ∧ ∃ e, r.entry id = .ok e := by
  unfold occupantAt
  simp only [entry_eq_ok]
  constructor
  · intro h
    split at h
    · next generation e hslot =>
      obtain rfl := Option.some.inj h
      exact ⟨rfl, e, rfl, hslot⟩
    · cases h
  · rintro ⟨rfl, e, hring, hslot⟩
    rw [hslot, ← hring]

theorem mem_occupants : id ∈ r.occupants ↔ ∃ e, r.entry id = .ok e := by
  unfold occupants
  simp only [List.mem_filterMap, occupantAt_eq_some]
  constructor
  · rintro ⟨i, -, -, he⟩
    exact he
  · rintro ⟨e, he⟩
    have hlt := Lib.lt_of_getElem? (entry_eq_ok.mp he).2
    exact ⟨id.slot, List.mem_range.mpr hlt, rfl, e, he⟩

theorem nodup_occupants (r : RequestRegistry) : r.occupants.Nodup := by
  refine List.Nodup.filterMap ?_ nodup_range
  intro i j id hi hj
  exact (occupantAt_eq_some.mp hi).1.symm.trans (occupantAt_eq_some.mp hj).1

/-- The call succeeds. -/
def Accepted (r : RequestRegistry) (c : RequestCall) : Prop := ∃ reply, (r.call c).1 = .ok reply

section

variable (hw : WF r) (hl : r.lifecycle = .draining)
include hw hl

/-- A pending completion can be discarded while draining. -/
theorem WF.discardCompletion_eq {e : RequestEntry} {c : Completion} (he : r.entry id = .ok e)
    (hst : e.state = .completionPending c) :
    r.discardCompletion ⟨id⟩ = (.ok (), r.released id .discarded) := by
  have hreq : r.requireState id .completionPending = .ok () := by
    unfold requireState
    rw [he]
    simp [hst, EntryState.toPublic]
  unfold discardCompletion
  rw [if_neg (not_not.mpr hl), hreq]
  rw [hw.clearSlot_eq he]
  exact hw.refund_vacate he

/-- Discarding the live requests one after the other empties the table. The
induction is on the requests still to go. -/
theorem WF.discard_all (hd : Drained r) (ids : List RequestId) (hnodup : ids.Nodup)
    (hids : ∀ id, id ∈ ids ↔ ∃ e, r.entry id = .ok e) :
    let discards := ids.map fun id => RequestCall.discardCompletion ⟨id⟩
    let r' := run RequestRegistry.call r discards
    Respects RequestRegistry.call Accepted r discards ∧ WF r' ∧ r'.lifecycle = .draining ∧
      r'.publicationInFlight = none ∧ r'.occupied = 0 := by
  induction ids generalizing r with
  | nil =>
    refine ⟨trivial, hw, hl, hd.flight, hw.occupied_eq_zero fun id e he => ?_⟩
    exact absurd ((hids id).mpr ⟨e, he⟩) not_mem_nil
  | cons id ids ih =>
    obtain ⟨hnot, hnodup⟩ := nodup_cons.mp hnodup
    obtain ⟨e, he⟩ := (hids id).mp mem_cons_self
    obtain ⟨c, hst⟩ := hd.pending id e he
    have heq := hw.discardCompletion_eq hl he hst
    have hcall : r.call (.discardCompletion ⟨id⟩) = (.ok .done, r.released id .discarded) := by
      show Outcome.tag _ (r.discardCompletion ⟨id⟩) = _
      rw [heq]
      rfl
    have hw' : WF (r.released id .discarded) := hw.release he (hst ▸ .discard c)
    have hd' : Drained (r.released id .discarded) :=
      ⟨fun id' e' he' => hd.pending id' e' ((entry_discarded he).mp he').2, hd.flight⟩
    have hrest : ∀ id', id' ∈ ids ↔ ∃ e', (r.released id .discarded).entry id' = .ok e' := by
      intro id'
      simp only [entry_discarded he]
      constructor
      · intro hmem
        obtain ⟨e', he'⟩ := (hids id').mp (mem_cons_of_mem _ hmem)
        refine ⟨e', fun hslot => hnot ?_, he'⟩
        rwa [← id_eq_of_slot_eq he' he hslot]
      · rintro ⟨e', hslot, he'⟩
        rcases mem_cons.mp ((hids id').mpr ⟨e', he'⟩) with rfl | hmem
        · exact absurd rfl hslot
        · exact hmem
    have hnext := ih hw' hl hd' hnodup hrest
    simp only [map_cons, run, Respects, hcall]
    exact ⟨⟨⟨_, congrArg Prod.fst hcall⟩, hnext.1⟩, hnext.2⟩

/-- With the table empty, discarding what is published gives every credit back
and `finish_close` succeeds. -/
theorem WF.finish_drain (hflight : r.publicationInFlight = none) (hocc : r.occupied = 0) :
    Respects RequestRegistry.call Accepted r [.discardPublished, .finishClose] ∧
      (run RequestRegistry.call r [.discardPublished, .finishClose]).lifecycle = .closed := by
  have hpub : r.call .discardPublished = (.ok (.count (span r.cqHead r.cqTail)), { r with
      cqHead := r.cqTail
      terminalCredits := r.terminalCredits - span r.cqHead r.cqTail }) := by
    show Outcome.tag _ r.discardPublished = _
    unfold discardPublished
    rw [if_neg (not_not.mpr hl), if_neg (by simp [hflight]), hw.publishedCount_eq]
    dsimp only
    rw [hw.refund_head (Nat.le_refl _)]
    rfl
  have hcred : r.terminalCredits - span r.cqHead r.cqTail = 0 := by
    have heq := hw.credits_eq
    omega
  have hemp : r.slots.any (·.entry.isSome) = false := by
    rw [any_eq_false]
    exact countP_eq_zero.mp hocc
  have hfinish : ({ r with
      cqHead := r.cqTail
      terminalCredits := r.terminalCredits - span r.cqHead r.cqTail }).call .finishClose
        = (.ok .done, { r with
          cqHead := r.cqTail
          terminalCredits := r.terminalCredits - span r.cqHead r.cqTail
          lifecycle := .closed }) := by
    simp [RequestRegistry.call, Outcome.tag, finishClose, hl, hflight, hemp, hcred, Except.map]
  simp only [run, Respects, Accepted, hpub, hfinish]
  simp

end

end

/-! ## The close protocol of every run -/

/-- What closing guarantees in a state `r` of a run. -/
structure CloseProtocol (r : RequestRegistry) : Prop where
  order : ∀ c, r.lifecycle.Next (r.call c).2.lifecycle
  refused : r.lifecycle ≠ .opened → ∀ (later : List RequestCall) (d : RequestDescriptor),
    ∃ x, ((run call r later).reserve d).1 = .error x
  drained : r.lifecycle = .draining → Drained r ∧
    ∀ later : List RequestCall, Drained (run call r later)
  closed : r.lifecycle = .closed → r.occupied = 0 ∧ r.terminalCredits = 0
  -- the pending completions may be discarded in any order
  finishes : r.lifecycle = .draining → ∀ ids : List RequestId, ids.Perm r.occupants →
    let calls := ids.map (fun id => RequestCall.discardCompletion ⟨id⟩) ++
      [.discardPublished, .finishClose]
    Respects call Accepted r calls ∧ (run call r calls).lifecycle = .closed

theorem CloseView.closeProtocol (hv : CloseView r) : CloseProtocol r where
  order := hv.wf.lifecycle_next
  refused := by
    intro hl later d
    obtain ⟨x, hx⟩ := reserve_refused (hv.wf.not_reopened hl later) d
    exact ⟨x, congrArg Prod.fst hx⟩
  drained := fun hl => ⟨hv.drained (.inl hl), hv.drained_run hl⟩
  closed := hv.idle
  finishes := by
    intro hl ids hperm
    have hids : ∀ id, id ∈ ids ↔ ∃ e, r.entry id = .ok e :=
      fun id => hperm.mem_iff.trans mem_occupants
    obtain ⟨hacc, hw', hl', hflight, hocc⟩ := hv.wf.discard_all hl (hv.drained (.inl hl)) ids
      (hperm.nodup_iff.mpr (nodup_occupants r)) hids
    obtain ⟨hacc', hclosed⟩ := hw'.finish_drain hl' hflight hocc
    dsimp only
    rw [Lib.run_append]
    exact ⟨hacc.concat hacc', hclosed⟩

/-- **The close protocol.** In every state a registry reaches, under any sequence
of calls with any tokens, the lifecycle only moves forward, a ring that is
closing admits nothing, a draining ring holds pending completions only, a closed
one holds nothing, and a draining ring can always be closed. -/
theorem run_close_protocol {slotsReserved freeReserved : Bool} {ring : RingId}
    {capacity entries : Nat} {r : RequestRegistry}
    (hnew : new slotsReserved freeReserved ring capacity entries = .ok r)
    (calls : List RequestCall) : CloseProtocol (run call r calls) := by
  have hw := new_wf hnew
  have hview : CloseView r := by
    obtain ⟨-, -, rfl⟩ := new_eq_ok hnew
    exact ⟨hw, by simp, by simp⟩
  have hrun : CloseView (run call r calls) :=
    Lib.run_preserves (I := CloseView) (fun _ c h => h.call c) hview calls
  exact hrun.closeProtocol

/-- Two no-op requests, one published and one pending, on a ring that drains. -/
def drainingCalls : List RequestCall :=
  let d : RequestDescriptor := ⟨7, .nop⟩
  let id (slot : Nat) : RequestId := ⟨⟨.one⟩, slot, .one⟩
  let finished (slot : Nat) : List RequestCall :=
    [.reserve d, .commit ⟨id slot, d⟩, .claimTerminal (id slot) .completed,
      .finishTerminal ⟨id slot, d, .completed⟩ 0 0]
  finished 0 ++ finished 1 ++
    [.publish ⟨id 0⟩, .commitPublication ⟨id 0, ⟨7, 0, 0⟩, 0, 1⟩, .beginClose, .beginDraining]

/-- The protocol holds of a ring that is draining with both kinds of completion. -/
theorem run_close_protocol_draining : ∃ r, new true true ⟨.one⟩ 2 2 = .ok r ∧
    (run call r drainingCalls).lifecycle = .draining ∧
      (run call r drainingCalls).terminalCredits = 2 ∧
      CloseProtocol (run call r drainingCalls) := by
  have hnew : new true true ⟨.one⟩ 2 2 = .ok _ := rfl
  exact ⟨_, hnew, by decide, by decide, run_close_protocol hnew drainingCalls⟩

end RequestRegistry

end LinuxAbi.IoUring
