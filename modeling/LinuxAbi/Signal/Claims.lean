import LinuxAbi.Signal.Check

/-!
# One action table and its one-shot claims

A handler installed with `SA_RESETHAND` is handed out to one delivery at a time. The
delivery holds a claim, which names the table, the signal and the generation of the
disposition; when it is finished the handler is reset (the delivery entered it) or is
in force again (it did not).

`Booked` compares one table with what has happened to it (`ResetEvent`) and with the
claims that are out. The lemmas say how `replace`, `claimDelivery` and `finishDelivery`
keep it, and what a finished claim leaves of the table.
-/

namespace LinuxAbi.Signal

open SignalActions
open Function
open List

/-- What happens to dispositions and claims. -/
inductive ResetEvent
  /-- a disposition was replaced -/
  | replaced (owner : Nat) (signo : Signo)
  /-- a handler was handed out with a claim -/
  | claimed (claim : OwnedResetDeliveryClaim) (action : SignalAction)
  /-- a claim was given back; `commit` says that the handler was entered -/
  | finished (claim : OwnedResetDeliveryClaim) (commit : Bool)
deriving DecidableEq

/-- The table an event is about. -/
def ResetEvent.owner : ResetEvent → Nat
  | .replaced owner _ => owner
  | .claimed claim _ => claim.owner
  | .finished claim _ => claim.owner

/-- A handler that is reset when it is entered. -/
def SignalAction.isOneShot (action : SignalAction) : Prop :=
  action.disposition.isHandler ∧ action.flags.contains SignalActionFlags.resetHand

namespace SignalActions

variable {a b : SignalActions} {s : Signo}

theorem effectiveAction_of_current (h : a.resetClaims s = some (a.generations s)) :
    a.effectiveAction s = SignalAction.default := by
  have hcur : a.resetClaimIsCurrent s = true := by
    unfold resetClaimIsCurrent
    rw [h]
    exact beq_self_eq_true _
  unfold effectiveAction
  split <;> rfl

theorem effectiveAction_of_catchable (hcatch : isUncatchable s = false)
    (h : a.resetClaims s ≠ some (a.generations s)) : a.effectiveAction s = a.actions s := by
  have hcur : a.resetClaimIsCurrent s = false := beq_eq_false_iff_ne.mpr h
  unfold effectiveAction
  rw [hcatch, hcur]
  rfl

/-- Two tables that agree on a signal have the same disposition for it. -/
theorem effectiveAction_congr (hactions : a.actions s = b.actions s)
    (hcur : a.resetClaims s = some (a.generations s) ↔ b.resetClaims s = some (b.generations s)) :
    a.effectiveAction s = b.effectiveAction s := by
  by_cases h : b.resetClaims s = some (b.generations s)
  · rw [effectiveAction_of_current h, effectiveAction_of_current (hcur.mpr h)]
  cases hcatch : isUncatchable s with
  | true =>
    unfold effectiveAction
    rw [hcatch]
    rfl
  | false =>
    rw [effectiveAction_of_catchable hcatch h,
      effectiveAction_of_catchable hcatch (fun h' => h (hcur.mp h')), hactions]

theorem default_not_isOneShot : ¬ SignalAction.default.isOneShot := by
  rintro ⟨h, -⟩
  cases h

/-- A claim is handed out with a one-shot handler in force, or there is none. -/
theorem claimDelivery_cases (h : claimDelivery a s = result) :
    (¬ (a.effectiveAction s).isOneShot ∧ result = ((a.effectiveAction s, none), a)) ∨
      (isUncatchable s = false ∧ a.resetClaims s ≠ some (a.generations s) ∧
        (a.actions s).isOneShot ∧
        result = ((a.actions s, some ⟨s, a.generations s⟩),
          { a with resetClaims := update a.resetClaims s (some (a.generations s)) })) := by
  subst h
  unfold claimDelivery effectiveAction
  cases hcatch : isUncatchable s with
  | true => exact .inl ⟨default_not_isOneShot, rfl⟩
  | false =>
    cases hcur : a.resetClaimIsCurrent s with
    | true => exact .inl ⟨default_not_isOneShot, rfl⟩
    | false =>
      simp only [Bool.false_eq_true, if_false]
      split
      · next hreset => exact .inr ⟨trivial, beq_eq_false_iff_ne.mp hcur, hreset, rfl⟩
      · next hplain => exact .inl ⟨hplain, rfl⟩

/-- The parts of a table that finishing a claim leaves alone. -/
theorem finishDelivery_other (a : SignalActions) (claim : ResetDeliveryClaim) (commit : Bool)
    (hs : s ≠ claim.signo) :
    (a.finishDelivery claim commit).actions s = a.actions s ∧
      (a.finishDelivery claim commit).resetClaims s = a.resetClaims s := by
  unfold finishDelivery
  dsimp only
  split
  · exact ⟨rfl, rfl⟩
  split
  · exact ⟨update_of_ne hs _ _, update_of_ne hs _ _⟩
  · exact ⟨rfl, update_of_ne hs _ _⟩

theorem finishDelivery_generations (a : SignalActions) (claim : ResetDeliveryClaim) (commit : Bool) :
    (a.finishDelivery claim commit).generations = a.generations := by
  unfold finishDelivery
  dsimp only
  split
  · rfl
  · split <;> rfl

/-- The claim is gone from the slot of its signal, and no other claim is. -/
theorem finishDelivery_resetClaims (a : SignalActions) (claim : ResetDeliveryClaim) (commit : Bool)
    (s : Signo) (g : Nat) :
    (a.finishDelivery claim commit).resetClaims s = some g ↔
      a.resetClaims s = some g ∧ claim ≠ ⟨s, g⟩ := by
  obtain ⟨signo, generation⟩ := claim
  by_cases hs : s = signo
  · subst hs
    unfold finishDelivery
    dsimp only
    split
    · next hslot =>
      refine ⟨fun h => ⟨h, ?_⟩, And.left⟩
      rintro ⟨⟩
      exact hslot h
    · next hslot =>
      have hnone : ∀ b : SignalActions,
          b.resetClaims = update a.resetClaims s none → b.resetClaims s ≠ some g := by
        intro b hb
        rw [hb, update_self]
        exact nofun
      have hsome := not_not.mp hslot
      constructor
      · intro h
        split at h
        · exact absurd h (hnone _ rfl)
        · exact absurd h (hnone _ rfl)
      · rintro ⟨h, hne⟩
        rw [hsome] at h
        cases h
        exact absurd rfl hne
  · rw [(a.finishDelivery_other ⟨signo, generation⟩ commit hs).2]
    refine ⟨fun h => ⟨h, ?_⟩, And.left⟩
    rintro ⟨⟩
    exact hs rfl

/-- A disposition is reset only by the claim on it, and only by a commit. -/
theorem finishDelivery_actions (a : SignalActions) (claim : ResetDeliveryClaim) (commit : Bool)
    (s : Signo) :
    (a.finishDelivery claim commit).actions s =
      if claim = ⟨s, a.generations s⟩ ∧ a.resetClaims s = some (a.generations s) ∧ commit = true
      then SignalAction.default else a.actions s := by
  obtain ⟨signo, generation⟩ := claim
  by_cases hs : s = signo
  · subst hs
    unfold finishDelivery
    dsimp only
    split
    · next hslot =>
      rw [if_neg]
      rintro ⟨⟨⟩, h, -⟩
      exact hslot h
    · next hslot =>
      have hsome := not_not.mp hslot
      split
      · next hcom =>
        rw [if_pos ⟨by rw [hcom.2], by rw [hsome, hcom.2], hcom.1⟩]
        exact update_self ..
      · next hcom =>
        rw [if_neg]
        rintro ⟨⟨⟩, -, h⟩
        exact hcom ⟨h, rfl⟩
  · rw [(a.finishDelivery_other ⟨signo, generation⟩ commit hs).1, if_neg]
    rintro ⟨⟨⟩, -⟩
    exact hs rfl

end SignalActions

/-- Another event. -/
theorem count_snoc_of_ne (hne : e' ≠ e) (past : List ResetEvent) :
    (past ++ [e']).count e = past.count e := by
  have hnone : [e'].count e = 0 := count_eq_zero.mpr fun hmem => hne (mem_singleton.mp hmem).symm
  rw [count_append, hnone]
  rfl

/-! ## The books of one table -/

/-- How the table of an owner stands to its past and to the claims that are out. -/
structure Booked (past : List ResetEvent) (live : OwnedResetDeliveryClaim → Prop) (o : Nat)
    (a : SignalActions) : Prop where
  generations : ∀ s, a.generations s = past.count (.replaced o s)
  uncatchable : ∀ s, isUncatchable s = true → a.actions s = SignalAction.default
  handler : ∀ s g action, .claimed ⟨o, s, g⟩ action ∈ past →
    g ≤ a.generations s ∧ action.isOneShot ∧ isUncatchable s = false
  began : ∀ s g, live ⟨o, s, g⟩ → ∃ action, .claimed ⟨o, s, g⟩ action ∈ past
  finished : ∀ s g commit, .finished ⟨o, s, g⟩ commit ∈ past →
    ∃ action, .claimed ⟨o, s, g⟩ action ∈ past
  slot : ∀ s, live ⟨o, s, a.generations s⟩ → a.resetClaims s = some (a.generations s)
  kept : ∀ s action, .claimed ⟨o, s, a.generations s⟩ action ∈ past →
    a.actions s = action ∨ .finished ⟨o, s, a.generations s⟩ true ∈ past
  reset : ∀ s, .finished ⟨o, s, a.generations s⟩ true ∈ past → a.actions s = SignalAction.default

namespace Booked

variable {past : List ResetEvent} {live live' : OwnedResetDeliveryClaim → Prop} {o : Nat}
  {a : SignalActions}

/-- A new table, about which nothing has been said. -/
theorem fresh (hpast : ∀ e ∈ past, e.owner ≠ o) (hlive : ∀ claim, live claim → claim.owner ≠ o)
    (hgen : a.generations = fun _ => 0)
    (hplain : ∀ s, isUncatchable s = true → a.actions s = SignalAction.default) :
    Booked past live o a where
  generations s := by
    have hnone : past.count (.replaced o s) = 0 := count_eq_zero.mpr fun hmem => hpast _ hmem rfl
    rw [hgen, hnone]
  uncatchable := hplain
  handler s g action hmem := absurd rfl (hpast _ hmem)
  began s g h := absurd rfl (hlive _ h)
  finished s g commit hmem := absurd rfl (hpast _ hmem)
  slot s h := absurd rfl (hlive _ h)
  kept s action hmem := absurd rfl (hpast _ hmem)
  reset s hmem := absurd rfl (hpast _ hmem)

/-- Events of other tables and claims that go away change nothing. -/
theorem other (h : Booked past live o a) (news : List ResetEvent) (hnews : ∀ e ∈ news, e.owner ≠ o)
    (hlive : ∀ claim, claim.owner = o → live' claim → live claim) :
    Booked (past ++ news) live' o a := by
  -- an event of this table was there before
  have hold : ∀ e : ResetEvent, e.owner = o → e ∈ past ++ news → e ∈ past := by
    intro e he hmem
    rcases mem_append.mp hmem with hpast | hnew
    · exact hpast
    · exact absurd he (hnews e hnew)
  refine ⟨?_, h.uncatchable, ?_, ?_, ?_, ?_, ?_, ?_⟩
  · intro s
    have hnone : news.count (.replaced o s) = 0 := count_eq_zero.mpr fun hmem => hnews _ hmem rfl
    rw [count_append, hnone]
    exact h.generations s
  · exact fun s g action hmem => h.handler s g action (hold _ rfl hmem)
  · intro s g hl
    obtain ⟨action, hmem⟩ := h.began s g (hlive _ rfl hl)
    exact ⟨action, mem_append_left _ hmem⟩
  · intro s g commit hmem
    obtain ⟨action, hmem⟩ := h.finished s g commit (hold _ rfl hmem)
    exact ⟨action, mem_append_left _ hmem⟩
  · exact fun s hl => h.slot s (hlive _ rfl hl)
  · intro s action hmem
    rcases h.kept s action (hold _ rfl hmem) with heq | hdone
    · exact .inl heq
    · exact .inr (mem_append_left _ hdone)
  · exact fun s hmem => h.reset s (hold _ rfl hmem)

/-- Claims that go away change nothing. -/
theorem mono (h : Booked past live o a) (hlive : ∀ claim, claim.owner = o → live' claim → live claim) :
    Booked past live' o a := by
  have hbook := h.other [] nofun hlive
  rwa [append_nil] at hbook

variable {s : Signo}

section

variable (h : Booked past live o a)
include h

/-- Nothing has happened at a generation that is still to come. -/
theorem ahead (hg : a.generations s < g) :
    (∀ action, .claimed ⟨o, s, g⟩ action ∉ past) ∧ ¬ live ⟨o, s, g⟩ ∧
      ∀ commit, .finished ⟨o, s, g⟩ commit ∉ past := by
  have hclaimed : ∀ action, .claimed ⟨o, s, g⟩ action ∉ past := by
    intro action hmem
    exact Nat.not_le.mpr hg (h.handler s g action hmem).1
  refine ⟨hclaimed, ?_, ?_⟩
  · intro hl
    obtain ⟨action, hmem⟩ := h.began s g hl
    exact hclaimed action hmem
  · intro commit hmem
    obtain ⟨action, hmem⟩ := h.finished s g commit hmem
    exact hclaimed action hmem

/-- The disposition of one signal is replaced: its generation has no events yet. -/
theorem replace
    (hr : a.replace s action = (.ok old, a')) : Booked (past ++ [.replaced o s]) live o a' := by
  unfold SignalActions.replace at hr
  split at hr
  · cases hr
  next hcatch =>
  split at hr
  · cases hr
    obtain ⟨hclaimed, hlive, hfin⟩ := h.ahead (Nat.lt_succ_self (a.generations s))
    have hold : ∀ e : ResetEvent, (∀ o s, e ≠ .replaced o s) → e ∈ past ++ [.replaced o s] →
        e ∈ past := by
      intro e he hmem
      exact (Lib.mem_concat_cases hmem).resolve_right (he o s)
    refine ⟨?_, ?_, ?_, ?_, ?_, ?_, ?_, ?_⟩
    · intro s'
      by_cases hs : s' = s
      · subst hs
        simp [h.generations s']
      have hne : ResetEvent.replaced o s ≠ .replaced o s' := by
        rintro ⟨⟩
        exact hs rfl
      simp [hs, h.generations s', hne]
    · intro s' huncatchable
      have hs : s' ≠ s := by
        rintro rfl
        exact hcatch huncatchable
      exact (update_of_ne hs _ _).trans (h.uncatchable s' huncatchable)
    · intro s' g action' hmem
      obtain ⟨hle, hshot⟩ := h.handler s' g action' (hold _ nofun hmem)
      refine ⟨?_, hshot⟩
      by_cases hs : s' = s
      · subst hs
        simp only [update_self]
        exact Nat.le_succ_of_le hle
      · simp only [update_of_ne hs]
        exact hle
    · intro s' g hl
      obtain ⟨action', hmem⟩ := h.began s' g hl
      exact ⟨action', mem_append_left _ hmem⟩
    · intro s' g commit hmem
      obtain ⟨action', hmem'⟩ := h.finished s' g commit (hold _ nofun hmem)
      exact ⟨action', mem_append_left _ hmem'⟩
    · intro s' hl
      by_cases hs : s' = s
      · subst hs
        simp only [update_self] at hl
        exact absurd hl hlive
      · simp only [update_of_ne hs] at hl ⊢
        exact h.slot s' hl
    · intro s' action' hmem
      have hmem := hold _ (fun _ _ he => by cases he) hmem
      by_cases hs : s' = s
      · subst hs
        simp only [update_self] at hmem
        exact absurd hmem (hclaimed action')
      · simp only [update_of_ne hs] at hmem ⊢
        rcases h.kept s' action' hmem with heq | hdone
        · exact .inl heq
        · exact .inr (mem_append_left _ hdone)
    · intro s' hmem
      have hmem := hold _ (fun _ _ he => by cases he) hmem
      by_cases hs : s' = s
      · subst hs
        simp only [update_self] at hmem
        exact absurd hmem (hfin true)
      · simp only [update_of_ne hs] at hmem ⊢
        exact h.reset s' hmem
  · cases hr

/-- A claim is handed out on the current generation: no other is out on it and none
was committed. -/
theorem claim (hcatch : isUncatchable s = false)
    (hslot : a.resetClaims s ≠ some (a.generations s)) (hshot : (a.actions s).isOneShot) :
    ¬ live ⟨o, s, a.generations s⟩ ∧ .finished ⟨o, s, a.generations s⟩ true ∉ past ∧
      Booked (past ++ [.claimed ⟨o, s, a.generations s⟩ (a.actions s)])
        (fun claim => live claim ∨ claim = ⟨o, s, a.generations s⟩) o
        { a with resetClaims := update a.resetClaims s (some (a.generations s)) } := by
  have hunfinished : .finished ⟨o, s, a.generations s⟩ true ∉ past := by
    intro hmem
    rw [h.reset s hmem] at hshot
    exact default_not_isOneShot hshot
  refine ⟨fun hl => hslot (h.slot s hl), hunfinished, ?_⟩
  refine ⟨?_, h.uncatchable, ?_, ?_, ?_, ?_, ?_, ?_⟩
  · intro s'
    exact (h.generations s').trans (count_snoc_of_ne (by nofun) past).symm
  · intro s' g action hmem
    rcases Lib.mem_concat_cases hmem with hpast | ⟨⟨⟩⟩
    · exact h.handler s' g action hpast
    · exact ⟨Nat.le_refl _, hshot, hcatch⟩
  · rintro s' g (hl | heq)
    · obtain ⟨action, hmem⟩ := h.began s' g hl
      exact ⟨action, mem_append_left _ hmem⟩
    · cases heq
      exact ⟨_, mem_append_right _ (mem_singleton_self _)⟩
  · intro s' g commit hmem
    rcases Lib.mem_concat_cases hmem with hpast | ⟨⟨⟩⟩
    obtain ⟨action, hmem'⟩ := h.finished s' g commit hpast
    exact ⟨action, mem_append_left _ hmem'⟩
  · intro s' hl
    by_cases hs : s' = s
    · subst hs
      exact update_self ..
    refine (update_of_ne hs _ _).trans ?_
    rcases hl with hl | heq
    · exact h.slot s' hl
    · cases heq
      exact absurd rfl hs
  · intro s' action hmem
    rcases Lib.mem_concat_cases hmem with hpast | ⟨⟨⟩⟩
    · rcases h.kept s' action hpast with heq | hdone
      · exact .inl heq
      · exact .inr (mem_append_left _ hdone)
    · exact .inl rfl
  · intro s' hmem
    rcases Lib.mem_concat_cases hmem with hpast | ⟨⟨⟩⟩
    exact h.reset s' hpast

/-- A claim is given back. -/
theorem finish {claim : ResetDeliveryClaim} (hlive : live ⟨o, claim⟩) (commit : Bool) :
    Booked (past ++ [.finished ⟨o, claim⟩ commit])
      (fun other => live other ∧ other ≠ ⟨o, claim⟩) o (a.finishDelivery claim commit) := by
  obtain ⟨signo, generation⟩ := claim
  have hgen := a.finishDelivery_generations ⟨signo, generation⟩ commit
  have hactions := a.finishDelivery_actions ⟨signo, generation⟩ commit
  -- a disposition that is default stays so
  have hdefault : ∀ s, a.actions s = SignalAction.default →
      (a.finishDelivery ⟨signo, generation⟩ commit).actions s = SignalAction.default := by
    intro s heq
    rw [hactions]
    split
    · rfl
    · exact heq
  have hclaimed : ∀ {s g action}, .claimed ⟨o, s, g⟩ action ∈
      past ++ [.finished ⟨o, signo, generation⟩ commit] → .claimed ⟨o, s, g⟩ action ∈ past := by
    intro s g action hmem
    exact (Lib.mem_concat_cases hmem).resolve_right nofun
  refine ⟨?_, fun s hs => hdefault s (h.uncatchable s hs), ?_, ?_, ?_, ?_, ?_, ?_⟩
  · intro s'
    rw [hgen]
    exact (h.generations s').trans (count_snoc_of_ne (by nofun) past).symm
  · intro s' g action hmem
    rw [hgen]
    exact h.handler s' g action (hclaimed hmem)
  · rintro s' g ⟨hl, -⟩
    obtain ⟨action, hmem⟩ := h.began s' g hl
    exact ⟨action, mem_append_left _ hmem⟩
  · intro s' g commit' hmem
    rcases Lib.mem_concat_cases hmem with hpast | ⟨⟨⟩⟩
    · obtain ⟨action, hmem'⟩ := h.finished s' g commit' hpast
      exact ⟨action, mem_append_left _ hmem'⟩
    obtain ⟨action, hmem'⟩ := h.began signo generation hlive
    exact ⟨action, mem_append_left _ hmem'⟩
  · intro s' hl
    rw [hgen] at hl ⊢
    refine (finishDelivery_resetClaims ..).mpr ⟨h.slot s' hl.1, ?_⟩
    rintro ⟨⟩
    exact hl.2 rfl
  · intro s' action hmem
    rw [hgen] at hmem ⊢
    rcases h.kept s' action (hclaimed hmem) with heq | hdone
    · rw [hactions]
      split
      · next hreset =>
        refine .inr (mem_append_right _ ?_)
        rw [hreset.1, hreset.2.2]
        exact mem_singleton_self _
      · exact .inl heq
    · exact .inr (mem_append_left _ hdone)
  · intro s' hmem
    rw [hgen] at hmem
    rcases Lib.mem_concat_cases hmem with hpast | ⟨⟨⟩⟩
    · exact hdefault s' (h.reset s' hpast)
    · rw [hactions, if_pos ⟨rfl, h.slot _ hlive, rfl⟩]

/-! ## What a finished claim leaves -/

/-- While a claim is out its signal reads default, unless the disposition was
replaced. -/
theorem reads_default {claim : ResetDeliveryClaim} (hlive : live ⟨o, claim⟩) :
    claim.generation < a.generations claim.signo ∨
      (a.generations claim.signo = claim.generation ∧
        a.effectiveAction claim.signo = SignalAction.default) := by
  obtain ⟨signo, generation⟩ := claim
  obtain ⟨action, hmem⟩ := h.began signo generation hlive
  rcases Nat.lt_or_eq_of_le (h.handler signo generation action hmem).1 with hlt | heq
  · exact .inl hlt
  · subst heq
    exact .inr ⟨rfl, effectiveAction_of_current (h.slot signo hlive)⟩

/-- The disposition that a finished claim leaves when it was not replaced: default
after a commit, the handler after an abort. -/
theorem effective_finish {claim : ResetDeliveryClaim} (hlive : live ⟨o, claim⟩)
    (hopen : .finished ⟨o, claim⟩ true ∉ past) (hclaimed : .claimed ⟨o, claim⟩ action ∈ past)
    (hgen : a.generations claim.signo = claim.generation) (commit : Bool) :
    (a.finishDelivery claim commit).effectiveAction claim.signo
      = if commit then SignalAction.default else action := by
  obtain ⟨signo, generation⟩ := claim
  dsimp only at hgen
  subst hgen
  obtain ⟨-, -, hcatch⟩ := h.handler _ _ _ hclaimed
  -- the slot is free again
  have hfree : (a.finishDelivery ⟨signo, a.generations signo⟩ commit).resetClaims signo
      ≠ some ((a.finishDelivery ⟨signo, a.generations signo⟩ commit).generations signo) := by
    rw [finishDelivery_generations]
    intro hslot
    exact ((finishDelivery_resetClaims ..).mp hslot).2 rfl
  rw [effectiveAction_of_catchable hcatch hfree, finishDelivery_actions]
  cases commit with
  | true => rw [if_pos ⟨rfl, h.slot signo hlive, rfl⟩, if_pos rfl]
  | false =>
    rw [if_neg (fun hc => by cases hc.2.2), if_neg Bool.false_ne_true]
    rcases h.kept signo action hclaimed with heq | hdone
    · exact heq
    · exact absurd hdone hopen

end

end Booked

/-- A finished claim leaves every disposition alone that it is not on: those of other
signals, and its own signal's when it was replaced. -/
theorem SignalActions.effectiveAction_finish_other (a : SignalActions) (claim : ResetDeliveryClaim)
    (commit : Bool) (hs : claim ≠ ⟨s, a.generations s⟩) :
    (a.finishDelivery claim commit).effectiveAction s = a.effectiveAction s := by
  apply effectiveAction_congr
  · rw [finishDelivery_actions, if_neg fun h => hs h.1]
  · rw [finishDelivery_resetClaims, finishDelivery_generations]
    exact and_iff_left hs

end LinuxAbi.Signal
