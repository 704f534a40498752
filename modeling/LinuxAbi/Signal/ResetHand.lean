import LinuxAbi.Signal.Turns
import LinuxAbi.Signal.Claims

/-!
# One-shot handlers across deliveries, replacements and exec

Any number of processes share an action table. A delivery claims a handler in one
section, copies its frame without a lock and finishes the claim in another; in
between the disposition may be replaced, the table copied by a fork, and the process
may have moved to a table of its own by exec.

`ResetInv` keeps every table booked (`Booked`) against the events of the run and the
claims in hands, and keeps the table of an exec token out of everybody's reach until
its commit.
-/

namespace LinuxAbi.Signal

open SignalActions
open Option
open List
open Lib (run history)

/-- The claim that a check holds. -/
def Hand.claim? : Hand → Option OwnedResetDeliveryClaim
  | .check _ (.claimed _ _ _ _ _ claim) => claim
  | .check _ (.handled _ _ _ claim _) => claim
  | _ => none

/-- The claim that a check has just been given, with its handler. -/
def Hand.offer? : Hand → Option (OwnedResetDeliveryClaim × SignalAction)
  | .check _ (.claimed _ _ _ _ action (some claim)) => some (claim, action)
  | _ => none

/-- The disposition that a check took without a claim. -/
def Hand.unclaimed? : Hand → Option SignalAction
  | .check _ (.claimed _ _ _ _ action none) => some action
  | _ => none

/-- The process and the new table of an exec token. -/
def Hand.exec? : Hand → Option (Nat × Nat)
  | .execUnshare p replacement => some (p, replacement)
  | _ => none

/-- What exec leaves of a disposition. -/
def SignalAction.afterExec (action : SignalAction) : SignalAction :=
  match action.disposition with
  | .ignore => { SignalAction.default with disposition := .ignore }
  | .default | .handler _ => SignalAction.default

namespace World

/-- The claim in a hand. -/
def claimAt (w : World) (h : Nat) : Option OwnedResetDeliveryClaim := w.seen Hand.claim? h

/-- The exec token in a hand. -/
def execAt (w : World) (h : Nat) : Option (Nat × Nat) := w.seen Hand.exec? h

/-- Some delivery holds the claim. -/
def Claimed (w : World) (claim : OwnedResetDeliveryClaim) : Prop := ∃ h, w.claimAt h = some claim

/-- The tables that processes have. -/
def seats (w : World) : List Nat := w.processes.map (·.actions)

/-- The table a thread's deliveries are looked up in. -/
def ownerOf (w : World) (t : Nat) : Option Nat :=
  (w.threads[t]?.bind fun thread => w.processes[thread.proc]?).map (·.actions)

/-- What one call does to dispositions and claims. -/
def resetEvents (w : World) (c : SignalCall) : List ResetEvent :=
  match c with
  | .replaceAction p signo _ _ =>
    match w.processes[p]?, (w.call c).1.reply with
    | some m, .oldAction _ => [.replaced m.actions signo]
    | _, _ => []
  | .checkClaim h _ =>
    match w.seen Hand.offer? h, (w.call c).2.seen Hand.offer? h with
    | none, some (claim, action) => [.claimed claim action]
    | _, _ => []
  | .checkFinish h =>
    match w.hands[h]? with
    | some (.check _ (.handled _ _ _ (some claim) result)) =>
      [.finished claim (result == .action (some .handler))]
    | _ => []
  | _ => []

/-! ## The statements -/

/-- No generation of a handler is out twice or entered twice, and while it is out its
signal reads default unless it was replaced. -/
structure OneShot (past : List ResetEvent) (w : World) : Prop where
  one_claim : ∀ h h' claim, w.claimAt h = some claim → w.claimAt h' = some claim → h = h'
  one_commit : ∀ claim, past.count (.finished claim true) ≤ 1
  /-- no claim is out on a generation that has been entered -/
  spent : ∀ h claim, w.claimAt h = some claim → .finished claim true ∉ past
  /-- a claim is for a handler with the reset flag -/
  handler : ∀ claim action, .claimed claim action ∈ past → action.isOneShot
  /-- and no such handler is taken without a claim -/
  unclaimed : ∀ h action, w.seen Hand.unclaimed? h = some action → ¬ action.isOneShot
  /-- a generation counts the replacements of its disposition -/
  replaced : ∀ o a s, w.owners[o]? = some a → a.generations s = past.count (.replaced o s)
  meanwhile : ∀ h claim, w.claimAt h = some claim →
    (∃ action, .claimed claim action ∈ past) ∧ ∃ a, w.owners[claim.owner]? = some a ∧
      (claim.claim.generation < a.generations claim.claim.signo ∨
        (a.generations claim.claim.signo = claim.claim.generation ∧
          a.effectiveAction claim.claim.signo = SignalAction.default))

/-- A claim is handed out on the table that the process has, for the disposition in
force there. -/
def ClaimsInForce (w : World) : Prop :=
  ∀ h keep claim action, w.resetEvents (.checkClaim h keep) = [.claimed claim action] →
    ∃ t mask source signal a, w.hands[h]? = some (.check t (.selected mask source signal)) ∧
      w.ownerOf t = some claim.owner ∧ w.owners[claim.owner]? = some a ∧
      claim.claim = ⟨signal.signo, a.generations signal.signo⟩ ∧
      a.effectiveAction signal.signo = action ∧
      (w.call (.checkClaim h keep)).2.claimAt h = some claim

/-- Finishing a claim changes the table it came from and nothing in it but its own
signal at its own generation: default when the handler was entered, and the handler
again when it was not. -/
def FinishesOwn (past : List ResetEvent) (w : World) : Prop :=
  ∀ h claim commit, w.resetEvents (.checkFinish h) = [.finished claim commit] →
    ∃ a a', w.owners[claim.owner]? = some a ∧
      (w.call (.checkFinish h)).2.owners = w.owners.set claim.owner a' ∧
      a'.generations = a.generations ∧
      (∀ s, claim.claim ≠ ⟨s, a.generations s⟩ → a'.effectiveAction s = a.effectiveAction s) ∧
      (∀ s g, claim.claim ≠ ⟨s, g⟩ → (a'.resetClaims s = some g ↔ a.resetClaims s = some g)) ∧
      (a.generations claim.claim.signo = claim.claim.generation →
        ∀ action, .claimed claim action ∈ past →
          a'.effectiveAction claim.claim.signo = if commit then SignalAction.default else action) ∧
      ∀ h', (w.call (.checkFinish h)).2.claimAt h' = if h' = h then none else w.claimAt h'

/-- The commit of an exec token succeeds: it gives the process a table of its own, which has
what exec leaves of the dispositions in force at the commit; no other table changes. -/
def ExecInstalls (w : World) : Prop :=
  ∀ h p replacement, w.execAt h = some (p, replacement) →
    (w.call (.commitExecUnshare h)).1.reply = .done ∧
    (w.call (.commitExecUnshare h)).2.execAt h = none ∧
    ∃ m source table, w.processes[p]? = some m ∧ w.owners[m.actions]? = some source ∧
      replacement ∉ w.seats ∧ (∀ claim, w.Claimed claim → claim.owner ≠ replacement) ∧
      (w.call (.commitExecUnshare h)).2.owners = w.owners.set replacement table ∧
      (w.call (.commitExecUnshare h)).2.owners[replacement]? = some table ∧
      (w.call (.commitExecUnshare h)).2.seats = w.seats.set p replacement ∧
      ∀ s, table.effectiveAction s = (source.effectiveAction s).afterExec ∧
        table.actions s = table.effectiveAction s ∧ table.generations s = 0 ∧
        table.resetClaims s = none

/-- A replacement that is refused because the generations are used up changes
nothing. -/
def ExhaustionInert (w : World) : Prop :=
  ∀ p signo action snapshotted,
    (w.call (.replaceAction p signo action snapshotted)).1.reply = .actionError .generationExhausted →
      (w.call (.replaceAction p signo action snapshotted)).2 = w

/-! ## The invariant -/

/-- Every table is booked, and the table of an exec token is nobody else's. -/
structure ResetInv (past : List ResetEvent) (w : World) : Prop where
  tables : ∀ o a, w.owners[o]? = some a → Booked past w.Claimed o a
  known : ∀ e ∈ past, e.owner < w.owners.length
  claimed : ∀ claim, w.Claimed claim → claim.owner < w.owners.length
  seated : ∀ o ∈ w.seats, o < w.owners.length
  unique : ∀ h h' claim, w.claimAt h = some claim → w.claimAt h' = some claim → h = h'
  spent : ∀ claim, w.Claimed claim → .finished claim true ∉ past
  once : ∀ claim, past.count (.finished claim true) ≤ 1
  reserved : ∀ h p r, w.execAt h = some (p, r) → r < w.owners.length ∧ r ∉ w.seats ∧
    (∀ e ∈ past, e.owner ≠ r) ∧ ∀ claim, w.Claimed claim → claim.owner ≠ r
  tokens : ∀ h h' p p' r, w.execAt h = some (p, r) → w.execAt h' = some (p', r) → h = h'

/-- An exec token is for a process that exists. -/
def ExecsSeated (w : World) : Prop :=
  ∀ h p r, w.execAt h = some (p, r) → p < w.seats.length

/-- No check has taken a one-shot handler without a claim. -/
def Unclaimed (w : World) : Prop :=
  ∀ h action, w.seen Hand.unclaimed? h = some action → ¬ action.isOneShot

variable {w w' : World} {past : List ResetEvent} {c : SignalCall}

theorem resetInv_empty : ResetInv [] World.empty where
  tables := nofun
  known := nofun
  claimed := nofun
  seated := nofun
  unique := nofun
  spent := nofun
  once _ := Nat.zero_le _
  reserved := nofun
  tokens := nofun

/-! ## Hands -/

theorem claim_part (hand : Hand) (claim : OwnedResetDeliveryClaim) (h : hand.claim? = some claim) :
    hand.part = some .checks := by
  cases hand <;> first | rfl | cases h

theorem offer_part (hand : Hand) (offer : OwnedResetDeliveryClaim × SignalAction)
    (h : hand.offer? = some offer) : hand.part = some .checks := by
  cases hand <;> first | rfl | cases h

theorem exec_part (hand : Hand) (token : Nat × Nat) (h : hand.exec? = some token) :
    hand.part = some .execs := by
  cases hand <;> first | rfl | cases h

variable {h p : Nat} {a : SignalActions} {e : ResetEvent} {answer : Answer}

/-- Only the claiming section gives a check a claim. -/
theorem claimAt_before (hc : ∀ h keep, c ≠ .checkClaim h keep)
    (hclaim : (w.call c).2.claimAt h = some claim) : w.claimAt h = some claim := by
  refine seen_before_call claim_part (fun _ _ _ => rfl) ?_ hclaim
  intro t phase phase' claim hnext hsome
  cases hnext with
  | claimed => exact absurd rfl (hc _ _)
  | handled => exact hsome
  | _ => cases hsome

theorem isReplacement_of_execAt (ht : w.execAt h = some (p, r)) : w.isReplacement r = true := by
  obtain ⟨hand, hh, hexec⟩ := seen_eq_some ht
  refine any_eq_true.mpr ⟨hand, mem_of_getElem? hh, ?_⟩
  cases hand <;> cases hexec
  exact beq_self_eq_true _

/-! ## Calls that touch no table -/

/-- No event and no new claim; one token may be new, for a table that is. -/
theorem ResetInv.mono (hi : ResetInv past w) (token : Nat)
    (hlen : w.owners.length ≤ w'.owners.length)
    (htables : ∀ o a, w'.owners[o]? = some a → Booked past w.Claimed o a)
    (hcls : ∀ h claim, w'.claimAt h = some claim → w.claimAt h = some claim)
    (hseats : ∀ o ∈ w'.seats, o < w.owners.length ∧ ∀ h p, w'.execAt h ≠ some (p, o))
    (hexec : ∀ h p r, w'.execAt h = some (p, r) → w.execAt h = some (p, r) ∨
      (h = token ∧ r = w.owners.length ∧ r < w'.owners.length)) : ResetInv past w' := by
  have hclaimed : ∀ claim, w'.Claimed claim → w.Claimed claim := by
    rintro claim ⟨h, hh⟩
    exact ⟨h, hcls h claim hh⟩
  refine ⟨?_, ?_, ?_, ?_, ?_, ?_, hi.once, ?_, ?_⟩
  · exact fun o a ha => (htables o a ha).mono fun claim _ => hclaimed claim
  · exact fun e he => (hi.known e he).trans_le hlen
  · exact fun claim h => (hi.claimed claim (hclaimed claim h)).trans_le hlen
  · exact fun o ho => (hseats o ho).1.trans_le hlen
  · exact fun h h' claim hh hh' => hi.unique h h' claim (hcls h claim hh) (hcls h' claim hh')
  · exact fun claim h => hi.spent claim (hclaimed claim h)
  · intro h p r ht
    have hseat : r ∉ w'.seats := fun hmem => (hseats r hmem).2 h p ht
    rcases hexec h p r ht with hold | ⟨-, rfl, hlt⟩
    · obtain ⟨hr, -, hpast, hlive⟩ := hi.reserved h p r hold
      exact ⟨hr.trans_le hlen, hseat, hpast, fun claim hc => hlive claim (hclaimed claim hc)⟩
    · exact ⟨hlt, hseat, fun e he => (hi.known e he).ne,
        fun claim hc => (hi.claimed claim (hclaimed claim hc)).ne⟩
  · intro h h' p p' r ht ht'
    rcases hexec h p r ht with hold | ⟨rfl, hnew, -⟩
    · rcases hexec h' p' r ht' with hold' | ⟨-, hnew', -⟩
      · exact hi.tokens h h' p p' r hold hold'
      · exact absurd hnew' (hi.reserved h p r hold).1.ne
    · rcases hexec h' p' r ht' with hold' | ⟨rfl, -, -⟩
      · exact absurd hnew (hi.reserved h' p' r hold').1.ne
      · rfl

/-- Tables and tokens are as they were, and no claim is new. -/
theorem ResetInv.keep (hi : ResetInv past w) (howners : w'.owners = w.owners)
    (hexec : ∀ h, w'.execAt h = w.execAt h)
    (hcls : ∀ h claim, w'.claimAt h = some claim → w.claimAt h = some claim)
    (hseats : ∀ o ∈ w'.seats, o < w.owners.length ∧ ∀ h p, w.execAt h ≠ some (p, o)) :
    ResetInv past w' := by
  refine hi.mono 0 ?_ ?_ hcls ?_ ?_
  · rw [howners]
  · rw [howners]
    exact hi.tables
  · intro o ho
    refine ⟨(hseats o ho).1, fun h p => ?_⟩
    rw [hexec]
    exact (hseats o ho).2 h p
  · intro h p r ht
    exact .inl ((hexec h).symm.trans ht)

theorem ResetInv.keep_seats (hi : ResetInv past w) (hseats : w'.seats = w.seats) (o : Nat)
    (ho : o ∈ w'.seats) : o < w.owners.length ∧ ∀ h p, w.execAt h ≠ some (p, o) := by
  rw [hseats] at ho
  exact ⟨hi.seated o ho, fun h p ht => (hi.reserved h p o ht).2.1 ho⟩

/-! ## New tables -/

theorem execSnapshot_actions (a : SignalActions)
    (h : isUncatchable s = true → a.actions s = SignalAction.default) :
    a.execSnapshot.actions s = (a.effectiveAction s).afterExec := by
  have heff : (if a.resetClaimIsCurrent s then SignalAction.default else a.actions s)
      = a.effectiveAction s := by
    unfold effectiveAction
    cases hs : isUncatchable s with
    | true =>
      rw [h hs]
      cases a.resetClaimIsCurrent s <;> rfl
    | false => rfl
  unfold execSnapshot SignalAction.afterExec
  dsimp only
  rw [heff]
  cases (a.effectiveAction s).disposition <;> rfl

theorem uncatchable_execSnapshot
    (h : ∀ s, isUncatchable s = true → a.actions s = SignalAction.default) (s : Signo)
    (hs : isUncatchable s = true) : a.execSnapshot.actions s = SignalAction.default := by
  rw [execSnapshot_actions a (h s)]
  unfold effectiveAction
  rw [if_pos hs]
  rfl

/-- A table is added, possibly with a token for it. -/
theorem ResetInv.addOwner (hi : ResetInv past w) (token : Nat)
    (howners : w'.owners = w.owners ++ [a]) (hgen : a.generations = fun _ => 0)
    (hplain : ∀ s, isUncatchable s = true → a.actions s = SignalAction.default)
    (hcls : ∀ h, w'.claimAt h = w.claimAt h) (hseats : w'.seats = w.seats)
    (hexec : ∀ h p r, w'.execAt h = some (p, r) →
      w.execAt h = some (p, r) ∨ (h = token ∧ r = w.owners.length)) : ResetInv past w' := by
  have hlen : w'.owners.length = w.owners.length + 1 := by
    rw [howners, length_append]
    rfl
  have hexec' : ∀ h p r, w'.execAt h = some (p, r) → w.execAt h = some (p, r) ∨
      (h = token ∧ r = w.owners.length ∧ r < w'.owners.length) := by
    intro h p r ht
    refine (hexec h p r ht).imp_right fun ⟨htok, hr⟩ => ⟨htok, hr, ?_⟩
    rw [hr, hlen]
    exact Nat.lt_succ_self _
  refine hi.mono token (hlen ▸ Nat.le_succ _) ?_ (fun h _ => (hcls h).symm.trans) ?_ hexec'
  · intro o b hb
    rw [howners] at hb
    rcases Lib.getElem?_concat_cases hb with hold | ⟨rfl, rfl⟩
    · exact hi.tables o b hold
    -- the new table: nothing has been said about it
    · exact Booked.fresh (fun e he => (hi.known e he).ne) (fun claim h => (hi.claimed claim h).ne)
        hgen hplain
  · intro o ho
    obtain ⟨hlt, hfree⟩ := hi.keep_seats hseats o ho
    refine ⟨hlt, fun h p ht => ?_⟩
    rcases hexec h p o ht with hold | ⟨-, hnew⟩
    · exact hfree h p hold
    · exact hlt.ne hnew

/-! ## One table changes -/

/-- One event, and the table it is about. -/
theorem ResetInv.update (hi : ResetInv past w)
    (hknown : e.owner < w.owners.length) (hfree : ∀ h p, w.execAt h ≠ some (p, e.owner))
    (howners : w'.owners = w.owners.set e.owner a')
    (hbook : Booked (past ++ [e]) w'.Claimed e.owner a')
    (hclaimed : ∀ claim, w'.Claimed claim → w.Claimed claim ∨ claim.owner = e.owner)
    (hunique : ∀ h h' claim, w'.claimAt h = some claim → w'.claimAt h' = some claim → h = h')
    (hspent : ∀ claim, w'.Claimed claim → .finished claim true ∉ past ++ [e])
    (honce : ∀ claim, (past ++ [e]).count (.finished claim true) ≤ 1)
    (hexec : ∀ h, w'.execAt h = w.execAt h) (hseats : w'.seats = w.seats) :
    ResetInv (past ++ [e]) w' := by
  have hlen : w'.owners.length = w.owners.length := by rw [howners, length_set]
  refine ⟨?_, ?_, ?_, ?_, hunique, hspent, honce, ?_, ?_⟩
  · intro o b hb
    rw [howners] at hb
    rcases Lib.getElem?_set_cases hb with ⟨rfl, rfl⟩ | ⟨ho, hold⟩
    · exact hbook
    refine (hi.tables o b hold).other [e] ?_ ?_
    · intro e' he
      rw [mem_singleton.mp he]
      exact ho.symm
    · rintro claim rfl hclaim
      exact (hclaimed claim hclaim).resolve_right ho
  · intro e' he
    rw [hlen]
    rcases Lib.mem_concat_cases he with hpast | rfl
    · exact hi.known e' hpast
    · exact hknown
  · intro claim hclaim
    rw [hlen]
    rcases hclaimed claim hclaim with hold | heq
    · exact hi.claimed claim hold
    · rw [heq]
      exact hknown
  · intro o ho
    rw [hlen]
    rw [hseats] at ho
    exact hi.seated o ho
  · intro h p r ht
    rw [hexec] at ht
    obtain ⟨hr, hseat, hpast, hlive⟩ := hi.reserved h p r ht
    have hne : e.owner ≠ r := by
      rintro rfl
      exact hfree h p ht
    rw [hlen, hseats]
    refine ⟨hr, hseat, ?_, ?_⟩
    · intro e' he
      rcases Lib.mem_concat_cases he with hold | rfl
      · exact hpast e' hold
      · exact hne
    · intro claim hclaim
      rcases hclaimed claim hclaim with hold | heq
      · exact hlive claim hold
      · rw [heq]
        exact hne
  · intro h h' p p' r ht ht'
    rw [hexec] at ht ht'
    exact hi.tokens h h' p p' r ht ht'

/-! ## The three sections that change a table -/

/-- A replacement is refused without a trace, or one table has a new disposition. -/
theorem replaceAction_cases (h : w.replaceAction p signo action snapshotted = (answer, w')) :
    (w' = w ∧ ∀ old, answer.reply ≠ .oldAction old) ∨
      ∃ m a a' old, w.processes[p]? = some m ∧ w.owners[m.actions]? = some a ∧
        a.replace signo action = (.ok old, a') ∧ answer.reply = .oldAction old ∧
        w'.owners = w.owners.set m.actions a' := by
  unfold replaceAction at h
  split at h
  · cases h
    exact .inl ⟨rfl, nofun⟩
  next m hm =>
  split at h
  · cases h
    exact .inl ⟨rfl, nofun⟩
  split at h
  · cases h
    exact .inl ⟨rfl, nofun⟩
  split at h
  · cases h
    exact .inl ⟨rfl, nofun⟩
  next a ha =>
  split at h
  · cases h
    exact .inl ⟨rfl, nofun⟩
  next old a' hr =>
  refine .inr ⟨m, a, a', old, hm, ha, hr, ?_⟩
  split at h
  · cases h
    have hflush : Frame [] { w with owners := w.owners.set m.actions a' } _ :=
      (frame_detachSignalInto (_, []) (.process p) signo).trans
        (frame_detachChildren m.children [signo] _)
    exact ⟨rfl, hflush.owners not_mem_nil⟩
  · cases h
    exact ⟨rfl, rfl⟩

theorem set_self_of_getElem? {rows : List SignalActions} {i : Nat}
    (h : rows[i]? = some a) : rows.set i a = rows := by
  obtain ⟨hlt, rfl⟩ := List.getElem?_eq_some_iff.mp h
  exact List.set_getElem_self hlt

/-- What the claiming section does to the table of the process and to its hand. -/
theorem checkClaim_cases (hcall : w.checkClaim h keep = (answer, w')) :
    w' = w ∨ ∃ t mask source signal m a action claim a',
      w.hands[h]? = some (.check t (.selected mask source signal)) ∧
      (w.threads[t]?.bind fun thread => w.processes[thread.proc]?) = some m ∧
      w.owners[m.actions]? = some a ∧ a.claimDelivery signal.signo = ((action, claim), a') ∧
      w'.owners = w.owners.set m.actions a' ∧
      ∀ {α : Type} {f : Hand → Option α}, (∀ hand a, f hand = some a → hand.part = some .checks) →
        ∀ i, w'.seen f i = if i = h
          then f (.check t (.claimed mask source signal.intoInfo (if keep then some signal else none)
            action (claim.map (OwnedResetDeliveryClaim.mk m.actions))))
          else w.seen f i := by
  unfold checkClaim at hcall
  split at hcall
  · next t mask source signal hh =>
    split at hcall
    · cases hcall
      exact .inl rfl
    next m hm =>
    split at hcall
    · cases hcall
      exact .inl rfl
    next a ha =>
    rcases hclaim : a.claimDelivery signal.signo with ⟨result, a'⟩
    obtain ⟨action, claim⟩ := result
    rw [hclaim] at hcall
    refine .inr ⟨t, mask, source, signal, m, a, action, claim, a', hh, hm, ha, hclaim, ?_⟩
    dsimp only at hcall
    split at hcall
    · next hkeep =>
      cases hcall
      refine ⟨rfl, ?_⟩
      intro α f hsees i
      rw [if_pos hkeep]
      exact seen_setHand (w := { w with owners := w.owners.set m.actions a' }) hh i
    · next hkeep =>
      cases hcall
      refine ⟨rfl, ?_⟩
      intro α f hsees i
      have hspent : f (spentHand signal) = none := by
        cases hf : f (spentHand signal) with
        | none => rfl
        | some b =>
          have hpart := hsees _ _ hf
          rw [part_spentHand] at hpart
          cases hpart
      rw [if_neg hkeep, seen_putHand_of_none hspent]
      exact seen_setHand (w := { w with owners := w.owners.set m.actions a' }) hh i
  · cases hcall
    exact .inl rfl

/-- A claim is finished on the table it came from. -/
theorem checkFinish_cases (hcall : w.checkFinish h = (answer, w')) :
    (w.resetEvents (.checkFinish h) = [] ∧ w'.owners = w.owners ∧ ∀ i, w'.claimAt i = w.claimAt i) ∨
      ∃ claim commit, w.claimAt h = some claim ∧
        w.resetEvents (.checkFinish h) = [.finished claim commit] ∧
        (∀ i, w'.claimAt i = if i = h then none else w.claimAt i) ∧
        w'.owners = match w.owners[claim.owner]? with
          | none => w.owners
          | some a => w.owners.set claim.owner (a.finishDelivery claim.claim commit) := by
  have hev : w.resetEvents (.checkFinish h) = match w.hands[h]? with
    | some (.check _ (.handled _ _ _ (some claim) result)) =>
      [.finished claim (result == .action (some .handler))]
    | _ => [] := rfl
  rw [hev]
  unfold checkFinish at hcall
  split at hcall
  · next t mask source signal claim result hh =>
    have hcls : ∀ i, (w.setHand h (.check t (.finished mask source signal result))).claimAt i
        = if i = h then none else w.claimAt i := seen_setHand hh
    cases claim with
    | none =>
      cases hcall
      refine .inl ⟨by rw [hh], rfl, ?_⟩
      intro i
      rw [hcls]
      split
      · next heq =>
        rw [heq]
        exact (seen_of_hand (f := Hand.claim?) hh).symm
      · rfl
    | some claim =>
      refine .inr ⟨claim, result == .action (some .handler), seen_of_hand hh, by rw [hh], ?_⟩
      dsimp only at hcall
      have howners :
          (w.setHand h (.check t (.finished mask source signal result))).owners = w.owners := rfl
      rw [howners] at hcall
      cases ha : w.owners[claim.owner]? with
      | none | some =>
        rw [ha] at hcall
        cases hcall
        exact ⟨hcls, rfl⟩
  · next hother =>
    cases hcall
    refine .inl ⟨?_, rfl, fun _ => rfl⟩
    split
    · next hh => exact absurd hh (hother _ _ _ _ _ _)
    · rfl

/-! ## The invariant over these sections -/

theorem mem_seats (hm : w.processes[p]? = some m) : m.actions ∈ w.seats :=
  mem_map.mpr ⟨m, mem_of_getElem? hm, rfl⟩

/-- The table of a process belongs to no token. -/
theorem ResetInv.not_reserved (hi : ResetInv past w) (ho : o ∈ w.seats) (h p : Nat) :
    w.execAt h ≠ some (p, o) :=
  fun ht => (hi.reserved h p o ht).2.1 ho

theorem not_mem_snoc (hne : e ≠ e') (hpast : e ∉ past) : e ∉ past ++ [e'] := by
  intro hmem
  rcases Lib.mem_concat_cases hmem with hold | hnew
  · exact hpast hold
  · exact hne hnew

theorem ResetInv.replaceAction (hi : ResetInv past w) (p : Nat) (signo : Signo)
    (action : SignalAction) (snapshotted : Bool) :
    ResetInv (past ++ w.resetEvents (.replaceAction p signo action snapshotted))
      (w.replaceAction p signo action snapshotted).2 := by
  have hframe := w.frame_replaceAction p signo action snapshotted
  have hev : w.resetEvents (.replaceAction p signo action snapshotted)
      = match w.processes[p]?, (w.replaceAction p signo action snapshotted).1.reply with
        | some m, .oldAction _ => [.replaced m.actions signo]
        | _, _ => [] := rfl
  rw [hev]
  rcases hcall : w.replaceAction p signo action snapshotted with ⟨answer, w'⟩
  rw [hcall] at hframe
  rcases replaceAction_cases hcall with ⟨rfl, href⟩ | ⟨m, a, a', old, hm, ha, hr, hreply, howners⟩
  · split
    · next hreply => exact absurd hreply (href _)
    · rw [append_nil]
      exact hi
  · have hcls : ∀ h, w'.claimAt h = w.claimAt h := hframe.seen (by decide) claim_part
    have hclaimed : w'.Claimed = w.Claimed := by
      funext claim
      exact propext (exists_congr fun h => by rw [hcls])
    rw [hm]
    rw [hreply]
    have hseat := mem_seats hm
    refine hi.update (hi.seated _ hseat) (hi.not_reserved hseat) howners ?_ ?_ ?_ ?_ ?_
      (hframe.seen (by decide) exec_part) (hframe.seats (by decide))
    · rw [hclaimed]
      exact (hi.tables _ a ha).replace hr
    · rw [hclaimed]
      exact fun _ h => .inl h
    · intro h h' claim hh hh'
      rw [hcls] at hh hh'
      exact hi.unique h h' claim hh hh'
    · rw [hclaimed]
      exact fun claim h => not_mem_snoc nofun (hi.spent claim h)
    · intro claim
      rw [count_snoc_of_ne (fun h => by cases h)]
      exact hi.once claim

theorem resetEvents_checkClaim (w : World) (h : Nat) (keep : Bool) :
    w.resetEvents (.checkClaim h keep)
      = match w.seen Hand.offer? h, (w.checkClaim h keep).2.seen Hand.offer? h with
        | none, some (claim, action) => [.claimed claim action]
        | _, _ => [] := rfl

theorem ResetInv.checkClaim (hi : ResetInv past w) (h : Nat) (keep : Bool) :
    ResetInv (past ++ w.resetEvents (.checkClaim h keep)) (w.checkClaim h keep).2 := by
  have hframe := w.frame_checkClaim h keep
  rw [resetEvents_checkClaim]
  rcases hcall : w.checkClaim h keep with ⟨answer, w'⟩
  rw [hcall] at hframe
  have hexec : ∀ i, w'.execAt i = w.execAt i := hframe.seen (by decide) exec_part
  have hseats : w'.seats = w.seats := hframe.seats (by decide)
  rcases checkClaim_cases hcall with
    rfl | ⟨t, mask, source, signal, m, a, action, claim, a', hh, hm, ha, hclaim, howners, hseen⟩
  · split
    · next hold hnew =>
      rw [hold] at hnew
      cases hnew
    · rw [append_nil]
      exact hi
  · have hcls := hseen claim_part
    have hoffer := hseen offer_part h
    rw [if_pos rfl] at hoffer
    have hnooffer : w.seen Hand.offer? h = none := seen_of_hand hh
    rw [hnooffer, hoffer]
    rcases claimDelivery_cases hclaim with ⟨-, ⟨⟩⟩ | ⟨hcatch, hslot, hshot, ⟨⟩⟩
    · -- the disposition in force is no one-shot handler
      rw [set_self_of_getElem? ha] at howners
      dsimp only [Option.map, Hand.offer?]
      rw [append_nil]
      refine hi.keep howners hexec ?_ ?_
      · intro i claim hi'
        rw [World.claimAt, hcls] at hi'
        split at hi'
        · cases hi'
        · exact hi'
      · exact hi.keep_seats hseats
    · have hseat : m.actions ∈ w.seats := by
        obtain ⟨thread, -, hproc⟩ := bind_eq_some_iff.mp hm
        exact mem_seats hproc
      obtain ⟨hnotlive, hunfinished, hbook⟩ := (hi.tables _ a ha).claim hcatch hslot hshot
      -- the hand of the check is the only place with the new claim
      have hwhere : ∀ {i claim}, w'.claimAt i = some claim →
          (i = h ∧ claim = ⟨m.actions, signal.signo, a.generations signal.signo⟩) ∨
            w.claimAt i = some claim := by
        intro i claim hi'
        rw [World.claimAt, hcls] at hi'
        split at hi'
        · next heq => exact .inl ⟨heq, (some.inj hi').symm⟩
        · exact .inr hi'
      refine hi.update (hi.seated _ hseat) (hi.not_reserved hseat) howners ?_ ?_ ?_ ?_ ?_ hexec hseats
      · refine hbook.mono ?_
        rintro claim - ⟨i, hclaim⟩
        rcases hwhere hclaim with ⟨-, heq⟩ | hold
        · exact .inr heq
        · exact .inl ⟨i, hold⟩
      · rintro claim ⟨i, hclaim⟩
        rcases hwhere hclaim with ⟨-, heq⟩ | hold
        · exact .inr (by rw [heq]; rfl)
        · exact .inl ⟨i, hold⟩
      · intro i i' claim hclaim hclaim'
        rcases hwhere hclaim with ⟨rfl, heq⟩ | hold
        · rcases hwhere hclaim' with ⟨rfl, -⟩ | hold'
          · rfl
          · rw [heq] at hold'
            exact absurd ⟨i', hold'⟩ hnotlive
        · rcases hwhere hclaim' with ⟨-, heq⟩ | hold'
          · rw [heq] at hold
            exact absurd ⟨i, hold⟩ hnotlive
          · exact hi.unique i i' claim hold hold'
      · rintro claim ⟨i, hclaim⟩
        refine not_mem_snoc (fun he => by cases he) ?_
        rcases hwhere hclaim with ⟨-, heq⟩ | hold
        · rw [heq]
          exact hunfinished
        · exact hi.spent claim ⟨i, hold⟩
      · intro claim
        rw [count_snoc_of_ne (fun he => by cases he)]
        exact hi.once claim

theorem ResetInv.checkFinish (hi : ResetInv past w) (h : Nat) :
    ResetInv (past ++ w.resetEvents (.checkFinish h)) (w.checkFinish h).2 := by
  have hframe := w.frame_checkFinish h
  rcases hcall : w.checkFinish h with ⟨answer, w'⟩
  rw [hcall] at hframe
  have hexec : ∀ i, w'.execAt i = w.execAt i := hframe.seen (by decide) exec_part
  have hseats : w'.seats = w.seats := hframe.seats (by decide)
  rcases checkFinish_cases hcall with
    ⟨hev, howners, hcls⟩ | ⟨claim, commit, hclaim, hev, hcls, howners⟩
  · rw [hev, append_nil]
    refine hi.keep howners hexec ?_ ?_
    · intro i claim hclaim
      exact (hcls i).symm.trans hclaim
    · exact hi.keep_seats hseats
  · rw [hev]
    have hlive : w.Claimed claim := ⟨h, hclaim⟩
    have hknown := hi.claimed claim hlive
    have ha : w.owners[claim.owner]? = some (w.owners[claim.owner]) := getElem?_eq_getElem hknown
    rw [ha] at howners
    have hbef : ∀ {i other}, w'.claimAt i = some other → w.claimAt i = some other ∧ other ≠ claim := by
      intro i other hother
      rw [hcls] at hother
      split at hother
      · cases hother
      next hne =>
      refine ⟨hother, ?_⟩
      rintro rfl
      exact hne (hi.unique i h _ hother hclaim)
    have hdone := hi.spent claim hlive
    refine hi.update hknown ?_ howners ?_ ?_ ?_ ?_ ?_ hexec hseats
    · intro i p ht
      exact (hi.reserved i p _ ht).2.2.2 claim hlive rfl
    · refine ((hi.tables _ _ ha).finish hlive commit).mono ?_
      rintro other - ⟨i, hother⟩
      obtain ⟨hold, hne⟩ := hbef hother
      exact ⟨⟨i, hold⟩, hne⟩
    · rintro other ⟨i, hother⟩
      exact .inl ⟨i, (hbef hother).1⟩
    · intro i i' other hother hother'
      exact hi.unique i i' other (hbef hother).1 (hbef hother').1
    · rintro other ⟨i, hother⟩
      obtain ⟨hold, hne⟩ := hbef hother
      refine not_mem_snoc ?_ (hi.spent other ⟨i, hold⟩)
      rintro ⟨⟩
      exact hne rfl
    · intro other
      by_cases heq : ResetEvent.finished claim commit = .finished other true
      · cases heq
        rw [count_append, count_eq_zero.mpr hdone, Nat.zero_add]
        exact count_le_length (l := [ResetEvent.finished claim true])
      · rw [count_snoc_of_ne heq]
        exact hi.once other

/-- What the exec commit does to the tables, the seats and its token. -/
theorem commitExecUnshare_cases (hcall : w.commitExecUnshare h = (answer, w')) :
    (w' = w ∧ ∀ p replacement, w.execAt h = some (p, replacement) →
      (w.processes[p]?.bind fun m => w.owners[m.actions]?) = none) ∨
    ∃ p replacement m source, answer.reply = .done ∧
      w.execAt h = some (p, replacement) ∧ w.processes[p]? = some m ∧
      w.owners[m.actions]? = some source ∧
      w'.owners = w.owners.set replacement source.execSnapshot ∧
      w'.seats = w.seats.set p replacement ∧
      (∀ i, w'.execAt i = if i = h then none else w.execAt i) := by
  unfold commitExecUnshare at hcall
  split at hcall
  · next p replacement hh =>
    have htok : w.execAt h = some (p, replacement) := seen_of_hand hh
    split at hcall
    · next hnone =>
      cases hcall
      refine .inl ⟨rfl, fun p' r' ht => ?_⟩
      cases htok.symm.trans ht
      exact bind_eq_none_iff.mpr fun m hm => by cases hnone.symm.trans hm
    next m hm =>
    split at hcall
    · next hnone =>
      cases hcall
      refine .inl ⟨rfl, fun p' r' ht => ?_⟩
      cases htok.symm.trans ht
      rw [hm]
      exact hnone
    next source hsrc =>
    cases hcall
    refine .inr ⟨p, replacement, m, source, rfl, htok, hm, hsrc, rfl, ?_, ?_⟩
    · exact map_set
    · exact seen_setHand (w := setProcess { w with owners := _ } p _) hh
  · next hother =>
    cases hcall
    refine .inl ⟨rfl, fun p' r' ht => ?_⟩
    obtain ⟨hand, hh, hexec⟩ := seen_eq_some ht
    cases hand <;> cases hexec
    exact absurd hh (hother _ _)

theorem ResetInv.commitExecUnshare (hi : ResetInv past w) (h : Nat) :
    ResetInv past (w.commitExecUnshare h).2 := by
  have hframe := w.frame_commitExecUnshare h
  rcases hcall : w.commitExecUnshare h with ⟨answer, w'⟩
  rw [hcall] at hframe
  rcases commitExecUnshare_cases hcall with
    ⟨rfl, -⟩ | ⟨p, replacement, m, source, -, htok, hm, hsrc, howners, hseats, hexec⟩
  · exact hi
  obtain ⟨hlt, hseat, hpast, hlive⟩ := hi.reserved h p replacement htok
  have hcls : ∀ i, w'.claimAt i = w.claimAt i := hframe.seen (by decide) claim_part
  have htoks : ∀ {i p' r}, w'.execAt i = some (p', r) → i ≠ h ∧ w.execAt i = some (p', r) := by
    intro i p' r ht
    rw [hexec] at ht
    split at ht
    · cases ht
    · next hne => exact ⟨hne, ht⟩
  refine hi.mono 0 ?_ ?_ (fun i _ => (hcls i).symm.trans) ?_ fun _ _ _ ht => .inl (htoks ht).2
  · rw [howners, length_set]
  · intro o b hb
    rw [howners] at hb
    rcases Lib.getElem?_set_cases hb with ⟨rfl, rfl⟩ | ⟨-, hold⟩
    · -- the table was nobody's until now
      exact Booked.fresh hpast hlive rfl
        (uncatchable_execSnapshot (hi.tables _ source hsrc).uncatchable)
    · exact hi.tables o b hold
  · intro o ho
    rw [hseats] at ho
    rcases mem_or_eq_of_mem_set ho with hold | rfl
    · obtain ⟨ho, hfree⟩ := hi.keep_seats rfl o hold
      exact ⟨ho, fun i p' ht => hfree i p' (htoks ht).2⟩
    · refine ⟨hlt, fun i p' ht => ?_⟩
      obtain ⟨hne, hold⟩ := htoks ht
      exact hne (hi.tokens i h p' p o hold htok)

/-! ## Runs -/

theorem ResetInv.newProcess (hi : ResetInv past w) (owner threadLimit : Nat) :
    ResetInv past (w.newProcess owner threadLimit).2 := by
  unfold World.newProcess
  split
  · exact hi
  next hval =>
  refine hi.keep rfl (fun _ => rfl) (fun _ _ h => h) ?_
  intro o ho
  change o ∈ (w.processes ++ [_]).map _ at ho
  rw [map_append] at ho
  rcases Lib.mem_concat_cases ho with hold | ⟨⟨⟩⟩
  · exact hi.keep_seats rfl o hold
  refine ⟨Nat.not_le.mp fun hle => hval (.inr (.inl hle)), ?_⟩
  intro h p ht
  exact hval (.inr (.inr (isReplacement_of_execAt ht)))

/-- Only the sections that name the tables note anything. -/
theorem resetEvents_of_frame (w : World) (hc : .owners ∉ c.parts) :
    w.resetEvents c = [] ∧ ∀ h keep, c ≠ .checkClaim h keep := by
  cases c with
  | replaceAction p signo action snapshotted => exact absurd mem_cons_self hc
  | checkClaim | checkFinish => exact absurd (by simp [SignalCall.parts]) hc
  | _ =>
    refine ⟨rfl, ?_⟩
    intro h keep heq
    cases heq

/-- One call. -/
theorem ResetInv.call (hi : ResetInv past w) (c : SignalCall) :
    ResetInv (past ++ w.resetEvents c) (w.call c).2 := by
  have hframe := w.frame_call c
  by_cases htables : .owners ∉ c.parts ∧ .seats ∉ c.parts ∧ .execs ∉ c.parts
  · obtain ⟨howners, hseats, hexecs⟩ := htables
    obtain ⟨hev, hclaim⟩ := w.resetEvents_of_frame howners
    rw [hev, append_nil]
    exact hi.keep (hframe.owners howners) (hframe.seen hexecs exec_part)
      (fun _ _ => claimAt_before hclaim) (hi.keep_seats (hframe.seats hseats))
  cases c with
  | replaceAction p signo action snapshotted => exact hi.replaceAction p signo action snapshotted
  | checkClaim h keep => exact hi.checkClaim h keep
  | checkFinish h => exact hi.checkFinish h
  | commitExecUnshare h =>
    show ResetInv (past ++ []) _
    rw [append_nil]
    exact hi.commitExecUnshare h
  | newProcess owner threadLimit =>
    show ResetInv (past ++ []) _
    rw [append_nil]
    exact hi.newProcess owner threadLimit
  | newOwner allocated =>
    show ResetInv (past ++ []) (w.newOwner allocated).2
    rw [append_nil]
    unfold newOwner
    split
    · exact hi.addOwner 0 rfl rfl (fun _ _ => rfl) (fun _ => rfl) rfl fun _ _ _ h => .inl h
    · exact hi
  | snapshotOwner owner allocated =>
    show ResetInv (past ++ []) (w.snapshotOwner owner allocated).2
    rw [append_nil]
    unfold snapshotOwner
    split
    · exact hi
    next a ha =>
    split
    · exact hi
    split
    · refine hi.addOwner 0 rfl rfl (fun s hs => ?_) (fun _ => rfl) rfl fun _ _ _ h => .inl h
      show (if _ then _ else a.actions s) = _
      rw [(hi.tables _ a ha).uncatchable s hs]
      split <;> rfl
    · exact hi
  | prepareExecUnshare p allocated =>
    show ResetInv (past ++ []) (w.prepareExecUnshare p allocated).2
    rw [append_nil]
    unfold prepareExecUnshare
    split
    · exact hi
    next a ha =>
    obtain ⟨m, -, ha⟩ := bind_eq_some_iff.mp ha
    split
    · refine hi.addOwner w.hands.length rfl rfl
        (uncatchable_execSnapshot (hi.tables _ a ha).uncatchable) ?_ rfl ?_
      · exact seen_putHand_of_none (w := { w with owners := _ }) rfl
      · intro h p' r ht
        change (putHand { w with owners := _ } _).seen Hand.exec? h = _ at ht
        rw [seen_putHand] at ht
        split at ht
        · next heq =>
          cases ht
          exact .inr ⟨heq, rfl⟩
        · exact .inl ht
    · exact hi
  | _ => exact absurd (by simp [SignalCall.parts]) htables

theorem ExecsSeated.call (he : ExecsSeated w) (c : SignalCall) : ExecsSeated (w.call c).2 := by
  intro h p r ht
  have hframe := w.frame_call c
  have hseats : .seats ∉ c.parts → (w.call c).2.seats = w.seats := hframe.seats
  have hexecs : .execs ∉ c.parts → p < w.seats.length := fun hparts =>
    he h p r ((hframe.seen hparts exec_part h).symm.trans ht)
  by_cases hparts : .seats ∉ c.parts ∧ .execs ∉ c.parts
  · rw [hseats hparts.1]
    exact hexecs hparts.2
  cases c with
  | newProcess owner threadLimit =>
    have hold := hexecs (by simp [SignalCall.parts])
    show p < (w.newProcess owner threadLimit).2.seats.length
    unfold World.newProcess
    split
    · exact hold
    · simp only [seats, map_append, length_append]
      exact Nat.lt_add_right _ hold
  | prepareExecUnshare q allocated =>
    rw [hseats (by simp [SignalCall.parts])]
    change (w.prepareExecUnshare q allocated).2.execAt h = _ at ht
    unfold prepareExecUnshare at ht
    split at ht
    · exact he h p r ht
    next a ha =>
    split at ht
    · change (putHand { w with owners := _ } _).seen Hand.exec? h = _ at ht
      rw [seen_putHand] at ht
      split at ht
      · cases ht
        obtain ⟨m, hm, -⟩ := bind_eq_some_iff.mp ha
        exact Nat.lt_of_lt_of_eq (Lib.lt_of_getElem? hm) (length_map ..).symm
      · exact he h p r ht
    · exact he h p r ht
  | commitExecUnshare k =>
    change (w.commitExecUnshare k).2.execAt h = _ at ht
    show p < (w.commitExecUnshare k).2.seats.length
    rcases hcall : w.commitExecUnshare k with ⟨answer, w'⟩
    rw [hcall] at ht
    rcases commitExecUnshare_cases hcall with
      ⟨rfl, -⟩ | ⟨q, replacement, m, source, -, -, -, -, -, hseats, hexec⟩
    · exact he h p r ht
    rw [hexec] at ht
    split at ht
    · cases ht
    rw [hseats, length_set]
    exact he h p r ht
  | _ => exact absurd (by simp [SignalCall.parts]) hparts

/-! ## What the invariant says -/

theorem unclaimed_part (hand : Hand) (action : SignalAction) (h : hand.unclaimed? = some action) :
    hand.part = some .checks := by
  cases hand <;> first | rfl | cases h

theorem Unclaimed.call (hu : Unclaimed w) (c : SignalCall) : Unclaimed (w.call c).2 := by
  intro i action hseen
  by_cases hc : ∀ h keep, c ≠ .checkClaim h keep
  · refine hu i action (seen_before_call unclaimed_part (fun _ _ _ => rfl) ?_ hseen)
    intro t phase phase' action hnext hsome
    cases hnext with
    | claimed => exact absurd rfl (hc _ _)
    | _ => cases hsome
  · obtain ⟨h, hc⟩ := not_forall.mp hc
    obtain ⟨keep, hc⟩ := not_forall.mp hc
    cases not_not.mp hc
    change (w.checkClaim h keep).2.seen _ i = _ at hseen
    rcases hcall : w.checkClaim h keep with ⟨answer, w'⟩
    rw [hcall] at hseen
    rcases checkClaim_cases hcall with
      rfl | ⟨t, mask, source, signal, m, a, action', claim, a', -, -, -, hclaim, -, hhand⟩
    · exact hu i action hseen
    rw [hhand unclaimed_part] at hseen
    split at hseen
    · rcases claimDelivery_cases hclaim with ⟨hplain, ⟨⟩⟩ | ⟨-, -, -, ⟨⟩⟩
      · cases hseen
        exact hplain
      · cases hseen
    · exact hu i action hseen

theorem ResetInv.oneShot (hi : ResetInv past w) (hu : Unclaimed w) : OneShot past w where
  one_claim := hi.unique
  one_commit := hi.once
  spent h claim hclaim := hi.spent claim ⟨h, hclaim⟩
  handler claim action hmem := by
    have ha := getElem?_eq_getElem (hi.known _ hmem)
    exact ((hi.tables _ _ ha).handler _ _ action hmem).2.1
  unclaimed := hu
  replaced o a s ha := (hi.tables o a ha).generations s
  meanwhile h claim hclaim := by
    have hlive : w.Claimed claim := ⟨h, hclaim⟩
    have ha := getElem?_eq_getElem (hi.claimed claim hlive)
    have hbook := hi.tables _ _ ha
    exact ⟨hbook.began _ _ hlive, _, ha, hbook.reads_default hlive⟩

theorem claims_in_force (w : World) : ClaimsInForce w := by
  intro h keep claim action hev
  rw [resetEvents_checkClaim] at hev
  show ∃ t mask source signal a, _ ∧ _ ∧ _ ∧ _ ∧ _ ∧ (w.checkClaim h keep).2.claimAt h = _
  rcases hcall : w.checkClaim h keep with ⟨answer, w'⟩
  rw [hcall] at hev
  rcases checkClaim_cases hcall with
    rfl | ⟨t, mask, source, signal, m, a, action', claim', a', hh, hm, ha, hclaim, -, hseen⟩
  · -- nothing was noted
    split at hev
    · next hold hnew =>
      rw [hold] at hnew
      cases hnew
    · cases hev
  · have hoffer := hseen offer_part h
    have hhand := hseen claim_part h
    rw [if_pos rfl] at hoffer hhand
    have hnooffer : w.seen Hand.offer? h = none := seen_of_hand hh
    rw [hnooffer, hoffer] at hev
    rcases claimDelivery_cases hclaim with ⟨-, ⟨⟩⟩ | ⟨hcatch, hslot, -, ⟨⟩⟩
    · cases hev
    · cases hev
      refine ⟨t, mask, source, signal, a, hh, ?_, ha, rfl, ?_, hhand⟩
      · unfold ownerOf
        rw [hm]
        rfl
      · exact effectiveAction_of_catchable hcatch hslot

theorem ResetInv.finishesOwn (hi : ResetInv past w) : FinishesOwn past w := by
  intro h claim commit hev
  show ∃ a a', _ ∧ (w.checkFinish h).2.owners = _ ∧ _ ∧ _ ∧ _ ∧ _ ∧
    ∀ h', (w.checkFinish h).2.claimAt h' = _
  rcases hcall : w.checkFinish h with ⟨answer, w'⟩
  rcases checkFinish_cases hcall with
    ⟨hnone, -, -⟩ | ⟨claim', commit', hclaim, hsome, hcls, howners⟩
  · rw [hnone] at hev
    cases hev
  rw [hsome] at hev
  cases hev
  have hlive : w.Claimed claim := ⟨h, hclaim⟩
  have ha := getElem?_eq_getElem (hi.claimed claim hlive)
  rw [ha] at howners
  refine ⟨_, _, ha, howners, finishDelivery_generations .., ?_, ?_, ?_, hcls⟩
  · intro s hs
    exact effectiveAction_finish_other _ _ _ hs
  · intro s g hne
    rw [finishDelivery_resetClaims]
    exact and_iff_left hne
  · intro hgen action hmem
    exact (hi.tables _ _ ha).effective_finish hlive (hi.spent claim hlive) hmem hgen commit

theorem ResetInv.execInstalls (hi : ResetInv past w) (he : ExecsSeated w) : ExecInstalls w := by
  intro h p replacement htok
  show (w.commitExecUnshare h).1.reply = _ ∧ (w.commitExecUnshare h).2.execAt h = _ ∧
    ∃ m source table, _ ∧ _ ∧ _ ∧ _ ∧ (w.commitExecUnshare h).2.owners = _ ∧
    (w.commitExecUnshare h).2.owners[replacement]? = _ ∧ (w.commitExecUnshare h).2.seats = _ ∧ _
  rcases hcall : w.commitExecUnshare h with ⟨answer, w'⟩
  rcases commitExecUnshare_cases hcall with
    ⟨-, hnone⟩ | ⟨p', r', m, source, hdone, htok', hm, hsrc, howners, hseats, hexec⟩
  · -- the process and its table exist
    have hp : p < w.processes.length := Nat.lt_of_lt_of_eq (he h p replacement htok) (length_map ..)
    have hseat := hi.seated _ (mem_seats (getElem?_eq_getElem hp))
    have hrefused := hnone p replacement htok
    rw [getElem?_eq_getElem hp, bind_some, getElem?_eq_getElem hseat] at hrefused
    cases hrefused
  cases htok.symm.trans htok'
  obtain ⟨hlt, hseat, -, hlive⟩ := hi.reserved h p replacement htok
  refine ⟨hdone, (hexec h).trans (if_pos rfl), m, source, source.execSnapshot, hm, hsrc, hseat,
    hlive, howners, ?_, hseats, ?_⟩
  · rw [howners]
    exact getElem?_set_self hlt
  · intro s
    have hactions := execSnapshot_actions source ((hi.tables _ source hsrc).uncatchable s)
    have heff : source.execSnapshot.effectiveAction s = source.execSnapshot.actions s := by
      cases hcatch : isUncatchable s with
      | true =>
        rw [uncatchable_execSnapshot (hi.tables _ source hsrc).uncatchable s hcatch]
        unfold effectiveAction
        rw [if_pos hcatch]
      | false => exact effectiveAction_of_catchable hcatch nofun
    exact ⟨heff.trans hactions, heff.symm, rfl, rfl⟩

theorem exhaustion_inert (w : World) : ExhaustionInert w := by
  intro p signo action snapshotted hreply
  change (w.replaceAction p signo action snapshotted).1.reply = _ at hreply
  show (w.replaceAction p signo action snapshotted).2 = w
  rcases hcall : w.replaceAction p signo action snapshotted with ⟨answer, w'⟩
  rw [hcall] at hreply
  rcases replaceAction_cases hcall with ⟨rfl, -⟩ | ⟨m, a, a', old, -, -, -, hold, -⟩
  · rfl
  · rw [show answer.reply = _ from hreply] at hold
    cases hold

/-! ## Every run -/

/-- In every run, whatever is sent, delivered, replaced, forked and unshared in whatever
order: one-shot handlers are entered at most once, claims act on their own table only,
and exec installs what is in force at its commit. -/
theorem run_reset_hand (calls : List SignalCall) :
    let past := history World.call World.resetEvents World.empty calls
    let w := run World.call World.empty calls
    OneShot past w ∧ ClaimsInForce w ∧ FinishesOwn past w ∧ ExecInstalls w ∧ ExhaustionInert w := by
  have hi : ResetInv (history World.call World.resetEvents World.empty calls)
      (run World.call World.empty calls) :=
    Lib.history_invariant (I := ResetInv) (fun _ _ c h => h.call c) calls [] World.empty resetInv_empty
  have hu : Unclaimed (run World.call World.empty calls) :=
    Lib.run_preserves (fun _ c h => h.call c) nofun calls
  have he : ExecsSeated (run World.call World.empty calls) :=
    Lib.run_preserves (fun _ c h => h.call c) nofun calls
  exact ⟨hi.oneShot hu, claims_in_force _, hi.finishesOwn, hi.execInstalls he, exhaustion_inert _⟩

/-- A delivery has claimed a one-shot handler, and its process is about to exec. -/
def claimThenExec : List SignalCall :=
  [.newOwner true, .newProcess 0 8, .newThread 0 true, .tryRegister 0 100 true,
    .commitAdmission 0,
    .replaceAction 0 .sigusr1 (.ofRaw ⟨0x1000#64, 0x80000000#64, 0#64, 0#64⟩) true,
    .beginAccounted (.newUser .sigusr1 0 1 0) 0 0 0, .threadCommit 0 .active 1, .raiseFlag 3,
    .checkOpen 0 0#64, .checkMask 4, .checkSelect 4, .checkClaim 4 true,
    .prepareExecUnshare 0 true]

/-- The exec is committed while the claim is out. -/
theorem run_reset_hand_exec :
    let w := run World.call World.empty claimThenExec
    w.claimAt 4 = some ⟨0, ⟨.sigusr1, 1⟩⟩ ∧ w.execAt 5 = some (0, 1) ∧
      .finished ⟨0, ⟨.sigusr1, 1⟩⟩ true ∉ history World.call World.resetEvents World.empty claimThenExec ∧
      (w.call (.commitExecUnshare 5)).1.reply = .done ∧
      (w.call (.commitExecUnshare 5)).2.seats = [1] := by
  intro w
  have hclaim : w.claimAt 4 = some ⟨0, ⟨.sigusr1, 1⟩⟩ := by decide +kernel
  have htok : w.execAt 5 = some (0, 1) := by decide +kernel
  have hseats : w.seats.set 0 1 = [1] := by decide +kernel
  have hone : OneShot _ w := (run_reset_hand claimThenExec).1
  have hexec : ExecInstalls w := (run_reset_hand claimThenExec).2.2.2.1
  clear_value w
  obtain ⟨hdone, -, m, source, table, -, -, -, -, -, -, hset, -⟩ := hexec 5 0 1 htok
  exact ⟨hclaim, htok, hone.spent 4 _ hclaim, hdone, hset.trans hseats⟩

end World

end LinuxAbi.Signal
