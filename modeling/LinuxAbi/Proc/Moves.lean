import LinuxAbi.Proc.Reaper
import LinuxAbi.Lib.Tally
import Mathlib.Data.Multiset.Filter
import Mathlib.Data.Multiset.UnionInter

/-!
# What one call can do to the tree

Seen from the process tree, a hand is a set of claims (a token that owns an unpublished
process, a fork whose checks passed, an exit that is reserved) or the position of an
exit commit. `Move` says what one call can do: change claims, apply one operation to
the tree, or take an exit commit one step further.
-/

namespace LinuxAbi.Proc

open Lib (tally)

/-! ## Claims -/

/-- What a hand stands for. -/
inductive Claim
  /-- an init is being made for this scope -/
  | initIn (s : Nat)
  /-- a fork may be admitted under this parent, in this scope -/
  | fork (parent scope : Nat) (init : Bool)
  | alloc (new : NewProcess)
  /-- an unpublished ordinary process -/
  | fresh (p : Nat)
  /-- an unpublished scope init, before, during and after its binding -/
  | scopeInit (p scope outer : Nat)
  | binding (p scope outer : Nat)
  | bound (p : Nat)
  /-- an unpublished init without a parent -/
  | root (scope p : Nat)
  /-- a process that is about to be removed -/
  | doomed (p : Nat)
  /-- a published process -/
  | seen (p : Nat)
  /-- an exit of this process -/
  | exit (p : Nat)

/-- The unpublished process a claim owns. -/
def Claim.owner : Claim → Option Nat
  | .fresh p | .scopeInit p _ _ | .binding p _ _ | .bound p | .root _ p | .doomed p => some p
  | .initIn _ | .fork _ _ _ | .alloc _ | .seen _ | .exit _ => none

/-- A registered process nobody has seen yet. -/
def Tree.Unpublished (t : Tree) (p : Nat) (a : Row) : Prop :=
  t.rows[p]? = some a ∧ a.published = false ∧ a.linked = true

/-- A fork under the parent, in the scope. -/
def Tree.MayFork (t : Tree) (parent scope : Nat) (init : Bool) : Prop :=
  (∃ a, t.rows[parent]? = some a ∧ a.published = true) ∧ scope < t.scopes.length ∧
    (init = false → ∃ k, t.init scope = some k)

/-- What a claim says about the tree. -/
def Claim.OK (t : Tree) : Claim → Prop
  | .initIn s => s < t.scopes.length
  | .fork parent scope init => t.MayFork parent scope init
  | .alloc new => ∃ parent, new.parent = some parent ∧ t.MayFork parent new.scope new.init
  | .fresh p => ∃ a, t.Unpublished p a ∧ a.init = false
  | .scopeInit p scope outer => ∃ a, t.Unpublished p a ∧ a.init = true ∧ a.zombie = false ∧
      a.scope = scope ∧ scope < t.scopes.length ∧ (∀ s, t.init s ≠ some p) ∧
      ∃ m, t.init outer = some m ∧ m < p
  | .binding p scope outer => ∃ a, t.Unpublished p a ∧ a.init = true ∧ a.scope = scope ∧
      t.init scope = some p ∧ ∃ m, t.init outer = some m ∧ m < p
  | .bound p => ∃ a, t.Unpublished p a ∧ a.init = true ∧ t.init a.scope = some p ∧
      t.HasOuter a.scope p
  | .root scope p => ∃ a, t.Unpublished p a ∧ a.init = true ∧ a.zombie = false ∧ a.scope = scope ∧
      a.parent = none ∧ scope < t.scopes.length ∧ ∀ s, t.init s ≠ some p
  | .doomed p => ∃ a, t.rows[p]? = some a ∧ ¬ t.Named p a
  | .seen p => ∃ a, t.rows[p]? = some a ∧ a.published = true
  | .exit p => ∃ a, t.rows[p]? = some a ∧ a.published = true ∧ a.init = false

/-- The process a release is about to remove. -/
def Release.claims : Release → Multiset Claim
  | .unlinkProcess p => {.doomed p}
  | _ => 0

/-- The claim behind a thread that is prepared along with its process. -/
def ThreadOwner.claims (p : Nat) : ThreadOwner → Multiset Claim
  | .domain | .admission => 0
  | .initial => {.fresh p}
  | .scopedInitial scope outer => {.scopeInit p scope outer}

/-- The claims of a hand. -/
def Hand.claims : Hand → Multiset Claim
  | .releasing todo => tally Release.claims todo
  | .initGroup scope _ _ => {.initIn scope}
  | .initAdmission scope p _ => {.root scope p}
  | .forkChecked parent scope _ init => {.fork parent scope init}
  | .forkAllocated new => {.alloc new}
  | .admission p => {.fresh p}
  | .scopedAdmission p scope outer => {.scopeInit p scope outer}
  | .initialAdmission p _ => {.fresh p}
  | .scopedInitial p _ scope outer => {.scopeInit p scope outer}
  | .scopedBinding p _ scope outer => {.binding p scope outer}
  | .scopedBound p _ => {.bound p}
  | .threadChecked p _ owner => owner.claims p
  | .threadReserved p _ owner => owner.claims p
  | .exitThreadChecked p _ _ => {.seen p}
  | .exitChecked p => {.exit p}
  | .exitAdmission p _ => {.exit p}
  | _ => 0

/-- The exit commit of a hand. -/
def Hand.exit : Hand → Option (Nat × Option Nat × ExitStage)
  | .exiting p notificationParent stage => some (p, notificationParent, stage)
  | _ => none

/-- The processes that claims own. -/
def owners (claims : Multiset Claim) : Multiset Nat := claims.filterMap Claim.owner

theorem owners_add (s t : Multiset Claim) : owners (s + t) = owners s + owners t :=
  Multiset.filterMap_add _ s t

/-- An assertion that has nothing to do with reparenting. -/
def ProcessEvent.isDull : ProcessEvent → Bool
  | .panicked .noScopeInit | .panicked .noOuterInit | .panicked .noBatchReaper => false
  | .panicked _ => true
  | _ => false

/-- Events that say nothing about exits. -/
def Dull (events : List ProcessEvent) : Prop := ∀ e ∈ events, e.isDull = true

theorem dull_nil : Dull [] := by
  intro e he
  cases he

/-- The scan variables of a stage. -/
def ExitStage.scan : ExitStage → Option ExitScan
  | .zombie _ | .released => none
  | .outside scan | .locked scan _ | .batch scan _ | .inherited scan _ _ => some scan

namespace Domain

variable {Z : Type}

/-- All claims. -/
def claims (d : Domain Z) : Multiset Claim := tally Hand.claims d.hands

/-- The exit commit at a hand. -/
def exitAt (d : Domain Z) (h : Nat) : Option (Nat × Option Nat × ExitStage) :=
  d.hands[h]?.bind Hand.exit

/-- What holds in every reachable state. -/
structure WF (d : Domain Z) : Prop where
  tree : d.tree.WF
  claims : ∀ c ∈ d.claims, c.OK d.tree
  /-- an unpublished process has one owner -/
  owners : (owners d.claims).Nodup
  exits : ∀ h p notificationParent stage, d.exitAt h = some (p, notificationParent, stage) →
    ∃ a, d.tree.rows[p]? = some a ∧ a.zombie = true ∧ a.init = false
  locked : ∀ h p notificationParent scan current,
    d.exitAt h = some (p, notificationParent, .locked scan current) →
    d.topology = some h ∧ (current.reparented ≠ [] → current.batchReaper ≠ none)

/-! ## Moves -/

section Exit

variable (d : Domain Z) (h p : Nat) (notificationParent : Option Nat)

/-- The end of a round: the commit returns, or another section follows. -/
inductive Round (scan : ExitScan) : List ProcessEvent → Option ExitStage → Prop
  | again : scan.finished = false → Round scan [] (some (.outside scan))
  | returned : scan.finished = true → Round scan [.returned h p notificationParent] none

/-- The end of a section. -/
inductive Unlocked (scan : ExitScan) (current : ReparentSection) :
    List ProcessEvent → Option ExitStage → Prop
  | handed (reaper : Nat) : current.batchReaper = some reaper → current.reparented ≠ [] →
      Unlocked scan current []
        (some (.batch scan { reaper, reparented := current.reparented }))
  | round : current.reparented = [] →
      Round h p notificationParent scan events stage → Unlocked scan current events stage

/-- What follows a scanned process. -/
inductive Scanned (scan : ExitScan) (current : ReparentSection) :
    List ProcessEvent → Option ExitStage → Option Nat → Prop
  | goOn : current.batchLen < reparentBatchLimit →
      Scanned scan current [] (some (.locked scan current)) (some h)
  | ended : Unlocked h p notificationParent scan current events stage →
      Scanned scan current events stage none

/-- A step of an exit commit that changes nothing but its position. -/
inductive StageStep : ExitStage → List ProcessEvent → Option ExitStage → Option Nat → Prop
  | release (departing : Option ThreadNode) :
      StageStep (.zombie departing) [] (some .released) d.topology
  | start : StageStep .released []
      (some (.outside
        { children := d.processesThroughCurrentMax, deferredChild := none, finished := false }))
      d.topology
  | lock (scan : ExitScan) : d.topology = none → StageStep (.outside scan) []
      (some (.locked scan { batchReaper := none, reparented := [], batchLen := 0 })) (some h)
  | finish {scan : ExitScan} : d.nextChild scan = (.finished retired, scan') →
      Unlocked h p notificationParent { scan' with finished := true } current events stage →
      StageStep (.locked scan current) events stage none
  | skip {scan : ExitScan} {current : ReparentSection} {topology : Option Nat} :
      d.nextChild scan = (.process child, scan') → d.tree.rows[child]? = some a →
      ¬ (a.published = true ∧ a.parent = some p) →
      Scanned h p notificationParent scan' { current with batchLen := current.batchLen + 1 }
        events stage topology →
      StageStep (.locked scan current) events stage topology
  | defer {scan : ExitScan} {current : ReparentSection} :
      d.nextChild scan = (.process child, scan') → d.tree.rows[child]? = some a →
      Unlocked h p notificationParent { scan' with deferredChild := some child }
        { current with batchLen := current.batchLen + 1 } events stage →
      StageStep (.locked scan current) events stage none
  | batch (scan : ExitScan) (handed : ProcessReparentBatch) :
      StageStep (.batch scan handed) [.batch h p handed] (some (.inherited scan handed
        ((handed.reparented.filter (·.wasZombie)).map (·.child)))) d.topology
  | inherit (scan : ExitScan) (handed : ProcessReparentBatch) (child : Nat) (zombies : List Nat) :
      StageStep (.inherited scan handed (child :: zombies)) [.inherited h p child]
        (some (.inherited scan handed zombies)) d.topology
  | round (scan : ExitScan) (handed : ProcessReparentBatch) :
      Round h p notificationParent scan events stage →
      StageStep (.inherited scan handed []) events stage d.topology

end Exit

/-- What a section outside of exit commits does to the tree, with the claims that it takes and
gives for it. -/
inductive TreeStep (t : Tree) : Multiset Claim → Multiset Claim → Tree → Prop
  /-- claims change hands, or are given up -/
  | hands (lost gained : Multiset Claim) (ok : ∀ c ∈ gained, c.OK t)
      (owned : owners gained ≤ owners lost) : TreeStep t lost gained t
  | addScope :
      TreeStep t 0 0 { t with scopes := t.scopes ++ [{ init := none, outerScope := none }] }
  /-- a new process, with its token -/
  | link (a : Row) (lost : Multiset Claim) (token : Claim)
      (pid : ∀ (i : Nat) (b : Row), t.rows[i]? = some b → b.linked = true → b.pid ≠ a.pid)
      (state : a.published = false ∧ a.linked = true ∧ a.zombie = false)
      (plain : a.init = false → ∃ k, t.init a.scope = some k)
      (parent : ∀ g, a.parent = some g → ∃ b, t.rows[g]? = some b ∧ b.published = true)
      (ok : token.OK (t.link a)) (owner : token.owner = some t.rows.length) :
      TreeStep t lost {token} (t.link a)
  /-- an unpublished process is removed -/
  | unlink (p : Nat) : TreeStep t {.doomed p} 0 (t.unlink p)
  | publish (p : Nat) (token : Claim) (claim : token = .fresh p ∨ token = .bound p) :
      TreeStep t {token} 0 (t.publish p)
  /-- an init without a parent is published and bound at once -/
  | publishInit (scope p : Nat) (free : t.init scope = none) :
      TreeStep t {.root scope p} 0 ((t.publish p).setInit scope p)
  | bind (p scope outer : Nat) (free : t.init scope = none) :
      TreeStep t {.scopeInit p scope outer} {.binding p scope outer} (t.setInit scope p)
  | setOuter (p scope outer : Nat) :
      TreeStep t {.binding p scope outer} {.bound p} (t.setOuter scope outer)
  | reap (p : Nat) (a : Row) (row : t.rows[p]? = some a) (zombie : a.zombie = true)
      (published : a.published = true) : TreeStep t 0 0 (t.unlink p)

/-- The lock and the exits are as they were, and claims are exchanged for others. -/
structure Exchange (d d' : Domain Z) (lost gained : Multiset Claim) : Prop where
  topology : d'.topology = d.topology
  exits : ∀ h, d'.exitAt h = d.exitAt h
  claims : ∃ rest, rest + lost = d.claims ∧ rest + gained = d'.claims

/-- What one call does. -/
inductive Move (d : Domain Z) : List ProcessEvent → Domain Z → Prop
  | quiet (swap : Exchange d d' lost gained) (tree : d'.tree = t)
      (step : TreeStep d.tree lost gained t) (dull : Dull events) : Move d events d'
  | zombie {d' : Domain Z} {asserts : List ProcessEvent} (h p : Nat) (departing : Option ThreadNode)
      (dull : Dull asserts) (old : d.exitAt h = none) (tree : d'.tree = d.tree.setZombie p)
      (topology : d'.topology = d.topology)
      (exits : ∀ h', d'.exitAt h' =
        if h' = h then some (p, d.upgrade (d.parentOf p), .zombie departing) else d.exitAt h')
      (claims : d'.claims + {.exit p} = d.claims) :
      Move d (asserts ++ [.zombie p (d.upgrade (d.parentOf p))]) d'
  | stage {events : List ProcessEvent} {d' : Domain Z} (h p : Nat)
      (notificationParent : Option Nat) {stage : ExitStage} {stage' : Option ExitStage}
      (old : d.exitAt h = some (p, notificationParent, stage))
      (step : StageStep d h p notificationParent stage events stage' d'.topology)
      (tree : d'.tree = d.tree)
      (exits : ∀ h', d'.exitAt h' =
        if h' = h then stage'.map (p, notificationParent, ·) else d.exitAt h')
      (claims : d'.claims = d.claims) : Move d events d'
  /-- a child is given its reaper -/
  | moved {d' : Domain Z} (h p : Nat)
      (notificationParent : Option Nat) {scan scan' : ExitScan} {current : ReparentSection}
      {child reaper : Nat} {a : Row} {stage' : Option ExitStage}
      (old : d.exitAt h = some (p, notificationParent, .locked scan current))
      (next : d.nextChild scan = (.process child, scan')) (row : d.tree.rows[child]? = some a)
      (published : a.published = true) (parent : a.parent = some p)
      (due : d.ReaperOf p child reaper) (fit : FitReaper d.tree child reaper)
      (batch : current.batchReaper = none ∨ current.batchReaper = some reaper)
      (step : Scanned h p notificationParent scan'
        { batchReaper := some reaper
          reparented := current.reparented ++ [{ child, wasZombie := a.zombie }]
          batchLen := current.batchLen + 1 } [] stage' d'.topology)
      (tree : d'.tree = d.tree.move child reaper)
      (exits : ∀ h', d'.exitAt h' =
        if h' = h then stage'.map (p, notificationParent, ·) else d.exitAt h')
      (claims : d'.claims = d.claims) :
      Move d [.moved h p child reaper a.zombie] d'

section Stage

variable {h p : Nat} {np : Option Nat} {scan : ExitScan} {current : ReparentSection}
  {stage' : Option ExitStage} {topology : Option Nat} {events : List ProcessEvent}

/-- A commit returns when its scan has finished, and is over then. -/
theorem Round.spec (hr : Round h p np scan events stage') :
    (scan.finished = false ∧ events = [] ∧ stage' = some (.outside scan)) ∨
      (scan.finished = true ∧ events = [.returned h p np] ∧ stage' = none) := by
  cases hr with
  | again hgoing => exact .inl ⟨hgoing, rfl, rfl⟩
  | returned hfin => exact .inr ⟨hfin, rfl, rfl⟩

/-- A section ends with a batch or with the round. -/
theorem Unlocked.spec (hu : Unlocked h p np scan current events stage') :
    (events = [] ∧ ∃ stage, stage' = some stage ∧ stage.scan = some scan) ∨
      (scan.finished = true ∧ current.reparented = [] ∧
        events = [.returned h p np] ∧ stage' = none) := by
  cases hu with
  | handed reaper _ _ => exact .inl ⟨rfl, _, rfl, rfl⟩
  | round hemp hround =>
    rcases hround.spec with ⟨-, hev, hstage⟩ | ⟨hfin, hev, hstage⟩
    · exact .inl ⟨hev, _, hstage, rfl⟩
    · exact .inr ⟨hfin, hemp, hev, hstage⟩

theorem Scanned.spec (hs : Scanned h p np scan current events stage' topology) :
    (events = [] ∧ ∃ stage, stage' = some stage ∧ stage.scan = some scan) ∨
      (scan.finished = true ∧ current.reparented = [] ∧
        events = [.returned h p np] ∧ stage' = none) := by
  cases hs with
  | goOn _ => exact .inl ⟨rfl, _, rfl, rfl⟩
  | ended hover => exact hover.spec

/-- A section that has moved a child does not end the commit. -/
theorem Scanned.events_eq (hs : Scanned h p np scan current events stage' topology)
    (hmoved : current.reparented ≠ []) : events = [] := by
  rcases hs.spec with ⟨hnil, -⟩ | ⟨-, hemp, -⟩
  · exact hnil
  · exact absurd hemp hmoved

end Stage

/-! ## Reading moves off updates -/

variable {d d' : Domain Z}

variable {h k : Nat} {old new hand : Hand} {events : List ProcessEvent}

theorem claims_setHand (hh : d.hands[h]? = some old) (new : Hand) :
    (d.setHand h new).claims + old.claims = d.claims + new.claims :=
  Lib.tally_set hh new

theorem claims_putHand (d : Domain Z) (new : Hand) :
    (d.putHand new).claims = d.claims + new.claims := by
  unfold claims putHand
  simp [tally]

theorem exitAt_setHand (hh : d.hands[h]? = some old) (new : Hand)
    (h' : Nat) : (d.setHand h new).exitAt h' = if h' = h then new.exit else d.exitAt h' := by
  unfold exitAt setHand
  by_cases heq : h' = h
  · subst heq
    rw [if_pos rfl, Lib.getElem?_set_of_some hh]
    rfl
  · rw [if_neg heq, List.getElem?_set_ne (Ne.symm heq)]

theorem exitAt_putHand (hnew : new.exit = none) (h : Nat) :
    (d.putHand new).exitAt h = d.exitAt h := by
  exact Lib.bind_concat hnew h

theorem exitAt_of_hand (hh : d.hands[h]? = some hand) : d.exitAt h = hand.exit := by
  unfold exitAt
  rw [hh]
  rfl

theorem WF.claim (hwf : d.WF) (hh : d.hands[h]? = some hand) (hc : c ∈ hand.claims) : c.OK d.tree :=
  hwf.claims c (Lib.mem_tally hh hc)

/-- One hand is exchanged for another at the same stage of an exit, or of none. -/
theorem swapHand (htop : d'.topology = d.topology) (hhands : d'.hands = d.hands)
    (hold : d.hands[k]? = some old) (hlost : old.claims = lost) (hgain : new.claims = gained)
    (hexit : new.exit = old.exit) : Exchange d (d'.setHand k new) lost gained := by
  have hold' : d'.hands[k]? = some old := by rw [hhands]; exact hold
  refine ⟨htop, ?_, ?_⟩
  · intro h
    rw [exitAt_setHand hold']
    split
    · next heq => rw [heq, exitAt_of_hand hold, hexit]
    · unfold exitAt
      rw [hhands]
  · rw [← hlost, ← hgain]
    unfold claims setHand
    rw [hhands]
    exact Lib.tally_exchange hold new

/-- A hand that keeps its claims was exchanged before. -/
theorem Exchange.after (h' : Exchange d' d'' lost gained) (h : Exchange d d' idle idle) :
    Exchange d d'' lost gained := by
  refine ⟨h'.topology.trans h.topology, fun k => (h'.exits k).trans (h.exits k), ?_⟩
  obtain ⟨rest, hbef, hafter⟩ := h.claims
  rw [← hbef, hafter]
  exact h'.claims

/-- Everything but threads, groups, sessions and counters is as before. -/
structure Same (d d' : Domain Z) : Prop where
  tree : d'.tree = d.tree
  topology : d'.topology = d.topology
  hands : d'.hands = d.hands

theorem Same.refl : Same d d := ⟨rfl, rfl, rfl⟩

theorem Same.trans (h : Same d d') (h' : Same d' d'') : Same d d'' :=
  ⟨h'.tree.trans h.tree, h'.topology.trans h.topology, h'.hands.trans h.hands⟩

theorem Same.exitAt (h : Same d d') (k : Nat) : d'.exitAt k = d.exitAt k := by
  unfold Domain.exitAt
  rw [h.hands]

theorem Same.claims (h : Same d d') : d'.claims = d.claims :=
  congrArg (tally Hand.claims) h.hands

/-- Nothing happened to claims and exits. -/
theorem Same.move (h : Same d d') (dull : Dull events) : Move d events d' :=
  .quiet ⟨h.topology, h.exitAt, d.claims, add_zero _, (add_zero _).trans h.claims.symm⟩ h.tree
    (.hands 0 0 nofun (le_refl _)) dull

theorem Move.stay : Move d [] d := Same.refl.move dull_nil

/-- A hand's claims are replaced by others. -/
theorem Same.setHand (h : Same d d') (dull : Dull events) (hold : d.hands[k]? = some old)
    (hexit : old.exit = none) (hnew : new.exit = none) (hok : ∀ c ∈ new.claims, c.OK d.tree)
    (howned : owners new.claims ≤ owners old.claims) : Move d events (d'.setHand k new) :=
  .quiet (swapHand h.topology h.hands hold rfl rfl (hnew.trans hexit.symm)) h.tree
    (.hands _ _ hok howned) dull

/-- A hand is left without claims. -/
theorem Same.clearHand (h : Same d d') (dull : Dull events) (hold : d.hands[k]? = some old)
    (hexit : old.exit = none) (hnew : new.exit = none)
    (hcls : new.claims = 0) : Move d events (d'.setHand k new) := by
  refine h.setHand dull hold hexit hnew ?_ ?_
  · rw [hcls]
    exact nofun
  · rw [hcls]
    exact Multiset.zero_le _

/-- A new hand that owns nothing. -/
theorem Same.putHand (h : Same d d') (dull : Dull events) (hnew : new.exit = none)
    (hok : ∀ c ∈ new.claims, c.OK d.tree)
    (howned : owners new.claims = 0) : Move d events (d'.putHand new) := by
  refine .quiet ⟨h.topology, ?_, d.claims, add_zero _, ?_⟩ h.tree (.hands 0 _ hok howned.le) dull
  · intro k
    rw [exitAt_putHand hnew]
    exact h.exitAt k
  · rw [claims_putHand, h.claims]

theorem claims_setExit (d' : Domain Z) (hhands : d'.hands = d.hands)
    (hold : d.hands[k]? = some (.exiting p np stage)) (hnew : new.claims = 0) :
    (d'.setHand k new).claims = d.claims := by
  have hold' : d'.hands[k]? = some (.exiting p np stage) := by
    rw [hhands]
    exact hold
  have hset := claims_setHand hold' new
  rw [hnew] at hset
  have hcls : d'.claims = d.claims := congrArg (tally Hand.claims) hhands
  rw [← hcls]
  exact add_right_cancel hset

end Domain

end LinuxAbi.Proc
