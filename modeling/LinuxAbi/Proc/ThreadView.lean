import LinuxAbi.Proc.ThreadCounts
import Mathlib.Algebra.BigOperators.Group.Multiset.Basic
import Mathlib.Data.Multiset.Filter

/-!
# Thread groups and who owns their memberships

The lifecycle seen from the threads alone. A process is its thread group with five flags;
outside the locks there are three kinds of owners: a token for a linked thread that is not
live yet, an exit admission, and a bare charge against the domain. `ThreadTurn` says what
can happen to one process, `ThreadStep` what one call can do.

`ThreadView.WF` is what every step keeps: the counters of a group count its threads, the
threads that are not live are exactly those with a token, an exit admission is out exactly
while the group is exit-prepared, and the domain-wide charge is the sum of what is linked
and what is owned.
-/

namespace LinuxAbi.Proc

open ThreadGroup
open Nat
open Bool
open Multiset
open Lib (tally)

variable {Z : Type}

/-! ## The view -/

/-- A process as its threads see it. -/
structure ThreadRow (Z : Type) where
  tg : ThreadGroup
  zombie : Bool
  payload : Option Z
  reaped : Bool
  published : Bool
  linked : Bool

/-- A process that was just admitted. -/
def ThreadRow.fresh : ThreadRow Z where
  tg := .new
  zombie := false
  payload := none
  reaped := false
  published := false
  linked := true

/-- What a hand owns of thread groups. -/
inductive ThreadClaim
  /-- a linked thread that is not live -/
  | token (p node : Nat)
  /-- an exit admission, with the thread that was removed for it -/
  | exit (p : Nat) (departing : Option ThreadNode)
  /-- one thread membership charged to the domain -/
  | charge

namespace ThreadClaim

def tokenOf (p : Nat) : ThreadClaim → Option Nat
  | .token q node => if q = p then some node else none
  | _ => none

def exitOf (p : Nat) : ThreadClaim → Option (Option ThreadNode)
  | .exit q departing => if q = p then some departing else none
  | _ => none

/-- What a claim holds of the domain-wide charge. -/
def weight : ThreadClaim → Nat
  | .token _ _ => 0
  | .exit _ departing => departing.toList.length
  | .charge => 1

end ThreadClaim

/-- The tokens of a process. -/
def tokens (p : Nat) (claims : Multiset ThreadClaim) : Multiset Nat :=
  claims.filterMap (ThreadClaim.tokenOf p)

/-- The exit admissions of a process. -/
def exits (p : Nat) (claims : Multiset ThreadClaim) : Multiset (Option ThreadNode) :=
  claims.filterMap (ThreadClaim.exitOf p)

def weight (claims : Multiset ThreadClaim) : Nat := (claims.map ThreadClaim.weight).sum

/-- The charge of a departing thread. -/
def charges (departing : Option ThreadNode) : Multiset ThreadClaim :=
  tally (fun _ => {.charge}) departing.toList

section Claims

variable (p : Nat) (s t : Multiset ThreadClaim)

@[simp] theorem tokens_zero : tokens p 0 = 0 := rfl

@[simp] theorem exits_zero : exits p 0 = 0 := rfl

@[simp] theorem weight_zero : weight 0 = 0 := rfl

theorem tokens_add : tokens p (s + t) = tokens p s + tokens p t := filterMap_add _ s t

theorem exits_add : exits p (s + t) = exits p s + exits p t := filterMap_add _ s t

theorem tokens_balance {s t u v : Multiset ThreadClaim} (h : s + t = u + v) :
    tokens p s + tokens p t = tokens p u + tokens p v := by
  rw [← tokens_add, h, tokens_add]

theorem exits_balance {s t u v : Multiset ThreadClaim} (h : s + t = u + v) :
    exits p s + exits p t = exits p u + exits p v := by
  rw [← exits_add, h, exits_add]

theorem weight_add : weight (s + t) = weight s + weight t := by
  unfold weight
  rw [map_add, sum_add]

@[simp] theorem tokens_token (q node : Nat) : tokens p {.token q node} = if q = p then {node} else 0 := by
  by_cases h : q = p
  · rw [if_pos h]
    exact filterMap_cons_some _ _ _ (if_pos h)
  · rw [if_neg h]
    exact filterMap_cons_none _ _ (if_neg h)

@[simp] theorem tokens_exit (q : Nat) (departing : Option ThreadNode) :
    tokens p {.exit q departing} = 0 := rfl

@[simp] theorem tokens_charge : tokens p {.charge} = 0 := rfl

@[simp] theorem exits_token (q node : Nat) : exits p {.token q node} = 0 := rfl

@[simp] theorem exits_exit (q : Nat) (departing : Option ThreadNode) :
    exits p {.exit q departing} = if q = p then {departing} else 0 := by
  by_cases h : q = p
  · rw [if_pos h]
    exact filterMap_cons_some _ _ _ (if_pos h)
  · rw [if_neg h]
    exact filterMap_cons_none _ _ (if_neg h)

@[simp] theorem exits_charge : exits p {.charge} = 0 := rfl

@[simp] theorem tokens_charges (departing : Option ThreadNode) : tokens p (charges departing) = 0 := by
  cases departing <;> rfl

@[simp] theorem exits_charges (departing : Option ThreadNode) : exits p (charges departing) = 0 := by
  cases departing <;> rfl

@[simp] theorem weight_singleton (c : ThreadClaim) : weight {c} = c.weight := by
  simp [weight]

end Claims

/-- The threads of a domain. -/
structure ThreadView (Z : Type) where
  rows : List (ThreadRow Z)
  charged : Nat
  nextNode : Nat
  claims : Multiset ThreadClaim

/-! ## Steps -/

/-- What can happen to one process, with the claims that are given up and taken, and the
next free node. Under `strict` a thread becomes live only in a process that is published. -/
inductive ThreadTurn (strict : Prop) (p nextNode : Nat) (row : ThreadRow Z) :
    Multiset ThreadClaim → Multiset ThreadClaim → ThreadRow Z → Nat → Prop
  | link (tid : Pid) (alive : row.zombie = false) (unprepared : row.tg.exitPrepared = false)
      (free : row.tg.find tid = none) :
      ThreadTurn strict p nextNode row {.charge} {.token p nextNode}
        { row with tg := { row.tg with
            threads := row.tg.threads ++ [{ node := nextNode, tid, live := false }]
            memberships := row.tg.memberships + 1 } }
        (nextNode + 1)
  | live (node : Nat) (published : Bool)
      (how : published = row.published ∨ (published = true ∧ row.linked = true))
      (rule : strict → published = true) :
      ThreadTurn strict p nextNode row {.token p node} 0
        { row with
          published
          tg := { row.tg.setLive node with liveThreads := row.tg.liveThreads + 1 } }
        nextNode
  | publish (linked : row.linked = true) :
      ThreadTurn strict p nextNode row 0 0 { row with published := true } nextNode
  | detach (node : Nat) (t : ThreadNode)
      (find : row.tg.threads.find? (·.node == node) = some t) :
      ThreadTurn strict p nextNode row {.token p node} {.charge}
        { row with tg := (row.tg.detachThreadLocked node).2 } nextNode
  | remove (t : ThreadNode) (mem : t ∈ row.tg.threads) (live : t.live = true) (exitCode : Int) :
      ThreadTurn strict p nextNode row 0 {.charge}
        { row with
          tg := (({ row.tg with exitCode } : ThreadGroup).detachThreadLocked t.node).2 }
        nextNode
  | prepare (empty : row.tg.memberships = 0) (unprepared : row.tg.exitPrepared = false)
      (payload : row.payload = none) (published : row.published = true) :
      ThreadTurn strict p nextNode row 0 {.exit p none}
        { row with tg := { row.tg with exitPrepared := true } } nextNode
  | depart (t : ThreadNode) (mem : t ∈ row.tg.threads) (live : t.live = true) (exitCode : Int)
      (last : row.tg.memberships = 1) (alive : row.zombie = false)
      (unprepared : row.tg.exitPrepared = false) (published : row.published = true) :
      ThreadTurn strict p nextNode row 0 {.exit p (some { t with live := false })}
        { row with
          tg := { (({ row.tg with exitCode } : ThreadGroup).detachThreadLocked t.node).2 with
            exitPrepared := true } }
        nextNode
  | restore (departing : Option ThreadNode) :
      ThreadTurn strict p nextNode row {.exit p departing} 0
        { row with tg := row.tg.restore departing } nextNode
  | zombie (departing : Option ThreadNode) (payload : Z) :
      ThreadTurn strict p nextNode row {.exit p departing}
        (charges departing)
        { row with
          zombie := true
          payload := some payload
          tg := { row.tg with exitPrepared := false } }
        nextNode
  | recode (exitCode : Int) (groupExited : Bool) :
      ThreadTurn strict p nextNode row 0 0
        { row with tg := { row.tg with exitCode, groupExited } } nextNode
  | unlink (unseen : row.published = false) :
      ThreadTurn strict p nextNode row 0 0 { row with linked := false } nextNode
  | reap (zombie : row.zombie = true) (empty : row.tg.memberships = 0)
      (once : row.reaped = false) :
      ThreadTurn strict p nextNode row 0 0 { row with reaped := true, linked := false } nextNode

/-- What one call can do. -/
inductive ThreadStep (strict : Prop) (v v' : ThreadView Z) : Prop
  | still (rows : v'.rows = v.rows) (node : v'.nextNode = v.nextNode)
      (charged : v'.charged = v.charged) (claims : v'.claims = v.claims)
  | charge (rows : v'.rows = v.rows) (node : v'.nextNode = v.nextNode)
      (charged : v'.charged = v.charged + 1) (claims : v'.claims = v.claims + {.charge})
  | discharge (rows : v'.rows = v.rows) (node : v'.nextNode = v.nextNode)
      (charged : v'.charged = (releaseCounter v.charged).2)
      (claims : v'.claims + {.charge} = v.claims)
  | admitted (rows : v'.rows = v.rows ++ [.fresh]) (node : v'.nextNode = v.nextNode)
      (charged : v'.charged = v.charged) (claims : v'.claims = v.claims)
  | turn (p : Nat) (row row' : ThreadRow Z) (lost gained : Multiset ThreadClaim)
      (at_ : v.rows[p]? = some row)
      (turn : ThreadTurn strict p v.nextNode row lost gained row' v'.nextNode)
      (rows : v'.rows = v.rows.set p row') (charged : v'.charged = v.charged)
      (claims : v'.claims + lost = v.claims + gained)

/-! ## One process -/

/-- What holds of a process, given the tokens and the exit admissions that are out for it. -/
structure ThreadRow.OK (nextNode : Nat) (toks : Multiset Nat)
    (exs : Multiset (Option ThreadNode)) (row : ThreadRow Z) : Prop where
  counted : row.tg.Counted nextNode
  waiting : toks = row.tg.waiting
  exits : exs.card = if row.tg.exitPrepared then 1 else 0
  departing : ∀ t : ThreadNode, some t ∈ exs → t.live = false ∧ t.node < nextNode
  prepared : row.tg.exitPrepared = true →
    row.tg.threads = [] ∧ row.zombie = false ∧ row.published = true
  zombie : row.zombie = true → row.tg.threads = [] ∧ row.tg.exitPrepared = false
  payload : row.payload.isSome = row.zombie
  reaped : row.reaped = true → row.zombie = true
  registered : row.published = true → row.linked = true ∨ row.reaped = true

namespace ThreadRow.OK

variable {nextNode nextNode' : Nat} {toks : Multiset Nat} {exs : Multiset (Option ThreadNode)}
  {row : ThreadRow Z}

theorem fresh (nextNode : Nat) : OK nextNode 0 0 (.fresh : ThreadRow Z) where
  counted := counted_new nextNode
  waiting := rfl
  exits := rfl
  departing := fun _ ht => absurd ht (notMem_zero _)
  prepared := nofun
  zombie := nofun
  payload := rfl
  reaped := nofun
  registered := nofun

section

variable (h : row.OK nextNode toks exs)
include h

theorem mono (hle : nextNode ≤ nextNode') :
    row.OK nextNode' toks exs where
  counted := h.counted.mono hle
  waiting := h.waiting
  exits := h.exits
  departing := fun t ht => ⟨(h.departing t ht).1, lt_of_lt_of_le (h.departing t ht).2 hle⟩
  prepared := h.prepared
  zombie := h.zombie
  payload := h.payload
  reaped := h.reaped
  registered := h.registered

/-- A process with a membership is neither exit-prepared nor a zombie. -/
theorem open_of_ne_nil (hne : row.tg.threads ≠ []) :
    row.tg.exitPrepared = false ∧ row.zombie = false := by
  constructor
  · cases hp : row.tg.exitPrepared with
    | false => rfl
    | true => exact absurd (h.prepared hp).1 hne
  · cases hz : row.zombie with
    | false => rfl
    | true => exact absurd (h.zombie hz).1 hne

theorem no_exits (hp : row.tg.exitPrepared = false) : exs = 0 := by
  have hcard := h.exits
  rw [hp, if_neg Bool.false_ne_true] at hcard
  exact card_eq_zero.mp hcard

/-- Neither the exit code nor the group-exit flag matters. -/
theorem recode (exitCode : Int) (groupExited : Bool) :
    ({ row with tg := { row.tg with exitCode, groupExited } } : ThreadRow Z).OK nextNode toks exs :=
  { h with counted := h.counted.of_eq rfl rfl rfl }

theorem link (alive : row.zombie = false) (unprepared : row.tg.exitPrepared = false) {tid : Pid}
    (free : row.tg.find tid = none) : ({ row with tg := { row.tg with
        threads := row.tg.threads ++ [{ node := nextNode, tid, live := false }]
        memberships := row.tg.memberships + 1 } } : ThreadRow Z).OK (nextNode + 1)
      (toks + {nextNode}) exs :=
  { h.mono (le_succ nextNode) with
    counted := h.counted.link free
    waiting := by
      rw [h.waiting]
      unfold ThreadGroup.waiting
      rw [List.filter_append, List.map_append, ← coe_add]
      rfl
    prepared := fun hp => absurd (unprepared.symm.trans hp) false_ne_true
    zombie := fun hz => absurd (alive.symm.trans hz) false_ne_true }

theorem publish (linked : row.linked = true) :
    ({ row with published := true } : ThreadRow Z).OK nextNode toks exs :=
  { h with
    prepared := fun hp => ⟨(h.prepared hp).1, (h.prepared hp).2.1, rfl⟩
    registered := fun _ => .inl linked }

end

/-- A thread leaves the list, with its token if it was not live. -/
theorem detached (hfind : row.tg.threads.find? (·.node == node) = some t)
    (h : row.OK nextNode (toks + if t.live = true then 0 else {node}) exs) :
    ({ row with tg := (row.tg.detachThreadLocked node).2 } : ThreadRow Z).OK nextNode toks exs := by
  obtain ⟨unprepared, alive⟩ := h.open_of_ne_nil fun hnil => by
    rw [hnil] at hfind
    cases hfind
  obtain ⟨hcnt, -, hwait⟩ := h.counted.detach hfind
  have hprep : (row.tg.detachThreadLocked node).2.exitPrepared = false := by
    rw [detachThreadLocked_eq hfind]
    exact unprepared
  exact { h with
    counted := hcnt
    waiting := add_right_cancel (h.waiting.trans hwait.symm)
    exits := by rw [h.exits, unprepared, hprep]
    prepared := fun hp => absurd (hprep.symm.trans hp) false_ne_true
    zombie := fun hz => absurd (alive.symm.trans hz) false_ne_true }

section Token

variable {node : Nat} (h : row.OK nextNode (toks + {node}) exs)

include h

/-- The thread of a token. -/
theorem token : ∃ t, row.tg.threads.find? (·.node == node) = some t ∧ t.live = false ∧
    row.tg.exitPrepared = false ∧ row.zombie = false := by
  have hmem : node ∈ row.tg.waiting := by
    rw [← h.waiting]
    exact mem_add.mpr (.inr (mem_singleton_self node))
  obtain ⟨t, hfind, hlive⟩ := exists_of_mem_waiting h.counted.nodes hmem
  refine ⟨t, hfind, hlive, h.open_of_ne_nil ?_⟩
  intro hnil
  rw [hnil] at hfind
  cases hfind

theorem setLive {published : Bool}
    (how : published = row.published ∨ (published = true ∧ row.linked = true)) :
    ({ row with
        published
        tg := { row.tg.setLive node with liveThreads := row.tg.liveThreads + 1 } } : ThreadRow Z).OK
      nextNode toks exs := by
  obtain ⟨t, hfind, hlive, unprepared, alive⟩ := h.token
  exact { h with
    counted := h.counted.setLive hfind hlive
    waiting := by
      have hwait := h.waiting
      rw [← waiting_setLive hfind h.counted.nodes (row.tg.liveThreads + 1) hlive]
        at hwait
      exact add_right_cancel hwait
    prepared := fun hp => absurd (unprepared.symm.trans hp) false_ne_true
    zombie := fun hz => absurd (alive.symm.trans hz) false_ne_true
    registered := by
      intro hpub
      rcases how with heq | ⟨-, hlink⟩
      · exact h.registered (heq ▸ hpub)
      · exact .inl hlink }

theorem detach : ({ row with tg := (row.tg.detachThreadLocked node).2 } : ThreadRow Z).OK
    nextNode toks exs := by
  obtain ⟨t, hfind, hlive, -⟩ := h.token
  refine detached hfind ?_
  rw [hlive, if_neg Bool.false_ne_true]
  exact h

end Token

/-- A live thread is removed. -/
theorem remove (h : row.OK nextNode toks exs) {t : ThreadNode} (mem : t ∈ row.tg.threads)
    (live : t.live = true) :
    ({ row with tg := (row.tg.detachThreadLocked t.node).2 } : ThreadRow Z).OK nextNode toks exs := by
  refine detached (find?_of_mem h.counted.nodes mem) ?_
  rw [live, if_pos rfl, add_zero]
  exact h

/-- A group without memberships is prepared for its exit. -/
theorem prepare (h : row.OK nextNode toks exs) {departing : Option ThreadNode}
    (empty : row.tg.memberships = 0) (unprepared : row.tg.exitPrepared = false)
    (alive : row.zombie = false) (published : row.published = true)
    (hdeparting : ∀ t, departing = some t → t.live = false ∧ t.node < nextNode) :
    ({ row with tg := { row.tg with exitPrepared := true } } : ThreadRow Z).OK nextNode toks
      (exs + {departing}) := by
  have hnil : row.tg.threads = [] := by
    rw [h.counted.memberships] at empty
    exact List.eq_nil_of_length_eq_zero empty
  exact { h with
    counted := h.counted.of_eq rfl rfl rfl
    exits := by rw [h.no_exits unprepared]; rfl
    departing := by
      intro t ht
      rw [h.no_exits unprepared, zero_add] at ht
      exact hdeparting t (mem_singleton.mp ht).symm
    prepared := fun _ => ⟨hnil, alive, published⟩
    zombie := fun hz => absurd (alive.symm.trans hz) false_ne_true }

/-- The last thread is removed, and the group prepared. -/
theorem depart (h : row.OK nextNode toks exs) {t : ThreadNode} (mem : t ∈ row.tg.threads)
    (live : t.live = true) (last : row.tg.memberships = 1) (alive : row.zombie = false)
    (unprepared : row.tg.exitPrepared = false) (published : row.published = true) :
    ({ row with tg := { (row.tg.detachThreadLocked t.node).2 with exitPrepared := true } } :
      ThreadRow Z).OK nextNode toks (exs + {some { t with live := false }}) := by
  have hfind := find?_of_mem h.counted.nodes mem
  refine (h.remove mem live).prepare ?_ ?_ alive published ?_
  · have hcount := (h.counted.detach hfind).2.1
    change (row.tg.detachThreadLocked t.node).2.memberships = 0
    omega
  · dsimp only
    rw [detachThreadLocked_eq hfind]
    exact unprepared
  · intro t' ht'
    cases ht'
    exact ⟨rfl, h.counted.fresh t mem⟩

section Exit

variable {departing : Option ThreadNode} (h : row.OK nextNode toks (exs + {departing}))

include h

/-- An exit admission is the only one, and there are no threads. -/
theorem exit : row.tg.exitPrepared = true ∧ exs = 0 := by
  have hcard := h.exits
  rw [card_add, card_singleton] at hcard
  cases hp : row.tg.exitPrepared with
  | false =>
    rw [hp, if_neg Bool.false_ne_true] at hcard
    omega
  | true =>
    rw [hp, if_pos rfl] at hcard
    exact ⟨rfl, card_eq_zero.mp (by omega)⟩

theorem restore : ({ row with tg := row.tg.restore departing } : ThreadRow Z).OK nextNode toks exs := by
  obtain ⟨hprep, hnone⟩ := h.exit
  obtain ⟨hnil, alive, -⟩ := h.prepared hprep
  have hunprepared : (row.tg.restore departing).exitPrepared = false := by
    cases departing with
    | none | some => rfl
  exact { h with
    counted := by
      refine h.counted.restore hnil ?_
      intro t ht
      exact (h.departing t (ht ▸ mem_add.mpr (.inr (mem_singleton_self _)))).2
    waiting := by
      rw [h.waiting, waiting_of_empty hnil, waiting_restore hnil]
    exits := by rw [hnone, hunprepared]; rfl
    departing := fun t ht => h.departing t (mem_add.mpr (.inl ht))
    prepared := fun hp => absurd (hunprepared.symm.trans hp) false_ne_true
    zombie := fun hz => absurd (alive.symm.trans hz) false_ne_true }

theorem becomeZombie (payload : Z) :
    ({ row with
        zombie := true
        payload := some payload
        tg := { row.tg with exitPrepared := false } } : ThreadRow Z).OK nextNode toks exs := by
  obtain ⟨hprep, hnone⟩ := h.exit
  obtain ⟨hnil, -, -⟩ := h.prepared hprep
  exact { h with
    counted := h.counted.of_eq rfl rfl rfl
    exits := by rw [hnone]; rfl
    departing := fun t ht => h.departing t (mem_add.mpr (.inl ht))
    prepared := nofun
    zombie := fun _ => ⟨hnil, rfl⟩
    payload := rfl
    reaped := fun _ => rfl }

end Exit

end ThreadRow.OK

section Turn

variable {strict : Prop} {p nextNode nextNode' : Nat} {row row' : ThreadRow Z}
  {lost gained claims claims' : Multiset ThreadClaim}

section

variable (h : ThreadTurn strict p nextNode row lost gained row' nextNode')
include h

theorem ThreadTurn.le : nextNode ≤ nextNode' := by
  cases h with
  | link => exact le_succ nextNode
  | _ => exact le_refl nextNode

/-- A turn of one process keeps what holds of it. -/
theorem ThreadTurn.ok (hok : row.OK nextNode (tokens p claims) (exits p claims))
    (hcls : claims' + lost = claims + gained) :
    row'.OK nextNode' (tokens p claims') (exits p claims') := by
  have ht := tokens_balance p hcls
  have he := exits_balance p hcls
  cases h with
  | link tid alive unprepared free =>
    simp only [tokens_charge, tokens_token, exits_charge, exits_token, add_zero] at ht he
    rw [ht, he]
    exact hok.link alive unprepared free
  | live node published how rule =>
    simp only [tokens_token, exits_token, tokens_zero, exits_zero, add_zero] at ht he
    rw [← ht, ← he] at hok
    exact hok.setLive how
  | publish linked =>
    simp only [tokens_zero, exits_zero, add_zero] at ht he
    rw [ht, he]
    exact hok.publish linked
  | detach node t find =>
    simp only [tokens_token, exits_token, tokens_charge, exits_charge, add_zero] at ht he
    rw [← ht, ← he] at hok
    exact hok.detach
  | remove t mem live exitCode =>
    simp only [tokens_zero, exits_zero, tokens_charge, exits_charge, add_zero] at ht he
    rw [ht, he]
    exact (hok.recode exitCode row.tg.groupExited).remove mem live
  | prepare empty unprepared payload published =>
    simp only [tokens_zero, exits_zero, tokens_exit, exits_exit, add_zero] at ht he
    rw [ht, he]
    exact hok.prepare empty unprepared (hok.payload.symm.trans (by rw [payload]; rfl)) published nofun
  | depart t mem live exitCode last alive unprepared published =>
    simp only [tokens_zero, exits_zero, tokens_exit, exits_exit, add_zero] at ht he
    rw [ht, he]
    exact (hok.recode exitCode row.tg.groupExited).depart mem live last alive unprepared published
  | restore departing =>
    simp only [tokens_zero, exits_zero, tokens_exit, exits_exit, add_zero] at ht he
    rw [← ht, ← he] at hok
    exact hok.restore
  | zombie departing payload =>
    simp only [tokens_exit, exits_exit, tokens_charges, exits_charges, add_zero] at ht he
    rw [← ht, ← he] at hok
    exact hok.becomeZombie payload
  | recode exitCode groupExited =>
    simp only [tokens_zero, exits_zero, add_zero] at ht he
    rw [ht, he]
    exact hok.recode exitCode groupExited
  | unlink unseen =>
    simp only [tokens_zero, exits_zero, add_zero] at ht he
    rw [ht, he]
    exact { hok with registered := fun hp => absurd (unseen.symm.trans hp) false_ne_true }
  | reap zombie empty once =>
    simp only [tokens_zero, exits_zero, add_zero] at ht he
    rw [ht, he]
    exact { hok with
      reaped := fun _ => zombie
      registered := fun _ => .inr rfl }

/-- What a group gains or loses is what the claims lose or gain. -/
theorem ThreadTurn.charged (hok : row.OK nextNode (tokens p claims) (exits p claims)) :
    row'.tg.memberships + weight gained = row.tg.memberships + weight lost := by
  cases h with
  | link tid alive unprepared free =>
    simp only [weight_singleton, ThreadClaim.weight]
  | detach node t find => exact (hok.counted.detach find).2.1
  | remove _ mem _ exitCode | depart _ mem _ exitCode =>
    have hfind := find?_of_mem hok.counted.nodes mem
    exact ((hok.recode exitCode row.tg.groupExited).counted.detach hfind).2.1
  | restore departing | zombie departing =>
    cases departing with
    | none | some => rfl
  | _ => rfl

/-- The claims of a turn are about its process. -/
theorem ThreadTurn.elsewhere (hcls : claims' + lost = claims + gained) {q : Nat} (hne : q ≠ p) :
    tokens q claims' = tokens q claims ∧ exits q claims' = exits q claims := by
  have ht := tokens_balance q hcls
  have he := exits_balance q hcls
  have hnone : tokens q lost = 0 ∧ exits q lost = 0 ∧ tokens q gained = 0 ∧ exits q gained = 0 := by
    cases h <;> simp [hne.symm]
  obtain ⟨h1, h2, h3, h4⟩ := hnone
  rw [h1, h3, add_zero, add_zero] at ht
  rw [h2, h4, add_zero, add_zero] at he
  exact ⟨ht, he⟩

end

end Turn

/-! ## The whole view -/

/-- What holds in every reachable state. -/
structure ThreadView.WF (v : ThreadView Z) : Prop where
  rows : ∀ (p : Nat) (row : ThreadRow Z), v.rows[p]? = some row →
    row.OK v.nextNode (tokens p v.claims) (exits p v.claims)
  /-- claims are about processes that exist -/
  range : ∀ p, v.rows.length ≤ p → tokens p v.claims = 0 ∧ exits p v.claims = 0
  charged : v.charged = tally (fun row => row.tg.memberships) v.rows + weight v.claims

theorem ThreadStep.wf {strict : Prop} {v v' : ThreadView Z} (h : ThreadStep strict v v')
    (hwf : v.WF) : v'.WF := by
  cases h with
  | still rows node charged claims =>
    constructor
    · rw [rows, node, claims]
      exact hwf.rows
    · rw [rows, claims]
      exact hwf.range
    · rw [rows, charged, claims]
      exact hwf.charged
  | charge rows node charged claims =>
    constructor
    · intro p row hrow
      rw [rows] at hrow
      rw [node, claims, tokens_add, exits_add, tokens_charge, exits_charge, add_zero, add_zero]
      exact hwf.rows p row hrow
    · intro p hp
      rw [rows] at hp
      rw [claims, tokens_add, exits_add, tokens_charge, exits_charge, add_zero, add_zero]
      exact hwf.range p hp
    · rw [rows, charged, claims, weight_add, weight_singleton, hwf.charged]
      rfl
  | discharge rows node charged claims =>
    have hcls : ∀ p, tokens p v.claims = tokens p v'.claims ∧
        exits p v.claims = exits p v'.claims := by
      intro p
      rw [← claims, tokens_add, exits_add, tokens_charge, exits_charge, add_zero, add_zero]
      exact ⟨rfl, rfl⟩
    constructor
    · intro p row hrow
      rw [rows] at hrow
      rw [node, ← (hcls p).1, ← (hcls p).2]
      exact hwf.rows p row hrow
    · intro p hp
      rw [rows] at hp
      rw [← (hcls p).1, ← (hcls p).2]
      exact hwf.range p hp
    · have hsum := hwf.charged
      rw [← claims, weight_add, weight_singleton, ThreadClaim.weight, ← rows] at hsum
      rw [charged, hsum]
      -- a charge is owned, so the counter is not zero
      unfold releaseCounter
      rfl
  | admitted rows node charged claims =>
    constructor
    · intro p row hrow
      rw [node, claims]
      rw [rows] at hrow
      rcases Lib.getElem?_concat_cases hrow with hold | ⟨rfl, rfl⟩
      · exact hwf.rows p row hold
      obtain ⟨ht, he⟩ := hwf.range v.rows.length (le_refl _)
      rw [ht, he]
      exact .fresh v.nextNode
    · intro p hp
      rw [rows, List.length_append] at hp
      rw [claims]
      exact hwf.range p (le_of_add_right_le hp)
    · rw [rows, charged, claims, Lib.tally_append, hwf.charged]
      rfl
  | turn p row row' lost gained at_ turn rows charged claims =>
    constructor
    · intro q b hb
      rw [rows] at hb
      by_cases hq : q = p
      · subst hq
        rw [Lib.getElem?_set_of_some at_] at hb
        rw [← Option.some.inj hb]
        exact turn.ok (hwf.rows q row at_) claims
      · rw [List.getElem?_set_ne (Ne.symm hq)] at hb
        obtain ⟨ht, he⟩ := turn.elsewhere claims hq
        rw [ht, he]
        exact (hwf.rows q b hb).mono turn.le
    · intro q hq
      rw [rows, List.length_set] at hq
      have hlt := Lib.lt_of_getElem? at_
      obtain ⟨ht, he⟩ := turn.elsewhere claims (q := q) (by omega)
      rw [ht, he]
      exact hwf.range q hq
    · have hturn := turn.charged (hwf.rows p row at_)
      have hset := Lib.tally_set (f := fun row : ThreadRow Z => row.tg.memberships) at_ row'
      have hweight : weight v'.claims + weight lost = weight v.claims + weight gained := by
        rw [← weight_add, claims, weight_add]
      have hold := hwf.charged
      rw [rows, charged]
      omega

/-! ## Live threads -/

/-- A process with a live thread is published and registered. -/
def ThreadRow.Lively (row : ThreadRow Z) : Prop :=
  0 < row.tg.liveThreads → row.published = true ∧ row.linked = true

/-- Taking a thread out makes none live. -/
theorem ThreadGroup.liveThreads_detach_le (tg : ThreadGroup) (node : Nat) :
    (tg.detachThreadLocked node).2.liveThreads ≤ tg.liveThreads := by
  unfold detachThreadLocked
  split
  · exact le_refl _
  split
  · exact sub_le _ _
  · exact le_refl _

variable {nextNode : Nat} {row : ThreadRow Z}

/-- A published process that is no zombie is registered. -/
theorem ThreadRow.OK.linked_of_alive (h : row.OK nextNode toks exs) (alive : row.zombie = false)
    (published : row.published = true) : row.linked = true := by
  rcases h.registered published with hlink | hreaped
  · exact hlink
  · exact absurd (alive.symm.trans (h.reaped hreaped)) false_ne_true

theorem ThreadTurn.lively {p nextNode' : Nat}
    (h : ThreadTurn True p nextNode row lost gained row' nextNode')
    (hok : row.OK nextNode (tokens p claims) (exits p claims))
    (hcls : claims' + lost = claims + gained) (hl : row.Lively) : row'.Lively := by
  have ht := tokens_balance p hcls
  have he := exits_balance p hcls
  intro hlive
  cases h with
  | link | prepare | zombie | recode => exact hl hlive
  | live node published how rule =>
    simp only [tokens_token, tokens_zero, add_zero] at ht
    rw [← ht] at hok
    obtain ⟨-, -, -, -, alive⟩ := hok.token
    have hpub := rule trivial
    refine ⟨hpub, ?_⟩
    rcases how with heq | ⟨-, hlink⟩
    · exact hok.linked_of_alive alive (heq.symm.trans hpub)
    · exact hlink
  | publish linked => exact ⟨rfl, linked⟩
  | detach | remove | depart =>
    exact hl (lt_of_lt_of_le hlive (liveThreads_detach_le ..))
  | restore departing =>
    simp only [exits_exit, exits_zero, add_zero] at he
    rw [← he] at hok
    obtain ⟨-, alive, published⟩ := hok.prepared hok.exit.1
    exact ⟨published, hok.linked_of_alive alive published⟩
  | unlink unseen => exact absurd (unseen.symm.trans (hl hlive).1) false_ne_true
  | reap zombie empty once =>
    rw [hok.counted.memberships] at empty
    rw [hok.counted.live, List.eq_nil_of_length_eq_zero empty] at hlive
    cases hlive

theorem ThreadStep.lively (h : ThreadStep True v v') (hwf : v.WF)
    (hl : ∀ row ∈ v.rows, row.Lively) : ∀ row ∈ v'.rows, row.Lively := by
  cases h with
  | still rows | charge rows | discharge rows =>
    rw [rows]
    exact hl
  | admitted rows =>
    rw [rows]
    refine Lib.forall_mem_concat hl fun hlive => ?_
    cases hlive
  | turn p row row' lost gained at_ turn rows charged claims =>
    rw [rows]
    refine Lib.forall_mem_set hl ?_
    exact turn.lively (hwf.rows p row at_) claims (hl row (List.mem_of_getElem? at_))

end LinuxAbi.Proc
