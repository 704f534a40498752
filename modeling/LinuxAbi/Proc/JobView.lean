import LinuxAbi.Lib.Tally
import LinuxAbi.Proc.Types
import Mathlib.Data.Multiset.Count

/-!
# Groups and sessions as counters see them

A group counts its members: the registered processes that name it, and the memberships
that running code holds without a process (one that is reserved for a process still to
be moved, or one that is still to be given back). A group whose counter drops to zero is
removed in a later section, so in between somebody has to watch it. A session counts its
registered groups.

`JobTurn` says what one section can do to these tables, and what it takes from and gives
to the code that runs it; `JobView.WF` is kept by every step.
-/

namespace LinuxAbi.Proc

open Nat
open Multiset
open List
open Lib (countP_set getElem?_set_cases getElem?_concat_cases unique_set)

/-! ## The tables -/

/-- A group, up to its publication. -/
structure GroupRow where
  pgid : Pid
  linked : Bool
  memberships : Nat
  session : Nat

/-- A new group. -/
def GroupRow.fresh (pgid : Pid) (session : Nat) : GroupRow where
  pgid
  linked := true
  memberships := 0
  session

/-- A session, up to its publication. -/
structure SessionRow where
  sid : Pid
  linked : Bool
  groups : Nat

/-- What running code owes to groups and sessions. -/
inductive JobClaim
  /-- a membership that no registered process stands for -/
  | slot (g : Nat)
  /-- a `remove_empty_group` that is still to be called -/
  | watch (g : Nat)
  /-- an operation on the group of this process -/
  | seat (p : Nat)
deriving DecidableEq

/-- The registry; of a process, only its group as long as it is registered. -/
structure JobTables where
  limit : Nat
  rows : List (Option Nat)
  memberships : Nat
  groups : List GroupRow
  groupCount : Nat
  sessions : List SessionRow
  sessionCount : Nat

/-- The tables with what running code owes. -/
structure JobView where
  tables : JobTables
  claims : Multiset JobClaim

/-! ## Steps -/

namespace JobTables

/-- No registered group has the number. -/
def FreeGroup (t : JobTables) (pgid : Pid) : Prop :=
  ∀ (g : Nat) (group : GroupRow), t.groups[g]? = some group → group.linked = true →
    group.pgid ≠ pgid

/-- No registered session has the number. -/
def FreeSession (t : JobTables) (sid : Pid) : Prop :=
  ∀ (s : Nat) (session : SessionRow), t.sessions[s]? = some session → session.linked = true →
    session.sid ≠ sid

/-- A group is removed, and its session with its last group. -/
def removeGroup (t : JobTables) (g : Nat) (group : GroupRow) (session : SessionRow) : JobTables :=
  { t with
    groups := t.groups.set g { group with linked := false }
    groupCount := t.groupCount - 1
    sessions := t.sessions.set group.session { session with
      groups := session.groups - 1
      linked := session.linked && session.groups != 1 }
    sessionCount := if session.groups = 1 then t.sessionCount - 1 else t.sessionCount }

end JobTables

/-- What one section does to the tables, taking the first claims and giving the second.
`seen` holds of the published processes and `reaped` is the process that is reaped. -/
inductive JobTurn (seen : Nat → Prop) (reaped : Option Nat) (t : JobTables) :
    Multiset JobClaim → Multiset JobClaim → JobTables → Prop
  | still : JobTurn seen reaped t 0 0 t
  | newSession (pgid : Pid) (room : t.groupCount < t.limit) (roomThere : t.sessionCount < t.limit)
      (free : t.FreeGroup pgid) (freeThere : t.FreeSession pgid) :
      JobTurn seen reaped t 0 {.watch t.groups.length} { t with
        sessions := t.sessions ++ [{ sid := pgid, linked := true, groups := 1 }]
        sessionCount := t.sessionCount + 1
        groups := t.groups ++ [.fresh pgid t.sessions.length]
        groupCount := t.groupCount + 1 }
  | newGroup (pgid : Pid) (s : Nat) (session : SessionRow) (room : t.groupCount < t.limit)
      (free : t.FreeGroup pgid) (there : t.sessions[s]? = some session)
      (live : session.linked = true) :
      JobTurn seen reaped t 0 {.watch t.groups.length} { t with
        sessions := t.sessions.set s { session with groups := session.groups + 1 }
        groups := t.groups ++ [.fresh pgid s]
        groupCount := t.groupCount + 1 }
  | reserve (g : Nat) (group : GroupRow) (row : t.groups[g]? = some group)
      (live : group.linked = true) :
      JobTurn seen reaped t 0 {.slot g} { t with
        groups := t.groups.set g { group with memberships := group.memberships + 1 } }
  | link (g : Nat) (group : GroupRow) (room : t.memberships < t.limit)
      (row : t.groups[g]? = some group) (live : group.linked = true) :
      JobTurn seen reaped t 0 0 { t with
        groups := t.groups.set g { group with memberships := group.memberships + 1 }
        rows := t.rows ++ [some g]
        memberships := t.memberships + 1 }
  | unlink (p g : Nat) (row : t.rows[p]? = some (some g)) (why : reaped = some p ∨ ¬ seen p) :
      JobTurn seen reaped t 0 {.slot g} { t with
        rows := t.rows.set p none
        memberships := t.memberships - 1 }
  | release (g : Nat) (group : GroupRow) (row : t.groups[g]? = some group) :
      JobTurn seen reaped t {.slot g} (if group.memberships = 1 then {.watch g} else 0) { t with
        groups := t.groups.set g { group with memberships := group.memberships - 1 } }
  | regroup (p old g : Nat) (row : t.rows[p]? = some (some old)) :
      JobTurn seen reaped t {.slot g} {.slot old} { t with rows := t.rows.set p (some g) }
  | remove (g : Nat) (group : GroupRow) (session : SessionRow) (row : t.groups[g]? = some group)
      (live : group.linked = true) (empty : group.memberships = 0)
      (there : t.sessions[group.session]? = some session) :
      JobTurn seen reaped t {.watch g} 0 (t.removeGroup g group session)

/-- A claim that may be given up: nothing depends on it. -/
def JobClaim.Idle (t : JobTables) : JobClaim → Prop
  | .seat _ => True
  | .watch g => ∀ group, t.groups[g]? = some group → group.linked = true → group.memberships ≠ 0
  | .slot _ => False

/-- A claim that may be made at any time. -/
def JobClaim.Harmless (seen : Nat → Prop) : JobClaim → Prop
  | .seat p => seen p
  | .watch _ => True
  | .slot _ => False

/-- One section. -/
inductive JobStep (seen : Nat → Prop) (reaped : Option Nat) (v v' : JobView) : Prop
  | turn (lost gained dropped added : Multiset JobClaim)
      (turn : JobTurn seen reaped v.tables lost gained v'.tables)
      (claims : v'.claims + (lost + dropped) = v.claims + (gained + added))
      (drops : ∀ c ∈ dropped, c.Idle v'.tables) (adds : ∀ c ∈ added, c.Harmless seen) :
      JobStep seen reaped v v'

/-! ## Identities -/

namespace JobTables

variable {seen : Nat → Prop} {reaped : Option Nat} {t t' : JobTables}

/-- The registered groups of a session. -/
def groupsOf (t : JobTables) (s : Nat) : Nat :=
  t.groups.countP fun group => group.linked && group.session == s

/-- Registered groups and sessions are told apart by their numbers and counted, and a
session is registered as long as it has a registered group. -/
structure Identities (t : JobTables) : Prop where
  pgids : ∀ (i j : Nat) (a b : GroupRow), t.groups[i]? = some a → t.groups[j]? = some b →
    a.linked = true → b.linked = true → a.pgid = b.pgid → i = j
  sids : ∀ (i j : Nat) (a b : SessionRow), t.sessions[i]? = some a → t.sessions[j]? = some b →
    a.linked = true → b.linked = true → a.sid = b.sid → i = j
  groupCount : t.groupCount = t.groups.countP (·.linked)
  sessionCount : t.sessionCount = t.sessions.countP (·.linked)
  bounded : t.groupCount ≤ t.limit ∧ t.sessionCount ≤ t.limit
  session : ∀ (g : Nat) (group : GroupRow), t.groups[g]? = some group →
    group.session < t.sessions.length
  counted : ∀ (s : Nat) (session : SessionRow), t.sessions[s]? = some session →
    session.groups = t.groupsOf s
  registered : ∀ (s : Nat) (session : SessionRow), t.sessions[s]? = some session →
    (session.linked = true ↔ 0 < session.groups)

variable {g : Nat} {group : GroupRow}

/-- Only processes and the memberships of one group change. -/
theorem Identities.members (h : t.Identities) (row : t.groups[g]? = some group) (memberships : Nat)
    (rows : List (Option Nat)) (count : Nat) :
    ({ t with groups := t.groups.set g { group with memberships }, rows, memberships := count } :
      JobTables).Identities := by
  have hcount : ∀ p : GroupRow → Bool, p { group with memberships } = p group →
      (t.groups.set g { group with memberships }).countP p = t.groups.countP p := by
    intro p hp
    have hset := countP_set row p { group with memberships }
    rw [hp] at hset
    omega
  constructor
  · exact unique_set h.pgids row fun hlink => ⟨hlink, rfl⟩
  · exact h.sids
  · change t.groupCount = (t.groups.set g { group with memberships }).countP (·.linked)
    rw [hcount (·.linked) rfl]
    exact h.groupCount
  · exact h.sessionCount
  · exact h.bounded
  · intro i a ha
    rcases getElem?_set_cases ha with ⟨-, rfl⟩ | ⟨-, hold⟩
    · exact h.session g group row
    · exact h.session i a hold
  · intro s session hs
    rw [h.counted s session hs]
    exact (hcount _ rfl).symm
  · exact h.registered

theorem groupsOf_concat (t : JobTables) (pgid : Pid) (session s : Nat) :
    ({ t with groups := t.groups ++ [.fresh pgid session] } : JobTables).groupsOf s
      = t.groupsOf s + if session = s then 1 else 0 := by
  unfold groupsOf
  rw [countP_append, countP_singleton]
  simp only [GroupRow.fresh, Bool.true_and, beq_iff_eq]

section

variable (h : t.Identities)
include h

/-- Groups only name sessions that are there. -/
theorem Identities.groupsOf_length : t.groupsOf t.sessions.length = 0 := by
  refine countP_eq_zero.mpr ?_
  intro group hmem hcount
  obtain ⟨g, hg⟩ := getElem?_of_mem hmem
  have hlt := h.session g group hg
  have heq : group.session = t.sessions.length := by
    rw [Bool.and_eq_true, beq_iff_eq] at hcount
    exact hcount.2
  omega

theorem Identities.newSession (room : t.groupCount < t.limit)
    (roomThere : t.sessionCount < t.limit) (free : t.FreeGroup pgid)
    (freeThere : t.FreeSession pgid) :
    ({ t with
      sessions := t.sessions ++ [{ sid := pgid, linked := true, groups := 1 }]
      sessionCount := t.sessionCount + 1
      groups := t.groups ++ [.fresh pgid t.sessions.length]
      groupCount := t.groupCount + 1 } : JobTables).Identities where
  pgids := Lib.unique_concat h.pgids free
  sids := Lib.unique_concat h.sids freeThere
  groupCount := by
    rw [h.groupCount, countP_append]
    rfl
  sessionCount := by
    rw [h.sessionCount, countP_append]
    rfl
  bounded := ⟨room, roomThere⟩
  session := by
    intro g group hg
    rw [length_append, length_singleton]
    rcases getElem?_concat_cases hg with hold | ⟨-, rfl⟩
    · have hlt := h.session g group hold
      omega
    · exact lt_succ_self _
  counted := by
    intro s session hs
    refine Eq.trans ?_ (groupsOf_concat t pgid _ s).symm
    rcases getElem?_concat_cases hs with hold | ⟨rfl, rfl⟩
    · have hlt : s < t.sessions.length := Lib.lt_of_getElem? hold
      rw [h.counted s session hold, if_neg (ne_of_gt hlt)]
      rfl
    · rw [h.groupsOf_length, if_pos rfl]
  registered := by
    intro s session hs
    rcases getElem?_concat_cases hs with hold | ⟨-, rfl⟩
    · exact h.registered s session hold
    · exact ⟨fun _ => one_pos, fun _ => rfl⟩

theorem Identities.newGroup {pgid : Pid} {s : Nat} {session : SessionRow}
    (room : t.groupCount < t.limit) (free : t.FreeGroup pgid)
    (there : t.sessions[s]? = some session) (live : session.linked = true) :
    ({ t with
      sessions := t.sessions.set s { session with groups := session.groups + 1 }
      groups := t.groups ++ [.fresh pgid s]
      groupCount := t.groupCount + 1 } : JobTables).Identities where
  pgids := Lib.unique_concat h.pgids free
  sids := unique_set h.sids there fun hlink => ⟨hlink, rfl⟩
  groupCount := by
    rw [h.groupCount, countP_append]
    rfl
  sessionCount := by
    have hset := countP_set there (·.linked) { session with groups := session.groups + 1 }
    have hcount := h.sessionCount
    dsimp only at hset ⊢
    omega
  bounded := ⟨room, h.bounded.2⟩
  session := by
    intro g group hg
    rw [List.length_set]
    rcases getElem?_concat_cases hg with hold | ⟨-, rfl⟩
    · exact h.session g group hold
    · exact (Lib.lt_of_getElem? there)
  counted := by
    intro s' session' hs
    refine Eq.trans ?_ (groupsOf_concat t pgid s s').symm
    rcases getElem?_set_cases hs with ⟨rfl, rfl⟩ | ⟨hne, hold⟩
    · rw [if_pos rfl, ← h.counted s' session there]
    · rw [h.counted s' session' hold, if_neg (Ne.symm hne)]
      rfl
  registered := by
    intro s' session' hs
    rcases getElem?_set_cases hs with ⟨-, rfl⟩ | ⟨-, hold⟩
    · exact ⟨fun _ => succ_pos _, fun _ => live⟩
    · exact h.registered s' session' hold

theorem Identities.remove {session : SessionRow} (row : t.groups[g]? = some group)
    (live : group.linked = true) (there : t.sessions[group.session]? = some session) :
    (t.removeGroup g group session).Identities := by
  -- the session counts this group, so it is registered
  have hmine : (group.linked && group.session == group.session) = true := by
    rw [live, Bool.true_and]
    exact beq_self_eq_true _
  have hpos : 0 < session.groups := by
    rw [h.counted _ session there]
    exact Lib.countP_pos_of_getElem? row hmine
  have hreg : session.linked = true := (h.registered _ session there).mpr hpos
  have hgrp := countP_set row (·.linked) { group with linked := false }
  have hsess := countP_set there (·.linked) { session with
    groups := session.groups - 1
    linked := session.linked && session.groups != 1 }
  have hgroupCount := h.groupCount
  have hsessionCount := h.sessionCount
  obtain ⟨hgroupBound, hsessionBound⟩ := h.bounded
  unfold removeGroup
  constructor
  · exact unique_set h.pgids row nofun
  · exact unique_set h.sids there fun _ => ⟨hreg, rfl⟩
  · dsimp only at hgrp ⊢
    rw [live] at hgrp
    simp only [Bool.toNat_true, Bool.toNat_false] at hgrp
    omega
  · dsimp only at hsess ⊢
    rw [hreg, Bool.true_and] at hsess ⊢
    by_cases hlast : session.groups = 1
    · rw [if_pos hlast]
      simp only [hlast, bne_self_eq_false, Bool.toNat_true, Bool.toNat_false] at hsess ⊢
      omega
    · rw [if_neg hlast]
      have hmore : (session.groups != 1) = true := bne_iff_ne.mpr hlast
      simp only [hmore] at hsess ⊢
      omega
  · constructor
    · dsimp only
      omega
    · dsimp only
      split <;> omega
  · intro i a ha
    rw [length_set]
    rcases getElem?_set_cases ha with ⟨-, rfl⟩ | ⟨-, hold⟩
    · exact h.session g group row
    · exact h.session i a hold
  · intro s session' hs
    have hset := countP_set row (fun r => r.linked && r.session == s) { group with linked := false }
    have hleft : ({ t with groups := t.groups.set g { group with linked := false } } :
        JobTables).groupsOf s + (group.linked && group.session == s).toNat = t.groupsOf s := hset
    refine Eq.trans ?_ (Nat.eq_sub_of_add_eq hleft).symm
    rcases getElem?_set_cases hs with ⟨rfl, rfl⟩ | ⟨hne, hold⟩
    · rw [hmine, ← h.counted _ session there]
      rfl
    have hother : (group.linked && group.session == s) = false := by
      rw [live, Bool.true_and]
      exact beq_eq_false_iff_ne.mpr (Ne.symm hne)
    rw [hother, ← h.counted s session' hold]
    rfl
  · intro s session' hs
    rcases getElem?_set_cases hs with ⟨-, rfl⟩ | ⟨-, hold⟩
    · change (session.linked && session.groups != 1) = true ↔ 0 < session.groups - 1
      rw [hreg, Bool.true_and, bne_iff_ne]
      omega
    · exact h.registered s session' hold

end

theorem JobTurn.identities {lost gained : Multiset JobClaim}
    (h : JobTurn seen reaped t lost gained t') (ht : t.Identities) : t'.Identities := by
  cases h with
  | still => exact ht
  | newSession pgid room roomThere free freeThere => exact ht.newSession room roomThere free freeThere
  | newGroup pgid s session room free there live => exact ht.newGroup room free there live
  | reserve _ _ row | link _ _ _ row | release _ _ row => exact ht.members row _ _ _
  | unlink | regroup => exact { ht with }
  | remove g group session row live _ there => exact ht.remove row live there

/-! ## Accounts -/

/-- The registered processes of a group. -/
def membersOf (t : JobTables) (g : Nat) : Nat := t.rows.countP (· == some g)

/-- A group's counter is the number of its registered processes and of the memberships
that running code holds; an unregistered group has none, and a registered group without
any is watched. -/
structure Accounts (t : JobTables) (claims : Multiset JobClaim) : Prop where
  counted : ∀ (g : Nat) (group : GroupRow), t.groups[g]? = some group →
    group.memberships = t.membersOf g + claims.count (.slot g)
  range : ∀ g, t.groups.length ≤ g → t.membersOf g = 0 ∧ claims.count (.slot g) = 0
  unlinked : ∀ (g : Nat) (group : GroupRow), t.groups[g]? = some group → group.linked = false →
    group.memberships = 0
  watched : ∀ (g : Nat) (group : GroupRow), t.groups[g]? = some group → group.linked = true →
    group.memberships = 0 → .watch g ∈ claims
  registered : t.memberships = t.rows.countP (·.isSome)
  bounded : t.memberships ≤ t.limit

/-- What a step does to claims, as far as counters depend on it. -/
structure Transfer (t' : JobTables) (claims lost gained claims' : Multiset JobClaim) : Prop where
  slots : ∀ g, claims'.count (.slot g) + lost.count (.slot g)
    = claims.count (.slot g) + gained.count (.slot g)
  watches : ∀ (g : Nat) (group : GroupRow), t'.groups[g]? = some group → group.linked = true →
    group.memberships = 0 → .watch g ∉ lost → .watch g ∈ claims ∨ .watch g ∈ gained →
    .watch g ∈ claims'

theorem transfer_of_claims (heq : claims' + (lost + dropped) = claims + (gained + added))
    (drops : ∀ c ∈ dropped, c.Idle t') (adds : ∀ c ∈ added, c.Harmless seen) :
    Transfer t' claims lost gained claims' := by
  constructor
  · intro g
    have hdropped : dropped.count (.slot g) = 0 :=
      Multiset.count_eq_zero.mpr fun hmem => drops _ hmem
    have hadded : added.count (.slot g) = 0 := Multiset.count_eq_zero.mpr fun hmem => adds _ hmem
    have hcount := congrArg (Multiset.count (.slot g)) heq
    simp only [Multiset.count_add, hdropped, hadded] at hcount
    exact hcount
  · intro g group hg hlink hemp hlost hmem
    have hall : JobClaim.watch g ∈ claims' + (lost + dropped) := by
      rw [heq]
      rcases hmem with hold | hnew
      · exact mem_add.mpr (.inl hold)
      · exact mem_add.mpr (.inr (mem_add.mpr (.inl hnew)))
    rcases mem_add.mp hall with hdone | hrest
    · exact hdone
    rcases mem_add.mp hrest with hgone | hidle
    · exact absurd hgone hlost
    · exact absurd hemp (drops _ hidle group hg hlink)

variable {claims lost gained claims' : Multiset JobClaim}

/-- A slot is a membership of its group. -/
theorem Accounts.slot (h : t.Accounts claims) (hmem : .slot g ∈ claims) :
    ∃ group, t.groups[g]? = some group ∧ 0 < group.memberships := by
  have hpos : 0 < claims.count (.slot g) := count_pos.mpr hmem
  cases hg : t.groups[g]? with
  | none =>
    have hrange := (h.range g (getElem?_eq_none_iff.mp hg)).2
    omega
  | some group =>
    have hcnt := h.counted g group hg
    exact ⟨group, rfl, by omega⟩

theorem toNat_some_self (g : Nat) : (some g == some g).toNat = 1 := by
  rw [beq_self_eq_true]
  rfl

theorem toNat_some_ne (h : g' ≠ g) : (some g == some g').toNat = 0 := by
  have hne : (some g == some g') = false := by
    refine beq_eq_false_iff_ne.mpr ?_
    intro heq
    exact h (Option.some.inj heq).symm
  rw [hne]
  rfl

/-- A slot counts like a process of its group. -/
theorem count_slot (k g : Nat) :
    ({.slot k} : Multiset JobClaim).count (.slot g) = (some k == some g).toNat := by
  by_cases heq : g = k
  · subst heq
    rw [Multiset.count_singleton_self, toNat_some_self]
  · rw [toNat_some_ne heq]
    refine Multiset.count_eq_zero.mpr ?_
    intro hmem
    cases Multiset.mem_singleton.mp hmem
    exact heq rfl

theorem count_slot_watch (k g : Nat) : ({.watch k} : Multiset JobClaim).count (.slot g) = 0 :=
  Multiset.count_eq_zero.mpr fun hmem => nomatch Multiset.mem_singleton.mp hmem

/-- No group changes, and running code and processes change places at most. -/
theorem Accounts.same (h : t.Accounts claims) (hgrp : t'.groups = t.groups)
    (hsum : ∀ g, t'.membersOf g + claims'.count (.slot g)
      = t.membersOf g + claims.count (.slot g)) (tr : Transfer t' claims lost gained claims')
    (hlost : ∀ g, .watch g ∉ lost) (hreg : t'.memberships = t'.rows.countP (·.isSome))
    (hbounded : t'.memberships ≤ t'.limit) : t'.Accounts claims' := by
  refine ⟨?_, ?_, ?_, ?_, hreg, hbounded⟩
  · intro g group hg
    rw [hgrp] at hg
    rw [h.counted g group hg, hsum]
  · intro g hlen
    rw [hgrp] at hlen
    obtain ⟨hnone, hfree⟩ := h.range g hlen
    have hboth := hsum g
    rw [hnone, hfree] at hboth
    exact Nat.add_eq_zero_iff.mp hboth
  · rw [hgrp]
    exact h.unlinked
  · intro g group hg hlink hemp
    refine tr.watches g group hg hlink hemp (hlost g) (.inl ?_)
    rw [hgrp] at hg
    exact h.watched g group hg hlink hemp

/-- The counter of one group is written. -/
theorem Accounts.write (h : t.Accounts claims) {m : Nat} {rows : List (Option Nat)} {count : Nat}
    (row : t.groups[g]? = some group)
    (hself : m = rows.countP (· == some g) + claims'.count (.slot g))
    (hother : ∀ g', g' ≠ g → rows.countP (· == some g') = t.membersOf g' ∧
      claims'.count (.slot g') = claims.count (.slot g'))
    (hlive : group.linked = false → m = 0) (hwatched : group.linked = true → m = 0 →
      .watch g ∈ claims')
    (hkept : ∀ (g' : Nat) (group' : GroupRow), g' ≠ g → t.groups[g']? = some group' →
      group'.linked = true → group'.memberships = 0 → .watch g' ∈ claims')
    (hreg : count = rows.countP (·.isSome)) (hbounded : count ≤ t.limit) :
    ({ t with groups := t.groups.set g { group with memberships := m }, rows,
              memberships := count } : JobTables).Accounts claims' where
  counted := by
    intro g' group' hg'
    rcases getElem?_set_cases hg' with ⟨rfl, rfl⟩ | ⟨hne, hold⟩
    · exact hself
    obtain ⟨hrows, hslots⟩ := hother g' hne
    have hcnt := h.counted g' group' hold
    rw [← hrows, ← hslots] at hcnt
    exact hcnt
  range := by
    intro g' hlen
    rw [List.length_set] at hlen
    have hne : g' ≠ g := by
      intro heq
      have hlt := Lib.lt_of_getElem? row
      omega
    obtain ⟨hrows, hslots⟩ := hother g' hne
    obtain ⟨hnone, hfree⟩ := h.range g' hlen
    exact ⟨hrows.trans hnone, hslots.trans hfree⟩
  unlinked := by
    intro g' group' hg' hlink
    rcases getElem?_set_cases hg' with ⟨rfl, rfl⟩ | ⟨-, hold⟩
    · exact hlive hlink
    · exact h.unlinked g' group' hold hlink
  watched := by
    intro g' group' hg' hlink hemp
    rcases getElem?_set_cases hg' with ⟨rfl, rfl⟩ | ⟨hne, hold⟩
    · exact hwatched hlink hemp
    · exact hkept g' group' hne hold hlink hemp
  registered := hreg
  bounded := hbounded

/-- The watch over another group is kept. -/
theorem Transfer.kept {m : Nat} {rows : List (Option Nat)} {count : Nat}
    (tr : Transfer { t with groups := t.groups.set g { group with memberships := m }, rows,
                            memberships := count } claims lost gained claims')
    (h : t.Accounts claims) (hlost : ∀ g', .watch g' ∉ lost) (g' : Nat) (group' : GroupRow)
    (hne : g' ≠ g) (hg' : t.groups[g']? = some group') (hlink : group'.linked = true)
    (hemp : group'.memberships = 0) : .watch g' ∈ claims' :=
  tr.watches g' group' ((getElem?_set_ne (Ne.symm hne)).trans hg') hlink hemp (hlost g')
    (.inl (h.watched g' group' hg' hlink hemp))

section

variable (h : t.Accounts claims)
include h

theorem Accounts.reserve (row : t.groups[g]? = some group) (live : group.linked = true)
    (ht' : t' = { t with
      groups := t.groups.set g { group with memberships := group.memberships + 1 } })
    (tr : Transfer t' claims 0 {.slot g} claims') : t'.Accounts claims' := by
  subst ht'
  have hcnt := h.counted g group row
  refine h.write row ?_ ?_ ?_ ?_ (tr.kept h fun _ => notMem_zero _) h.registered h.bounded
  · have hslots := tr.slots g
    rw [count_slot, toNat_some_self, Multiset.count_zero] at hslots
    change _ = t.membersOf g + _
    omega
  · intro g' hne
    have hslots := tr.slots g'
    rw [count_slot, toNat_some_ne hne, Multiset.count_zero] at hslots
    exact ⟨rfl, hslots⟩
  · intro hdead
    cases live.symm.trans hdead
  · intro _ hemp
    exact absurd hemp (succ_ne_zero _)

theorem Accounts.link (room : t.memberships < t.limit) (row : t.groups[g]? = some group)
    (live : group.linked = true) (ht' : t' = { t with
      groups := t.groups.set g { group with memberships := group.memberships + 1 }
      rows := t.rows ++ [some g]
      memberships := t.memberships + 1 }) (tr : Transfer t' claims 0 0 claims') :
    t'.Accounts claims' := by
  subst ht'
  have hcnt := h.counted g group row
  have hslots : ∀ g', claims'.count (.slot g') = claims.count (.slot g') := tr.slots
  have hmems : ∀ g', (t.rows ++ [some g]).countP (· == some g')
      = t.membersOf g' + (some g == some g').toNat := by
    intro g'
    rw [countP_append, countP_singleton]
    cases some g == some g' with
    | false | true => rfl
  refine h.write row ?_ ?_ ?_ ?_ (tr.kept h fun _ => notMem_zero _) ?_ room
  · rw [hmems, toNat_some_self, hslots]
    omega
  · intro g' hne
    rw [hmems, toNat_some_ne hne]
    exact ⟨rfl, hslots g'⟩
  · intro hdead
    cases live.symm.trans hdead
  · intro _ hemp
    exact absurd hemp (succ_ne_zero _)
  · rw [h.registered, countP_append]
    rfl

theorem Accounts.release (row : t.groups[g]? = some group) (ht' : t' = { t with
      groups := t.groups.set g { group with memberships := group.memberships - 1 } })
    (tr : Transfer t' claims {.slot g} (if group.memberships = 1 then {.watch g} else 0) claims') :
    t'.Accounts claims' := by
  subst ht'
  have hcnt := h.counted g group row
  -- what is given back is a watch at most
  have hgain : ∀ g', (if group.memberships = 1 then {.watch g} else 0 :
      Multiset JobClaim).count (.slot g') = 0 := by
    intro g'
    split
    · exact count_slot_watch g g'
    · exact Multiset.count_zero _
  have hlost : ∀ g', JobClaim.watch g' ∉ ({.slot g} : Multiset JobClaim) :=
    fun g' hmem => nomatch Multiset.mem_singleton.mp hmem
  have hself := tr.slots g
  rw [count_slot, toNat_some_self, hgain] at hself
  refine h.write row ?_ ?_ ?_ ?_ (tr.kept h hlost) h.registered h.bounded
  · change _ = t.membersOf g + _
    omega
  · intro g' hne
    have hslots := tr.slots g'
    rw [count_slot, toNat_some_ne hne, hgain] at hslots
    exact ⟨rfl, hslots⟩
  · intro hdead
    have hnone := h.unlinked g group row hdead
    omega
  · intro hlink hemp
    have hone : group.memberships = 1 := by omega
    refine tr.watches g _ (Lib.getElem?_set_of_some row) hlink
      hemp (hlost g) (.inr ?_)
    rw [if_pos hone]
    exact Multiset.mem_singleton_self _

theorem Accounts.unlink (row : t.rows[p]? = some (some g))
    (ht' : t' = { t with rows := t.rows.set p none, memberships := t.memberships - 1 })
    (tr : Transfer t' claims 0 {.slot g} claims') : t'.Accounts claims' := by
  subst ht'
  have hone : (t.rows.set p none).countP (·.isSome) + 1 = t.rows.countP (·.isSome) :=
    countP_set row (·.isSome) none
  have hreg := h.registered
  refine h.same rfl ?_ tr (fun _ => notMem_zero _) ?_ (le_trans (sub_le _ _) h.bounded)
  · -- the membership of the process becomes one of the running code
    intro g'
    have hrows : (t.rows.set p none).countP (· == some g') + (some g == some g').toNat
        = t.membersOf g' := countP_set row (· == some g') none
    have hslots := tr.slots g'
    rw [Multiset.count_zero, count_slot] at hslots
    change (t.rows.set p none).countP (· == some g') + _ = _
    omega
  · change t.memberships - 1 = (t.rows.set p none).countP (·.isSome)
    omega

theorem Accounts.regroup (row : t.rows[p]? = some (some old))
    (tr : Transfer { t with rows := t.rows.set p (some g) } claims {.slot g} {.slot old} claims') :
    ({ t with rows := t.rows.set p (some g) } : JobTables).Accounts claims' := by
  have hone : (t.rows.set p (some g)).countP (·.isSome) + 1 = t.rows.countP (·.isSome) + 1 :=
    countP_set row (·.isSome) (some g)
  refine h.same rfl ?_ tr (fun _ hmem => nomatch Multiset.mem_singleton.mp hmem) ?_ h.bounded
  · -- the process and the running code change places
    intro g'
    have hrows : (t.rows.set p (some g)).countP (· == some g') + (some old == some g').toNat
        = t.membersOf g' + (some g == some g').toNat := countP_set row (· == some g') (some g)
    have hslots := tr.slots g'
    rw [count_slot, count_slot] at hslots
    change (t.rows.set p (some g)).countP (· == some g') + _ = _
    omega
  · exact h.registered.trans (succ.inj hone).symm

/-- A new group has no members, and its maker watches it. -/
theorem Accounts.concat (pgid : Pid) (session : Nat)
    (hgrp : t'.groups = t.groups ++ [.fresh pgid session]) (hrows : t'.rows = t.rows)
    (hcount : t'.memberships = t.memberships) (hlimit : t'.limit = t.limit)
    (tr : Transfer t' claims 0 {.watch t.groups.length} claims') : t'.Accounts claims' := by
  have hslots : ∀ g, claims'.count (.slot g) = claims.count (.slot g) := by
    intro g
    have hslots := tr.slots g
    exact hslots
  have hmems : ∀ g, t'.membersOf g = t.membersOf g := by
    intro g
    unfold membersOf
    rw [hrows]
  constructor
  · intro g group hg
    rw [hgrp] at hg
    rw [hmems, hslots]
    rcases getElem?_concat_cases hg with hold | ⟨rfl, rfl⟩
    · exact h.counted g group hold
    obtain ⟨hnone, hfree⟩ := h.range t.groups.length (le_refl _)
    rw [hnone, hfree]
    rfl
  · intro g hlen
    rw [hgrp, length_append] at hlen
    rw [hmems, hslots]
    exact h.range g (le_trans (le_add_right _ _) hlen)
  · intro g group hg hlink
    rw [hgrp] at hg
    rcases getElem?_concat_cases hg with hold | ⟨-, rfl⟩
    · exact h.unlinked g group hold hlink
    · rfl
  · intro g group hg hlink hemp
    refine tr.watches g group hg hlink hemp (notMem_zero _) ?_
    rw [hgrp] at hg
    rcases getElem?_concat_cases hg with hold | ⟨rfl, -⟩
    · exact .inl (h.watched g group hold hlink hemp)
    · exact .inr (Multiset.mem_singleton_self _)
  · rw [hcount, hrows]
    exact h.registered
  · rw [hcount, hlimit]
    exact h.bounded

/-- An empty group is removed. -/
theorem Accounts.remove (row : t.groups[g]? = some group) (hemp : group.memberships = 0)
    (hgrp : t'.groups = t.groups.set g { group with linked := false }) (hrows : t'.rows = t.rows)
    (hcount : t'.memberships = t.memberships) (hlimit : t'.limit = t.limit)
    (tr : Transfer t' claims {.watch g} 0 claims') : t'.Accounts claims' := by
  have hslots : ∀ g', claims'.count (.slot g') = claims.count (.slot g') := by
    intro g'
    have hslots := tr.slots g'
    exact hslots
  have hmems : ∀ g', t'.membersOf g' = t.membersOf g' := by
    intro g'
    unfold membersOf
    rw [hrows]
  constructor
  · intro g' group' hg
    rw [hgrp] at hg
    rw [hmems, hslots]
    rcases getElem?_set_cases hg with ⟨rfl, rfl⟩ | ⟨-, hold⟩
    · exact h.counted g' group row
    · exact h.counted g' group' hold
  · intro g' hlen
    rw [hgrp, length_set] at hlen
    rw [hmems, hslots]
    exact h.range g' hlen
  · intro g' group' hg hlink
    rw [hgrp] at hg
    rcases getElem?_set_cases hg with ⟨-, rfl⟩ | ⟨-, hold⟩
    · exact hemp
    · exact h.unlinked g' group' hold hlink
  · intro g' group' hg hlink hnone
    have hg' := hg
    rw [hgrp] at hg'
    rcases getElem?_set_cases hg' with ⟨-, rfl⟩ | ⟨hne, hold⟩
    · cases hlink
    refine tr.watches g' group' hg hlink hnone ?_ (.inl (h.watched g' group' hold hlink hnone))
    intro hmem
    cases Multiset.mem_singleton.mp hmem
    exact hne rfl
  · rw [hcount, hrows]
    exact h.registered
  · rw [hcount, hlimit]
    exact h.bounded

end

theorem JobTurn.accounts (h : JobTurn seen reaped t lost gained t') (ht : t.Accounts claims)
    (tr : Transfer t' claims lost gained claims') : t'.Accounts claims' := by
  cases h with
  | still =>
    refine ht.same rfl ?_ tr (fun _ => notMem_zero _) ht.registered ht.bounded
    intro g
    exact congrArg (t.membersOf g + ·) (tr.slots g)
  | newSession pgid => exact ht.concat pgid _ rfl rfl rfl rfl tr
  | newGroup pgid s => exact ht.concat pgid s rfl rfl rfl rfl tr
  | reserve g group row live => exact ht.reserve row live rfl tr
  | link g group room row live => exact ht.link room row live rfl tr
  | unlink p g row => exact ht.unlink row rfl tr
  | release g group row => exact ht.release row rfl tr
  | regroup p old g row => exact ht.regroup row tr
  | remove g group session row _ empty => exact ht.remove row empty rfl rfl rfl rfl tr

end JobTables

/-! ## Every step -/

/-- What holds in every reachable state. -/
structure JobView.WF (v : JobView) : Prop where
  identities : v.tables.Identities
  accounts : v.tables.Accounts v.claims

variable {seen : Nat → Prop} {reaped : Option Nat} {v v' : JobView}

theorem JobStep.wf (h : JobStep seen reaped v v') (hv : v.WF) : v'.WF := by
  obtain ⟨lost, gained, dropped, added, hturn, hcls, hdrops, hadds⟩ := h
  exact ⟨JobTables.JobTurn.identities hturn hv.identities,
    JobTables.JobTurn.accounts hturn hv.accounts
      (JobTables.transfer_of_claims hcls hdrops hadds)⟩

/-- Operations on groups are started on published processes. -/
theorem JobStep.seats {seen' : Nat → Prop} (h : JobStep seen reaped v v')
    (hseen : ∀ p, seen p → seen' p) (hold : ∀ p, .seat p ∈ v.claims → seen p) (p : Nat)
    (hmem : .seat p ∈ v'.claims) : seen' p := by
  obtain ⟨lost, gained, dropped, added, hturn, hcls, hdrops, hadds⟩ := h
  obtain ⟨t', claims'⟩ := v'
  have hgain : JobClaim.seat p ∉ gained := by
    cases hturn with
    | still | link | remove => exact Multiset.notMem_zero _
    | release g group =>
      split
      · exact fun h => nomatch Multiset.mem_singleton.mp h
      · exact Multiset.notMem_zero _
    | _ => exact fun h => nomatch Multiset.mem_singleton.mp h
  have hall : JobClaim.seat p ∈ v.claims + (gained + added) := by
    rw [← hcls]
    exact mem_add.mpr (.inl hmem)
  rcases mem_add.mp hall with hbef | hnew
  · exact hseen p (hold p hbef)
  rcases mem_add.mp hnew with hg | ha
  · exact absurd hg hgain
  · exact hseen p (hadds _ ha)

/-- A process leaves the registry when it is reaped, or before it is published. -/
theorem JobStep.stays (h : JobStep seen reaped v v')
    (hp : v.tables.rows[p]? = some row) (hlink : row.isSome = true) (hseen : seen p)
    (hreaped : reaped ≠ some p) : ∃ row', v'.tables.rows[p]? = some row' ∧ row'.isSome = true := by
  obtain ⟨lost, gained, dropped, added, hturn, -, -, -⟩ := h
  obtain ⟨t', claims'⟩ := v'
  cases hturn with
  | link =>
    refine ⟨row, ?_, hlink⟩
    rw [List.getElem?_append_left (Lib.lt_of_getElem? hp)]
    exact hp
  | unlink q g hq why =>
    refine ⟨row, ?_, hlink⟩
    have hne : q ≠ p := by
      intro heq
      subst heq
      rcases why with hwhy | hwhy
      · exact hreaped hwhy
      · exact hwhy hseen
    exact (getElem?_set_ne hne).trans hp
  | regroup q old g hq =>
    by_cases heq : q = p
    · subst heq
      exact ⟨some g, Lib.getElem?_set_of_some hp, rfl⟩
    · exact ⟨row, (List.getElem?_set_ne heq).trans hp, hlink⟩
  | _ => exact ⟨row, hp, hlink⟩

end LinuxAbi.Proc
