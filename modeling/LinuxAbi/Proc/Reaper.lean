import LinuxAbi.Proc.Tree

/-!
# The reaper of a child

`select_reaper_for_exit_locked` follows raw parent pointers in a loop without a bound.
In a well-formed tree the ancestors of a process are a finite chain, and the loop is
what it is meant to be: it takes the chain up to the first ancestor of another scope,
and picks the first one there that can reap; if there is none, the init of the child's
scope, or of the outer scope when the child is that init itself.
-/

namespace LinuxAbi.Proc

open Option
open List

namespace Domain

variable {Z : Type} {d : Domain Z}

/-! ## The specification -/

/-- The ancestors of a process, nearest first, as far as parent pointers can be
upgraded. -/
inductive Ancestry (d : Domain Z) : Nat → List Nat → Prop
  | root {i : Nat} : d.upgrade (d.parentOf i) = none → Ancestry d i []
  | step {i j : Nat} {ancestors : List Nat} : d.upgrade (d.parentOf i) = some j →
      Ancestry d j ancestors → Ancestry d i (j :: ancestors)

/-- Whether the process belongs to the scope. -/
def inScope (d : Domain Z) (scope i : Nat) : Bool := d.processes[i]?.any fun q => q.reaperScope == scope

/-- Whether the process can take children of the scope: a child subreaper of the scope
with live threads that is not exit-prepared and not a zombie. -/
def canReap (d : Domain Z) (scope i : Nat) : Bool := d.processes[i]?.any fun q => q.isReaper scope

/-- The init a child falls back to. -/
def FallsBackTo (d : Domain Z) (child scope fallback : Nat) : Prop :=
  if d.tree.init scope = some child then
    ∃ o, d.tree.outer scope = some o ∧ d.tree.init o = some fallback
  else d.tree.init scope = some fallback

/-- The parent that a child of the exiting process is due. -/
def ReaperOf (d : Domain Z) (exiting child reaper : Nat) : Prop :=
  ∃ process ancestors fallback, d.processes[child]? = some process ∧
    d.Ancestry exiting ancestors ∧ d.FallsBackTo child process.reaperScope fallback ∧
    reaper = ((ancestors.takeWhile (d.inScope process.reaperScope)).find?
      (d.canReap process.reaperScope)).getD fallback

/-! ## Rows -/

variable {i child : Nat} {process : Process Z}

theorem getElem?_tree (h : d.processes[i]? = some process) :
    d.tree.rows[i]? = some process.row := Lib.getElem?_map_of_some h

theorem of_getElem?_tree (h : d.tree.rows[i]? = some a) :
    ∃ process, d.processes[i]? = some process ∧ process.row = a := Lib.of_getElem?_map h

theorem parentOf_eq (h : d.processes[i]? = some process) : d.parentOf i = process.parent := by
  unfold parentOf
  rw [h]
  rfl

/-- A parent that can be upgraded is a parent. -/
theorem upgrade_eq_some (h : d.upgrade parent = some g) : parent = some g ∧ d.alive g = true := by
  cases parent with
  | none => cases h
  | some g' =>
    unfold upgrade at h
    rw [filter_some] at h
    split at h
    · next halive =>
      obtain rfl := some.inj h
      exact ⟨rfl, halive⟩
    · cases h

/-- An ancestor one step up. -/
theorem Ancestry.parent (h : d.upgrade (d.parentOf i) = some j) :
    ∃ a, d.tree.rows[i]? = some a ∧ a.parent = some j := by
  obtain ⟨hpar, -⟩ := upgrade_eq_some h
  obtain ⟨process, hp, hj⟩ := bind_eq_some_iff.mp hpar
  exact ⟨process.row, getElem?_tree hp, hj⟩

/-! ## The chain -/

/-- The chain exists and is no longer than the number of older processes. -/
theorem exists_ancestry (hwf : d.tree.WF) (i : Nat) :
    ∃ ancestors, d.Ancestry i ancestors ∧ ancestors.length ≤ i := by
  -- parents are older, so this is an induction on the creation index
  induction i using Nat.strong_induction_on with
  | _ i ih =>
    cases hup : d.upgrade (d.parentOf i) with
    | none => exact ⟨[], .root hup, Nat.zero_le i⟩
    | some j =>
      obtain ⟨a, ha, hpar⟩ := Ancestry.parent hup
      have hlt := hwf.rank i a j ha hpar
      obtain ⟨ancestors, hanc, hlen⟩ := ih j hlt
      refine ⟨j :: ancestors, .step hup hanc, ?_⟩
      rw [length_cons]
      omega

/-- An ancestor is older, and it is registered or a zombie. -/
theorem Ancestry.mem (hwf : d.tree.WF)
    (h : d.Ancestry i ancestors) : ∀ g ∈ ancestors, g < i ∧ ∃ b, d.tree.rows[g]? = some b ∧
      (b.linked = true ∨ b.zombie = true) ∧ d.tree.Named g b := by
  induction h with
  | root _ =>
    intro g hg
    cases hg
  | @step i j ancestors hup _ ih =>
    intro g hg
    obtain ⟨a, ha, hpar⟩ := Ancestry.parent hup
    have hlt := hwf.rank i a j ha hpar
    rcases mem_cons.mp hg with rfl | hg
    · exact ⟨hlt, hwf.parents i a g ha hpar⟩
    · obtain ⟨hgj, hrest⟩ := ih g hg
      exact ⟨Nat.lt_trans hgj hlt, hrest⟩

theorem inScope_of_canReap (h : d.canReap scope i = true) : d.inScope scope i = true := by
  unfold canReap at h
  unfold inScope
  cases hi : d.processes[i]? with
  | none =>
    rw [hi] at h
    cases h
  | some process =>
    rw [hi] at h
    simp only [any_some, Process.isReaper, Bool.and_eq_true] at h
    exact h.1.1.1.1

/-- One round of the loop: a reaper ends it, another scope ends it, and otherwise it
goes on with the parent. -/
theorem walkAncestors_succ (scope fuel i : Nat) :
    d.walkAncestors scope (fuel + 1) i =
      if d.canReap scope i then some (some i)
      else if d.inScope scope i then
        match d.upgrade (d.parentOf i) with
        | none => some none
        | some next => d.walkAncestors scope fuel next
      else some none := by
  rw [walkAncestors]
  cases hi : d.processes[i]? with
  | none => simp [canReap, inScope, hi]
  | some process =>
    rw [parentOf_eq hi]
    by_cases hreap : process.isReaper scope = true
    · simp [canReap, hi, hreap]
    by_cases hscope : process.reaperScope = scope
    · have hcan : d.canReap scope i = false := by simp [canReap, hi, hreap]
      have hin : d.inScope scope i = true := by simp [inScope, hi, hscope]
      rw [hcan, hin]
      cases hup : d.upgrade process.parent with
      | none | some => simp [hreap, hscope, hup]
    · simp [canReap, inScope, hi, hscope]

/-- The loop is a search of the part of the chain that lies in the scope. -/
theorem walkAncestors_eq (scope : Nat)
    (h : d.Ancestry i ancestors) : ∀ fuel, ancestors.length < fuel →
      d.walkAncestors scope fuel i
        = some (((i :: ancestors).takeWhile (d.inScope scope)).find? (d.canReap scope)) := by
  -- the induction is on the chain; the fuel is only ever larger than what is left of it
  induction h with
  | @root i hup =>
    intro fuel hfuel
    obtain ⟨fuel, rfl⟩ := Nat.exists_eq_succ_of_ne_zero (Nat.ne_of_gt hfuel)
    rw [walkAncestors_succ, hup]
    by_cases hreap : d.canReap scope i = true
    · simp [hreap, inScope_of_canReap hreap]
    by_cases hscope : d.inScope scope i = true <;> simp [hreap, hscope]
  | @step i j ancestors hup _ ih =>
    intro fuel hfuel
    obtain ⟨fuel, rfl⟩ := Nat.exists_eq_succ_of_ne_zero (Nat.ne_of_gt (Nat.zero_lt_of_lt hfuel))
    have hrest := ih fuel (by rw [length_cons] at hfuel; omega)
    rw [walkAncestors_succ, hup]
    by_cases hreap : d.canReap scope i = true
    · simp [hreap, inScope_of_canReap hreap]
    by_cases hscope : d.inScope scope i = true
    · rw [if_neg hreap, if_pos hscope]
      dsimp only
      rw [hrest, takeWhile_cons_of_pos hscope, find?_cons_of_neg hreap]
    · simp [hreap, hscope]

/-! ## The selection -/

/-- The fallback of a published child: an older init, registered and live. -/
theorem fallbackReaper_spec (hwf : d.tree.WF) (hchild : d.processes[child]? = some process)
    (hpub : process.published = true) (hpar : process.parent ≠ none) :
    ∃ fallback, d.fallbackReaper child process.reaperScope = .ok fallback ∧
      d.FallsBackTo child process.reaperScope fallback ∧ fallback < child ∧
      ∃ s, d.tree.init s = some fallback := by
  have hrow := getElem?_tree hchild
  unfold fallbackReaper FallsBackTo
  cases hinit : process.init with
  | false =>
    obtain ⟨k, hk, hlt⟩ := hwf.plain child process.row hrow hinit
    have hne : k ≠ child := Nat.ne_of_lt hlt
    have hk' : d.initProcess process.reaperScope = some k := hk
    change d.tree.init process.reaperScope = some k at hk
    refine ⟨k, ?_, ?_, hlt, _, hk⟩
    · rw [hk']
      dsimp only
      rw [if_neg hne]
    · rw [hk, if_neg (fun heq => hne (some.inj heq))]
  | true =>
    obtain ⟨hk, houter⟩ := hwf.bound child process.row hrow hinit hpub
    obtain ⟨o, m, ho, hm, hlt⟩ := houter hpar
    have hk' : d.initProcess process.reaperScope = some child := hk
    have ho' : d.scopes[process.reaperScope]?.bind (·.outerScope) = some o := ho
    have hm' : d.initProcess o = some m := hm
    change d.tree.init process.reaperScope = some child at hk
    refine ⟨m, ?_, ?_, hlt, o, hm⟩
    · rw [hk']
      dsimp only
      rw [if_pos rfl, ho', bind_some, hm']
    · rw [if_pos hk]
      exact ⟨o, ho, hm⟩

/-- What makes a process fit to be given a child. -/
structure FitReaper (t : Tree) (child reaper : Nat) : Prop where
  lt : reaper < child
  row : ∃ b, t.rows[reaper]? = some b ∧ b.linked = true ∧ b.zombie = false ∧ t.Named reaper b

theorem fitReaper_init (hwf : d.tree.WF) (hlt : k < child)
    (hk : d.tree.init s = some k) : FitReaper d.tree child k := by
  obtain ⟨b, hb, -, hlink, hzombie⟩ := hwf.inits s k hk
  exact ⟨hlt, b, hb, hlink, hzombie, .inr ⟨s, hk⟩⟩

/-- The selection ends, without an assertion, with the reaper the child is due. -/
theorem selectReaper_spec (hwf : d.tree.WF) (hchild : d.processes[child]? = some process)
    (hpub : process.published = true) (hpar : process.parent = some p) :
    ∃ reaper, d.selectReaperForExitLocked p child process.reaperScope = .reaper reaper ∧
      d.ReaperOf p child reaper ∧ FitReaper d.tree child reaper := by
  obtain ⟨fallback, hfall, hspec, hlt, s, hs⟩ :=
    fallbackReaper_spec hwf hchild hpub (by rw [hpar]; exact some_ne_none p)
  have hfit := fitReaper_init hwf hlt hs
  have hpc : p < child := hwf.rank child process.row p (getElem?_tree hchild) hpar
  obtain ⟨ancestors, hanc, hlen⟩ := exists_ancestry hwf p
  unfold selectReaperForExitLocked
  rw [hfall]
  cases hanc with
  | root hup =>
    rw [hup]
    exact ⟨fallback, rfl, ⟨process, [], fallback, hchild, .root hup, hspec, rfl⟩, hfit⟩
  | @step _ first rest hup hrest =>
    have hchildlt : child < d.processes.length := Lib.lt_of_getElem? hchild
    have hfuel : rest.length < d.processes.length := by
      rw [List.length_cons] at hlen
      omega
    rw [hup]
    dsimp only
    rw [walkAncestors_eq process.reaperScope hrest _ hfuel]
    refine ⟨_, rfl, ⟨process, first :: rest, fallback, hchild, .step hup hrest, hspec, rfl⟩, ?_⟩
    cases hfind : ((first :: rest).takeWhile (d.inScope process.reaperScope)).find?
        (d.canReap process.reaperScope) with
    | none => exact hfit
    | some reaper =>
      -- a reaper found on the way is an ancestor that is not a zombie
      have hmem : reaper ∈ first :: rest :=
        (List.takeWhile_sublist _).subset (List.mem_of_find?_eq_some hfind)
      obtain ⟨hreaperlt, b, hb, hstays, hnamed⟩ := Ancestry.mem hwf (.step hup hrest) reaper hmem
      have hreap := List.find?_some hfind
      obtain ⟨q, hq, rfl⟩ := of_getElem?_tree hb
      have hzombie : q.row.zombie = false := by
        unfold canReap at hreap
        rw [hq] at hreap
        simp only [any_some, Process.isReaper, Bool.and_eq_true, Bool.not_eq_true'] at hreap
        exact hreap.2
      refine ⟨Nat.lt_trans hreaperlt hpc, q.row, hb, ?_, hzombie, hnamed⟩
      rcases hstays with hlink | hz
      · exact hlink
      · rw [hzombie] at hz
        cases hz

end Domain

end LinuxAbi.Proc
