import LinuxAbi.Proc.Exit
import LinuxAbi.Lib.Tally

/-!
# The process tree

What the lifecycle is about, without threads, groups, sessions and tokens: which
processes exist, are registered, published or zombies, who is whose parent, and which
process is the init of which scope. A domain has such a tree (`Domain.tree`), and the
steps of the domain change it by the seven operations below.

`Tree.WF` is what keeps the reaper walk safe. Its heart is creation order: a parent, the
init of a process's scope, and the init of the outer scope of a scope init are all older
than the process, so that parent pointers lead down in the order of creation, whatever
jumps between scopes reparenting makes.
-/

namespace LinuxAbi.Proc

open Option

/-- One process of the tree. -/
structure Row where
  pid : Pid
  scope : Nat
  init : Bool
  linked : Bool
  published : Bool
  zombie : Bool
  parent : Option Nat
deriving DecidableEq

/-- The part of a process that belongs to the tree. -/
def Process.row {Z : Type} (process : Process Z) : Row where
  pid := process.pid
  scope := process.reaperScope
  init := process.init
  linked := process.linked
  published := process.published
  zombie := process.isZombie
  parent := process.parent

/-- Processes in the order of their creation, and reaper scopes. -/
structure Tree where
  rows : List Row
  scopes : List ReaperScope

/-- The tree of a domain. -/
def Domain.tree {Z : Type} (d : Domain Z) : Tree where
  rows := d.processes.map Process.row
  scopes := d.scopes

namespace Tree

variable (t : Tree)

/-- The init of a scope. -/
def init (s : Nat) : Option Nat := t.scopes[s]?.bind (·.init)

/-- The outer scope of a scope. -/
def outer (s : Nat) : Option Nat := t.scopes[s]?.bind (·.outerScope)

/-! ## Operations -/

def modify (i : Nat) (f : Row → Row) : Tree := { t with rows := t.rows.modify i f }

/-- A new process. -/
def link (a : Row) : Tree := { t with rows := t.rows ++ [a] }

/-- A process leaves the registry. -/
def unlink (i : Nat) : Tree := t.modify i fun a => { a with linked := false }

def publish (i : Nat) : Tree := t.modify i fun a => { a with published := true }

def setZombie (i : Nat) : Tree := t.modify i fun a => { a with zombie := true }

/-- A process gets another parent. -/
def move (i reaper : Nat) : Tree := t.modify i fun a => { a with parent := some reaper }

def setInit (s i : Nat) : Tree :=
  { t with scopes := t.scopes.modify s fun entry => { entry with init := some i } }

def setOuter (s o : Nat) : Tree :=
  { t with scopes := t.scopes.modify s fun entry => { entry with outerScope := some o } }

variable {t : Tree} {i j s p : Nat} {f : Row → Row} {a b : Row}

theorem getElem?_modify_self (h : t.rows[i]? = some a) : (t.modify i f).rows[i]? = some (f a) := by
  change (t.rows.modify i f)[i]? = some (f a)
  rw [List.getElem?_modify_eq, h]
  rfl

theorem getElem?_modify_ne (hne : i ≠ j) : (t.modify i f).rows[j]? = t.rows[j]? :=
  List.getElem?_modify_ne _ _ hne

/-- A row after a process was added. -/
theorem getElem?_link (h : (t.link a).rows[j]? = some b) :
    t.rows[j]? = some b ∨ (j = t.rows.length ∧ b = a) := Lib.getElem?_concat_cases h

theorem init_addScope (h : entry.init = none) (s : Nat) :
    Tree.init { t with scopes := t.scopes ++ [entry] } s = t.init s := Lib.bind_concat h s

theorem getElem?_link_old (h : t.rows[j]? = some b) : (t.link a).rows[j]? = some b := by
  change (t.rows ++ [a])[j]? = some b
  rw [List.getElem?_append_left (Lib.lt_of_getElem? h)]
  exact h

theorem lt_length (h : t.rows[i]? = some a) : i < t.rows.length :=
  (Lib.lt_of_getElem? h)

/-- The init of a scope after one scope got one. -/
theorem init_setInit (hs : s < t.scopes.length) :
    (t.setInit s i).init s' = if s = s' then some i else t.init s' := by
  change (t.scopes.modify s _)[s']?.bind _ = _
  by_cases heq : s = s'
  · subst heq
    rw [if_pos rfl, List.getElem?_modify_eq, List.getElem?_eq_getElem hs]
    rfl
  · rw [if_neg heq, List.getElem?_modify_ne _ _ heq]
    rfl

theorem outer_setInit (t : Tree) (s i s' : Nat) : (t.setInit s i).outer s' = t.outer s' := by
  change (t.scopes.modify s _)[s']?.bind _ = _
  unfold outer
  by_cases heq : s = s'
  · subst heq
    rw [List.getElem?_modify_eq]
    cases t.scopes[s]? <;> rfl
  · rw [List.getElem?_modify_ne _ _ heq]

theorem init_setOuter (t : Tree) (s o s' : Nat) : (t.setOuter s o).init s' = t.init s' := by
  change (t.scopes.modify s _)[s']?.bind _ = _
  unfold init
  by_cases heq : s = s'
  · subst heq
    rw [List.getElem?_modify_eq]
    cases t.scopes[s]? <;> rfl
  · rw [List.getElem?_modify_ne _ _ heq]

theorem outer_setOuter (hs : s < t.scopes.length) :
    (t.setOuter s o).outer s' = if s = s' then some o else t.outer s' := by
  change (t.scopes.modify s _)[s']?.bind _ = _
  by_cases heq : s = s'
  · subst heq
    rw [if_pos rfl, List.getElem?_modify_eq, List.getElem?_eq_getElem hs]
    rfl
  · rw [if_neg heq, List.getElem?_modify_ne _ _ heq]
    rfl

theorem lt_scopes (h : t.init s = some i) : s < t.scopes.length := by
  obtain ⟨entry, hentry, -⟩ := bind_eq_some_iff.mp h
  exact (Lib.lt_of_getElem? hentry)

/-! ## Well-formed trees -/

/-- A process that parent pointers may name: it was published, or is the init of a
scope. -/
def Named (i : Nat) (a : Row) : Prop := a.published = true ∨ ∃ s, t.init s = some i

/-- The outer scope of the scope has an init that is older than `i`. -/
def HasOuter (s i : Nat) : Prop := ∃ o m, t.outer s = some o ∧ t.init o = some m ∧ m < i

/-- What reparenting relies on. -/
structure WF (t : Tree) : Prop where
  /-- registered PIDs are distinct -/
  pids : ∀ (i j : Nat) (a b : Row), t.rows[i]? = some a → t.rows[j]? = some b → a.linked = true →
    b.linked = true → a.pid = b.pid → i = j
  /-- parents are older -/
  rank : ∀ (i : Nat) (a : Row) (g : Nat), t.rows[i]? = some a → a.parent = some g → g < i
  /-- an ordinary process is younger than the init of its scope -/
  plain : ∀ (i : Nat) (a : Row), t.rows[i]? = some a → a.init = false →
    ∃ k, t.init a.scope = some k ∧ k < i
  /-- a published init is the init of its scope, and has an outer scope if it has a
  parent -/
  bound : ∀ (i : Nat) (a : Row), t.rows[i]? = some a → a.init = true → a.published = true →
    t.init a.scope = some i ∧ (a.parent ≠ none → t.HasOuter a.scope i)
  /-- the init of a scope stays registered and live -/
  inits : ∀ s k, t.init s = some k → ∃ a, t.rows[k]? = some a ∧ a.init = true ∧
    a.linked = true ∧ a.zombie = false
  /-- a parent is registered, or is a zombie -/
  parents : ∀ (i : Nat) (a : Row) (g : Nat), t.rows[i]? = some a → a.parent = some g →
    ∃ b, t.rows[g]? = some b ∧ (b.linked = true ∨ b.zombie = true) ∧ t.Named g b
  /-- only zombies leave the registry once published -/
  stays : ∀ (i : Nat) (a : Row), t.rows[i]? = some a → a.published = true →
    a.linked = true ∨ a.zombie = true

theorem wf_empty (scopes : List ReaperScope) (h : ∀ entry ∈ scopes, entry.init = none) :
    WF { rows := [], scopes } where
  pids := by
    intro i j a b ha
    cases ha
  rank := by
    intro i a g ha
    cases ha
  plain := by
    intro i a ha
    cases ha
  bound := by
    intro i a ha
    cases ha
  inits := by
    intro s k hk
    obtain ⟨entry, hentry, hinit⟩ := bind_eq_some_iff.mp hk
    rw [h entry (List.mem_of_getElem? hentry)] at hinit
    cases hinit
  parents := by
    intro i a g ha
    cases ha
  stays := by
    intro i a ha
    cases ha

/-! ## Operations on well-formed trees -/

variable {t : Tree}

theorem Named.mono {t' : Tree} (h : t.Named i a) (hp : a.published = true → a'.published = true)
    (hs : ∀ s, t.init s = some i → t'.init s = some i) : t'.Named i a' := by
  rcases h with hpub | ⟨s, hinit⟩
  · exact .inl (hp hpub)
  · exact .inr ⟨s, hs s hinit⟩

section

variable (h : WF t)
include h

/-- A new process with older relatives and a free PID. -/
theorem WF.link
    (hpid : ∀ (i : Nat) (b : Row), t.rows[i]? = some b → b.linked = true → b.pid ≠ a.pid)
    (hunpub : a.published = false) (hplain : a.init = false → ∃ k, t.init a.scope = some k)
    (hpar : ∀ g, a.parent = some g → ∃ b, t.rows[g]? = some b ∧ b.published = true) :
    WF (t.link a) where
  pids := Lib.unique_concat h.pids hpid
  rank := by
    intro i b g hb hg
    rcases getElem?_link hb with hb | ⟨rfl, rfl⟩
    · exact h.rank i b g hb hg
    · obtain ⟨c, hc, -⟩ := hpar g hg
      exact lt_length hc
  plain := by
    intro i b hb hi
    rcases getElem?_link hb with hb | ⟨rfl, rfl⟩
    · exact h.plain i b hb hi
    obtain ⟨k, hk⟩ := hplain hi
    obtain ⟨c, hc, -⟩ := h.inits _ k hk
    exact ⟨k, hk, lt_length hc⟩
  bound := by
    intro i b hb hi hp
    rcases getElem?_link hb with hb | ⟨rfl, rfl⟩
    · exact h.bound i b hb hi hp
    · rw [hunpub] at hp
      cases hp
  inits := by
    intro s k hk
    obtain ⟨b, hb, hrest⟩ := h.inits s k hk
    exact ⟨b, getElem?_link_old hb, hrest⟩
  parents := by
    intro i b g hb hg
    rcases getElem?_link hb with hb | ⟨rfl, rfl⟩
    · obtain ⟨c, hc, hrest⟩ := h.parents i b g hb hg
      exact ⟨c, getElem?_link_old hc, hrest⟩
    · obtain ⟨c, hc, hpub⟩ := hpar g hg
      exact ⟨c, getElem?_link_old hc, h.stays g c hc hpub, .inl hpub⟩
  stays := by
    intro i b hb hp
    rcases getElem?_link hb with hb | ⟨rfl, rfl⟩
    · exact h.stays i b hb hp
    · rw [hunpub] at hp
      cases hp

/-- One row is changed, and keeps its identity. The hypotheses are about that row
only. -/
theorem WF.modify (hp : t.rows[p]? = some a)
    (hsame : (f a).pid = a.pid ∧ (f a).scope = a.scope ∧ (f a).init = a.init)
    (hlink : (f a).linked = true → a.linked = true)
    (hbound : a.init = true → (f a).published = true →
      t.init a.scope = some p ∧ ((f a).parent ≠ none → t.HasOuter a.scope p))
    (hinits : ∀ s, t.init s = some p → (f a).linked = true ∧ (f a).zombie = false)
    (hpar : ∀ g, (f a).parent = some g → g < p ∧ ∃ b, t.rows[g]? = some b ∧
      (b.linked = true ∨ b.zombie = true) ∧ t.Named g b)
    (hnamed : t.Named p a → ((f a).linked = true ∨ (f a).zombie = true) ∧
      (a.published = true → (f a).published = true))
    (hstays : (f a).published = true → (f a).linked = true ∨ (f a).zombie = true) :
    WF (t.modify p f) := by
  obtain ⟨hpid, hscope, hinit⟩ := hsame
  -- a row of the new tree is the changed one or an old one
  have hrow : ∀ (i : Nat) (b : Row), (t.modify p f).rows[i]? = some b →
      (i = p ∧ b = f a) ∨ (i ≠ p ∧ t.rows[i]? = some b) := by
    intro i b hb
    by_cases heq : p = i
    · subst heq
      exact .inl ⟨rfl, some.inj (hb.symm.trans (getElem?_modify_self hp))⟩
    · exact .inr ⟨Ne.symm heq, (getElem?_modify_ne heq).symm.trans hb⟩
  constructor
  · show ∀ (i j : Nat) (b c : Row), (t.rows.modify p f)[i]? = _ → (t.rows.modify p f)[j]? = _ → _
    rw [Lib.modify_eq_set_of_some hp]
    exact Lib.unique_set h.pids hp fun hl => ⟨hlink hl, hpid⟩
  · intro i b g hb hg
    rcases hrow i b hb with ⟨rfl, rfl⟩ | ⟨-, hb'⟩
    · exact (hpar g hg).1
    · exact h.rank i b g hb' hg
  · intro i b hb hi
    rcases hrow i b hb with ⟨rfl, rfl⟩ | ⟨-, hb'⟩
    · rw [hscope]
      exact h.plain i a hp (hinit.symm.trans hi)
    · exact h.plain i b hb' hi
  · intro i b hb hi hpub
    rcases hrow i b hb with ⟨rfl, rfl⟩ | ⟨-, hb'⟩
    · rw [hscope]
      exact hbound (hinit.symm.trans hi) hpub
    · exact h.bound i b hb' hi hpub
  · intro s k hk
    obtain ⟨b, hb, hbi, hbl, hbz⟩ := h.inits s k hk
    by_cases heq : p = k
    · subst heq
      obtain rfl := some.inj (hp.symm.trans hb)
      obtain ⟨hl, hz⟩ := hinits s hk
      exact ⟨f a, getElem?_modify_self hp, hinit.trans hbi, hl, hz⟩
    · exact ⟨b, (getElem?_modify_ne heq).trans hb, hbi, hbl, hbz⟩
  · intro i b g hb hg
    have hold : ∃ c, t.rows[g]? = some c ∧ (c.linked = true ∨ c.zombie = true) ∧ t.Named g c := by
      rcases hrow i b hb with ⟨rfl, rfl⟩ | ⟨-, hb'⟩
      · exact (hpar g hg).2
      · exact h.parents i b g hb' hg
    obtain ⟨c, hc, hcl, hcn⟩ := hold
    by_cases heq : p = g
    · subst heq
      obtain rfl := some.inj (hp.symm.trans hc)
      obtain ⟨hl, hpub⟩ := hnamed hcn
      exact ⟨f a, getElem?_modify_self hp, hl, hcn.mono hpub fun _ hs => hs⟩
    · exact ⟨c, (getElem?_modify_ne heq).trans hc, hcl, hcn⟩
  · intro i b hb hpub
    rcases hrow i b hb with ⟨rfl, rfl⟩ | ⟨-, hb'⟩
    · exact hstays hpub
    · exact h.stays i b hb' hpub

/-- A zombie, or a process nothing can name, leaves the registry. -/
theorem WF.unlink (hp : t.rows[p]? = some a) (hgone : a.zombie = true ∨ ¬ t.Named p a) :
    WF (t.unlink p) := by
  refine h.modify hp ⟨rfl, rfl, rfl⟩ ?_ (h.bound p a hp) ?_ ?_ ?_ ?_
  · intro hfalse
    cases hfalse
  · intro s hs
    obtain ⟨b, hb, -, -, hzombie⟩ := h.inits s p hs
    obtain rfl := some.inj (hp.symm.trans hb)
    rcases hgone with hz | hn
    · rw [hz] at hzombie
      cases hzombie
    · exact absurd (.inr ⟨s, hs⟩) hn
  · intro g hg
    exact ⟨h.rank p a g hp hg, h.parents p a g hp hg⟩
  · intro hnamed
    rcases hgone with hz | hn
    · exact ⟨.inr hz, id⟩
    · exact absurd hnamed hn
  · intro hpub
    rcases hgone with hz | hn
    · exact .inr hz
    · exact absurd (.inl hpub) hn

/-- A registered process is published; an init must be bound. -/
theorem WF.publish (hp : t.rows[p]? = some a) (hlink : a.linked = true)
    (hbound : a.init = true → t.init a.scope = some p ∧ (a.parent ≠ none → t.HasOuter a.scope p)) :
    WF (t.publish p) := by
  refine h.modify hp ⟨rfl, rfl, rfl⟩ id (fun hi _ => hbound hi) ?_ ?_ ?_ ?_
  · intro s hs
    obtain ⟨b, hb, -, hl, hz⟩ := h.inits s p hs
    obtain rfl := some.inj (hp.symm.trans hb)
    exact ⟨hl, hz⟩
  · intro g hg
    exact ⟨h.rank p a g hp hg, h.parents p a g hp hg⟩
  · intro _
    exact ⟨.inl hlink, fun _ => rfl⟩
  · intro _
    exact .inl hlink

/-- A process that is no init becomes a zombie. -/
theorem WF.setZombie (hp : t.rows[p]? = some a) (hinit : a.init = false) : WF (t.setZombie p) := by
  refine h.modify hp ⟨rfl, rfl, rfl⟩ id (h.bound p a hp) ?_ ?_ ?_ ?_
  · intro s hs
    obtain ⟨b, hb, hi, -⟩ := h.inits s p hs
    obtain rfl := some.inj (hp.symm.trans hb)
    rw [hinit] at hi
    cases hi
  · intro g hg
    exact ⟨h.rank p a g hp hg, h.parents p a g hp hg⟩
  · intro _
    exact ⟨.inr rfl, id⟩
  · intro _
    exact .inr rfl

/-- A child gets an older parent that is registered. -/
theorem WF.move (hchild : t.rows[child]? = some a) (hpar : a.parent ≠ none)
    (hlt : reaper < child) (hreap : t.rows[reaper]? = some b) (hlink : b.linked = true)
    (hnamed : t.Named reaper b) : WF (t.move child reaper) := by
  refine h.modify hchild ⟨rfl, rfl, rfl⟩ id ?_ ?_ ?_ ?_ (h.stays child a hchild)
  · intro hi hpub
    obtain ⟨hinit, houter⟩ := h.bound child a hchild hi hpub
    exact ⟨hinit, fun _ => houter hpar⟩
  · intro s hs
    obtain ⟨c, hc, -, hl, hz⟩ := h.inits s child hs
    obtain rfl := some.inj (hchild.symm.trans hc)
    exact ⟨hl, hz⟩
  · intro g hg
    obtain rfl := some.inj hg
    exact ⟨hlt, b, hreap, .inl hlink, hnamed⟩
  · intro hn
    refine ⟨?_, id⟩
    rcases hn with hpub | ⟨s, hs⟩
    · exact h.stays child a hchild hpub
    obtain ⟨c, hc, -, hl, -⟩ := h.inits s child hs
    obtain rfl := some.inj (hchild.symm.trans hc)
    exact .inl hl

/-- Scopes gain inits and outer scopes, and lose none. -/
theorem WF.rescope (hrows : t'.rows = t.rows)
    (hkeep : ∀ s k, t.init s = some k → t'.init s = some k)
    (houter : ∀ s o, t.outer s = some o → t'.outer s = some o)
    (hinits : ∀ s k, t'.init s = some k → t.init s = some k ∨
      ∃ a, t.rows[k]? = some a ∧ a.init = true ∧ a.linked = true ∧ a.zombie = false) : WF t' := by
  constructor <;> rw [hrows]
  · exact h.pids
  · exact h.rank
  · intro i b hb hi
    obtain ⟨k, hk, hlt⟩ := h.plain i b hb hi
    exact ⟨k, hkeep _ k hk, hlt⟩
  · intro i b hb hi hpub
    obtain ⟨hk, hrest⟩ := h.bound i b hb hi hpub
    refine ⟨hkeep _ i hk, ?_⟩
    intro hne
    obtain ⟨o, m, ho, hm, hlt⟩ := hrest hne
    exact ⟨o, m, houter _ o ho, hkeep o m hm, hlt⟩
  · intro s k hk
    exact (hinits s k hk).elim (h.inits s k) id
  · intro i b g hb hg
    obtain ⟨c, hc, hstays, hn⟩ := h.parents i b g hb hg
    exact ⟨c, hc, hstays, hn.mono id fun s hs => hkeep s g hs⟩
  · exact h.stays

/-- A scope without an init gets one. -/
theorem WF.setInit (hs : s < t.scopes.length) (hnone : t.init s = none) (hp : t.rows[p]? = some a)
    (hinit : a.init = true) (hlink : a.linked = true) (hzombie : a.zombie = false) :
    WF (t.setInit s p) := by
  refine h.rescope rfl ?_ (fun s' o => (outer_setInit t s p s').trans) ?_
  · intro s' k hk
    rw [init_setInit hs]
    by_cases heq : s = s'
    · rw [heq, hk] at hnone
      cases hnone
    · rw [if_neg heq]
      exact hk
  · intro s' k hk
    rw [init_setInit hs] at hk
    split at hk
    · obtain rfl := some.inj hk
      exact .inr ⟨a, hp, hinit, hlink, hzombie⟩
    · exact .inl hk

/-- A scope without an init is added. -/
theorem WF.addScope (hentry : entry.init = none) : WF { t with scopes := t.scopes ++ [entry] } := by
  refine h.rescope rfl (fun s k => (init_addScope hentry s).trans) ?_
    fun s k hk => .inl ((init_addScope hentry s).symm.trans hk)
  intro s o ho
  obtain ⟨e, he, -⟩ := bind_eq_some_iff.mp ho
  unfold Tree.outer
  rw [List.getElem?_append_left (Lib.lt_of_getElem? he)]
  exact ho

/-- The outer scope of a scope whose init is not yet published. -/
theorem WF.setOuter (hs : t.init s = some p) (hp : t.rows[p]? = some a)
    (hunpub : a.published = false) : WF (t.setOuter s o) := by
  have hinit : ∀ s', (t.setOuter s o).init s' = t.init s' := init_setOuter t s o
  constructor
  · exact h.pids
  · exact h.rank
  · intro i b hb hi
    rw [hinit]
    exact h.plain i b hb hi
  · intro i b hb hi hpub
    rw [hinit]
    obtain ⟨hk, houter⟩ := h.bound i b hb hi hpub
    refine ⟨hk, ?_⟩
    intro hne
    obtain ⟨o', m, ho, hm, hlt⟩ := houter hne
    have hscope : s ≠ b.scope := by
      intro heq
      subst heq
      obtain rfl := some.inj (hs.symm.trans hk)
      obtain rfl := some.inj (hp.symm.trans hb)
      rw [hunpub] at hpub
      cases hpub
    refine ⟨o', m, ?_, (hinit o').trans hm, hlt⟩
    rw [outer_setOuter (lt_scopes hs), if_neg hscope]
    exact ho
  · intro s' k hk
    rw [hinit] at hk
    exact h.inits s' k hk
  · intro i b g hb hg
    obtain ⟨c, hc, hstays, hn⟩ := h.parents i b g hb hg
    exact ⟨c, hc, hstays, hn.mono id fun s' hs' => (hinit s').trans hs'⟩
  · exact h.stays

end

end Tree

end LinuxAbi.Proc
