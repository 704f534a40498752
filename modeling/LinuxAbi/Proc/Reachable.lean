import LinuxAbi.Proc.CallMoves

/-!
# Reachable states

`Domain.WF` holds initially and every move keeps it: the tree stays well formed because
each operation on it is covered by the claim it consumes, and a claim stays true because
nobody but its owner touches an unpublished process.
-/

namespace LinuxAbi.Proc

open Proc.Tree
open Nat
open Option
open List

/-! ## What never changes back -/

/-- The same process at a later time. -/
structure Row.Later (a b : Row) : Prop where
  pid : b.pid = a.pid
  scope : b.scope = a.scope
  init : b.init = a.init
  published : a.published = true → b.published = true
  zombie : a.zombie = true → b.zombie = true

theorem Row.Later.refl (a : Row) : a.Later a := ⟨rfl, rfl, rfl, id, id⟩

namespace Tree

variable {t t' : Tree}

/-- No process is lost. -/
def Later (t t' : Tree) : Prop :=
  ∀ (i : Nat) (a : Row), t.rows[i]? = some a → ∃ b, t'.rows[i]? = some b ∧ a.Later b

theorem Later.of_rows (h : t'.rows = t.rows) : t.Later t' := by
  intro i a ha
  rw [← h] at ha
  exact ⟨a, ha, .refl a⟩

theorem later_modify (t : Tree) (p : Nat) (hf : ∀ a : Row, a.Later (f a)) :
    t.Later (t.modify p f) := by
  intro i a ha
  by_cases heq : p = i
  · subst heq
    exact ⟨f a, getElem?_modify_self ha, hf a⟩
  · exact ⟨a, (getElem?_modify_ne heq).trans ha, .refl a⟩

theorem later_link (t : Tree) (a : Row) : t.Later (t.link a) := by
  intro i b hb
  exact ⟨b, getElem?_link_old hb, .refl b⟩

end Tree

/-! ## Claims stay true -/

variable {t : Tree} {c : Claim} {p : Nat} {claims : Multiset Claim}

section

variable (h : c.OK t)
include h

/-- A claim's process exists, and is not published. -/
theorem Claim.OK.unpublished (howner : c.owner = some p) :
    ∃ a, t.rows[p]? = some a ∧ a.published = false := by
  cases c with
  | initIn | fork | alloc | seen | exit => cases howner
  | fresh | scopeInit | binding | bound | root =>
    cases howner
    obtain ⟨a, ⟨hrow, hpub, -⟩, -⟩ := h
    exact ⟨a, hrow, hpub⟩
  | doomed =>
    cases howner
    obtain ⟨a, hrow, hnamed⟩ := h
    exact ⟨a, hrow, Bool.eq_false_iff.mpr fun hpub => hnamed (.inl hpub)⟩

/-- A claim survives a change that leaves its own process and the scopes bound to it
alone. -/
theorem Claim.OK.frame (hlater : t.Later t') (hscopes : t.scopes.length ≤ t'.scopes.length)
    (hinit : ∀ s k, t.init s = some k → t'.init s = some k)
    (hrow : ∀ p, c.owner = some p → t'.rows[p]? = t.rows[p]?)
    (hfree : ∀ p s, c.owner = some p → t'.init s = some p → t.init s = some p)
    (houter : ∀ p s, c.owner = some p → t.init s = some p → t'.outer s = t.outer s) : c.OK t' := by
  have hunpub : ∀ p a, c.owner = some p → t.Unpublished p a → t'.Unpublished p a := by
    intro p a howner ⟨hp, hrest⟩
    exact ⟨(hrow p howner).trans hp, hrest⟩
  have hmayFork : ∀ parent scope init, t.MayFork parent scope init →
      t'.MayFork parent scope init := by
    intro parent scope init ⟨⟨a, ha, hpub⟩, hscope, hplain⟩
    obtain ⟨b, hb, hab⟩ := hlater parent a ha
    refine ⟨⟨b, hb, hab.published hpub⟩, lt_of_lt_of_le hscope hscopes, ?_⟩
    intro hi
    obtain ⟨k, hk⟩ := hplain hi
    exact ⟨k, hinit scope k hk⟩
  cases c with
  | initIn s => exact lt_of_lt_of_le h hscopes
  | fork parent scope init => exact hmayFork parent scope init h
  | alloc new =>
    obtain ⟨parent, hpar, hfork⟩ := h
    exact ⟨parent, hpar, hmayFork _ _ _ hfork⟩
  | fresh p =>
    obtain ⟨a, ha, hi⟩ := h
    exact ⟨a, hunpub p a rfl ha, hi⟩
  | scopeInit p scope outer =>
    obtain ⟨a, ha, hi, hz, hs, hlt, hunbound, m, hm, hmp⟩ := h
    exact ⟨a, hunpub p a rfl ha, hi, hz, hs, lt_of_lt_of_le hlt hscopes,
      fun s hs => hunbound s (hfree p s rfl hs), m, hinit outer m hm, hmp⟩
  | binding p scope outer =>
    obtain ⟨a, ha, hi, hs, hbound, m, hm, hmp⟩ := h
    exact ⟨a, hunpub p a rfl ha, hi, hs, hinit scope p hbound, m, hinit outer m hm, hmp⟩
  | bound p =>
    obtain ⟨a, ha, hi, hbound, o, m, ho, hm, hmp⟩ := h
    exact ⟨a, hunpub p a rfl ha, hi, hinit _ p hbound, o, m,
      (houter p _ rfl hbound).trans ho, hinit o m hm, hmp⟩
  | root scope p =>
    obtain ⟨a, ha, hi, hz, hs, hpar, hlt, hunbound⟩ := h
    exact ⟨a, hunpub p a rfl ha, hi, hz, hs, hpar, lt_of_lt_of_le hlt hscopes,
      fun s hs => hunbound s (hfree p s rfl hs)⟩
  | doomed p =>
    obtain ⟨a, ha, hnamed⟩ := h
    refine ⟨a, (hrow p rfl).trans ha, ?_⟩
    intro hnamed'
    refine hnamed (hnamed'.mono id ?_)
    intro s hs
    exact hfree p s rfl hs
  | seen p =>
    obtain ⟨a, ha, hpub⟩ := h
    obtain ⟨b, hb, hab⟩ := hlater p a ha
    exact ⟨b, hb, hab.published hpub⟩
  | exit p =>
    obtain ⟨a, ha, hpub, hi⟩ := h
    obtain ⟨b, hb, hab⟩ := hlater p a ha
    exact ⟨b, hb, hab.published hpub, hab.init.trans hi⟩

/-- A claim survives a change of another process. -/
theorem Claim.OK.modify (hf : ∀ a : Row, a.Later (f a)) (hother : c.owner ≠ some p) :
    c.OK (t.modify p f) := by
  refine h.frame (t.later_modify p hf) (le_refl _) (fun _ _ hs => hs) ?_
    (fun _ _ _ hs => hs) (fun _ _ _ _ => rfl)
  intro q hq
  refine getElem?_modify_ne ?_
  intro heq
  exact hother (hq.trans (congrArg some heq.symm))

theorem Claim.OK.link (a : Row) : c.OK (t.link a) := by
  refine h.frame (t.later_link a) (le_refl _) (fun _ _ hs => hs) ?_ (fun _ _ _ hs => hs)
    (fun _ _ _ _ => rfl)
  intro p hp
  obtain ⟨b, hb, -⟩ := h.unpublished hp
  rw [hb]
  exact getElem?_link_old hb

theorem Claim.OK.setInit (hs : s < t.scopes.length) (hfree : t.init s = none)
    (hother : c.owner ≠ some p) : c.OK (t.setInit s p) := by
  refine h.frame (.of_rows rfl) (le_of_eq (length_modify ..).symm) ?_ (fun _ _ => rfl) ?_
    (fun _ _ _ _ => outer_setInit ..)
  · intro s' k hk
    rw [init_setInit hs, if_neg]
    · exact hk
    · rintro rfl
      rw [hfree] at hk
      cases hk
  · intro q s' hq hs'
    rw [init_setInit hs] at hs'
    split at hs'
    · exact absurd (hq.trans hs'.symm) hother
    · exact hs'

theorem Claim.OK.setOuter (hs : t.init s = some p) (hother : c.owner ≠ some p) :
    c.OK (t.setOuter s o) := by
  refine h.frame (.of_rows rfl) (le_of_eq (length_modify ..).symm) ?_ (fun _ _ => rfl) ?_ ?_
  · intro s' k hk
    rw [init_setOuter]
    exact hk
  · intro q s' _ hs'
    rw [init_setOuter] at hs'
    exact hs'
  · intro q s' hq hs'
    rw [outer_setOuter (lt_scopes hs), if_neg]
    rintro rfl
    exact hother (hq.trans (hs'.symm.trans hs))

theorem Claim.OK.addScope :
    c.OK { t with scopes := t.scopes ++ [{ init := none, outerScope := none }] } := by
  have hinit : ∀ s, init { t with scopes := t.scopes ++ [⟨none, none⟩] } s = t.init s :=
    init_addScope rfl
  refine h.frame (.of_rows rfl) ?_ (fun s k hk => (hinit s).trans hk) (fun _ _ => rfl)
    (fun p s _ hs => (hinit s).symm.trans hs) ?_
  · change _ ≤ (t.scopes ++ _).length
    rw [length_append]
    exact Nat.le_add_right ..
  · intro p s _ hs
    unfold outer
    rw [getElem?_append_left (lt_scopes hs)]

end

/-! ## Owners -/

theorem mem_owners (hc : c ∈ claims) (hp : c.owner = some p) : p ∈ owners claims :=
  (Multiset.mem_filterMap _ _).mpr ⟨c, hc, hp⟩

theorem owners_singleton (hp : c.owner = some p) : owners {c} = {p} := by
  unfold owners
  rw [← Multiset.cons_zero, Multiset.filterMap_cons_some _ _ _ hp]
  rfl

/-- Whoever gives up a claim was its only owner. -/
theorem owner_ne_of_nodup (hnodup : (owners claims).Nodup)
    (hcls : rest + {old} = claims) (hp : old.owner = some p) : ∀ c ∈ rest, c.owner ≠ some p := by
  intro c hc hcp
  rw [← hcls, owners_add, owners_singleton hp] at hnodup
  exact Multiset.disjoint_left.mp (Multiset.nodup_add.mp hnodup).2.2 (mem_owners hc hcp)
    (Multiset.mem_singleton_self p)

/-! ## Events of a step -/

theorem Dull.not_moved {events : List ProcessEvent} (h : Dull events) {k q c r : Nat} :
    ProcessEvent.moved k q c r z ∉ events := by
  intro hmem
  cases h _ hmem

theorem Dull.not_moved_zombie {asserts : List ProcessEvent} (h : Dull asserts) {np : Option Nat}
    {k q c r : Nat} : ProcessEvent.moved k q c r z ∉ asserts ++ [.zombie p np] := by
  intro hmem
  rcases Lib.mem_concat_cases hmem with hl | ⟨⟨⟩⟩
  exact h.not_moved hl

/-- The hand of the exit commit that an event belongs to. -/
def ProcessEvent.hand? : ProcessEvent → Option Nat
  | .moved h .. | .batch h .. | .inherited h .. | .returned h .. => some h
  | .zombie .. | .panicked _ | .endless => none

/-- No event belongs to the hand. -/
def Unheard (k : Nat) (events : List ProcessEvent) : Prop := ∀ e ∈ events, e.hand? ≠ some k

theorem Dull.unheard (h : Dull events) (k : Nat) : Unheard k events := by
  intro e he
  cases e with
  | panicked | zombie | endless => exact nofun
  | moved | batch | inherited | returned => cases h _ he

namespace Domain

variable {Z : Type} {d d' : Domain Z} {events : List ProcessEvent}

section Stage

variable {h p : Nat} {np : Option Nat} {stage : ExitStage} {stage' : Option ExitStage}
  {topology : Option Nat}

/-- The events of a step that moves nothing. -/
theorem StageStep.event_cases (hs : StageStep d h p np stage events stage' topology)
    (he : e ∈ events) :
    (e = .returned h p np ∧ stage' = none) ∨
      (∃ scan handed, e = .batch h p handed ∧ stage = .batch scan handed) ∨
      ∃ scan handed child zombies, e = .inherited h p child ∧
        stage = .inherited scan handed (child :: zombies) := by
  have hscan : ∀ {scan current topology}, Scanned h p np scan current events stage' topology →
      e = .returned h p np ∧ stage' = none := by
    intro scan current topology hscan
    rcases hscan.spec with ⟨rfl, -⟩ | ⟨-, -, rfl, hnone⟩
    · cases he
    · exact ⟨mem_singleton.mp he, hnone⟩
  cases hs with
  | release | start | lock => cases he
  | finish _ hover | defer _ _ hover => exact .inl (hscan (.ended hover))
  | skip _ _ _ hs => exact .inl (hscan hs)
  | batch scan handed => exact .inr (.inl ⟨scan, handed, mem_singleton.mp he, rfl⟩)
  | inherit scan handed child zombies =>
    exact .inr (.inr ⟨scan, handed, child, zombies, mem_singleton.mp he, rfl⟩)
  | round _ _ hround =>
    rcases hround.spec with ⟨-, rfl, -⟩ | ⟨-, rfl, hnone⟩
    · cases he
    · exact .inl ⟨mem_singleton.mp he, hnone⟩

theorem StageStep.hand_eq (hs : StageStep d h p np stage events stage' topology)
    (he : e ∈ events) : e.hand? = some h := by
  rcases hs.event_cases he with ⟨rfl, -⟩ | ⟨_, _, rfl, -⟩ | ⟨_, _, _, _, rfl, -⟩
  all_goals rfl

theorem StageStep.not_moved (hs : StageStep d h p np stage events stage' topology) :
    ProcessEvent.moved k q child r z ∉ events := by
  intro hmem
  rcases hs.event_cases hmem with ⟨heq, -⟩ | ⟨_, _, heq, -⟩ | ⟨_, _, _, _, heq, -⟩
  all_goals cases heq

end Stage

/-! ## One process -/

/-- What a move can do to one process. -/
structure RowStep (t : Tree) (events : List ProcessEvent) (c : Nat) (a b : Row) : Prop where
  later : a.Later b
  linked : b.linked = true → a.linked = true
  zombie : b.zombie = true → a.zombie = true ∨ ∃ notificationParent,
    ProcessEvent.zombie c notificationParent ∈ events
  parent : (b.parent = a.parent ∧ ∀ k q r z, ProcessEvent.moved k q c r z ∉ events) ∨
    ∃ k q r, ProcessEvent.moved k q c r a.zombie ∈ events ∧ a.published = true ∧
      a.parent = some q ∧ b.parent = some r ∧ FitReaper t c r

variable {c p k : Nat} {a : Row} {np : Option Nat}
  {scan : ExitScan} {current : ReparentSection}

theorem RowStep.same (a : Row)
    (hmoved : ∀ k q r z, ProcessEvent.moved k q c r z ∉ events) : RowStep t events c a a :=
  ⟨.refl a, id, .inl, .inl ⟨rfl, hmoved⟩⟩

/-- One process is changed and the others are not. -/
theorem rowStep_modify (ha : t.rows[c]? = some a) (hself : c = q → RowStep t events c a (f a))
    (hmoved : c ≠ q → ∀ k p r z, ProcessEvent.moved k p c r z ∉ events) :
    ∃ b, (t.modify q f).rows[c]? = some b ∧ RowStep t events c a b := by
  by_cases heq : c = q
  · subst heq
    exact ⟨f a, getElem?_modify_self ha, hself rfl⟩
  · exact ⟨a, (getElem?_modify_ne (Ne.symm heq)).trans ha, .same a (hmoved heq)⟩

theorem TreeStep.row_step (h : TreeStep t lost gained t') (dull : Dull events)
    (ha : t.rows[c]? = some a) : ∃ b, t'.rows[c]? = some b ∧ RowStep t events c a b := by
  have hquiet : ∀ k q r z, ProcessEvent.moved k q c r z ∉ events := fun _ _ _ _ => dull.not_moved
  cases h with
  | hands | addScope | bind | setOuter => exact ⟨a, ha, .same a hquiet⟩
  | link => exact ⟨a, getElem?_link_old ha, .same a hquiet⟩
  | unlink | reap =>
    refine rowStep_modify ha ?_ fun _ => hquiet
    exact fun _ => ⟨⟨rfl, rfl, rfl, id, id⟩, nofun, .inl, .inl ⟨rfl, hquiet⟩⟩
  | publish | publishInit =>
    refine rowStep_modify ha ?_ fun _ => hquiet
    exact fun _ => ⟨⟨rfl, rfl, rfl, fun _ => rfl, id⟩, id, .inl, .inl ⟨rfl, hquiet⟩⟩

theorem Move.row_step (h : Move d events d') (ha : d.tree.rows[c]? = some a) :
    ∃ b, d'.tree.rows[c]? = some b ∧ RowStep d.tree events c a b := by
  cases h with
  | quiet _ tree step dull =>
    rw [tree]
    exact step.row_step dull ha
  | stage _ _ _ _ step tree =>
    rw [tree]
    exact ⟨a, ha, .same a fun _ _ _ _ => step.not_moved⟩
  | zombie h q departing dull _ tree =>
    rw [tree]
    refine rowStep_modify ha ?_ fun _ _ _ _ _ => dull.not_moved_zombie
    rintro rfl
    refine ⟨⟨rfl, rfl, rfl, id, fun _ => rfl⟩, id, ?_,
      .inl ⟨rfl, fun _ _ _ _ => dull.not_moved_zombie⟩⟩
    intro _
    exact .inr ⟨_, mem_append.mpr (.inr (mem_singleton_self _))⟩
  | moved h q np old next row published parent due fit batch step tree =>
    rw [tree]
    refine rowStep_modify ha ?_ ?_
    · rintro rfl
      obtain rfl := some.inj (row.symm.trans ha)
      exact ⟨⟨rfl, rfl, rfl, id, id⟩, id, .inl,
        .inr ⟨h, q, _, mem_cons_self, published, parent, rfl, fit⟩⟩
    · intro hne k q' r z hmem
      cases mem_singleton.mp hmem
      exact hne rfl

/-- A process after a move was there before it, or is new. -/
theorem Move.row_origin (h : Move d events d') (hb : d'.tree.rows[c]? = some b) :
    (∃ a, d.tree.rows[c]? = some a ∧ RowStep d.tree events c a b) ∨
      (d.tree.rows.length = c ∧ b.published = false ∧ b.zombie = false) := by
  have hstep : (∃ a, d.tree.rows[c]? = some a) →
      ∃ a, d.tree.rows[c]? = some a ∧ RowStep d.tree events c a b := by
    intro hold
    obtain ⟨a, ha⟩ := hold
    obtain ⟨b', hb', hab⟩ := h.row_step ha
    obtain rfl := some.inj (hb.symm.trans hb')
    exact ⟨a, ha, hab⟩
  have hrows : d'.tree.rows.length = d.tree.rows.length → ∃ a, d.tree.rows[c]? = some a := by
    intro hlen
    have hlt := lt_length hb
    rw [hlen] at hlt
    exact ⟨_, getElem?_eq_getElem hlt⟩
  cases h with
  | quiet _ tree step =>
    have hlen := congrArg (·.rows.length) tree
    cases step with
    | link a _ _ _ state =>
      rw [tree] at hb
      rcases getElem?_link hb with hold | ⟨rfl, rfl⟩
      · exact .inl (hstep ⟨b, hold⟩)
      · exact .inr ⟨rfl, state.1, state.2.2⟩
    | hands | addScope | bind | setOuter => exact .inl (hstep (hrows hlen))
    | unlink | reap | publish | publishInit =>
      exact .inl (hstep (hrows (hlen.trans (length_modify ..))))
  | stage _ _ _ _ _ tree => exact .inl (hstep (hrows (by rw [tree])))
  | zombie _ q _ _ _ tree | moved _ q _ _ _ _ _ _ _ _ _ _ tree =>
    exact .inl (hstep (hrows (by rw [tree]; exact length_modify ..)))

theorem Move.later (h : Move d events d') : d.tree.Later d'.tree := by
  intro c a ha
  obtain ⟨b, hb, hab⟩ := h.row_step ha
  exact ⟨b, hb, hab.later⟩

/-! ## One move -/

/-- The claim given up by a move was true. -/
theorem WF.given (hwf : d.WF) {rest : Multiset Claim} {c : Claim} (h : rest + {c} = d.claims) :
    c.OK d.tree := by
  refine hwf.claims c ?_
  rw [← h]
  exact Multiset.mem_add.mpr (.inr (Multiset.mem_singleton_self c))

/-- The claims of processes that are published already. -/
theorem WF.owner_ne (hwf : d.WF) {c : Claim} (hc : c ∈ d.claims) (hp : d.tree.rows[p]? = some a)
    (hpub : a.published = true) : c.owner ≠ some p := by
  intro howner
  obtain ⟨b, hb, hunpub⟩ := (hwf.claims c hc).unpublished howner
  obtain rfl := some.inj (hp.symm.trans hb)
  rw [hpub] at hunpub
  cases hunpub

theorem Move.tree_wf (hwf : d.WF) (h : Move d events d') : d'.tree.WF := by
  cases h with
  | quiet swap tree step =>
    obtain ⟨rest, hbef, -⟩ := swap.claims
    rw [tree]
    cases step with
    | hands => exact hwf.tree
    | addScope => exact hwf.tree.addScope rfl
    | link a _ _ pid state plain parent => exact hwf.tree.link pid state.1 plain parent
    | unlink p =>
      obtain ⟨a, ha, hnamed⟩ := hwf.given hbef
      exact hwf.tree.unlink ha (.inr hnamed)
    | publish p token claim =>
      have hok := hwf.given hbef
      rcases claim with rfl | rfl
      · obtain ⟨a, ⟨ha, -, hlink⟩, hi⟩ := hok
        refine hwf.tree.publish ha hlink ?_
        intro hi'
        rw [hi] at hi'
        cases hi'
      · obtain ⟨a, ⟨ha, -, hlink⟩, -, hbound, houter⟩ := hok
        exact hwf.tree.publish ha hlink fun _ => ⟨hbound, fun _ => houter⟩
    | publishInit scope p free =>
      obtain ⟨a, ⟨ha, -, hlink⟩, hi, hz, rfl, hpar, hlt, -⟩ := hwf.given hbef
      -- the scope is bound first, as far as the tree is concerned
      have hbound := hwf.tree.setInit hlt free ha hi hlink hz
      exact hbound.publish (t := d.tree.setInit a.scope p) ha hlink fun _ =>
        ⟨by rw [init_setInit hlt, if_pos rfl], fun hne => absurd hpar hne⟩
    | bind p scope outer free =>
      obtain ⟨a, ⟨ha, -, hlink⟩, hi, hz, -, hlt, -⟩ := hwf.given hbef
      exact hwf.tree.setInit hlt free ha hi hlink hz
    | setOuter p scope outer =>
      obtain ⟨a, ⟨ha, hpub, -⟩, -, -, hbound, -⟩ := hwf.given hbef
      exact hwf.tree.setOuter hbound ha hpub
    | reap p a row zombie => exact hwf.tree.unlink row (.inl zombie)
  | stage _ _ _ _ _ tree =>
    rw [tree]
    exact hwf.tree
  | zombie h p departing _ _ tree _ _ claims =>
    obtain ⟨a, ha, -, hi⟩ := hwf.given claims
    rw [tree]
    exact hwf.tree.setZombie ha hi
  | moved h p np _ _ row _ parent _ fit _ _ tree =>
    obtain ⟨b, hb, hlink, -, hnamed⟩ := fit.row
    rw [tree]
    refine hwf.tree.move row ?_ fit.lt hb hlink hnamed
    rw [parent]
    exact some_ne_none p

theorem Move.claims_ok (hwf : d.WF) (h : Move d events d') : ∀ c ∈ d'.claims, c.OK d'.tree := by
  intro c hc
  cases h with
  | quiet swap tree step =>
    obtain ⟨rest, hbef, hafter⟩ := swap.claims
    rw [tree]
    rw [← hafter] at hc
    rcases Multiset.mem_add.mp hc with hrest | hnew
    · -- a claim that stays where it is
      have hold : c ∈ d.claims := by
        rw [← hbef]
        exact Multiset.mem_add.mpr (.inl hrest)
      have hok := hwf.claims c hold
      cases step with
      | hands => exact hok
      | addScope => exact hok.addScope
      | link a => exact hok.link a
      | unlink p =>
        exact hok.modify (fun a => ⟨rfl, rfl, rfl, id, id⟩)
          (owner_ne_of_nodup hwf.owners hbef rfl c hrest)
      | publish p token claim =>
        have howner : token.owner = some p := by
          rcases claim with rfl | rfl
          · rfl
          · rfl
        exact hok.modify (fun a => ⟨rfl, rfl, rfl, fun _ => rfl, id⟩)
          (owner_ne_of_nodup hwf.owners hbef howner c hrest)
      | publishInit scope p free =>
        obtain ⟨a, -, -, -, -, -, hlt, -⟩ := hwf.given hbef
        have hother := owner_ne_of_nodup hwf.owners hbef rfl c hrest
        have hok' : c.OK (d.tree.publish p) :=
          hok.modify (fun a => ⟨rfl, rfl, rfl, fun _ => rfl, id⟩) hother
        exact hok'.setInit hlt free hother
      | bind p scope outer free =>
        obtain ⟨a, -, -, -, -, hlt, -⟩ := hwf.given hbef
        exact hok.setInit hlt free (owner_ne_of_nodup hwf.owners hbef rfl c hrest)
      | setOuter p scope outer =>
        obtain ⟨a, -, -, -, hbound, -⟩ := hwf.given hbef
        exact hok.setOuter hbound (owner_ne_of_nodup hwf.owners hbef rfl c hrest)
      | reap p a row _ published =>
        exact hok.modify (fun a => ⟨rfl, rfl, rfl, id, id⟩) (hwf.owner_ne hold row published)
    · -- a claim that is new
      cases step with
      | hands _ _ ok => exact ok c hnew
      | link a _ token _ _ _ _ ok =>
        rw [Multiset.mem_singleton.mp hnew]
        exact ok
      | bind p scope outer free =>
        obtain ⟨a, ha, hi, hz, hs, hlt, -, m, hm, hmp⟩ := hwf.given hbef
        rw [Multiset.mem_singleton.mp hnew]
        refine ⟨a, ha, hi, hs, by rw [init_setInit hlt, if_pos rfl], m, ?_, hmp⟩
        rw [init_setInit hlt, if_neg]
        · exact hm
        · rintro rfl
          rw [free] at hm
          cases hm
      | setOuter p scope outer =>
        obtain ⟨a, ha, hi, rfl, hbound, m, hm, hmp⟩ := hwf.given hbef
        rw [Multiset.mem_singleton.mp hnew]
        refine ⟨a, ha, hi, (init_setOuter ..).trans hbound, outer, m, ?_,
          (init_setOuter ..).trans hm, hmp⟩
        rw [outer_setOuter (lt_scopes hbound), if_pos rfl]
      | _ => exact absurd hnew (Multiset.notMem_zero c)
  | moved _ _ _ _ _ row published _ _ _ _ _ tree _ claims =>
    rw [claims] at hc
    rw [tree]
    exact (hwf.claims c hc).modify (fun a => ⟨rfl, rfl, rfl, id, id⟩)
      (hwf.owner_ne hc row published)
  | zombie h p departing _ _ tree _ _ claims =>
    obtain ⟨a, ha, hpub, -⟩ := hwf.given claims
    have hc' : c ∈ d.claims := by
      rw [← claims]
      exact Multiset.mem_add.mpr (.inl hc)
    rw [tree]
    exact (hwf.claims c hc').modify (fun a => ⟨rfl, rfl, rfl, id, fun _ => rfl⟩)
      (hwf.owner_ne hc' ha hpub)
  | stage h p np _ _ tree _ claims =>
    rw [claims] at hc
    rw [tree]
    exact hwf.claims c hc

theorem Move.owners_nodup (hwf : d.WF) (h : Move d events d') : (owners d'.claims).Nodup := by
  have hnodup := hwf.owners
  cases h with
  | quiet swap _ step =>
    obtain ⟨rest, hbef, hafter⟩ := swap.claims
    rw [← hbef, owners_add] at hnodup
    rw [← hafter, owners_add]
    cases step with
    | hands _ _ _ owned => exact Multiset.nodup_of_le (add_le_add_right owned _) hnodup
    | link a _ token _ _ _ _ _ owner =>
      -- the new process is nobody's yet
      have hfresh : d.tree.rows.length ∉ owners rest := by
        intro hmem
        obtain ⟨c, hc, hp⟩ := (Multiset.mem_filterMap _ _).mp hmem
        have hold : c ∈ d.claims := by
          rw [← hbef]
          exact Multiset.mem_add.mpr (.inl hc)
        obtain ⟨b, hb, -⟩ := (hwf.claims c hold).unpublished hp
        exact absurd (lt_length hb) (lt_irrefl _)
      rw [owners_singleton owner]
      exact Multiset.nodup_add.mpr ⟨(Multiset.nodup_add.mp hnodup).1, Multiset.nodup_singleton _,
        Multiset.disjoint_singleton.mpr hfresh⟩
    | unlink | publish | publishInit =>
      exact Multiset.nodup_of_le (add_le_add_right (Multiset.zero_le _) _) hnodup
    | addScope | bind | setOuter | reap => exact hnodup
  | zombie _ _ _ _ _ _ _ _ claims =>
    rw [← claims, owners_add] at hnodup
    exact (Multiset.nodup_add.mp hnodup).1
  | stage _ _ _ _ _ _ _ claims | moved _ _ _ _ _ _ _ _ _ _ _ _ _ _ claims =>
    rw [claims]
    exact hnodup

/-- What a move does to the exit commit in one hand. -/
inductive ExitMove (d : Domain Z) (k : Nat) : List ProcessEvent → Domain Z → Prop
  | same {events : List ProcessEvent} {d' : Domain Z} (exit : d'.exitAt k = d.exitAt k)
      (unheard : Unheard k events) : ExitMove d k events d'
  | begins {events : List ProcessEvent} {d' : Domain Z} (p : Nat) (departing : Option ThreadNode)
      (old : d.exitAt k = none) (tree : d'.tree = d.tree.setZombie p)
      (claims : d'.claims + {.exit p} = d.claims)
      (event : .zombie p (d.upgrade (d.parentOf p)) ∈ events)
      (exit : d'.exitAt k = some (p, d.upgrade (d.parentOf p), .zombie departing))
      (unheard : Unheard k events) : ExitMove d k events d'
  | stage {events : List ProcessEvent} {d' : Domain Z} (p : Nat) (notificationParent : Option Nat)
      {stage : ExitStage} {stage' : Option ExitStage}
      (old : d.exitAt k = some (p, notificationParent, stage))
      (step : StageStep d k p notificationParent stage events stage' d'.topology)
      (tree : d'.tree = d.tree) (exit : d'.exitAt k = stage'.map (p, notificationParent, ·)) :
      ExitMove d k events d'
  | moved {d' : Domain Z} (p : Nat) (notificationParent : Option Nat) {scan scan' : ExitScan}
      {current : ReparentSection} {a : Row} {stage' : Option ExitStage}
      (old : d.exitAt k = some (p, notificationParent, .locked scan current))
      (next : d.nextChild scan = (.process child, scan'))
      (batch : current.batchReaper = none ∨ current.batchReaper = some reaper)
      (step : Scanned k p notificationParent scan'
        { batchReaper := some reaper
          reparented := current.reparented ++ [{ child, wasZombie := a.zombie }]
          batchLen := current.batchLen + 1 } [] stage' d'.topology)
      (exit : d'.exitAt k = stage'.map (p, notificationParent, ·)) :
      ExitMove d k [.moved k p child reaper a.zombie] d'

theorem Move.exit_move (h : Move d events d') (k : Nat) : ExitMove d k events d' := by
  cases h with
  | quiet swap _ _ dull => exact .same (swap.exits k) (dull.unheard k)
  | zombie h p departing dull old tree _ exits claims =>
    have hunheard : Unheard k (_ ++ [.zombie p (d.upgrade (d.parentOf p))]) :=
      Lib.forall_mem_concat (dull.unheard k) (some_ne_none k).symm
    have hexit := exits k
    split at hexit
    · next heq =>
      subst heq
      exact .begins p departing old tree claims (mem_append.mpr (.inr mem_cons_self)) hexit hunheard
    · exact .same hexit hunheard
  | stage h p np old step tree exits =>
    have hexit := exits k
    split at hexit
    · next heq =>
      subst heq
      exact .stage p np old step tree hexit
    · next hne =>
      refine .same hexit fun e he heq => hne ?_
      exact some.inj (heq.symm.trans (step.hand_eq he))
  | moved h p np old next _ _ _ _ _ batch step _ exits =>
    have hexit := exits k
    split at hexit
    · next heq =>
      subst heq
      exact .moved p np old next batch step hexit
    · next hne =>
      refine .same hexit fun e he heq => hne ?_
      rw [mem_singleton.mp he] at heq
      exact (some.inj heq).symm

/-- An exit after a move: it was there before with the same process, or the process has
just become a zombie. -/
theorem Move.exit_origin (h : Move d events d') {stage : ExitStage}
    (hexit : d'.exitAt k = some (p, np, stage)) :
    (∃ stage₀, d.exitAt k = some (p, np, stage₀)) ∨
      (d.exitAt k = none ∧ d'.tree = d.tree.setZombie p ∧
        (∃ rest, rest + {.exit p} = d.claims) ∧ .zombie p np ∈ events) := by
  cases h.exit_move k with
  | same exit => exact .inl ⟨stage, exit.symm.trans hexit⟩
  | begins q departing old tree claims event exit =>
    rw [exit] at hexit
    cases hexit
    exact .inr ⟨old, tree, ⟨_, claims⟩, event⟩
  | stage q np' old _ _ exit | moved q np' old _ _ _ exit =>
    rw [exit] at hexit
    obtain ⟨stage', -, hstage⟩ := map_eq_some_iff.mp hexit
    cases hstage
    exact .inl ⟨_, old⟩

theorem Move.exits_zombie (hwf : d.WF) (h : Move d events d') {stage : ExitStage}
    (hexit : d'.exitAt k = some (p, np, stage)) :
    ∃ a, d'.tree.rows[p]? = some a ∧ a.zombie = true ∧ a.init = false := by
  rcases h.exit_origin hexit with ⟨stage₀, hold⟩ | ⟨-, htree, ⟨rest, hcls⟩, -⟩
  · obtain ⟨a, ha, hz, hi⟩ := hwf.exits k p np stage₀ hold
    obtain ⟨b, hb, hab⟩ := h.later p a ha
    exact ⟨b, hb, hab.zombie hz, hab.init.trans hi⟩
  · obtain ⟨a, ha, -, hi⟩ := hwf.given hcls
    rw [htree]
    exact ⟨{ a with zombie := true }, getElem?_modify_self ha, rfl, hi⟩

/-- Only the section that goes on keeps the lock. -/
theorem Scanned.locked {h : Nat} {scan' : ExitScan} {current' : ReparentSection}
    {topology : Option Nat} (hs : Scanned h p np scan current events (some (.locked scan' current'))
      topology) : topology = some h ∧ current' = current := by
  cases hs with
  | goOn _ => exact ⟨rfl, rfl⟩
  | ended hover =>
    cases hover with
    | round _ hround => cases hround

theorem Unlocked.not_locked :
    ¬ Unlocked h p np scan current events (some (.locked scan' current')) := by
  intro hover
  cases hover with
  | round _ hround => cases hround

section StageStep

variable {h p : Nat} {np : Option Nat} {stage : ExitStage}
  {stage' : Option ExitStage} {topology : Option Nat}

/-- The lock changes hands at the start of a section and inside one only. -/
theorem StageStep.topology_cases (hs : StageStep d h p np stage events stage' topology) :
    topology = d.topology ∨ d.topology = none ∨ ∃ scan current, stage = .locked scan current := by
  cases hs with
  | lock scan hnone => exact .inr (.inl hnone)
  | finish | skip | defer => exact .inr (.inr ⟨_, _, rfl⟩)
  | _ => exact .inl rfl

/-- A section starts empty, and goes on with what it had. -/
theorem StageStep.locked {scan : ExitScan} {current : ReparentSection}
    (hs : StageStep d h p np stage events (some (.locked scan current)) topology) :
    topology = some h ∧ (current.reparented = [] ∨
      ∃ scan₀ current₀, stage = .locked scan₀ current₀ ∧
        current.reparented = current₀.reparented ∧ current.batchReaper = current₀.batchReaper) := by
  cases hs with
  | lock scan hnone => exact ⟨rfl, .inl rfl⟩
  | finish _ hover | defer _ _ hover => exact absurd hover Unlocked.not_locked
  | skip _ _ _ hscan =>
    obtain ⟨htop, rfl⟩ := hscan.locked
    exact ⟨htop, .inr ⟨_, _, rfl, rfl, rfl⟩⟩
  | round _ _ hround => cases hround

end StageStep

theorem Move.locked_topology (hwf : d.WF) (h : Move d events d')
    (hexit : d'.exitAt k = some (p, np, .locked scan current)) :
    d'.topology = some k ∧ (current.reparented ≠ [] → current.batchReaper ≠ none) := by
  cases h with
  | quiet swap =>
    rw [swap.exits] at hexit
    rw [swap.topology]
    exact hwf.locked k p np scan current hexit
  | zombie h q departing _ _ _ topology exits =>
    rw [exits] at hexit
    split at hexit
    · cases hexit
    · rw [topology]
      exact hwf.locked k p np scan current hexit
  | stage h q np' old step _ exits =>
    rw [exits] at hexit
    split at hexit
    · next heq =>
      subst heq
      obtain ⟨stage', hstage', hstage⟩ := map_eq_some_iff.mp hexit
      cases hstage
      rw [hstage'] at step
      obtain ⟨htop, hcase⟩ := step.locked
      refine ⟨htop, ?_⟩
      rcases hcase with hemp | ⟨scan₀, current₀, rfl, hmoved, hreap⟩
      · exact fun hne => absurd hemp hne
      · rw [hmoved, hreap]
        exact (hwf.locked k p np scan₀ current₀ old).2
    · next hne =>
      obtain ⟨htop, hreap⟩ := hwf.locked k p np scan current hexit
      refine ⟨?_, hreap⟩
      rcases step.topology_cases with hsame | hnone | ⟨scan₀, current₀, rfl⟩
      · exact hsame.trans htop
      · rw [htop] at hnone
        cases hnone
      -- two sections at once
      obtain ⟨htop', -⟩ := hwf.locked h q np' scan₀ current₀ old
      rw [htop] at htop'
      exact absurd (some.inj htop') hne
  | moved h q np' old _ _ _ _ _ _ _ step _ exits =>
    rw [exits] at hexit
    split at hexit
    · next heq =>
      subst heq
      obtain ⟨stage', hstage', hstage⟩ := map_eq_some_iff.mp hexit
      cases hstage
      rw [hstage'] at step
      obtain ⟨htop, rfl⟩ := step.locked
      exact ⟨htop, fun _ => some_ne_none _⟩
    · next hne =>
      obtain ⟨htop, -⟩ := hwf.locked k p np scan current hexit
      obtain ⟨htop', -⟩ := hwf.locked h q np' _ _ old
      rw [htop] at htop'
      exact absurd (some.inj htop') hne

/-! ## Runs -/

theorem Move.wf (hwf : d.WF) (h : Move d events d') : d'.WF where
  tree := h.tree_wf hwf
  claims := h.claims_ok hwf
  owners := h.owners_nodup hwf
  exits := fun _ _ _ _ hexit => h.exits_zombie hwf hexit
  locked := fun _ _ _ _ _ hexit => h.locked_topology hwf hexit

theorem wf_new (Z : Type) (limit : Nat) : (Domain.new Z limit).WF where
  tree := by
    refine wf_empty _ ?_
    intro entry hentry
    rw [mem_singleton.mp hentry]
  claims := by
    intro c hc
    exact absurd hc (Multiset.notMem_zero c)
  owners := Multiset.nodup_zero
  exits := by
    intro h p np stage hexit
    cases hexit
  locked := by
    intro h p np scan current hexit
    cases hexit

theorem WF.call (hwf : d.WF) (call : ProcessCall Z) : (d.call call).2.WF :=
  (call_move hwf call).wf hwf

end Domain

end LinuxAbi.Proc
