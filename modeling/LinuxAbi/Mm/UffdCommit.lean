import LinuxAbi.Mm.UffdPlan
import Mathlib.Data.List.Pairwise

/-!
# What a registration commit does

`Sound` is the invariant of the table, and `Commits` what one transaction makes of a table: the
records that were named for removal are gone, the requests that were missing are there under
the next identities, and everything else is where it was. `commitRequestChanges_cases` proves
that a commit on a sound table either refuses and changes nothing or is such a transaction:
the identities and the free slots its two loops `expect` were counted by the plan.
-/

namespace LinuxAbi.Mm

open Nat
open List
open Lib (NonZeroU64 novel firstFree)

namespace UffdRegistrationTable

/-- The two records are apart, unless they belong to different address spaces. -/
def Disjoint (a b : UffdRegistration) : Prop :=
  a.addressSpace = b.addressSpace → rangesOverlap a.range b.range = false

instance : Std.Symm Disjoint where
  symm a b h hspace := by
    rw [rangesOverlap_comm]
    exact h hspace.symm

instance : Std.Symm Apart where
  symm p q h := by
    rcases h with rfl | h
    · exact .inl rfl
    · rw [rangesOverlap_comm] at h
      exact .inr h

/-- The invariant of the table. -/
structure Sound (t : UffdRegistrationTable) : Prop where
  ids_nodup : (t.live.map (·.id)).Nodup
  ids_below : ∀ r ∈ t.live, ∀ n ∈ t.nextId, r.id.raw.val < n.val
  disjoint : t.live.Pairwise Disjoint
  revision_le : t.revision ≤ maxRevision

theorem sound_new (capacity : Nat) (firstId : NonZeroU64) : Sound (new capacity firstId) := by
  have hlive : (new capacity firstId).live = [] := by
    unfold live new
    rw [reduceOption_replicate_none]
  have hrev : (1 : Nat) ≤ maxRevision := by decide
  refine ⟨?_, ?_, ?_, hrev⟩
  · rw [hlive]
    exact nodup_nil
  · intro r hr
    rw [hlive] at hr
    cases hr
  · rw [hlive]
    exact Pairwise.nil

/-- Two records of a sound table that meet are one record. -/
theorem Sound.eq_of_overlap (h : Sound t)
    (ha : a ∈ t.live) (hb : b ∈ t.live) (hspace : a.addressSpace = b.addressSpace)
    (hover : rangesOverlap a.range b.range = true) : a = b := by
  by_contra hne
  have hdisjoint := h.disjoint.forall ha hb hne hspace
  rw [hover] at hdisjoint
  cases hdisjoint

/-! ## New identities -/

/-- The counter moves by one for each identity. -/
theorem advanceRegistrationIds_val : ∀ {count : Nat} {next after : Option NonZeroU64},
    advanceRegistrationIds next count = .ok after →
      ∀ n ∈ after, ∃ m ∈ next, n.val = m.val + count
  | 0, next, after, h, n, hn => by
    have hsame : next = after := by
      cases next <;> exact Except.ok.inj h
    exact ⟨n, hsame ▸ hn, rfl⟩
  | k + 1, none, after, h, n, hn => by cases h
  | k + 1, some raw, after, h, n, hn => by
    have hrest : advanceRegistrationIds raw.checkedSucc k = .ok after := h
    obtain ⟨m, hm, hval⟩ := advanceRegistrationIds_val hrest n hn
    refine ⟨raw, rfl, ?_⟩
    rw [hval, NonZeroU64.val_checkedSucc hm]
    omega

/-- The requests under consecutive identities. -/
def numbered : Option NonZeroU64 → List UffdRegistrationRequest → List UffdRegistration
  | some raw, q :: rest => ⟨⟨raw⟩, q⟩ :: numbered raw.checkedSucc rest
  | _, _ => []

theorem numbered_nil (next : Option NonZeroU64) : numbered next [] = [] := by
  cases next <;> rfl

theorem numbered_none (requests : List UffdRegistrationRequest) : numbered none requests = [] := by
  cases requests <;> rfl

/-- While identities last, every request gets one. -/
theorem map_request_numbered : ∀ {requests : List UffdRegistrationRequest}
    {next after : Option NonZeroU64}, advanceRegistrationIds next requests.length = .ok after →
      (numbered next requests).map (·.request) = requests
  | [], next, _, _ => by
    rw [numbered_nil]
    rfl
  | q :: requests, none, _, h => by cases h
  | q :: requests, some raw, _, h => congrArg (q :: ·) (map_request_numbered h)

/-- The identities are consecutive: at or above the counter, increasing, and below the counter
that is left. -/
theorem numbered_ids : ∀ {requests : List UffdRegistrationRequest} {next after : Option NonZeroU64},
    advanceRegistrationIds next requests.length = .ok after →
      (numbered next requests).Pairwise (fun a b => a.id.raw.val < b.id.raw.val)
        ∧ ∀ r ∈ numbered next requests, (∀ n ∈ next, n.val ≤ r.id.raw.val)
          ∧ ∀ n ∈ after, r.id.raw.val < n.val
  | [], next, _, _ => by
    rw [numbered_nil]
    exact ⟨Pairwise.nil, fun r hr => absurd hr not_mem_nil⟩
  | q :: requests, none, _, h => by cases h
  | q :: requests, some raw, after, h => by
    have hrest : advanceRegistrationIds raw.checkedSucc requests.length = .ok after := h
    obtain ⟨hincreasing, hbounds⟩ := numbered_ids hrest
    -- the counter after this one is one higher, and the rest starts there
    have hlater : ∀ r ∈ numbered raw.checkedSucc requests, raw.val < r.id.raw.val := by
      intro r hr
      cases hsucc : raw.checkedSucc with
      | none =>
        rw [hsucc, numbered_none] at hr
        cases hr
      | some n =>
        have hle := (hbounds r hr).1 n hsucc
        rw [NonZeroU64.val_checkedSucc hsucc] at hle
        exact hle
    refine ⟨pairwise_cons.mpr ⟨hlater, hincreasing⟩, forall_mem_cons.mpr ⟨⟨?_, ?_⟩, ?_⟩⟩
    · intro n hn
      cases hn
      exact le_refl _
    · intro n hn
      obtain ⟨m, hm, hval⟩ := advanceRegistrationIds_val h n hn
      cases hm
      show raw.val < n.val
      rw [hval, length_cons]
      omega
    · intro r hr
      refine ⟨?_, (hbounds r hr).2⟩
      intro n hn
      cases hn
      exact le_of_lt (hlater r hr)

/-! ## The two loops -/

variable {records : List UffdRegistration} {slots slots' : List (Option UffdRegistration)}

theorem any_request_iff : records.any (fun r => r.request = q) = true ↔ Present records q := by
  simp [Present]

/-- What is still wanted does not change when another request gets its record. -/
theorem wanted_of_perm (hperm : records'.Perm (r :: records)) (hr : r.request ∈ previous)
    (requests : List UffdRegistrationRequest) :
    wanted records' previous requests = wanted records previous requests := by
  refine filter_congr fun q hq => ?_
  have hne : r.request ≠ q := fun h => (Lib.mem_novel.mp hq).2 (h ▸ hr)
  have hiff : Present records' q ↔ Present records q := by
    have hcons : Present records' q ↔ Present (r :: records) q := by
      unfold Present
      simp only [hperm.mem_iff]
    rw [hcons, present_cons, or_iff_right hne]
  simp only [hiff]

/-- A slot keeps what it held, or was free and holds one of the new records. -/
def Filled (slots : List (Option UffdRegistration)) (fresh : List UffdRegistration)
    (slots' : List (Option UffdRegistration)) : Prop :=
  ∀ slot : Nat, slots'[slot]? = slots[slot]?
    ∨ slots[slot]? = some none ∧ ∃ r ∈ fresh, slots'[slot]? = some (some r)

/-- With no new records every slot keeps what it held. -/
theorem Filled.eq (h : Filled slots [] slots') : slots' = slots := by
  refine ext_getElem? fun slot => ?_
  rcases h slot with hsame | ⟨-, r, hr, -⟩
  · exact hsame
  · cases hr

theorem Filled.length_eq (h : Filled slots fresh slots') : slots'.length = slots.length := by
  refine le_antisymm ?_ ?_
  · refine getElem?_eq_none_iff.mp ?_
    have hnone := getElem?_eq_none (l := slots) (le_refl _)
    rcases h slots.length with hsame | ⟨hfree, -⟩
    · exact hsame.trans hnone
    · rw [hnone] at hfree
      cases hfree
  · refine getElem?_eq_none_iff.mp ?_
    have hnone := getElem?_eq_none (l := slots') (le_refl _)
    rcases h slots'.length with hsame | ⟨-, r, -, hslot⟩
    · exact hsame.symm.trans hnone
    · rw [hnone] at hslot
      cases hslot

/-- One free slot is filled first. -/
theorem Filled.cons (hfree : slots[slot]? = some none)
    (h : Filled (slots.set slot (some r)) fresh slots') : Filled slots (r :: fresh) slots' := by
  intro i
  by_cases hi : slot = i
  · subst hi
    have hset := List.getElem?_set_self (a := some r) (Lib.lt_of_getElem? hfree)
    rcases h slot with hsame | ⟨hnone, -⟩
    · exact .inr ⟨hfree, r, List.mem_cons_self, hsame.trans hset⟩
    · rw [hset] at hnone
      cases hnone
  · rcases h i with hsame | ⟨hnone, f, hf, hslot⟩
    · rw [getElem?_set_ne hi] at hsame
      exact .inl hsame
    · rw [getElem?_set_ne hi] at hnone
      exact .inr ⟨hnone, f, mem_cons_of_mem _ hf, hslot⟩

/-- The publishing loop: with an identity and a free slot for every wanted request, it ends
with all of them in the table. -/
theorem publishRequests_eq : ∀ {requests previous : List UffdRegistrationRequest}
    {slots : List (Option UffdRegistration)} {next after : Option NonZeroU64},
    advanceRegistrationIds next (wanted slots.reduceOption previous requests).length = .ok after →
    (wanted slots.reduceOption previous requests).length + slots.reduceOption.length
      ≤ slots.length →
      ∃ slots', publishRequests previous slots next requests = some (slots', after)
        ∧ Filled slots (numbered next (wanted slots.reduceOption previous requests)) slots'
        ∧ slots'.reduceOption.Perm
          (numbered next (wanted slots.reduceOption previous requests) ++ slots.reduceOption)
  | [], previous, slots, next, after, hadv, _ => by
    have hsame : next = after := by
      cases next <;> exact Except.ok.inj hadv
    refine ⟨slots, by rw [← hsame]; rfl, fun _ => .inl rfl, ?_⟩
    show slots.reduceOption.Perm (numbered next [] ++ slots.reduceOption)
    rw [numbered_nil]
    exact Perm.refl _
  | q :: requests, previous, slots, next, after, hadv, hroom => by
    unfold publishRequests
    by_cases hskip : q ∈ previous ∨ slots.reduceOption.any (fun r => r.request = q) = true
    · have hwanted : wanted slots.reduceOption previous (q :: requests)
          = wanted slots.reduceOption (previous ++ [q]) requests := by
        unfold wanted
        by_cases hold : q ∈ previous
        · rw [Lib.novel_cons_of_mem hold]
        · have hpres := any_request_iff.mp (hskip.resolve_left hold)
          rw [Lib.novel_cons_of_not_mem hold, filter_cons_of_neg (by simpa using hpres)]
      rw [hwanted] at hadv hroom ⊢
      rw [if_pos hskip]
      exact publishRequests_eq hadv hroom
    · rw [if_neg hskip]
      rw [not_or, any_request_iff] at hskip
      have hwanted : wanted slots.reduceOption previous (q :: requests)
          = q :: wanted slots.reduceOption (previous ++ [q]) requests := by
        unfold wanted
        rw [Lib.novel_cons_of_not_mem hskip.1, filter_cons_of_pos (by simpa using hskip.2)]
      rw [hwanted] at hadv hroom ⊢
      rw [length_cons] at hroom
      cases next with
      | none => cases hadv
      | some raw =>
        -- a slot is free: the records and the wanted requests fit together
        cases hfree : firstFree slots with
        | none =>
          have hfull := Lib.firstFree_eq_none hfree
          omega
        | some slot =>
          have hslot := Lib.firstFree_eq_some hfree
          have hperm := Lib.live_set_free hslot (⟨⟨raw⟩, q⟩ : UffdRegistration)
          have hlast : q ∈ previous ++ [q] := mem_append_right _ mem_cons_self
          have hnext := wanted_of_perm hperm hlast requests
          have hlen : (slots.set slot (some ⟨⟨raw⟩, q⟩)).reduceOption.length
              = slots.reduceOption.length + 1 := by
            rw [hperm.length_eq, length_cons]
          rw [← hnext] at hadv hroom ⊢
          have hroom' : (wanted (slots.set slot (some ⟨⟨raw⟩, q⟩)).reduceOption (previous ++ [q])
              requests).length + (slots.set slot (some ⟨⟨raw⟩, q⟩)).reduceOption.length
                ≤ (slots.set slot (some (⟨⟨raw⟩, q⟩ : UffdRegistration))).length := by
            rw [hlen, length_set]
            omega
          obtain ⟨slots', hpublish, hfilled, hlive⟩ := publishRequests_eq hadv hroom'
          refine ⟨slots', hpublish, hfilled.cons hslot, hlive.trans ?_⟩
          exact (Perm.append_left _ hperm).trans perm_middle

/-- The visiting loop finds a record for every request it has not seen. -/
theorem visitRequests_eq :
    ∀ {requests previous : List UffdRegistrationRequest},
      (∀ q ∈ novel previous requests, Present records q) →
        ∃ visited, visitRequests records previous requests = some visited
          ∧ visited.map (·.request) = novel previous requests ∧ ∀ r ∈ visited, r ∈ records
  | [], _, _ => ⟨[], rfl, rfl, fun r hr => absurd hr not_mem_nil⟩
  | q :: requests, previous, h => by
    unfold visitRequests
    by_cases hold : q ∈ previous
    · rw [Lib.novel_cons_of_mem hold] at h ⊢
      rw [if_pos hold]
      exact visitRequests_eq h
    · rw [Lib.novel_cons_of_not_mem hold] at h ⊢
      rw [if_neg hold]
      obtain ⟨hhere, hrest⟩ := forall_mem_cons.mp h
      obtain ⟨visited, hvisit, hmap, hmem⟩ := visitRequests_eq hrest
      obtain ⟨r, hr, hreq⟩ := hhere
      cases hfind : records.find? (fun r => r.request = q) with
      | none =>
        have hnot := find?_eq_none.mp hfind r hr
        exact absurd (decide_eq_true hreq) hnot
      | some found =>
        have hfound : found.request = q := by simpa using find?_some hfind
        refine ⟨found :: visited, ?_, ?_, ?_⟩
        · rw [hvisit]
          rfl
        · rw [map_cons, hfound, hmap]
        · exact forall_mem_cons.mpr ⟨mem_of_find?_eq_some hfind, hmem⟩

/-! ## A transaction -/

/-- The slots without the records named for removal. -/
def cleared (t : UffdRegistrationTable) (removed : List UffdRegistrationId) :
    List (Option UffdRegistration) :=
  t.records.map (Option.filter fun r => r.id ∉ removed)

theorem reduceOption_cleared (t : UffdRegistrationTable) (removed : List UffdRegistrationId) :
    (t.cleared removed).reduceOption = t.retained removed :=
  Lib.live_filter _ _

theorem length_cleared (t : UffdRegistrationTable) (removed : List UffdRegistrationId) :
    (t.cleared removed).length = t.records.length :=
  length_map _

theorem cleared_nil (t : UffdRegistrationTable) : t.cleared [] = t.records := by
  have hkeep : (Option.filter fun r : UffdRegistration => decide (r.id ∉ [])) = id := by
    funext slot
    cases slot <;> simp
  unfold cleared
  rw [hkeep, map_id]

/-- What a transaction makes of a table. -/
structure Commits (old : UffdRegistrationTable) (removed : List UffdRegistrationId)
    (requests : List UffdRegistrationRequest) (new : UffdRegistrationTable) : Prop where
  live : new.live.Perm
    (numbered old.nextId (old.publishes removed requests) ++ old.retained removed)
  filled : Filled (old.cleared removed)
    (numbered old.nextId (old.publishes removed requests)) new.records
  advance : advanceRegistrationIds old.nextId (old.publishes removed requests).length
    = .ok new.nextId
  revision : new.revision = if removed = [] ∧ old.publishes removed requests = [] then old.revision
    else saturatingSucc old.revision

section Commit
variable {t : UffdRegistrationTable} {removed : List UffdRegistrationId}
  {requests : List UffdRegistrationRequest}

/-- The tokens of a plan are as many records as they are tokens. -/
theorem Sound.retained_length (h : Sound t) (hnodup : removed.Nodup)
    (hlive : ∀ id ∈ removed, ∃ r ∈ t.live, r.id = id) :
    (t.retained removed).length + removed.length = t.live.length := by
  have hgone : ((t.live.filter fun r => r.id ∈ removed).map (·.id)).Perm removed := by
    have hsub : ((t.live.filter fun r => r.id ∈ removed).map (·.id)).Nodup :=
      h.ids_nodup.sublist (Sublist.map _ filter_sublist)
    refine (perm_ext_iff_of_nodup hsub hnodup).mpr fun id => ?_
    rw [mem_map]
    constructor
    · rintro ⟨r, hr, rfl⟩
      simpa using (mem_filter.mp hr).2
    · intro hid
      obtain ⟨r, hr, rfl⟩ := hlive id hid
      exact ⟨r, mem_filter.mpr ⟨hr, by simpa using hid⟩, rfl⟩
  have hsplit := length_eq_length_filter_add (l := t.live) fun r => decide (r.id ∈ removed)
  have hcount := hgone.length_eq
  rw [length_map] at hcount
  have hkept : t.retained removed = t.live.filter fun r => !decide (r.id ∈ removed) := by
    refine filter_congr fun r _ => ?_
    simp
  rw [hkept, hsplit, hcount, add_comm]

/-- The record of a request that was published is none of the records that stayed. -/
theorem numbered_request_mem {next after : Option NonZeroU64}
    (hadv : advanceRegistrationIds next requests.length = .ok after)
    (hr : r ∈ numbered next requests) : r.request ∈ requests := by
  have hmem := mem_map_of_mem (f := fun r : UffdRegistration => r.request) hr
  rwa [map_request_numbered hadv] at hmem

theorem mem_publishes :
    q ∈ t.publishes removed requests ↔ q ∈ requests ∧ ¬ Present (t.retained removed) q := by
  unfold publishes wanted
  rw [mem_filter, Lib.mem_novel]
  simp

/-- A transaction of a batch that fits keeps the invariant. -/
theorem Sound.commits {new : UffdRegistrationTable} (h : Sound t)
    (hfits : ∀ q ∈ requests, Fits (t.retained removed) q) (hapart : requests.Pairwise Apart)
    (hcoms : Commits t removed requests new) : Sound new := by
  have hadv := hcoms.advance
  obtain ⟨hincreasing, hbounds⟩ := numbered_ids hadv
  have hretained : ∀ r ∈ t.retained removed, r ∈ t.live := fun r hr => (mem_retained.mp hr).1
  -- a published record has an identity above every record that stays
  have habove : ∀ f ∈ numbered t.nextId (t.publishes removed requests),
      ∀ r ∈ t.retained removed, r.id.raw.val < f.id.raw.val := by
    intro f hf r hr
    cases hnext : t.nextId with
    | none =>
      rw [hnext, numbered_none] at hf
      cases hf
    | some n =>
      have hbelow := h.ids_below r (hretained r hr) n hnext
      exact lt_of_lt_of_le hbelow ((hbounds f hf).1 n hnext)
  refine ⟨?_, ?_, ?_, ?_⟩
  · rw [(hcoms.live.map _).nodup_iff, map_append, nodup_append]
    refine ⟨?_, ?_, ?_⟩
    · refine pairwise_map.mpr (hincreasing.imp fun hlt heq => ?_)
      rw [heq] at hlt
      exact lt_irrefl _ hlt
    · exact h.ids_nodup.sublist (Sublist.map _ filter_sublist)
    · intro id hid id' hid' heq
      obtain ⟨f, hf, rfl⟩ := mem_map.mp hid
      obtain ⟨r, hr, rfl⟩ := mem_map.mp hid'
      have hlt := habove f hf r hr
      rw [heq] at hlt
      exact lt_irrefl _ hlt
  · intro r hr n hn
    rcases mem_append.mp (hcoms.live.mem_iff.mp hr) with hf | hkept
    · exact (hbounds r hf).2 n hn
    obtain ⟨m, hm, hval⟩ := advanceRegistrationIds_val hadv n hn
    have hbelow := h.ids_below r (hretained r hkept) m hm
    omega
  · rw [hcoms.live.pairwise_iff fun hab => Std.Symm.symm _ _ hab, pairwise_append]
    refine ⟨?_, h.disjoint.sublist filter_sublist, ?_⟩
    · have hreqs : ((numbered t.nextId (t.publishes removed requests)).map (·.request)).Pairwise
          fun p q => rangesOverlap p.range q.range = false := by
        rw [map_request_numbered hadv]
        have hnodup : (t.publishes removed requests).Nodup :=
          (Lib.nodup_novel requests []).sublist filter_sublist
        refine hnodup.imp_of_mem fun hp hq hne => ?_
        have happ := hapart.forall (mem_publishes.mp hp).1 (mem_publishes.mp hq).1 hne
        exact happ.resolve_left hne
      refine (pairwise_map.mp hreqs).imp ?_
      intro a b hfalse _
      exact hfalse
    · intro f hf r hr hspace
      obtain ⟨hreq, hnew⟩ := mem_publishes.mp (numbered_request_mem hadv hf)
      refine Bool.eq_false_iff.mpr fun hover => hnew ⟨r, hr, ?_⟩
      rw [rangesOverlap_comm] at hover
      exact hfits f.request hreq r hr hspace.symm hover
  · rw [hcoms.revision]
    split
    · exact h.revision_le
    · exact min_le_right _ _

/-- The revision moves exactly when the plan changes the table, up to saturation. -/
theorem Planned.revision_step (h : Planned t removed requests plan)
    (hle : t.revision ≤ maxRevision) :
    (if plan.changesTable ∧ t.revision ≠ maxRevision then t.revision + 1 else t.revision)
      = if removed = [] ∧ t.publishes removed requests = [] then t.revision
        else saturatingSucc t.revision := by
  have hchanges : plan.changesTable = true ↔ ¬ (removed = [] ∧ t.publishes removed requests = []) := by
    unfold UffdRegistrationPlan.changesTable
    rw [h.removed_eq, h.published, not_and_or]
    simp
  unfold saturatingSucc
  by_cases hsame : removed = [] ∧ t.publishes removed requests = []
  · rw [if_pos hsame, if_neg fun hboth => hchanges.mp hboth.1 hsame]
  rw [if_neg hsame]
  by_cases hmax : t.revision = maxRevision
  · rw [if_neg fun hboth => hboth.2 hmax]
    omega
  · rw [if_pos ⟨hchanges.mpr hsame, hmax⟩]
    omega

/-- A commit on a sound table: unless its plan is the one the table makes now it refuses and
changes nothing, or it is the planned transaction, with the counts of its plan and one visit
for every distinct request. -/
theorem commitRequestChanges_cases (h : Sound t) (plan : UffdRegistrationPlan)
    (removed : List UffdRegistrationId) (requests : List UffdRegistrationRequest) (single : Bool) :
    (t.planRequestChanges removed requests single ≠ .ok plan
        ∧ ∃ e, t.commitRequestChanges plan removed requests single = some (.error e, t))
      ∨ ∃ visited new, t.commitRequestChanges plan removed requests single
          = some (.ok (⟨plan.removed, plan.published, plan.reused⟩, visited), new)
        ∧ t.planRequestChanges removed requests single = .ok plan
        ∧ Commits t removed requests new
        ∧ visited.map (·.request) = novel [] requests ∧ ∀ r ∈ visited, r ∈ new.live := by
  unfold commitRequestChanges
  by_cases hrev : t.revision ≠ plan.revision
  · refine .inl ⟨fun hplan => hrev ?_, _, if_pos hrev⟩
    exact (planRequestChanges_inv hplan).revision.symm
  rw [if_neg hrev]
  cases hplan : t.planRequestChanges removed requests single with
  | error e => exact .inl ⟨(fun h => nomatch h), e, rfl⟩
  | ok current =>
    by_cases hstale : current ≠ plan
    · exact .inl ⟨fun h => hstale (Except.ok.inj h), _, if_pos hstale⟩
    rw [not_not] at hstale
    subst hstale
    refine .inr ?_
    have hplanned := planRequestChanges_inv hplan
    have hpubs : t.publishes removed requests
        = wanted (t.cleared removed).reduceOption [] requests := by
      rw [reduceOption_cleared]
      rfl
    -- the plan counted the slots and the identities the publishing loop takes
    have hroom : (t.publishes removed requests).length + (t.cleared removed).reduceOption.length
        ≤ (t.cleared removed).length := by
      have hkept := h.retained_length hplanned.tokens_nodup hplanned.tokens_live
      have hlive : t.live.length ≤ t.records.length := reduceOption_length_le t.records
      have hle := hplanned.room
      rw [reduceOption_cleared, length_cleared]
      omega
    have hadv := hplanned.advance
    rw [hpubs] at hadv hroom
    obtain ⟨slots, hpublish, hfilled, hlive⟩ := publishRequests_eq hadv hroom
    rw [← hpubs, reduceOption_cleared] at hlive
    rw [← hpubs] at hfilled
    have hrev' := hplanned.revision_step h.revision_le
    have hpres : ∀ q ∈ novel [] requests, Present slots.reduceOption q := by
      intro q hq
      by_cases hold : Present (t.retained removed) q
      · obtain ⟨r, hr, hreq⟩ := hold
        exact ⟨r, hlive.mem_iff.mpr (mem_append_right _ hr), hreq⟩
      have hnew := mem_publishes.mpr ⟨(Lib.mem_novel.mp hq).1, hold⟩
      rw [← map_request_numbered hplanned.advance] at hnew
      obtain ⟨r, hr, hreq⟩ := mem_map.mp hnew
      exact ⟨r, hlive.mem_iff.mpr (mem_append_left _ hr), hreq⟩
    obtain ⟨visited, hvisit, hmap, hmem⟩ := visitRequests_eq hpres
    refine ⟨visited, ⟨slots, current.nextIdAfter, _⟩, ?_, rfl,
      ⟨hlive, hfilled, hplanned.advance, hrev'⟩, hmap, hmem⟩
    have hpublish' : publishRequests [] (t.records.map (Option.filter fun r => r.id ∉ removed))
        t.nextId requests = some (slots, current.nextIdAfter) := hpublish
    dsimp only
    rw [if_neg (not_not.mpr rfl), hpublish']
    dsimp only [bind, Option.bind, live]
    rw [hvisit]
    rfl

end Commit

end UffdRegistrationTable

end LinuxAbi.Mm
