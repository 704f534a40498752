import LinuxAbi.Mm.UffdCommit

/-!
# The registration table over whole runs

`call_cases` is the one statement about a call: it fails and leaves the table alone, or it is
the transaction `Applied` describes, for the tokens and the requests the call names. A token
that is removed, a handler that is detached and a batch that is committed are the same kind of
step, so the invariants of the table need no further look at the ten calls.
-/

namespace LinuxAbi.Mm

open List
open Lib (NonZeroU64 novel)

namespace UffdCall

/-- The tokens a call names for removal; a detach names those of its handler. -/
def tokens (t : UffdRegistrationTable) : UffdCall → List UffdRegistrationId
  | .register _ _ | .commitRegister _ _ | .registerBatch _ _ => []
  | .commitReplace _ removed _ | .replaceBatch _ removed _ => removed
  | .commitMappingReplace _ removed _ | .mappingReplaceBatch removed _ => removed
  | .commitMappingRemove _ removed => removed
  | .unregister id => [id]
  | .detachHandler handler => (t.live.filter fun r => r.handler = handler).map (·.id)

/-- The requests a call makes. -/
def requests : UffdCall → List UffdRegistrationRequest
  | .register _ request => [request]
  | .commitRegister _ requests | .registerBatch _ requests => requests
  | .commitReplace _ _ replacements | .replaceBatch _ _ replacements => replacements
  | .commitMappingReplace _ _ replacements | .mappingReplaceBatch _ replacements =>
    replacements.map (·.request)
  | .commitMappingRemove _ _ | .unregister _ | .detachHandler _ => []

/-- The plan a call commits: the caller's, or the one its own preflight makes. -/
def plan? (t : UffdRegistrationTable) : UffdCall → Option UffdRegistrationPlan
  | .commitRegister plan _ | .commitReplace plan _ _ => some plan
  | .commitMappingReplace plan _ _ | .commitMappingRemove plan _ => some plan
  | .register api request => (t.preflightRegister api [request]).toOption
  | .registerBatch api requests => (t.preflightRegister api requests).toOption
  | .replaceBatch api removed replacements => (t.preflightReplace api removed replacements).toOption
  | .mappingReplaceBatch removed replacements =>
    (t.preflightMappingReplace removed replacements).toOption
  | .unregister _ | .detachHandler _ => none

end UffdCall

/-- The call was refused. -/
def UffdReply.isError : UffdReply → Bool
  | .committed (.error _) | .registered (.error _) => true
  | .committed (.ok _) | .registered (.ok _) | .detached _ | .panicked => false

namespace UffdRegistrationTable

/-- What a call that went through answers. A commit reports the counts of its plan and visits
each distinct request once. -/
def Reports (t : UffdRegistrationTable) (c : UffdCall) (new : UffdRegistrationTable) :
    UffdReply → Prop
  | .committed (.ok (commit, visited)) =>
    (∃ plan, c.plan? t = some plan ∧ commit = ⟨plan.removed, plan.published, plan.reused⟩)
      ∧ visited.map (·.request) = novel [] c.requests ∧ ∀ r ∈ visited, r ∈ new.live
  | .registered (.ok r) =>
    (∃ api, c = .register api r.request) ∧ r ∈ new.live ∨ c = .unregister r.id ∧ r ∈ t.live
  | .detached removed => removed = (c.tokens t).length
  | .committed (.error _) | .registered (.error _) | .panicked => False

/-- What a call that went through did. -/
structure Applied (t : UffdRegistrationTable) (c : UffdCall) (reply : UffdReply)
    (new : UffdRegistrationTable) : Prop where
  tokens_nodup : (c.tokens t).Nodup
  tokens_live : ∀ id ∈ c.tokens t, ∃ r ∈ t.live, r.id = id
  fits : ∀ q ∈ c.requests, Fits (t.retained (c.tokens t)) q
  apart : c.requests.Pairwise Apart
  unsealed : t.publishes (c.tokens t) c.requests ≠ [] → t.revision ≠ maxRevision
  planned : ∀ plan, c.plan? t = some plan → Planned t (c.tokens t) c.requests plan
  commits : Commits t (c.tokens t) c.requests new
  reports : Reports t c new reply

section Calls
variable {t : UffdRegistrationTable}

/-! ## Batches -/

/-- A commit function that refuses, or hands its call to `commit_request_changes`. -/
def Submits (t : UffdRegistrationTable) (c : UffdCall)
    (result : Option (CommitReply × UffdRegistrationTable)) : Prop :=
  (∃ e, result = some (.error e, t))
    ∨ ∃ plan single, c.plan? t = some plan
      ∧ result = t.commitRequestChanges plan (c.tokens t) c.requests single

variable {c : UffdCall}

theorem submits_cases (h : Sound t)
    (hsubmits : Submits t c result) : (∃ e, result = some (.error e, t))
      ∨ ∃ reply new, result = some (.ok reply, new) ∧ Applied t c (.committed (.ok reply)) new := by
  rcases hsubmits with herror | ⟨plan, single, hplan, rfl⟩
  · exact .inl herror
  rcases commitRequestChanges_cases h plan (c.tokens t) c.requests single with
    ⟨-, herror⟩ | ⟨visited, new, hcom, hmade, hcoms, hvisited, hmem⟩
  · exact .inl herror
  have hplanned := planRequestChanges_inv hmade
  refine .inr ⟨_, new, hcom, ?_⟩
  refine ⟨hplanned.tokens_nodup, hplanned.tokens_live, hplanned.fits, hplanned.apart,
    hplanned.unsealed, ?_, hcoms, ⟨plan, hplan, rfl⟩, hvisited, hmem⟩
  intro other hother
  rw [hplan] at hother
  cases hother
  exact hplanned

/-- A preflight and its commit submit the plan the preflight made. -/
theorem submits_preflighted
    (hplan : c.plan? t = preflight.toOption)
    (hcom : ∀ plan, c.plan? t = some plan → Submits t c (commit plan)) :
    Submits t c (t.preflighted preflight commit) := by
  cases preflight with
  | error e => exact .inl ⟨e, rfl⟩
  | ok plan => exact hcom plan hplan

theorem submits_commitMappingReplace (hplan : c.plan? t = some plan)
    (hreqs : c.requests = replacements.map (·.request)) :
    Submits t c (t.commitMappingReplace plan (c.tokens t) replacements) := by
  unfold commitMappingReplace
  split
  · exact .inl ⟨_, rfl⟩
  split
  · exact .inl ⟨_, rfl⟩
  · exact .inr ⟨plan, false, hplan, by rw [hreqs]⟩

theorem submits_registerBatch (api : UffdApiLifecycle) (requests : List UffdRegistrationRequest) :
    Submits t (.registerBatch api requests) (t.registerBatch api requests) :=
  submits_preflighted rfl fun plan hplan => .inr ⟨plan, true, hplan, rfl⟩

/-! ## Pure removals -/

/-- The table without the named records. -/
def without (t : UffdRegistrationTable) (removed : List UffdRegistrationId) :
    UffdRegistrationTable :=
  { t with
    records := t.cleared removed
    revision := if removed = [] then t.revision else saturatingSucc t.revision }

theorem commits_without (t : UffdRegistrationTable) (removed : List UffdRegistrationId) :
    Commits t removed [] (t.without removed) where
  live := by
    show (t.cleared removed).reduceOption.Perm (numbered t.nextId [] ++ t.retained removed)
    rw [reduceOption_cleared, numbered_nil]
    exact List.Perm.refl _
  filled := fun _ => .inl rfl
  advance := by
    show advanceRegistrationIds t.nextId 0 = .ok t.nextId
    cases t.nextId <;> rfl
  revision := by
    show (if removed = [] then t.revision else saturatingSucc t.revision)
      = if removed = [] ∧ ([] : List UffdRegistrationRequest) = [] then t.revision
        else saturatingSucc t.revision
    simp only [and_true]

/-- A removal of live records without a plan. -/
theorem applied_without (hnodup : (c.tokens t).Nodup)
    (hlive : ∀ id ∈ c.tokens t, ∃ r ∈ t.live, r.id = id) (hreqs : c.requests = [])
    (hplan : c.plan? t = none) (hrep : Reports t c (t.without (c.tokens t)) reply) :
    Applied t c reply (t.without (c.tokens t)) where
  tokens_nodup := hnodup
  tokens_live := hlive
  fits := by
    rw [hreqs]
    exact fun q hq => absurd hq not_mem_nil
  apart := by
    rw [hreqs]
    exact List.Pairwise.nil
  unsealed := by
    rw [hreqs]
    exact fun hne => absurd rfl hne
  planned := by
    rw [hplan]
    exact fun plan h => nomatch h
  commits := by
    rw [hreqs]
    exact commits_without t (c.tokens t)
  reports := hrep

theorem unregister_cases (h : Sound t) (id : UffdRegistrationId) :
    (∃ e, t.unregister id = (.error e, t))
      ∨ ∃ r ∈ t.live, r.id = id ∧ t.unregister id = (.ok r, t.without [id]) := by
  unfold unregister
  split
  · exact .inl ⟨_, rfl⟩
  next slot r hlocate =>
  obtain ⟨hslot, hid⟩ := Lib.locate_eq_some hlocate
  have hid : r.id = id := of_decide_eq_true hid
  refine .inr ⟨r, Lib.mem_live_of_getElem? hslot, hid, ?_⟩
  -- no other slot holds this identity, so clearing the slot clears by identity
  have honly : ∀ (j : Nat) r', t.records[j]? = some (some r') → decide (r'.id = id) = true →
      j = slot := by
    intro j r' hj hid'
    exact Lib.slot_inj h.ids_nodup hj hslot ((of_decide_eq_true hid').trans hid.symm)
  have hrecs : t.records.set slot none = t.cleared [id] := by
    rw [Lib.set_none_eq_filter hslot (decide_eq_true hid) honly]
    unfold cleared
    simp
  unfold without
  rw [hrecs, if_neg (cons_ne_nil _ _)]

/-- A record goes with a handler exactly when its token is one of the handler's. -/
theorem mem_detachTokens (h : Sound t)
    (hr : r ∈ t.live) : r.id ∈ (UffdCall.detachHandler handler).tokens t ↔ r.handler = handler := by
  unfold UffdCall.tokens
  rw [mem_map]
  constructor
  · rintro ⟨r', hr', hid⟩
    obtain ⟨hmem, hhdl⟩ := mem_filter.mp hr'
    rw [inj_on_of_nodup_map h.ids_nodup hmem hr hid] at hhdl
    exact of_decide_eq_true hhdl
  · intro hhdl
    exact ⟨r, mem_filter.mpr ⟨hr, decide_eq_true hhdl⟩, rfl⟩

theorem detachHandler_eq (h : Sound t) (handler : FaultHandlerId) :
    t.detachHandler handler = (((UffdCall.detachHandler handler).tokens t).length,
      t.without ((UffdCall.detachHandler handler).tokens t)) := by
  have hlen : ((UffdCall.detachHandler handler).tokens t).length
      = (t.live.filter fun r => r.handler = handler).length :=
    length_map _
  have hrecs : t.records.map (Option.filter fun r => r.handler ≠ handler)
      = t.cleared ((UffdCall.detachHandler handler).tokens t) := by
    refine map_congr_left fun slot hslot => ?_
    cases slot with
    | none => rfl
    | some r =>
      have hiff : r.id ∈ (UffdCall.detachHandler handler).tokens t ↔ r.handler = handler :=
        mem_detachTokens h (reduceOption_mem_iff.mpr hslot)
      simp only [Option.filter_some, hiff]
  unfold detachHandler
  dsimp only
  rw [← hlen]
  split
  next hzero =>
    have hnil := eq_nil_of_length_eq_zero hzero
    rw [hnil]
    unfold without
    rw [cleared_nil]
    rfl
  next hne =>
  have hcons : (UffdCall.detachHandler handler).tokens t ≠ [] := by
    intro hnil
    rw [hnil] at hne
    exact hne rfl
  unfold without
  rw [hrecs, if_neg hcons]

/-! ## Calls -/

/-- A call fails and changes nothing, or it is a transaction. -/
def Settled (t : UffdRegistrationTable) (c : UffdCall)
    (outcome : UffdReply × UffdRegistrationTable) : Prop :=
  outcome.1.isError = true ∧ outcome.2 = t
    ∨ outcome.1.isError = false ∧ Applied t c outcome.1 outcome.2

theorem settled_of_submits (h : Sound t)
    (hsubmits : Submits t c result) : Settled t c (t.answer .committed result) := by
  rcases submits_cases h hsubmits with ⟨e, rfl⟩ | ⟨reply, new, rfl, happ⟩
  · exact .inl ⟨rfl, rfl⟩
  · exact .inr ⟨rfl, happ⟩

/-- One request is one visit, so the last registration the callback saw is there. -/
theorem settled_register (h : Sound t) (api : UffdApiLifecycle)
    (request : UffdRegistrationRequest) :
    Settled t (.register api request) (t.call (.register api request)) := by
  show Settled t _ (t.answer .registered (t.register api request))
  unfold register
  rcases submits_cases h (submits_registerBatch api [request]) with
    ⟨e, hresult⟩ | ⟨⟨commit, visited⟩, new, hresult, happ⟩
  · rw [hresult]
    exact .inl ⟨rfl, rfl⟩
  rw [hresult]
  obtain ⟨-, hvisited, hmem⟩ := happ.reports
  obtain ⟨r, rfl, hr⟩ := map_eq_singleton_iff.mp hvisited
  refine .inr ⟨rfl, ?_⟩
  refine { happ with reports := .inl ⟨⟨api, ?_⟩, hmem r mem_cons_self⟩ }
  show UffdCall.register api request = .register api r.request
  rw [hr]

theorem call_cases (h : Sound t) (c : UffdCall) : Settled t c (t.call c) := by
  cases c with
  | register api request => exact settled_register h api request
  | commitRegister plan | commitReplace plan =>
    exact settled_of_submits h (.inr ⟨plan, true, rfl, rfl⟩)
  | registerBatch api requests => exact settled_of_submits h (submits_registerBatch api requests)
  | replaceBatch api removed replacements =>
    exact settled_of_submits h
      (submits_preflighted rfl fun plan hplan => .inr ⟨plan, true, hplan, rfl⟩)
  | commitMappingReplace | commitMappingRemove =>
    exact settled_of_submits h (submits_commitMappingReplace rfl rfl)
  | mappingReplaceBatch removed replacements =>
    exact settled_of_submits h
      (submits_preflighted rfl fun plan hplan => submits_commitMappingReplace hplan rfl)
  | unregister id =>
    show Settled t _ (.registered (t.unregister id).1, (t.unregister id).2)
    rcases unregister_cases h id with ⟨e, herror⟩ | ⟨r, hr, hid, hdone⟩
    · rw [herror]
      exact .inl ⟨rfl, rfl⟩
    rw [hdone]
    refine .inr ⟨rfl, applied_without (nodup_singleton id) ?_ rfl rfl ?_⟩
    · intro id' hid'
      exact ⟨r, hr, hid.trans (mem_singleton.mp hid').symm⟩
    · exact .inr ⟨by rw [hid], hr⟩
  | detachHandler handler =>
    show Settled t _ (.detached (t.detachHandler handler).1, (t.detachHandler handler).2)
    rw [detachHandler_eq h handler]
    refine .inr ⟨rfl, applied_without ?_ ?_ rfl rfl rfl⟩
    · exact h.ids_nodup.sublist (List.Sublist.map _ filter_sublist)
    · intro id hid
      obtain ⟨r, hr, rfl⟩ := mem_map.mp hid
      exact ⟨r, (mem_filter.mp hr).1, rfl⟩

theorem Applied.sound {reply : UffdReply} {new : UffdRegistrationTable}
    (happ : Applied t c reply new) (h : Sound t) : Sound new :=
  h.commits happ.fits happ.apart happ.commits

theorem Sound.call (h : Sound t) (c : UffdCall) : Sound (t.call c).2 := by
  rcases call_cases h c with ⟨-, hsame⟩ | ⟨-, happ⟩
  · rw [hsame]
    exact h
  · exact happ.sound h

/-- The invariant of the table holds along every run. -/
theorem sound_run (capacity : Nat) (firstId : NonZeroU64) (calls : List UffdCall) :
    Sound (Lib.run call (new capacity firstId) calls) :=
  Lib.run_preserves (fun _ c h => h.call c) (sound_new capacity firstId) calls

theorem length_call (h : Sound t) (c : UffdCall) :
    (t.call c).2.records.length = t.records.length := by
  rcases call_cases h c with ⟨-, hsame⟩ | ⟨-, happ⟩
  · rw [hsame]
  · rw [happ.commits.filled.length_eq, length_cleared]

/-- The table never grows. -/
theorem length_run (capacity : Nat) (firstId : NonZeroU64) (calls : List UffdCall) :
    (Lib.run call (new capacity firstId) calls).records.length = capacity := by
  let I := fun t : UffdRegistrationTable => Sound t ∧ t.records.length = capacity
  have hstep : ∀ t c, I t → I (call t c).2 := fun t c h =>
    ⟨h.1.call c, (length_call h.1 c).trans h.2⟩
  have hinit : I (new capacity firstId) := ⟨sound_new capacity firstId, length_replicate⟩
  exact (Lib.run_preserves hstep hinit calls).2

/-- No `expect` fires. -/
theorem call_ne_panicked (h : Sound t) (c : UffdCall) : (t.call c).1 ≠ .panicked := by
  intro hpanic
  rcases call_cases h c with ⟨herror, -⟩ | ⟨-, happ⟩
  · rw [hpanic] at herror
    cases herror
  have hrep := happ.reports
  rw [hpanic] at hrep
  exact hrep

/-! ## Identities -/

/-- The identities a call puts into the table. -/
def issued (t : UffdRegistrationTable) (c : UffdCall) : List UffdRegistrationId :=
  ((t.call c).2.live.map (·.id)).filter fun id => id ∉ t.live.map (·.id)

/-- A record of the next table is an old one, or its identity is at or above the counter. -/
theorem mem_live_call (h : Sound t)
    (hr : r ∈ (t.call c).2.live) : r ∈ t.live ∨ ∃ n ∈ t.nextId, n.val ≤ r.id.raw.val := by
  rcases call_cases h c with ⟨-, hsame⟩ | ⟨-, happ⟩
  · rw [hsame] at hr
    exact .inl hr
  rcases mem_append.mp (happ.commits.live.mem_iff.mp hr) with hfresh | hkept
  · have hbounds := ((numbered_ids happ.commits.advance).2 r hfresh).1
    cases hnext : t.nextId with
    | some n => exact .inr ⟨n, rfl, hbounds n hnext⟩
    | none =>
      rw [hnext, numbered_none] at hfresh
      cases hfresh
  · exact .inl (mem_retained.mp hkept).1

/-- A new identity lies between the counter before the call and the counter after it. -/
theorem issued_between (h : Sound t) {id : UffdRegistrationId} (hid : id ∈ t.issued c) :
    (∃ n ∈ t.nextId, n.val ≤ id.raw.val) ∧ ∀ n ∈ (t.call c).2.nextId, id.raw.val < n.val := by
  obtain ⟨hmem, hnew⟩ := mem_filter.mp hid
  have hnew : id ∉ t.live.map (·.id) := of_decide_eq_true hnew
  obtain ⟨r, hr, rfl⟩ := mem_map.mp hmem
  refine ⟨?_, (h.call c).ids_below r hr⟩
  rcases mem_live_call h hr with hold | habove
  · exact absurd (mem_map_of_mem hold) hnew
  · exact habove

/-- The counter never comes back. -/
theorem nextId_call (h : Sound t) (c : UffdCall) :
    ∀ n ∈ (t.call c).2.nextId, ∃ m ∈ t.nextId, m.val ≤ n.val := by
  intro n hn
  rcases call_cases h c with ⟨-, hsame⟩ | ⟨-, happ⟩
  · rw [hsame] at hn
    exact ⟨n, hn, Nat.le_refl _⟩
  · obtain ⟨m, hm, hval⟩ := advanceRegistrationIds_val happ.commits.advance n hn
    exact ⟨m, hm, by omega⟩

/-- The identities issued so far lie below the counter, and none was issued twice. -/
structure IssuedOnce (past : List UffdRegistrationId) (t : UffdRegistrationTable) : Prop where
  sound : Sound t
  nodup : past.Nodup
  below : ∀ id ∈ past, ∀ n ∈ t.nextId, id.raw.val < n.val

theorem IssuedOnce.call (h : IssuedOnce past t) (c : UffdCall) :
    IssuedOnce (past ++ t.issued c) (t.call c).2 where
  sound := h.sound.call c
  nodup := by
    refine nodup_append.mpr ⟨h.nodup, (h.sound.call c).ids_nodup.filter _, ?_⟩
    intro id hid id' hid' heq
    obtain ⟨n, hn, hle⟩ := (issued_between h.sound hid').1
    have hlt := h.below id hid n hn
    rw [heq] at hlt
    omega
  below := by
    intro id hid n hn
    rcases mem_append.mp hid with hpast | hnow
    · obtain ⟨m, hm, hle⟩ := nextId_call h.sound c n hn
      exact Nat.lt_of_lt_of_le (h.below id hpast m hm) hle
    · exact (issued_between h.sound hnow).2 n hn

theorem nodup_issued_run (capacity : Nat) (firstId : NonZeroU64) (calls : List UffdCall) :
    (Lib.history call issued (new capacity firstId) calls).Nodup := by
  have hinit : IssuedOnce [] (new capacity firstId) :=
    ⟨sound_new capacity firstId, nodup_nil, fun id hid => absurd hid not_mem_nil⟩
  have hrun := Lib.history_invariant (I := IssuedOnce) (fun _ _ c h => h.call c) calls []
    (new capacity firstId) hinit
  exact hrun.nodup

end Calls

/-- Every reachable table holds its invariant: the registrations of one address space are
apart, identities are distinct, below the counter and never issued twice, the records fit the
capacity, and no commit runs into an `expect`. -/
theorem run_registrations_sound (capacity : Nat) (firstId : NonZeroU64) (calls : List UffdCall) :
    let t := Lib.run call (new capacity firstId) calls
    t.live.Pairwise (fun a b => a.addressSpace = b.addressSpace →
        rangesOverlap a.range b.range = false)
      ∧ (t.live.map (·.id)).Nodup
      ∧ (∀ r ∈ t.live, ∀ n ∈ t.nextId, r.id.raw.val < n.val)
      ∧ (Lib.history call issued (new capacity firstId) calls).Nodup
      ∧ t.live.length ≤ capacity
      ∧ ∀ c, (t.call c).1 ≠ .panicked := by
  intro t
  have hsound : Sound t := sound_run capacity firstId calls
  refine ⟨hsound.disjoint, hsound.ids_nodup, hsound.ids_below,
    nodup_issued_run capacity firstId calls, ?_, fun c => call_ne_panicked hsound c⟩
  calc t.live.length ≤ t.records.length := reduceOption_length_le t.records
    _ = capacity := length_run capacity firstId calls

end UffdRegistrationTable

end LinuxAbi.Mm
