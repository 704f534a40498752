import LinuxAbi.Mm.Pin
import Mathlib.Algebra.BigOperators.Group.List.Basic

/-!
# What the pin registry's accounts add up to

The ledger behind the registry, apart from slots and calls: a list of accounts, a list of
live records, the global usage and the next token. `Balanced` says that the usages are sums
of charges within their quotas, that every record is charged to an account, and that tokens
are fresh; it does not depend on the order of the lists. Each lemma below is one thing that
can happen to a ledger.
-/

namespace LinuxAbi.Mm

open List
open Lib (NonZeroU64)

/-! ## Charges -/

namespace PinAccounting

theorem add_def (a b : PinAccounting) :
    a + b = ⟨a.pages + b.pages, a.bytes + b.bytes, a.tokens + b.tokens⟩ := rfl

theorem zero_def : (0 : PinAccounting) = ⟨0, 0, 0⟩ := rfl

instance : AddCommMonoid PinAccounting where
  add_assoc a b c := by simp [add_def, Nat.add_assoc]
  zero_add a := by simp [add_def, zero_def]
  add_zero a := by simp [add_def, zero_def]
  add_comm a b := by simp [add_def, Nat.add_comm]
  nsmul := nsmulRec

theorem checkedAddWord_eq_ok (h : checkedAddWord a b = .ok c) : c = a + b := by
  unfold checkedAddWord at h
  split at h
  · exact (Except.ok.inj h).symm
  · cases h

theorem checkedAdd_eq_ok {a charge sum : PinAccounting} (h : a.checkedAdd charge = .ok sum) :
    sum = a + charge := by
  unfold checkedAdd at h
  cases hpages : checkedAddWord a.pages charge.pages with
  | error error =>
    rw [hpages] at h
    cases h
  | ok pages =>
    cases hbytes : checkedAddWord a.bytes charge.bytes with
    | error error =>
      rw [hpages, hbytes] at h
      cases h
    | ok bytes =>
      cases htoks : checkedAddWord a.tokens charge.tokens with
      | error error =>
        rw [hpages, hbytes, htoks] at h
        cases h
      | ok tokens =>
        rw [hpages, hbytes, htoks] at h
        rw [add_def, ← checkedAddWord_eq_ok hpages, ← checkedAddWord_eq_ok hbytes,
          ← checkedAddWord_eq_ok htoks]
        exact (Except.ok.inj h).symm

/-- What was added can be taken away again. -/
theorem checkedSub_add (a charge : PinAccounting) : (a + charge).checkedSub charge = .ok a := by
  have hword : ∀ x y : Nat, checkedSubWord (x + y) y = .ok x := by
    intro x y
    unfold checkedSubWord
    rw [if_pos (Nat.le_add_left y x), Nat.add_sub_cancel]
  unfold checkedSub
  rw [add_def, hword, hword, hword]
  rfl

end PinAccounting

theorem PinQuota.admits_of_add {q : PinQuota} (h : q.admits (a + b) = true) :
    q.admits a = true := by
  simp only [PinQuota.admits, PinAccounting.add_def, Bool.and_eq_true, decide_eq_true_eq] at h ⊢
  omega

theorem PinQuota.admits_zero (q : PinQuota) : q.admits 0 = true := by
  simp [PinQuota.admits, PinAccounting.zero_def]

/-! ## The ledger -/

/-- The charges of all records. -/
def totalCharge (live : List PinRecord) : PinAccounting := (live.map (·.charge)).sum

/-- The charges of one owner's records. -/
def ownerCharge (owner : PinOwner) (live : List PinRecord) : PinAccounting :=
  totalCharge (live.filter fun record => record.request.owner == owner)

theorem totalCharge_cons (record : PinRecord) (live : List PinRecord) :
    totalCharge (record :: live) = record.charge + totalCharge live := by
  unfold totalCharge
  rw [map_cons, sum_cons]

theorem totalCharge_perm (h : live.Perm live') :
    totalCharge live = totalCharge live' :=
  (h.map _).sum_eq

theorem ownerCharge_cons (owner : PinOwner) (record : PinRecord) (live : List PinRecord) :
    ownerCharge owner (record :: live) =
      if record.request.owner = owner then record.charge + ownerCharge owner live
      else ownerCharge owner live := by
  unfold ownerCharge
  by_cases h : record.request.owner = owner
  · rw [if_pos h, filter_cons, if_pos (beq_iff_eq.mpr h), totalCharge_cons]
  · rw [if_neg h, filter_cons, if_neg fun hbeq => h (beq_iff_eq.mp hbeq)]

theorem ownerCharge_perm (owner : PinOwner) (h : live.Perm live') :
    ownerCharge owner live = ownerCharge owner live' :=
  totalCharge_perm (h.filter _)

/-- The accounts say what the records are charged, within the quotas; every record has an
account; no token is live twice or still to come. -/
structure Balanced (quota : PinQuota) (usage : PinAccounting) (accounts : List OwnerAccount)
    (live : List PinRecord) (next : Option NonZeroU64) : Prop where
  total : usage = totalCharge live
  share : ∀ account ∈ accounts, account.usage = ownerCharge account.owner live
  within : quota.admits usage = true
  ownerWithin : ∀ account ∈ accounts, account.quota.admits account.usage = true
  configured : ∀ record ∈ live, record.request.owner ∈ accounts.map (·.owner)
  owners : (accounts.map (·.owner)).Nodup
  tokens : (live.map (·.token)).Nodup
  fresh : ∀ record ∈ live, ∀ token, next = some token → record.token.raw.val < token.val

namespace Balanced

variable {quota : PinQuota} {usage : PinAccounting} {accounts accounts' : List OwnerAccount}
  {live live' : List PinRecord} {next : Option NonZeroU64}

theorem empty (quota : PinQuota) (next : Option NonZeroU64) : Balanced quota 0 [] [] next where
  total := rfl
  share _ hmem := absurd hmem not_mem_nil
  within := quota.admits_zero
  ownerWithin _ hmem := absurd hmem not_mem_nil
  configured _ hmem := absurd hmem not_mem_nil
  owners := nodup_nil
  tokens := nodup_nil
  fresh _ hmem := absurd hmem not_mem_nil

theorem perm (h : Balanced quota usage accounts live next) (ha : accounts.Perm accounts')
    (hl : live.Perm live') : Balanced quota usage accounts' live' next where
  total := h.total.trans (totalCharge_perm hl)
  share account hmem := (h.share account (ha.mem_iff.mpr hmem)).trans (ownerCharge_perm _ hl)
  within := h.within
  ownerWithin account hmem := h.ownerWithin account (ha.mem_iff.mpr hmem)
  configured record hmem := (ha.map _).mem_iff.mp (h.configured record (hl.mem_iff.mpr hmem))
  owners := (ha.map _).nodup_iff.mp h.owners
  tokens := (hl.map _).nodup_iff.mp h.tokens
  fresh record hmem := h.fresh record (hl.mem_iff.mpr hmem)

variable {account : OwnerAccount}

/-- No two accounts have one owner. -/
theorem owner_ne (h : Balanced quota usage (account :: accounts) live next)
    (hmem : a ∈ accounts) : account.owner ≠ a.owner := by
  intro heq
  have hfirst : account.owner ∉ accounts.map (·.owner) := (nodup_cons.mp h.owners).1
  rw [heq] at hfirst
  exact hfirst (mem_map_of_mem hmem)

/-- An account gets another quota that admits what it has used. -/
theorem requota (h : Balanced quota usage (account :: accounts) live next)
    (hq : q.admits account.usage = true) :
    Balanced quota usage ({ account with quota := q } :: accounts) live next where
  total := h.total
  share a hmem := by
    rcases mem_cons.mp hmem with rfl | hmem
    · exact h.share account mem_cons_self
    · exact h.share a (mem_cons_of_mem _ hmem)
  within := h.within
  ownerWithin a hmem := by
    rcases mem_cons.mp hmem with rfl | hmem
    · exact hq
    · exact h.ownerWithin a (mem_cons_of_mem _ hmem)
  configured := h.configured
  owners := h.owners
  tokens := h.tokens
  fresh := h.fresh

/-- An owner that had no account gets one; it has no records. -/
theorem addOwner (h : Balanced quota usage accounts live next)
    (hnew : owner ∉ accounts.map (·.owner)) (q : PinQuota) :
    Balanced quota usage ({ owner, quota := q, usage := 0 } :: accounts) live next where
  total := h.total
  share a hmem := by
    rcases mem_cons.mp hmem with rfl | hmem
    · have hnone : live.filter (fun record => record.request.owner == owner) = [] := by
        rw [filter_eq_nil_iff]
        intro record hrecord heq
        exact hnew (beq_iff_eq.mp heq ▸ h.configured record hrecord)
      unfold ownerCharge
      rw [hnone]
      rfl
    · exact h.share a hmem
  within := h.within
  ownerWithin a hmem := by
    rcases mem_cons.mp hmem with rfl | hmem
    · exact q.admits_zero
    · exact h.ownerWithin a hmem
  configured record hmem := mem_cons_of_mem _ (h.configured record hmem)
  owners := nodup_cons.mpr ⟨hnew, h.owners⟩
  tokens := h.tokens
  fresh := h.fresh

/-- An account without usage has no records (every charge counts a token), so it can go. -/
theorem removeOwner (h : Balanced quota usage (account :: accounts) live next)
    (hidle : account.usage = 0) (hchg : ∀ record ∈ live, record.charge.tokens = 1) :
    Balanced quota usage accounts live next where
  total := h.total
  share a hmem := h.share a (mem_cons_of_mem _ hmem)
  within := h.within
  ownerWithin a hmem := h.ownerWithin a (mem_cons_of_mem _ hmem)
  configured record hmem := by
    rcases mem_cons.mp (h.configured record hmem) with howner | hother
    · -- a record of the owner would be charged to the account
      obtain ⟨rest, hperm⟩ : ∃ rest, live.Perm (record :: rest) := ⟨_, perm_cons_erase hmem⟩
      have hshare := h.share account mem_cons_self
      rw [hidle, ownerCharge_perm _ hperm, ownerCharge_cons, if_pos howner] at hshare
      have htoks := congrArg PinAccounting.tokens hshare
      rw [PinAccounting.add_def, PinAccounting.zero_def] at htoks
      have hone := hchg record hmem
      simp only at htoks
      omega
    · exact hother
  owners := (nodup_cons.mp h.owners).2
  tokens := h.tokens
  fresh := h.fresh

/-- A record is charged to an account and to the whole, under the next token. -/
theorem reserve (h : Balanced quota usage (account :: accounts) live next) (record : PinRecord)
    (howner : account.owner = record.request.owner)
    (hquota : account.quota.admits (account.usage + record.charge) = true)
    (hglobal : quota.admits (usage + record.charge) = true) (htok : next = some record.token.raw) :
    Balanced quota (usage + record.charge)
      ({ account with usage := account.usage + record.charge } :: accounts) (record :: live)
      record.token.raw.checkedSucc where
  total := by rw [totalCharge_cons, h.total, add_comm]
  share a hmem := by
    rcases mem_cons.mp hmem with rfl | hmem
    · rw [ownerCharge_cons, if_pos howner.symm, ← h.share account mem_cons_self, add_comm]
    have hne : record.request.owner ≠ a.owner := howner ▸ h.owner_ne hmem
    rw [ownerCharge_cons, if_neg hne]
    exact h.share a (mem_cons_of_mem _ hmem)
  within := hglobal
  ownerWithin a hmem := by
    rcases mem_cons.mp hmem with rfl | hmem
    · exact hquota
    · exact h.ownerWithin a (mem_cons_of_mem _ hmem)
  configured r hmem := by
    rcases mem_cons.mp hmem with rfl | hmem
    · exact howner ▸ mem_cons_self
    · exact h.configured r hmem
  owners := h.owners
  tokens := by
    refine nodup_cons.mpr ⟨?_, h.tokens⟩
    intro hmem
    obtain ⟨old, hold, heq⟩ := mem_map.mp hmem
    have hlt := h.fresh old hold _ htok
    rw [heq] at hlt
    exact Nat.lt_irrefl _ hlt
  fresh r hmem token hnext := by
    have hsucc := NonZeroU64.val_checkedSucc hnext
    rcases mem_cons.mp hmem with rfl | hmem
    · omega
    · have hlt := h.fresh r hmem _ htok
      omega

/-- A record goes and is refunded. -/
theorem remove (h : Balanced quota usage (account :: accounts) (record :: live) next)
    (howner : account.owner = record.request.owner) :
    ∃ ownerUsage globalUsage, account.usage = ownerUsage + record.charge ∧
      usage = globalUsage + record.charge ∧
      Balanced quota globalUsage ({ account with usage := ownerUsage } :: accounts) live next := by
  refine ⟨ownerCharge account.owner live, totalCharge live, ?_, ?_, ?_⟩
  · rw [h.share account mem_cons_self, ownerCharge_cons, if_pos howner.symm, add_comm]
  · rw [h.total, totalCharge_cons, add_comm]
  have husage : account.usage = ownerCharge account.owner live + record.charge := by
    rw [h.share account mem_cons_self, ownerCharge_cons, if_pos howner.symm, add_comm]
  refine ⟨rfl, ?_, ?_, ?_, ?_, h.owners, ?_, ?_⟩
  · intro a hmem
    rcases mem_cons.mp hmem with rfl | hmem
    · rfl
    have hne : record.request.owner ≠ a.owner := howner ▸ h.owner_ne hmem
    have hshare := h.share a (mem_cons_of_mem _ hmem)
    rwa [ownerCharge_cons, if_neg hne] at hshare
  · have hwin := h.within
    rw [h.total, totalCharge_cons, add_comm] at hwin
    exact PinQuota.admits_of_add hwin
  · intro a hmem
    rcases mem_cons.mp hmem with rfl | hmem
    · have hwin := h.ownerWithin account mem_cons_self
      rw [husage] at hwin
      exact PinQuota.admits_of_add hwin
    · exact h.ownerWithin a (mem_cons_of_mem _ hmem)
  · exact fun r hmem => h.configured r (mem_cons_of_mem _ hmem)
  · exact (nodup_cons.mp h.tokens).2
  · exact fun r hmem => h.fresh r (mem_cons_of_mem _ hmem)

/-- A record moves on with its token, owner and charge. -/
theorem revise (h : Balanced quota usage accounts (record :: live) next)
    (htok : new.token = record.token) (hrequest : new.request = record.request)
    (hchg : new.charge = record.charge) :
    Balanced quota usage accounts (new :: live) next where
  total := by rw [totalCharge_cons, hchg, ← totalCharge_cons, h.total]
  share a hmem := by
    rw [ownerCharge_cons, hrequest, hchg, ← ownerCharge_cons]
    exact h.share a hmem
  within := h.within
  ownerWithin := h.ownerWithin
  configured r hmem := by
    rcases mem_cons.mp hmem with rfl | hmem
    · rw [hrequest]
      exact h.configured record mem_cons_self
    · exact h.configured r (mem_cons_of_mem _ hmem)
  owners := h.owners
  tokens := by
    have htoks := h.tokens
    rw [map_cons, ← htok] at htoks
    exact htoks
  fresh r hmem := by
    rcases mem_cons.mp hmem with rfl | hmem
    · rw [htok]
      exact h.fresh record mem_cons_self
    · exact h.fresh r (mem_cons_of_mem _ hmem)

end Balanced

end LinuxAbi.Mm
