import LinuxAbi.Lib.Outcome
import Mathlib.Data.BitVec
import Mathlib.Data.List.Sort

/-!
# Kernel and user identities

The value layer of the credential crate: the typed IDs of `idmap.rs`, the namespace ID maps
with the constructor that validates their rows and the lookups that credential policy makes,
the identity fields of a credential and its supplementary groups.

The four ID types of the source are one struct stamped out by a macro, so they are one type
here, indexed by the space an ID lives in.
-/

namespace LinuxAbi.Cred

inductive CredError where
  | invalidInput
  | notPermitted
  | noMemory
  | capacity
deriving DecidableEq

/-- The ID spaces `typed_id!` is instantiated at. -/
inductive IdSpace where
  | kuid
  | kgid
  | userUid
  | userGid
deriving DecidableEq

/-- `INVALID_ID`: Linux reserves the all-ones ID. -/
def invalidId : Nat := 2 ^ 32 - 1

/-- An ID of one space; the all-ones value is never one. -/
structure TypedId (space : IdSpace) where
  raw : Nat
  valid : raw < invalidId
deriving DecidableEq

abbrev Kuid := TypedId .kuid
abbrev Kgid := TypedId .kgid
abbrev UserUid := TypedId .userUid
abbrev UserGid := TypedId .userGid

namespace TypedId

variable {space : IdSpace}

/-- `from_raw`, on a 32-bit number. -/
def fromRaw (raw : Nat) : Option (TypedId space) :=
  if h : raw < invalidId then some ⟨raw, h⟩ else none

/-- `INITIAL_ROOT` of the kernel-global spaces, `ROOT` of the namespace-visible ones. -/
def root : TypedId space := ⟨0, by decide⟩

end TypedId

/-! ## ID maps -/

structure IdMapExtent where
  first : Nat
  lowerFirst : Nat
  count : Nat
deriving DecidableEq

def IdMapExtent.upperEnd (extent : IdMapExtent) : Nat := extent.first + extent.count

def IdMapExtent.lowerEnd (extent : IdMapExtent) : Nat := extent.lowerFirst + extent.count

/-- `IdMap`: one index ordered by namespace-visible ranges, one by kernel-global ranges. -/
structure IdMap where
  forward : List IdMapExtent
  reverse : List IdMapExtent
deriving DecidableEq

/-- The binary search of `find_extent`: the number of leading extents that start at or below
`id`, narrowed between `left` and `right`. -/
def searchExtents (extents : List IdMapExtent) (id : Nat) (start : IdMapExtent → Nat)
    (left right : Nat) : Nat :=
  if left < right then
    let middle := left + (right - left) / 2
    if (extents[middle]?.map start).any (· ≤ id) then
      searchExtents extents id start (middle + 1) right
    else
      searchExtents extents id start left middle
  else left
termination_by right - left

def findExtent (extents : List IdMapExtent) (id : Nat) (start stop : IdMapExtent → Nat) :
    Option IdMapExtent :=
  match searchExtents extents id start 0 extents.length with
  | 0 => none
  | left + 1 => extents[left]?.filter fun candidate => id < stop candidate

/-- `u32::checked_add`. -/
def checkedAdd32 (a b : Nat) : Option Nat :=
  if a + b < 2 ^ 32 then some (a + b) else none

def idMapMaxExtents : Nat := 340

def validRangeEnd (first count : Nat) : Option Nat :=
  if count = 0 ∨ first = invalidId then none else checkedAdd32 first count

def validateRange (first count : Nat) : Except CredError Nat :=
  (validRangeEnd first count).elim (.error .invalidInput) .ok

/-- The loop over `windows(2)`. -/
def validateNonOverlapping (start stop : IdMapExtent → Nat) :
    List IdMapExtent → Except CredError Unit
  | a :: b :: rest =>
    if start b < stop a then .error .invalidInput
    else validateNonOverlapping start stop (b :: rest)
  | _ => .ok ()

/-- `sort_unstable_by_key`. Which of two equal keys comes first does not matter here: extents
are not empty, so equal keys overlap either way. -/
def sortByKey (key : IdMapExtent → Nat) (extents : List IdMapExtent) : List IdMapExtent :=
  extents.insertionSort (key · ≤ key ·)

namespace IdMap

/-- The map of resolved rows; `reserved` and `allocated` say whether the reverse index and the
map object are allocated. -/
def tryFromKernelExtents (rows : List IdMapExtent) (reserved allocated : Bool) :
    Except CredError IdMap :=
  if rows = [] ∨ idMapMaxExtents < rows.length then .error .invalidInput
  else do
    rows.forM fun extent => do
      let _ ← validateRange extent.first extent.count
      let _ ← validateRange extent.lowerFirst extent.count
    let forward := sortByKey (·.first) rows
    validateNonOverlapping (·.first) (·.upperEnd) forward
    if ¬ reserved then .error .noMemory
    else
      let reverse := sortByKey (·.lowerFirst) forward
      validateNonOverlapping (·.lowerFirst) (·.lowerEnd) reverse
      if allocated then .ok { forward, reverse } else .error .noMemory

def mapIdToKernel (map : IdMap) (id : Nat) : Option Nat := do
  let extent ← findExtent map.forward id (·.first) (·.upperEnd)
  checkedAdd32 extent.lowerFirst (id - extent.first)

def mapIdFromKernel (map : IdMap) (id : Nat) : Option Nat := do
  let extent ← findExtent map.reverse id (·.lowerFirst) (·.lowerEnd)
  checkedAdd32 extent.first (id - extent.lowerFirst)

def userUidToKernel (map : IdMap) (id : UserUid) : Option Kuid :=
  (map.mapIdToKernel id.raw).bind TypedId.fromRaw

def kernelUidToUser (map : IdMap) (id : Kuid) : Option UserUid :=
  (map.mapIdFromKernel id.raw).bind TypedId.fromRaw

def kernelGidToUser (map : IdMap) (id : Kgid) : Option UserGid :=
  (map.mapIdFromKernel id.raw).bind TypedId.fromRaw

end IdMap

variable {extents : List IdMapExtent} {start stop : IdMapExtent → Nat}

/-- The search ends past exactly the extents that start at or below the ID. -/
theorem searchExtents_spec (id : Nat) (hs : extents.Pairwise (start · ≤ start ·))
    (hle : left ≤ right) (hright : right ≤ extents.length) (h : ∀ i e, extents[i]? = some e →
      (i < left → start e ≤ id) ∧ (right ≤ i → id < start e)) :
    let n := searchExtents extents id start left right
    n ≤ right ∧ ∀ i e, extents[i]? = some e → (i < n ↔ start e ≤ id) := by
  rw [List.pairwise_iff_getElem] at hs
  fun_induction searchExtents extents id start left right with grind

/-- Of disjoint extents the one that holds the ID is found. -/
theorem findExtent_eq_some {id : Nat} (hs : extents.Pairwise (stop · ≤ start ·))
    (hne : ∀ e, start e ≤ stop e) :
    findExtent extents id start stop = some e ↔ e ∈ extents ∧ start e ≤ id ∧ id < stop e := by
  have hspec := searchExtents_spec id (hs.imp (Nat.le_trans (hne _)))
    (Nat.zero_le _) (Nat.le_refl _) (by grind)
  rw [List.pairwise_iff_getElem] at hs
  unfold findExtent
  rw [List.mem_iff_getElem?]
  split <;> grind

/-- The two indices hold the same rows, each without overlap in its own space, and no row
ends past the IDs. -/
structure IdMap.Valid (map : IdMap) : Prop where
  rows : map.forward.Perm map.reverse
  upper : map.forward.Pairwise (·.upperEnd ≤ ·.first)
  lower : map.reverse.Pairwise (·.lowerEnd ≤ ·.lowerFirst)
  bounded : ∀ e ∈ map.forward, e.upperEnd < 2 ^ 32 ∧ e.lowerEnd < 2 ^ 32

theorem validateRange_eq_ok {first count stop : Nat} (h : validateRange first count = .ok stop) :
    first + count < 2 ^ 32 := by
  unfold validateRange validRangeEnd checkedAdd32 at h
  split_ifs at h with hempty hend
  · cases h
  · exact hend
  · cases h

/-- Extents that do not overlap their neighbours do not overlap at all. -/
theorem validateNonOverlapping_eq_ok (hne : ∀ e, start e ≤ stop e)
    (h : validateNonOverlapping start stop extents = .ok ()) :
    extents.Pairwise (stop · ≤ start ·) := by
  have htrans : IsTrans IdMapExtent (stop · ≤ start ·) :=
    ⟨fun a b c hab hbc => hab.trans ((hne b).trans hbc)⟩
  rw [← List.isChain_iff_pairwise]
  fun_induction validateNonOverlapping start stop extents with
  | case1 a b rest hlt => cases h
  | case2 a b rest hle ih => exact .cons_cons (Nat.not_lt.mp hle) (ih h)
  | case3 extents hshort =>
    rcases extents with _ | ⟨a, _ | ⟨b, rest⟩⟩
    · exact .nil
    · exact .singleton a
    · exact absurd rfl (hshort a b rest)

theorem IdMap.tryFromKernelExtents_valid (h : tryFromKernelExtents rows reserved allocated = .ok map) :
    map.Valid ∧ map.forward.Perm rows := by
  unfold tryFromKernelExtents at h
  split at h
  · cases h
  obtain ⟨⟨⟩, hrows, h⟩ := Lib.bind_eq_ok.mp h
  obtain ⟨⟨⟩, hupper, h⟩ := Lib.bind_eq_ok.mp h
  split at h
  · cases h
  obtain ⟨⟨⟩, hlower, h⟩ := Lib.bind_eq_ok.mp h
  split at h
  · cases h
    have hsorted : (sortByKey (·.first) rows).Perm rows := List.perm_insertionSort ..
    refine ⟨⟨(List.perm_insertionSort ..).symm, ?_, ?_, ?_⟩, hsorted⟩
    · exact validateNonOverlapping_eq_ok (fun _ => Nat.le_add_right ..) hupper
    · exact validateNonOverlapping_eq_ok (fun _ => Nat.le_add_right ..) hlower
    · intro e he
      have hrange := Lib.forM_eq_ok.mp hrows e (hsorted.mem_iff.mp he)
      obtain ⟨_, hfirst, hrange⟩ := Lib.bind_eq_ok.mp hrange
      obtain ⟨_, hlast, -⟩ := Lib.bind_eq_ok.mp hrange
      exact ⟨validateRange_eq_ok hfirst, validateRange_eq_ok hlast⟩
  · cases h

/-- A map that was made is valid; it translates the IDs of its rows and no others, and what it
translates it translates back. -/
theorem idMap_round_trip {rows : List IdMapExtent} {reserved allocated : Bool} {map : IdMap}
    (hmade : IdMap.tryFromKernelExtents rows reserved allocated = .ok map) :
    map.Valid ∧ ∀ id k, (map.mapIdToKernel id = some k ↔ map.mapIdFromKernel k = some id) ∧
      (map.mapIdToKernel id = some k ↔ ∃ row ∈ rows, row.first ≤ id ∧ id < row.upperEnd ∧
        k = row.lowerFirst + (id - row.first)) := by
  obtain ⟨hvalid, hrows⟩ := IdMap.tryFromKernelExtents_valid hmade
  refine ⟨hvalid, fun id k => ?_⟩
  have hend := hvalid.bounded
  simp only [IdMap.mapIdToKernel, IdMap.mapIdFromKernel, checkedAdd32, Option.bind_eq_bind,
    Option.bind_eq_some_iff, findExtent_eq_some hvalid.upper fun _ => Nat.le_add_right ..,
    findExtent_eq_some hvalid.lower fun _ => Nat.le_add_right .., ← hvalid.rows.mem_iff,
    ← hrows.mem_iff]
  unfold IdMapExtent.upperEnd IdMapExtent.lowerEnd at *
  refine ⟨⟨?_, ?_⟩, ?_, ?_⟩ <;> exact fun ⟨e, h⟩ => ⟨e, by grind⟩

/-- Two rows, not in the order of either space. -/
def swappedRows : List IdMapExtent := [⟨10, 100, 5⟩, ⟨0, 200, 10⟩]

theorem idMap_round_trip_swapped :
    IdMap.tryFromKernelExtents swappedRows true true
        = .ok ⟨[⟨0, 200, 10⟩, ⟨10, 100, 5⟩], [⟨10, 100, 5⟩, ⟨0, 200, 10⟩]⟩ ∧
      (IdMap.mk [⟨0, 200, 10⟩, ⟨10, 100, 5⟩] [⟨10, 100, 5⟩, ⟨0, 200, 10⟩]).mapIdFromKernel 102
        = some 12 := by
  have hmade : IdMap.tryFromKernelExtents swappedRows true true
      = .ok ⟨[⟨0, 200, 10⟩, ⟨10, 100, 5⟩], [⟨10, 100, 5⟩, ⟨0, 200, 10⟩]⟩ := by decide
  obtain ⟨hback, hrows⟩ := (idMap_round_trip hmade).2 12 102
  exact ⟨hmade, hback.mp (hrows.mpr ⟨⟨10, 100, 5⟩, by decide⟩)⟩

/-! ## The identity of a credential -/

structure CredentialIds where
  ruid : Kuid
  euid : Kuid
  suid : Kuid
  fsuid : Kuid
  rgid : Kgid
  egid : Kgid
  sgid : Kgid
  fsgid : Kgid

def CredentialIds.initialRoot : CredentialIds :=
  ⟨.root, .root, .root, .root, .root, .root, .root, .root⟩

def ngroupsMax : Nat := 65536

/-- `GroupInfo`: sorted supplementary groups. -/
structure GroupInfo where
  groups : List Kgid
  bounded : groups.length ≤ ngroupsMax
  sorted : groups.Pairwise fun a b => a.raw ≤ b.raw

/-- `GroupInfo::contains`; the binary search of a sorted slice decides membership. -/
def GroupInfo.contains (info : GroupInfo) (gid : Kgid) : Bool := decide (gid ∈ info.groups)

end LinuxAbi.Cred
