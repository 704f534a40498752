import LinuxAbi.Mm.Range

/-!
# Mapping snapshots, expectations and invalidations

`crates/mm/src/mapping.rs`: the facts about a mapping that an operation freezes, their
revalidation, and the typed invalidation that goes with a change of a mapping.
-/

namespace LinuxAbi.Mm

/-- `MappingAccess`: read, write and execute permission. -/
structure MappingAccess where
  readable : Bool
  writable : Bool
  executable : Bool
deriving DecidableEq

inductive MappingKind
  | anonymousPrivate
  | anonymousShared
  | filePrivate
  | fileShared
  | device
  | special
deriving DecidableEq

structure MappingSnapshot where
  addressSpace : AddressSpaceId
  mapping : MappingId
  generation : MappingGeneration
  range : PageRange
  access : MappingAccess
  kind : MappingKind
  longTermPinnable : Bool
  writableFilePinSupported : Bool
deriving DecidableEq

structure ExpectedMapping where
  addressSpace : AddressSpaceId
  mapping : MappingId
  generation : MappingGeneration
  range : PageRange

def MappingSnapshot.expected (s : MappingSnapshot) : ExpectedMapping where
  addressSpace := s.addressSpace
  mapping := s.mapping
  generation := s.generation
  range := s.range

namespace ExpectedMapping

def revalidate (e : ExpectedMapping) (current : MappingSnapshot) : Except MmError Unit :=
  if e.addressSpace ≠ current.addressSpace ∨ e.mapping ≠ current.mapping ∨
      e.generation ≠ current.generation then .error .staleGeneration
  else if ¬ current.range.contains e.range then .error .rangeNotMapped
  else .ok ()

def revalidateRange (e : ExpectedMapping) (current : MappingSnapshot) (operation : PageRange) :
    Except MmError Unit :=
  match e.revalidate current with
  | .error error => .error error
  | .ok () =>
    if ¬ e.range.contains operation ∨ ¬ current.range.contains operation then .error .rangeNotMapped
    else .ok ()

/-- The mapping is the expected one and still has the operation's range. -/
structure Unchanged (e : ExpectedMapping) (current : MappingSnapshot) (operation : PageRange) :
    Prop where
  addressSpace : current.addressSpace = e.addressSpace
  mapping : current.mapping = e.mapping
  generation : current.generation = e.generation
  expected : e.range.contains operation = true
  mapped : current.range.contains operation = true

theorem revalidateRange_eq_ok {e : ExpectedMapping}
    (h : e.revalidateRange current operation = .ok ()) : e.Unchanged current operation := by
  unfold revalidateRange revalidate at h
  split at h
  · cases h
  next hidentity =>
  split at hidentity
  · cases hidentity
  next hsame =>
  rw [not_or, not_or, not_not, not_not, not_not] at hsame
  obtain ⟨hspace, hmapping, hgeneration⟩ := hsame
  split at h
  · cases h
  next hranges =>
  rw [not_or, not_not, not_not] at hranges
  exact ⟨hspace.symm, hmapping.symm, hgeneration.symm, hranges.1, hranges.2⟩

end ExpectedMapping

inductive InvalidationReason
  | protect
  | unmap
  | remap
  | cowBreak
  | fork
  | truncate
  | discard
  | holePunch
  | fileInvalidation
  | exec
  | teardown
deriving DecidableEq

/-- `InvalidationRange`: contained in the mapping it was made for. -/
structure InvalidationRange where
  expected : ExpectedMapping
  range : PageRange
  reason : InvalidationReason
  contained : expected.range.contains range = true

namespace InvalidationRange

def new (snapshot : MappingSnapshot) (range : PageRange) (reason : InvalidationReason) :
    Except MmError InvalidationRange :=
  if h : snapshot.range.contains range = true then
    .ok { expected := snapshot.expected, range, reason, contained := h }
  else .error .rangeNotMapped

def fromRaw (snapshot : MappingSnapshot) (start length : Nat) (reason : InvalidationReason) :
    Except MmError InvalidationRange :=
  match PageRange.new start length snapshot.range.pageSize.bytes with
  | .error error => .error error
  | .ok range => new snapshot range reason

end InvalidationRange

end LinuxAbi.Mm
