import LinuxAbi.Lib.Word

/-!
# User ranges, page sizes and page ranges

`crates/mm/src/range.rs` and the identities of `crates/mm/src/identity.rs`. The fields of
these types are private in the source and every constructor checks them, so the checks are
fields here: a range is nonempty and ends below `2 ^ 64`, a page size is a power of two, and
a page range is aligned.

`usize` is the 64-bit one.
-/

namespace LinuxAbi.Mm

open Nat
open Lib (NonZeroU64)

/-- `MmError`, as far as ranges, mappings, pins, registrations and remaps return it. -/
inductive MmError
  | zeroLength
  | overflow
  | addressOutOfRange
  | invalidPageSize
  | unaligned
  | invalidIdentity
  | rangeNotMapped
  | accessDenied
  | invalidAccess
  | unsupportedPin
  | quotaExceeded
  | capacityExceeded
  | ownerNotConfigured
  | ownerBusy
  | pinOverlap
  | mappingPinned
  | staleGeneration
  | unknownToken
  | invalidTokenState
  | idExhausted
  | closing
  | tearingDown
  | closed
  | busy
  | nonContiguousCoverage
  | incompleteRevalidation
  | uffdNotInitialized
  | unsupportedUffdMode
  | unsupportedUffdMapping
  | uffdRegistrationOverlap
  | invalidUffdRegistrationBatch
  | unknownUffdRegistration
  | inconsistentAccounting
  | invalidRemap
deriving DecidableEq

/-! ## Identities -/

structure AddressSpaceId where
  raw : NonZeroU64
deriving DecidableEq

structure MappingId where
  raw : NonZeroU64
deriving DecidableEq

structure PinOwner where
  raw : NonZeroU64
deriving DecidableEq

structure MappingGeneration where
  raw : NonZeroU64
deriving DecidableEq

structure FaultHandlerId where
  raw : NonZeroU64
deriving DecidableEq

/-! ## Byte ranges -/

/-- `UserRange`: a nonempty half-open byte range. -/
structure UserRange where
  start : Nat
  stop : Nat
  nonempty : start < stop
  lt : stop < 2 ^ 64
deriving DecidableEq

namespace UserRange

def new (start length : Nat) : Except MmError UserRange :=
  if hlength : length = 0 then .error .zeroLength
  else if hstop : start + length < 2 ^ 64 then
    .ok { start, stop := start + length, nonempty := by omega, lt := hstop }
  else .error .overflow

def len (r : UserRange) : Nat := r.stop - r.start

def contains (r other : UserRange) : Bool := r.start ≤ other.start && other.stop ≤ r.stop

def overlaps (r other : UserRange) : Bool := r.start < other.stop && other.start < r.stop

def containsAddress (r : UserRange) (address : Nat) : Bool := r.start ≤ address && address < r.stop

variable {r : UserRange}

theorem new_eq_ok {start length : Nat} (h : new start length = .ok r) :
    r.start = start ∧ r.stop = start + length := by
  unfold new at h
  split at h
  · cases h
  split at h
  · cases h
    exact ⟨rfl, rfl⟩
  · cases h

theorem new_of_lt {start length : Nat} (hlen : 0 < length) (h : start + length < 2 ^ 64) :
    ∃ r, new start length = .ok r ∧ r.start = start ∧ r.stop = start + length := by
  refine ⟨{ start, stop := start + length, nonempty := by omega, lt := h }, ?_, rfl, rfl⟩
  unfold new
  rw [dif_neg (by omega), dif_pos h]

theorem contains_iff : r.contains other = true ↔ r.start ≤ other.start ∧ other.stop ≤ r.stop := by
  simp [contains]

/-- Two ranges overlap when they share a byte. -/
theorem overlaps_iff : r.overlaps other = true ↔
    ∃ address, r.containsAddress address = true ∧ other.containsAddress address = true := by
  have hr := r.nonempty
  have hother := other.nonempty
  simp only [overlaps, containsAddress, Bool.and_eq_true, decide_eq_true_eq]
  constructor
  · intro h
    by_cases hle : r.start ≤ other.start
    · exact ⟨other.start, ⟨hle, h.2⟩, le_refl _, hother⟩
    · exact ⟨r.start, ⟨le_refl _, hr⟩, by omega, h.1⟩
  · rintro ⟨address, hmem, hmem'⟩
    omega

end UserRange

/-! ## Page sizes -/

/-- `PageSize`: a power of two. -/
structure PageSize where
  bytes : Nat
  isPowerOfTwo : 2 ^ bytes.log2 = bytes
  lt : bytes < 2 ^ 64
deriving DecidableEq

namespace PageSize

/-- `PageSize::new`; the argument is a `usize`. -/
def new (bytes : Nat) : Except MmError PageSize :=
  if bytes = 0 then .error .zeroLength
  else if hpower : 2 ^ bytes.log2 = bytes then
    if hlt : bytes < 2 ^ 64 then .ok { bytes, isPowerOfTwo := hpower, lt := hlt } else .error .overflow
  else .error .invalidPageSize

def isAligned (s : PageSize) (value : Nat) : Bool := value &&& (s.bytes - 1) == 0

def alignDown (s : PageSize) (value : Nat) : Nat := value &&& (2 ^ 64 - 1 - (s.bytes - 1))

def alignUp (s : PageSize) (value : Nat) : Except MmError Nat :=
  let mask := s.bytes - 1
  if value + mask < 2 ^ 64 then .ok ((value + mask) &&& (2 ^ 64 - 1 - mask)) else .error .overflow

variable (s : PageSize)

theorem pos : 0 < s.bytes := by
  rw [← s.isPowerOfTwo]
  exact Nat.two_pow_pos _

theorem log2_le : s.bytes.log2 ≤ 64 := by
  have hlt := s.lt
  rw [← s.isPowerOfTwo] at hlt
  exact Nat.le_of_lt ((Nat.pow_lt_pow_iff_right (by decide)).mp hlt)

variable {value : Nat}

theorem isAligned_iff : s.isAligned value = true ↔ s.bytes ∣ value := by
  unfold isAligned
  rw [beq_iff_eq, ← s.isPowerOfTwo, and_two_pow_sub_one_eq_mod]
  exact (dvd_iff_mod_eq_zero).symm

theorem alignDown_eq (h : value < 2 ^ 64) : s.alignDown value = value - value % s.bytes := by
  have hand := Lib.and_not_lowMask h s.log2_le
  rwa [s.isPowerOfTwo] at hand

theorem alignUp_eq_ok (h : s.alignUp value = .ok up) :
    value ≤ up ∧ up < value + s.bytes ∧ s.bytes ∣ up ∧ up < 2 ^ 64 := by
  unfold alignUp at h
  dsimp only at h
  split at h
  · next hlt =>
    have hup := Except.ok.inj h
    have hdown := s.alignDown_eq hlt
    unfold alignDown at hdown
    rw [hdown] at hup
    have hpos := s.pos
    have hmod := mod_lt (value + (s.bytes - 1)) hpos
    refine ⟨by omega, by omega, ?_, by omega⟩
    rw [← hup]
    exact dvd_sub_mod _
  · cases h

end PageSize

/-! ## Page ranges -/

/-- `PageRange`: a byte range with aligned bounds. -/
structure PageRange where
  range : UserRange
  pageSize : PageSize
  aligned_start : pageSize.bytes ∣ range.start
  aligned_stop : pageSize.bytes ∣ range.stop
deriving DecidableEq

namespace PageRange

def start (r : PageRange) : Nat := r.range.start

/-- `PageRange::end`. -/
def stop (r : PageRange) : Nat := r.range.stop

def len (r : PageRange) : Nat := r.range.len

def pageCount (r : PageRange) : Nat := r.len / r.pageSize.bytes

def withPageSize (start length : Nat) (pageSize : PageSize) : Except MmError PageRange :=
  if h : pageSize.isAligned start = true ∧ pageSize.isAligned length = true then
    match hrange : UserRange.new start length with
    | .error error => .error error
    | .ok range => .ok {
        range, pageSize
        aligned_start := by
          rw [(UserRange.new_eq_ok hrange).1]
          exact pageSize.isAligned_iff.mp h.1
        aligned_stop := by
          rw [(UserRange.new_eq_ok hrange).2]
          exact Nat.dvd_add (pageSize.isAligned_iff.mp h.1) (pageSize.isAligned_iff.mp h.2) }
  else .error .unaligned

def new (start length pageSize : Nat) : Except MmError PageRange :=
  match PageSize.new pageSize with
  | .error error => .error error
  | .ok pageSize => withPageSize start length pageSize

def covering (range : UserRange) (pageSize : PageSize) : Except MmError PageRange :=
  let start := pageSize.alignDown range.start
  match pageSize.alignUp range.stop with
  | .error error => .error error
  | .ok stop => withPageSize start (stop - start) pageSize

def contains (r other : PageRange) : Bool :=
  r.pageSize.bytes == other.pageSize.bytes && r.range.contains other.range

def overlaps (r other : PageRange) : Bool :=
  r.pageSize.bytes == other.pageSize.bytes && r.range.overlaps other.range

/-- The range covers the byte. -/
def Covers (r : PageRange) (address : Nat) : Prop := r.start ≤ address ∧ address < r.stop

instance (r : PageRange) (address : Nat) : Decidable (r.Covers address) :=
  inferInstanceAs (Decidable (_ ∧ _))

theorem pageSize_eq {s s' : PageSize} (h : s.bytes = s'.bytes) : s = s' := by
  cases s
  cases s'
  cases h
  rfl

variable {r : PageRange}

theorem contains_iff {other : PageRange} : r.contains other = true ↔
    r.pageSize = other.pageSize ∧ r.start ≤ other.start ∧ other.stop ≤ r.stop := by
  unfold contains
  rw [Bool.and_eq_true, beq_iff_eq, UserRange.contains_iff]
  constructor
  · rintro ⟨hsize, hle⟩
    exact ⟨pageSize_eq hsize, hle⟩
  · rintro ⟨hsize, hle⟩
    exact ⟨congrArg _ hsize, hle⟩

/-- Ranges of one page size overlap when they share a byte. -/
theorem overlaps_iff {other : PageRange} : r.overlaps other = true ↔
    r.pageSize = other.pageSize ∧ ∃ address, r.Covers address ∧ other.Covers address := by
  unfold overlaps
  rw [Bool.and_eq_true, beq_iff_eq, UserRange.overlaps_iff]
  simp only [UserRange.containsAddress, Bool.and_eq_true, decide_eq_true_eq]
  constructor
  · rintro ⟨hsize, hshared⟩
    exact ⟨pageSize_eq hsize, hshared⟩
  · rintro ⟨hsize, hshared⟩
    exact ⟨congrArg _ hsize, hshared⟩

theorem withPageSize_eq_ok {start length : Nat} {pageSize : PageSize}
    (h : withPageSize start length pageSize = .ok r) :
    r.pageSize = pageSize ∧ r.start = start ∧ r.stop = start + length := by
  unfold withPageSize at h
  split at h
  · split at h
    · cases h
    · next range hrange =>
      cases h
      exact ⟨rfl, UserRange.new_eq_ok hrange⟩
  · cases h

/-- Between two aligned addresses there is a page range. -/
theorem withPageSize_of {start stop : Nat} {pageSize : PageSize} (hstart : pageSize.bytes ∣ start)
    (hstop : pageSize.bytes ∣ stop) (hlt : start < stop) (hbound : stop < 2 ^ 64) : ∃ r : PageRange,
      withPageSize start (stop - start) pageSize = .ok r ∧ r.pageSize = pageSize
        ∧ r.start = start ∧ r.stop = stop := by
  have halign : pageSize.isAligned start = true ∧ pageSize.isAligned (stop - start) = true :=
    ⟨pageSize.isAligned_iff.mpr hstart, pageSize.isAligned_iff.mpr (dvd_sub hstop hstart)⟩
  have hnew : ∃ range, UserRange.new start (stop - start) = .ok range ∧ range.start = start
      ∧ range.stop = start + (stop - start) :=
    UserRange.new_of_lt (by omega) (by omega)
  obtain ⟨range, hrange, -, -⟩ := hnew
  cases hmade : withPageSize start (stop - start) pageSize with
  | error e =>
    unfold withPageSize at hmade
    rw [dif_pos halign] at hmade
    split at hmade
    next hnot =>
      rw [hrange] at hnot
      cases hnot
    · cases hmade
  | ok r =>
    obtain ⟨hsize, hs, ht⟩ := withPageSize_eq_ok hmade
    exact ⟨r, rfl, hsize, hs, by omega⟩

/-- The ranges have one page size and follow one another from one address to the other. -/
def Tiles (pageSize : PageSize) : Nat → Nat → List PageRange → Prop
  | start, stop, [] => start = stop
  | start, stop, r :: rest => r.pageSize = pageSize ∧ r.start = start ∧ Tiles pageSize r.stop stop rest

theorem Tiles.le {pageSize : PageSize} {stop : Nat} :
    ∀ {ranges : List PageRange} {start : Nat}, Tiles pageSize start stop ranges → start ≤ stop
  | [], _, h => le_of_eq h
  | r :: _, _, ⟨_, hstart, hrest⟩ => by
    have hlt : r.start < r.stop := r.range.nonempty
    have hle := hrest.le
    omega

theorem Tiles.concat {pageSize : PageSize} {middle : Nat} (hsize : r.pageSize = pageSize)
    (hstart : r.start = middle) : ∀ {ranges : List PageRange} {start : Nat},
    Tiles pageSize start middle ranges → Tiles pageSize start r.stop (ranges ++ [r])
  | [], _, h => ⟨hsize, hstart.trans h.symm, rfl⟩
  | _ :: _, _, h => ⟨h.1, h.2.1, h.2.2.concat hsize hstart⟩

/-- The covering range is the least aligned one: it covers the range and less than a page
on either side. -/
theorem covering_eq_ok {range : UserRange} {pageSize : PageSize}
    (h : covering range pageSize = .ok r) :
    r.pageSize = pageSize ∧ r.start ≤ range.start ∧ range.start < r.start + pageSize.bytes ∧
      range.stop ≤ r.stop ∧ r.stop < range.stop + pageSize.bytes := by
  unfold covering at h
  split at h
  · cases h
  next stop hup =>
  obtain ⟨hsize, hstart, hstop⟩ := withPageSize_eq_ok h
  obtain ⟨hle, hlt, -, -⟩ := pageSize.alignUp_eq_ok hup
  have hdown := pageSize.alignDown_eq (lt_trans range.nonempty range.lt)
  have hmod := mod_lt range.start pageSize.pos
  have hne := range.nonempty
  exact ⟨hsize, by omega, by omega, by omega, by omega⟩

end PageRange

end LinuxAbi.Mm
