import LinuxAbi.Lib.Outcome
import LinuxAbi.Lib.Bits
import LinuxAbi.IoUring.Request
import Mathlib.Data.Nat.Log

/-!
# Ring geometry

`crates/io-uring/src/setup.rs`: the sizes a ring is set up with and the offsets of its shared
memory. A `u32` is a `Nat` here; `checked` is its checked arithmetic, and the limits keep every
intermediate value below `2 ^ 32`.

`resolve_geometry` says when a request is resolved, and that the layout it is resolved to has
its parts in order, aligned and without an overlap. The index array starts on a cache line of
its own, so that below four completion entries some bytes in front of it belong to no part.
-/

namespace LinuxAbi.IoUring

/-! ## Requests and layouts -/

/-- `setup::SQE_BYTES`. -/
def sqeBytes : Nat := 64

/-- `setup::CQE_BYTES`. -/
def cqeBytes : Nat := 16

/-- `setup::RING_HEADER_BYTES`. -/
def ringHeaderBytes : Nat := 64

/-- `setup::RING_ALIGNMENT`. -/
def ringAlignment : Nat := 64

/-- `setup::SetupFlags`. -/
structure SetupFlags where
  bits : BitVec 32
deriving DecidableEq

namespace SetupFlags

def cqsize : SetupFlags := ⟨8⟩

def clamp : SetupFlags := ⟨16⟩

def noSqarray : SetupFlags := ⟨65536⟩

/-- Whether all flags of `other` are there. -/
def contains (flags other : SetupFlags) : Bool := flags.bits &&& other.bits == other.bits

end SetupFlags

/-- `setup::FeatureFlags`, as the adapter proved them. -/
structure FeatureFlags where
  bits : BitVec 32
deriving DecidableEq

/-- `setup::SetupRequest`. -/
structure SetupRequest where
  entries : Nat
  cqEntries : Nat
  flags : SetupFlags

/-- `setup::SubmissionQueueOffsets`. -/
structure SubmissionQueueOffsets where
  head : Nat
  tail : Nat
  ringMask : Nat
  ringEntries : Nat
  flags : Nat
  dropped : Nat
  array : Option Nat

/-- `setup::CompletionQueueOffsets`. -/
structure CompletionQueueOffsets where
  head : Nat
  tail : Nat
  ringMask : Nat
  ringEntries : Nat
  overflow : Nat
  cqes : Nat
  flags : Nat

/-- `setup::RingLayout`. -/
structure RingLayout where
  sqEntries : Nat
  cqEntries : Nat
  setupFlags : SetupFlags
  features : FeatureFlags
  sqOffsets : SubmissionQueueOffsets
  cqOffsets : CompletionQueueOffsets
  ringBytes : Nat
  sqeBytes : Nat

/-- The result of a checked operation on `u32`. -/
def checked (n : Nat) : Except IoUringError Nat :=
  if n < 2 ^ 32 then .ok n else .error .overflow

/-- `checked_next_power_of_two`. -/
def checkedNextPowerOfTwo (n : Nat) : Except IoUringError Nat := checked (2 ^ Nat.clog 2 n)

def alignUp (value alignment : Nat) : Except IoUringError Nat := do
  let mask := alignment - 1
  let value ← checked (value + mask)
  return (BitVec.ofNat 32 value &&& ~~~BitVec.ofNat 32 mask).toNat

/-- The clamping and rounding that both sizes go through. -/
def roundEntries (requested limit : Nat) (tooLarge : IoUringError) (flags : SetupFlags) :
    Except IoUringError Nat := do
  let entries ←
    if requested > limit then
      if flags.contains .clamp then pure limit else throw tooLarge
    else pure requested
  checkedNextPowerOfTwo entries

def resolveSqEntries (entries : Nat) (flags : SetupFlags) : Except IoUringError Nat :=
  if entries = 0 then .error .zeroEntries
  else roundEntries entries maxEntries .submissionEntriesTooLarge flags

def resolveCqEntries (sqEntries requested : Nat) (flags : SetupFlags) :
    Except IoUringError Nat :=
  if !flags.contains .cqsize then checked (sqEntries * 2)
  else if requested = 0 then .error .zeroCompletionEntries
  else do
    let entries ← roundEntries requested maxCqEntries .completionEntriesTooLarge flags
    if entries < sqEntries then .error .completionEntriesTooSmall else .ok entries

/-- `SetupRequest::resolve`. -/
def SetupRequest.resolve (req : SetupRequest) (provenFeatures : FeatureFlags) :
    Except IoUringError RingLayout := do
  let sqEntries ← resolveSqEntries req.entries req.flags
  let cqEntries ← resolveCqEntries sqEntries req.cqEntries req.flags
  let cqeEnd ← checked (ringHeaderBytes + (← checked (cqEntries * cqeBytes)))
  let sqArray ←
    if req.flags.contains .noSqarray then pure none else some <$> alignUp cqeEnd ringAlignment
  let ringBytes ← match sqArray with
    | some offset => do checked (offset + (← checked (sqEntries * 4)))
    | none => pure cqeEnd
  let sqeBytes ← checked (sqEntries * sqeBytes)
  return {
    sqEntries, cqEntries, ringBytes, sqeBytes
    setupFlags := req.flags
    features := provenFeatures
    sqOffsets := { head := 0, tail := 4, ringMask := 16, ringEntries := 24, flags := 36,
                   dropped := 32, array := sqArray }
    cqOffsets := { head := 8, tail := 12, ringMask := 20, ringEntries := 28, overflow := 44,
                   cqes := ringHeaderBytes, flags := 40 } }

/-! ## What a layout is to be -/

/-- The least power of two that is enough, for at most the limit. -/
def rounded (limit requested : Nat) : Nat := 2 ^ Nat.clog 2 (min requested limit)

/-- The limits on the sizes that are asked for. With `CLAMP` no size is too large, and without
`CQSIZE` the completion size is not looked at. -/
structure SetupRequest.WithinLimits (req : SetupRequest) : Prop where
  sq_pos : req.entries ≠ 0
  sq_le : req.entries ≤ maxEntries ∨ req.flags.contains .clamp = true
  cq : req.flags.contains .cqsize = true → req.cqEntries ≠ 0 ∧
    (req.cqEntries ≤ maxCqEntries ∨ req.flags.contains .clamp = true) ∧
    rounded maxEntries req.entries ≤ rounded maxCqEntries req.cqEntries

namespace RingLayout

variable (l : RingLayout)

/-- The parts of the shared ring, as offset and length: header, completion entries and, where
there is one, the index array. -/
def parts : List (Nat × Nat) :=
  [(0, ringHeaderBytes), (l.cqOffsets.cqes, l.cqEntries * cqeBytes)] ++
    l.sqOffsets.array.toList.map fun array => (array, l.sqEntries * 4)

/-- The byte belongs to one of the parts. -/
def Covers (byte : Nat) : Prop := ∃ part ∈ l.parts, part.1 ≤ byte ∧ byte < part.1 + part.2

/-- The byte fills up the cache line in front of the index array. -/
def Pads (byte : Nat) : Prop :=
  ∃ array, l.sqOffsets.array = some array ∧ l.cqEntries < 4 ∧
    ringHeaderBytes + l.cqEntries * cqeBytes ≤ byte ∧ byte < array

structure Geometry : Prop where
  sq : l.sqEntries.isPowerOfTwo ∧ 1 ≤ l.sqEntries ∧ l.sqEntries ≤ maxEntries
  cq : l.cqEntries.isPowerOfTwo ∧ l.sqEntries ≤ l.cqEntries ∧ l.cqEntries ≤ maxCqEntries
  accepted : ∀ ring, ∃ registry,
    RequestRegistry.new true true ring l.sqEntries l.cqEntries = .ok registry
  disjoint : l.parts.Pairwise fun part part' => part.1 + part.2 ≤ part'.1
  aligned : ∀ part ∈ l.parts, part.1 % ringAlignment = 0
  filled : ∀ byte, byte < l.ringBytes ↔ l.Covers byte ∨ l.Pads byte

end RingLayout

/-! ## Sizes -/

variable {k limit n requested : Nat} {flags : SetupFlags} {tooLarge : IoUringError}

theorem checked_of_lt (h : n < 2 ^ 32) : checked n = .ok n := if_pos h

theorem rounded_le (requested k : Nat) : rounded (2 ^ k) requested ≤ 2 ^ k :=
  Nat.pow_le_pow_right (by omega) (Nat.clog_le_of_le_pow (Nat.min_le_right ..))

theorem roundEntries_eq (hlimit : limit = 2 ^ k) (hk : k < 32) :
    roundEntries requested limit tooLarge flags
      = if requested ≤ limit ∨ flags.contains .clamp = true then .ok (rounded limit requested)
        else .error tooLarge := by
  subst hlimit
  have hlt : rounded (2 ^ k) requested < 2 ^ 32 :=
    (rounded_le requested k).trans_lt (Nat.pow_lt_pow_right (by omega) hk)
  unfold roundEntries
  by_cases hle : requested ≤ 2 ^ k
  · rw [if_neg (by omega), if_pos (.inl hle), rounded, min_eq_left hle]
    rw [rounded, min_eq_left hle] at hlt
    exact checked_of_lt hlt
  · rw [if_pos (by omega)]
    by_cases hclamp : flags.contains .clamp = true
    · rw [if_pos hclamp, if_pos (.inr hclamp), rounded, min_eq_right (by omega)]
      rw [rounded, min_eq_right (by omega)] at hlt
      exact checked_of_lt hlt
    · rw [if_neg hclamp, if_neg (by simp [hle, hclamp])]
      rfl

theorem alignUp_eq (h : n + 63 < 2 ^ 32) : alignUp n ringAlignment = .ok ((n + 63) / 64 * 64) := by
  have hdown := Lib.toNat_and_not_mask (BitVec.ofNat 32 (n + 63)) (show 6 ≤ 32 by decide)
  rw [BitVec.toNat_ofNat, Nat.mod_eq_of_lt h] at hdown
  show (checked (n + 63) >>= fun value =>
    pure (BitVec.ofNat 32 value &&& ~~~BitVec.ofNat 32 63).toNat) = _
  rw [checked_of_lt h]
  exact congrArg Except.ok hdown

/-! ## The layout for two sizes -/

/-- Two powers of two within the limits. -/
structure Sizes (sq cq : Nat) : Prop where
  exponents : ∃ i j, sq = 2 ^ i ∧ cq = 2 ^ j ∧ i ≤ j
  sq_le : sq ≤ maxEntries
  cq_le : cq ≤ maxCqEntries

namespace Sizes

variable {sq cq : Nat} (h : Sizes sq cq)
include h

theorem le : 1 ≤ sq ∧ sq ≤ cq := by
  obtain ⟨i, j, rfl, rfl, hij⟩ := h.exponents
  exact ⟨Nat.one_le_two_pow, Nat.pow_le_pow_right (by omega) hij⟩

/-- From four completion entries on the array needs no padding. -/
theorem padding : cq < 4 ∨ 4 ∣ cq := by
  obtain ⟨-, j, -, rfl, -⟩ := h.exponents
  by_cases hj : j < 2
  · exact .inl (Nat.pow_lt_pow_right (show 1 < 2 by omega) hj)
  · exact .inr (Nat.pow_dvd_pow 2 (show 2 ≤ j by omega))

theorem accepted (ring : RingId) :
    ∃ registry, RequestRegistry.new true true ring sq cq = .ok registry := by
  obtain ⟨i, j, hi, hj, -⟩ := h.exponents
  have hle := h.le
  have hcq : cq.isPowerOfTwo := ⟨j, hj⟩
  have hsq_le := h.sq_le
  have hcq_le := h.cq_le
  unfold RequestRegistry.new
  rw [if_neg (by omega), if_neg (by simp [hcq]; omega)]
  exact ⟨_, rfl⟩

theorem geometry {l : RingLayout} (hsq : l.sqEntries = sq) (hcq : l.cqEntries = cq)
    (hcqes : l.cqOffsets.cqes = ringHeaderBytes)
    (harray : l.sqOffsets.array = none ∧ l.ringBytes = 64 + cq * 16 ∨
      l.sqOffsets.array = some ((64 + cq * 16 + 63) / 64 * 64) ∧
        l.ringBytes = (64 + cq * 16 + 63) / 64 * 64 + sq * 4) : l.Geometry := by
  obtain ⟨i, j, hi, hj, -⟩ := h.exponents
  obtain ⟨hpos, hle⟩ := h.le
  have hpad := h.padding
  subst hsq hcq
  refine ⟨⟨⟨i, hi⟩, hpos, h.sq_le⟩, ⟨⟨j, hj⟩, hle, h.cq_le⟩, h.accepted, ?_, ?_, ?_⟩
  · rcases harray with ⟨hnone, -⟩ | ⟨hsome, -⟩
    · simp [RingLayout.parts, hnone, hcqes]
    · simp [RingLayout.parts, hsome, hcqes, ringHeaderBytes, cqeBytes]
      omega
  · rcases harray with ⟨hnone, -⟩ | ⟨hsome, -⟩
    · simp [RingLayout.parts, hnone, hcqes, ringHeaderBytes, ringAlignment]
    · simp [RingLayout.parts, hsome, hcqes, ringHeaderBytes, ringAlignment]
  · intro byte
    rcases harray with ⟨hnone, hbytes⟩ | ⟨hsome, hbytes⟩
    · simp [RingLayout.Covers, RingLayout.Pads, RingLayout.parts, hnone, hcqes, ringHeaderBytes, cqeBytes]
      omega
    · simp [RingLayout.Covers, RingLayout.Pads, RingLayout.parts, hsome, hcqes, ringHeaderBytes, cqeBytes]
      omega

end Sizes

variable {req : SetupRequest} {features : FeatureFlags} {sq cq : Nat} {e : IoUringError}

/-- Nothing overflows below the limits. -/
theorem resolve_layout (h : Sizes sq cq) (hsq : resolveSqEntries req.entries req.flags = .ok sq)
    (hcq : resolveCqEntries sq req.cqEntries req.flags = .ok cq) :
    ∃ l, req.resolve features = .ok l ∧ l.Geometry := by
  have hsq_le : sq ≤ 32768 := h.sq_le
  have hcq_le : cq ≤ 65536 := h.cq_le
  have hcqes : checked (cq * cqeBytes) = .ok (cq * 16) := checked_of_lt (by show cq * 16 < _; omega)
  have hend : checked (ringHeaderBytes + cq * 16) = .ok (64 + cq * 16) :=
    checked_of_lt (by show 64 + cq * 16 < _; omega)
  have harray : alignUp (64 + cq * 16) ringAlignment = .ok ((64 + cq * 16 + 63) / 64 * 64) :=
    alignUp_eq (by omega)
  have hindices : checked (sq * 4) = .ok (sq * 4) := checked_of_lt (by omega)
  have hring : checked ((64 + cq * 16 + 63) / 64 * 64 + sq * 4)
      = .ok ((64 + cq * 16 + 63) / 64 * 64 + sq * 4) := checked_of_lt (by omega)
  have hsqes : checked (sq * sqeBytes) = .ok (sq * 64) := checked_of_lt (by show sq * 64 < _; omega)
  simp only [SetupRequest.resolve, hsq, hcq, hcqes, hend, bind, Except.bind]
  by_cases hno : req.flags.contains .noSqarray = true
  · rw [if_pos hno]
    simp only [pure, hsqes]
    exact ⟨_, rfl, h.geometry rfl rfl rfl (.inl ⟨rfl, rfl⟩)⟩
  · rw [if_neg hno]
    simp only [harray, Functor.map, Except.map, hindices, hring, hsqes, pure]
    exact ⟨_, rfl, h.geometry rfl rfl rfl (.inr ⟨rfl, rfl⟩)⟩

/-! ## Every request -/

theorem resolve_of_error (h : (resolveSqEntries req.entries req.flags >>= fun sq =>
    resolveCqEntries sq req.cqEntries req.flags) = .error e) : req.resolve features = .error e := by
  unfold SetupRequest.resolve
  cases hsq : resolveSqEntries req.entries req.flags with
  | error e' =>
    rw [hsq] at h
    exact congrArg Except.error (Except.error.inj h)
  | ok sq =>
    rw [hsq] at h
    change resolveCqEntries sq req.cqEntries req.flags = .error e at h
    show (resolveCqEntries sq req.cqEntries req.flags >>= _) = _
    rw [h]
    rfl

theorem sizes_rounded (hle : rounded maxEntries requested ≤ rounded maxCqEntries n) :
    Sizes (rounded maxEntries requested) (rounded maxCqEntries n) where
  exponents := ⟨_, _, rfl, rfl, (Nat.pow_le_pow_iff_right (by omega)).mp hle⟩
  sq_le := rounded_le requested 15
  cq_le := rounded_le n 16

theorem sizes_twice (requested : Nat) :
    Sizes (rounded maxEntries requested) (rounded maxEntries requested * 2) where
  exponents := ⟨_, _, rfl, (Nat.pow_succ ..).symm, Nat.le_succ _⟩
  sq_le := rounded_le requested 15
  cq_le := Nat.mul_le_mul_right 2 (rounded_le requested 15)

/-- A request is resolved, or beyond a limit; no error is an overflow. -/
theorem resolve_cases (req : SetupRequest) (features : FeatureFlags) :
    (¬ req.WithinLimits ∧ ∃ e, e ≠ .overflow ∧ req.resolve features = .error e) ∨
      (req.WithinLimits ∧ ∃ l, req.resolve features = .ok l ∧ l.Geometry) := by
  by_cases hpos : req.entries = 0
  · refine .inl ⟨fun h => h.sq_pos hpos, .zeroEntries, nofun, resolve_of_error ?_⟩
    rw [resolveSqEntries, if_pos hpos]
    rfl
  have hsq : resolveSqEntries req.entries req.flags = _ :=
    (if_neg hpos).trans (roundEntries_eq (show maxEntries = 2 ^ 15 from rfl) (by decide))
  by_cases hle : req.entries ≤ maxEntries ∨ req.flags.contains .clamp = true
  swap
  · refine .inl ⟨fun h => hle h.sq_le, .submissionEntriesTooLarge, nofun, resolve_of_error ?_⟩
    rw [hsq, if_neg hle]
    rfl
  rw [if_pos hle] at hsq
  by_cases hsize : req.flags.contains .cqsize = true
  swap
  · -- twice the submission size
    refine .inr ⟨⟨hpos, hle, fun h => absurd h hsize⟩, resolve_layout (sizes_twice _) hsq ?_⟩
    have htwice := (sizes_twice req.entries).cq_le
    rw [resolveCqEntries, if_pos (by simp [hsize])]
    exact checked_of_lt (htwice.trans_lt (by decide))
  have hcq : resolveCqEntries (rounded maxEntries req.entries) req.cqEntries req.flags = _ :=
    if_neg (by simp [hsize])
  by_cases hcqpos : req.cqEntries = 0
  · refine .inl ⟨fun h => (h.cq hsize).1 hcqpos, .zeroCompletionEntries, nofun, resolve_of_error ?_⟩
    rw [hsq]
    exact hcq.trans (if_pos hcqpos)
  rw [if_neg hcqpos, roundEntries_eq (show maxCqEntries = 2 ^ 16 from rfl) (by decide)] at hcq
  by_cases hcqle : req.cqEntries ≤ maxCqEntries ∨ req.flags.contains .clamp = true
  swap
  · refine .inl ⟨fun h => hcqle (h.cq hsize).2.1, .completionEntriesTooLarge, nofun,
      resolve_of_error ?_⟩
    rw [hsq]
    rw [if_neg hcqle] at hcq
    exact hcq
  rw [if_pos hcqle] at hcq
  by_cases hsmall : rounded maxCqEntries req.cqEntries < rounded maxEntries req.entries
  · refine .inl ⟨fun h => Nat.not_le.mpr hsmall (h.cq hsize).2.2, .completionEntriesTooSmall, nofun,
      resolve_of_error ?_⟩
    rw [hsq]
    exact hcq.trans (if_pos hsmall)
  · have hlarge := Nat.not_lt.mp hsmall
    exact .inr ⟨⟨hpos, hle, fun _ => ⟨hcqpos, hcqle, hlarge⟩⟩,
      resolve_layout (sizes_rounded hlarge) hsq (hcq.trans (if_neg hsmall))⟩

/-- Which requests are resolved, that nothing overflows on the way, and what the layout is. -/
theorem resolve_geometry (req : SetupRequest) (features : FeatureFlags) :
    ((∃ l, req.resolve features = .ok l) ↔ req.WithinLimits) ∧
      req.resolve features ≠ .error .overflow ∧
      ∀ l, req.resolve features = .ok l → l.Geometry := by
  rcases resolve_cases req features with ⟨hout, e, he, herror⟩ | ⟨hin, l, hok, hgeometry⟩
  · rw [herror]
    exact ⟨⟨nofun, fun h => absurd h hout⟩, fun h => he (Except.error.inj h), nofun⟩
  · rw [hok]
    refine ⟨⟨fun _ => hin, fun _ => ⟨l, rfl⟩⟩, nofun, ?_⟩
    rintro l' ⟨⟩
    exact hgeometry

/-- The smallest ring: the 32 bytes in front of its index array belong to no part. -/
theorem smallest_ring_padded : ∃ l, (SetupRequest.mk 1 0 ⟨0⟩).resolve ⟨0⟩ = .ok l ∧
    l.sqOffsets.array = some 128 ∧ l.ringBytes = 132 ∧ ¬ l.Covers 100 := by
  refine ⟨_, rfl, rfl, rfl, ?_⟩
  simp [RingLayout.Covers, RingLayout.parts, ringHeaderBytes, cqeBytes, ringAlignment]

end LinuxAbi.IoUring
