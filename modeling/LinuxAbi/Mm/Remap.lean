import LinuxAbi.Lib.Outcome
import LinuxAbi.Mm.Range

/-!
# Remapping

The geometry of `mremap` in `crates/mm/src/plan.rs`. A geometry is built by its constructor
only, so what the constructor ensures is part of it. An affine origin is where the backing of a
mapping would begin; a page's cursor into the backing is its distance from there.
-/

namespace LinuxAbi.Mm

open PageRange

structure AffineRelocation where
  origin : Nat
  backingAdvance : Nat

def relocateAffineOrigin (origin oldStart newStart : Nat) : Except MmError AffineRelocation :=
  if oldStart ≤ origin then
    let leadingGap := origin - oldStart
    if newStart + leadingGap < 2 ^ 64 then .ok ⟨newStart + leadingGap, 0⟩ else .error .overflow
  else
    let consumedPrefix := oldStart - origin
    if consumedPrefix ≤ newStart then .ok ⟨newStart - consumedPrefix, 0⟩
    else .ok ⟨newStart, consumedPrefix⟩

structure RemapGeometry where
  oldRange : PageRange
  newRange : PageRange
  movedSource : PageRange
  new_size : newRange.pageSize = oldRange.pageSize
  moved_size : movedSource.pageSize = oldRange.pageSize
  moved_start : movedSource.start = oldRange.start
  moved_stop : movedSource.stop = oldRange.start + min oldRange.len newRange.len

structure RemapSegmentGeometry where
  source : PageRange
  destination : PageRange
  backendOldStart : Nat
  backendNewStart : Nat

namespace RemapGeometry

def new (oldRange : PageRange) (newStart newLength : Nat) : Except MmError RemapGeometry :=
  let pageSize := oldRange.pageSize
  match hnew : withPageSize newStart newLength pageSize with
  | .error error => .error error
  | .ok newRange =>
    match hmoved : withPageSize oldRange.start (min oldRange.len newRange.len) pageSize with
    | .error error => .error error
    | .ok movedSource => .ok {
        oldRange, newRange, movedSource
        new_size := (withPageSize_eq_ok hnew).1
        moved_size := (withPageSize_eq_ok hmoved).1
        moved_start := (withPageSize_eq_ok hmoved).2.1
        moved_stop := (withPageSize_eq_ok hmoved).2.2 }

variable (g : RemapGeometry)

def grows : Bool := g.oldRange.len < g.newRange.len

def growthTail : Except MmError (Option PageRange) :=
  if ¬ g.grows then .ok none
  else if g.newRange.start + g.oldRange.len < 2 ^ 64 then do
    let tail ← withPageSize (g.newRange.start + g.oldRange.len)
      (g.newRange.len - g.oldRange.len) g.newRange.pageSize
    return some tail
  else .error .overflow

def segment (source : PageRange) : Except MmError RemapSegmentGeometry :=
  if ¬ g.movedSource.contains source then .error .invalidRemap
  else if source.start < g.oldRange.start then .error .invalidRemap
  else
    let offset := source.start - g.oldRange.start
    if g.newRange.start + offset < 2 ^ 64 then do
      let destination ← withPageSize (g.newRange.start + offset) source.len
        g.newRange.pageSize
      if ¬ g.newRange.contains destination then .error .invalidRemap
      else return ⟨source, destination, g.oldRange.start, g.newRange.start⟩
    else .error .overflow

/-! ## Tilings -/

open PageRange (Tiles)

variable {g} {source : PageRange}

/-- The moved part fits into the new range. -/
theorem moved_fits (g : RemapGeometry) :
    g.newRange.start + g.movedSource.len ≤ g.newRange.stop ∧ g.newRange.stop < 2 ^ 64 := by
  have hlt : g.newRange.start < g.newRange.stop := g.newRange.range.nonempty
  have hlen : g.newRange.len = g.newRange.stop - g.newRange.start := rfl
  have hlen' : g.movedSource.len = g.movedSource.stop - g.movedSource.start := rfl
  have hstop := g.moved_stop
  have hstart := g.moved_start
  exact ⟨by omega, g.newRange.range.lt⟩

/-- A fragment of the moved source keeps its place in the new range. -/
structure Planned (g : RemapGeometry) (s : RemapSegmentGeometry) : Prop where
  anchors : s.backendOldStart = g.oldRange.start ∧ s.backendNewStart = g.newRange.start
  inside : g.movedSource.start ≤ s.source.start ∧ s.source.stop ≤ g.movedSource.stop
  size : s.destination.pageSize = g.newRange.pageSize
  start : s.destination.start = g.newRange.start + (s.source.start - g.movedSource.start)
  stop : s.destination.stop = g.newRange.start + (s.source.stop - g.movedSource.start)

theorem segment_of (hsize : source.pageSize = g.movedSource.pageSize)
    (hstart : g.movedSource.start ≤ source.start) (hstop : source.stop ≤ g.movedSource.stop) :
    ∃ s, g.segment source = .ok s ∧ s.source = source ∧ g.Planned s := by
  have hpages := hsize.trans (g.moved_size.trans g.new_size.symm)
  -- every start is aligned, so the destination is
  have haligned : ∀ address, source.pageSize.bytes ∣ address →
      g.newRange.pageSize.bytes ∣ g.newRange.start + (address - g.movedSource.start) := by
    intro address haddress
    refine Nat.dvd_add g.newRange.aligned_start (Nat.dvd_sub (hpages ▸ haddress) ?_)
    exact hpages ▸ hsize ▸ g.movedSource.aligned_start
  have hsource : source.start < source.stop := source.range.nonempty
  have hmoved : g.movedSource.len = g.movedSource.stop - g.movedSource.start := rfl
  obtain ⟨hfits, hbound⟩ := g.moved_fits
  obtain ⟨destination, hmade, hdsize, hdstart, hdstop⟩ := withPageSize_of
    (haligned source.start source.aligned_start) (haligned source.stop source.aligned_stop)
    (by omega) (by omega)
  have hlen : g.newRange.start + (source.stop - g.movedSource.start)
      - (g.newRange.start + (source.start - g.movedSource.start)) = source.len := by
    change _ = source.stop - source.start
    omega
  have hold := g.moved_start
  rw [hlen, hold] at hmade
  refine ⟨⟨source, destination, _, _⟩, ?_, rfl, ⟨rfl, rfl⟩, ⟨hstart, hstop⟩, hdsize, hdstart, hdstop⟩
  unfold segment
  rw [if_neg (not_not.mpr (contains_iff.mpr ⟨hsize.symm, hstart, hstop⟩)),
    if_neg (by omega)]
  dsimp only
  rw [if_pos (by omega), hmade]
  dsimp only [bind, Except.bind]
  rw [if_neg (not_not.mpr (contains_iff.mpr ⟨hdsize.symm, by omega, by omega⟩))]
  rfl

/-- The fragments of what is left of the source are planned one after the other. -/
theorem segments_of : ∀ {fragments : List PageRange} {start : Nat}, g.movedSource.start ≤ start →
    Tiles g.movedSource.pageSize start g.movedSource.stop fragments →
    ∃ segments, fragments.mapM g.segment = .ok segments ∧ segments.map (·.source) = fragments ∧
      Tiles g.newRange.pageSize (g.newRange.start + (start - g.movedSource.start))
        (g.newRange.start + g.movedSource.len) (segments.map (·.destination)) ∧
      ∀ s ∈ segments, g.Planned s
  | [], start, _, h => by
    obtain rfl : start = g.movedSource.stop := h
    exact ⟨[], rfl, rfl, rfl, nofun⟩
  | r :: rest, start, hstart, ⟨hsize, hfrom, hrest⟩ => by
    have hlt : r.start < r.stop := r.range.nonempty
    obtain ⟨s, hok, rfl, hplanned⟩ := segment_of hsize (by omega) hrest.le
    obtain ⟨segments, hsegments, hsources, htiles, hall⟩ := segments_of (by omega) hrest
    refine ⟨s :: segments, ?_, congrArg _ hsources, ⟨hplanned.size, ?_, ?_⟩,
      List.forall_mem_cons.mpr ⟨hplanned, hall⟩⟩
    · rw [List.mapM_cons, hok, hsegments]
      rfl
    · rw [hplanned.start, hfrom]
    · rw [hplanned.stop]
      exact htiles

/-- The tail begins where the moved part ends. -/
theorem growthTail_of (g : RemapGeometry) : ∃ tail, g.growthTail = .ok tail ∧
    Tiles g.newRange.pageSize (g.newRange.start + g.movedSource.len) g.newRange.stop
      tail.toList := by
  have hlt : g.newRange.start < g.newRange.stop := g.newRange.range.nonempty
  have hlen : g.newRange.len = g.newRange.stop - g.newRange.start := rfl
  have hmoved : g.movedSource.len = min g.oldRange.len g.newRange.len := by
    change g.movedSource.stop - g.movedSource.start = _
    rw [g.moved_stop, g.moved_start, Nat.add_sub_cancel_left]
  unfold growthTail
  split
  · next hgrows =>
    have hle : ¬ g.oldRange.len < g.newRange.len := fun h => hgrows (decide_eq_true h)
    refine ⟨none, rfl, ?_⟩
    change _ = g.newRange.stop
    omega
  · next hgrows =>
    have hgrow : g.oldRange.len < g.newRange.len := of_decide_eq_true (not_not.mp hgrows)
    have hbound := g.moved_fits.2
    have haligned : g.newRange.pageSize.bytes ∣ g.newRange.start + g.oldRange.len := by
      refine Nat.dvd_add g.newRange.aligned_start ?_
      rw [g.new_size]
      exact Nat.dvd_sub g.oldRange.aligned_stop g.oldRange.aligned_start
    have haligned' : g.newRange.pageSize.bytes ∣ g.newRange.stop := g.newRange.aligned_stop
    obtain ⟨tail, hmade, hsize, hstart, hstop⟩ :=
      withPageSize_of haligned haligned' (by omega) hbound
    have hrest : g.newRange.stop - (g.newRange.start + g.oldRange.len)
        = g.newRange.len - g.oldRange.len := by omega
    rw [if_pos (by omega), ← hrest, hmade]
    refine ⟨some tail, rfl, hsize, ?_, hstop⟩
    omega

/-! ## Backing -/

/-- A relocated origin keeps the cursor of an address, and an origin up to an address that moves
can be relocated. -/
theorem relocate_cursor (hle : oldStart ≤ address)
    (hbound : newStart + (address - oldStart) < 2 ^ 64) :
    (∀ r, relocateAffineOrigin origin oldStart newStart = .ok r →
      ((newStart + (address - oldStart) : Nat) : Int) - r.origin + r.backingAdvance
        = address - origin) ∧
      (origin ≤ address → ∃ r, relocateAffineOrigin origin oldStart newStart = .ok r) := by
  unfold relocateAffineOrigin
  dsimp only
  split
  · refine ⟨?_, fun hle => ⟨_, if_pos (by omega)⟩⟩
    intro r hr
    split at hr
    · cases hr
      dsimp only
      omega
    · cases hr
  split
  · refine ⟨?_, fun _ => ⟨_, rfl⟩⟩
    rintro r ⟨⟩
    dsimp only
    omega
  · -- the origin would be negative: it is put at the start, and the backing moves on instead
    refine ⟨?_, fun _ => ⟨_, rfl⟩⟩
    rintro r ⟨⟩
    dsimp only
    omega

/-- Fragments that tile the moved source are planned in order onto the beginning of the new
range, the growth tail is what is left of it, and no page changes its place in the backing. -/
theorem remap_preserves_backing (g : RemapGeometry) :
    (∃ tail, g.growthTail = .ok tail ∧ Tiles g.newRange.pageSize
      (g.newRange.start + g.movedSource.len) g.newRange.stop tail.toList) ∧
    ∀ fragments, Tiles g.movedSource.pageSize g.movedSource.start g.movedSource.stop fragments →
      ∃ segments, fragments.mapM g.segment = .ok segments ∧ segments.map (·.source) = fragments ∧
        Tiles g.newRange.pageSize g.newRange.start (g.newRange.start + g.movedSource.len)
          (segments.map (·.destination)) ∧
        ∀ s ∈ segments, ∀ address, s.source.Covers address → ∃ address',
          s.destination.Covers address' ∧
          address' - s.destination.start = address - s.source.start ∧
          ∀ origin,
            (∀ r, relocateAffineOrigin origin s.backendOldStart s.backendNewStart = .ok r →
              (address' : Int) - r.origin + r.backingAdvance = address - origin) ∧
            (origin ≤ address →
              ∃ r, relocateAffineOrigin origin s.backendOldStart s.backendNewStart = .ok r) := by
  refine ⟨g.growthTail_of, fun fragments htiles => ?_⟩
  obtain ⟨segments, hok, hsources, hdest, hall⟩ := segments_of (Nat.le_refl _) htiles
  rw [Nat.sub_self] at hdest
  refine ⟨segments, hok, hsources, hdest, ?_⟩
  rintro s hs address ⟨hfrom, hto⟩
  obtain ⟨⟨hold, hnew⟩, ⟨hstart, hstop⟩, -, hdstart, hdstop⟩ := hall s hs
  have hmoved : g.movedSource.len = g.movedSource.stop - g.movedSource.start := rfl
  obtain ⟨hfits, hbound⟩ := g.moved_fits
  rw [hold, hnew, ← g.moved_start]
  refine ⟨g.newRange.start + (address - g.movedSource.start), ⟨by omega, by omega⟩, by omega, ?_⟩
  exact fun origin => relocate_cursor (by omega) (by omega)

end RemapGeometry

end LinuxAbi.Mm
