import Mathlib.Data.Set.Basic

/-!
# Intervals that absorb what they touch

An interval grows over a set of intervals: it joins every one that overlaps it or ends where
it begins, and it stops when none is left to join. `Grown` says that such an interval is made
of nothing but its base and intervals of the set, `Hull` that it has also stopped.

`Hull.unique` is the point: the result does not depend on the order of the joins. An interval
that stopped short of another one would have an end inside it, and whatever covers that end
touches it.
-/

namespace LinuxAbi.Lib

open Nat

/-- A nonempty half-open interval of numbers. -/
structure Span where
  start : Nat
  stop : Nat
  nonempty : start < stop

namespace Span

instance : Membership Nat Span where
  mem s x := s.start ≤ x ∧ x < s.stop

variable {s d e : Span} {x : Nat}

theorem mem_iff : x ∈ s ↔ s.start ≤ x ∧ x < s.stop := Iff.rfl

/-- The interval lies inside the other. -/
def Within (s d : Span) : Prop := d.start ≤ s.start ∧ s.stop ≤ d.stop

/-- The intervals overlap or are adjacent. -/
def Touches (s d : Span) : Prop := s.start ≤ d.stop ∧ d.start ≤ s.stop

/-- The intervals share a number. -/
def Meets (s d : Span) : Prop := s.start < d.stop ∧ d.start < s.stop

theorem ext_iff' : s = d ↔ s.Within d ∧ d.Within s := by
  constructor
  · rintro rfl
    exact ⟨⟨le_refl _, le_refl _⟩, le_refl _, le_refl _⟩
  · rintro ⟨⟨hle, hle'⟩, hge, hge'⟩
    cases s
    cases d
    congr
    · exact le_antisymm hge hle
    · exact le_antisymm hle' hge'

theorem Within.refl (s : Span) : s.Within s := ⟨le_refl _, le_refl _⟩

theorem Within.trans (h : s.Within d) (h' : d.Within e) : s.Within e :=
  ⟨h'.1.trans h.1, h.2.trans h'.2⟩

theorem Within.mem (h : s.Within d) (hx : x ∈ s) : x ∈ d :=
  ⟨h.1.trans hx.1, lt_of_lt_of_le hx.2 h.2⟩

theorem Within.meets (h : s.Within d) : s.Meets d :=
  ⟨lt_of_lt_of_le s.nonempty h.2, lt_of_le_of_lt h.1 s.nonempty⟩

theorem Meets.touches (h : s.Meets d) : s.Touches d :=
  ⟨le_of_lt h.1, le_of_lt h.2⟩

theorem Touches.of_within (h : s.Touches d) (h' : d.Within e) : s.Touches e :=
  ⟨h.1.trans h'.2, h'.1.trans h.2⟩

theorem Meets.of_within (h : s.Meets d) (h' : d.Within e) : s.Meets e :=
  ⟨lt_of_lt_of_le h.1 h'.2, lt_of_le_of_lt h'.1 h.2⟩

theorem meets_iff_exists : s.Meets d ↔ ∃ x, x ∈ s ∧ x ∈ d := by
  have hs := s.nonempty
  have hd := d.nonempty
  constructor
  · rintro ⟨hlt, hlt'⟩
    by_cases hle : s.start ≤ d.start
    · exact ⟨d.start, ⟨hle, hlt'⟩, Nat.le_refl _, hd⟩
    · exact ⟨s.start, ⟨Nat.le_refl _, hs⟩, Nat.le_of_not_le hle, hlt⟩
  · rintro ⟨x, ⟨hle, hlt⟩, hle', hlt'⟩
    exact ⟨Nat.lt_of_le_of_lt hle hlt', Nat.lt_of_le_of_lt hle' hlt⟩

/-- The smallest interval around both. -/
def join (d s : Span) : Span where
  start := min d.start s.start
  stop := max d.stop s.stop
  nonempty := by
    have hd := d.nonempty
    omega

theorem within_join_left (d s : Span) : d.Within (d.join s) :=
  ⟨min_le_left _ _, le_max_left _ _⟩

theorem within_join_right (d s : Span) : s.Within (d.join s) :=
  ⟨Nat.min_le_right _ _, Nat.le_max_right _ _⟩

theorem join_within (hd : d.Within e) (hs : s.Within e) : (d.join s).Within e :=
  ⟨Nat.le_min.mpr ⟨hd.1, hs.1⟩, Nat.max_le.mpr ⟨hd.2, hs.2⟩⟩

/-- Intervals that touch leave no gap between them. -/
theorem mem_join (h : s.Touches d) : x ∈ d.join s ↔ x ∈ d ∨ x ∈ s := by
  obtain ⟨hle, hle'⟩ := h
  simp only [mem_iff, join]
  omega

end Span

/-- The interval is its base and intervals of the set. -/
structure Grown (parts : Set Span) (base d : Span) : Prop where
  base_within : base.Within d
  covered : ∀ x ∈ d, x ∈ base ∨ ∃ s ∈ parts, s.Within d ∧ x ∈ s

/-- Nothing that touches it is left. -/
structure Hull (parts : Set Span) (base d : Span) : Prop extends Grown parts base d where
  closed : ∀ s ∈ parts, s.Touches d → s.Within d

variable {parts : Set Span} {base d s : Span}

theorem grown_base (parts : Set Span) (base : Span) : Grown parts base base :=
  ⟨Span.Within.refl base, fun _ hx => .inl hx⟩

theorem Grown.join (h : Grown parts base d) (hs : s ∈ parts) (htch : s.Touches d) :
    Grown parts base (d.join s) := by
  refine ⟨h.base_within.trans (Span.within_join_left d s), ?_⟩
  intro x hx
  rcases (Span.mem_join htch).mp hx with hx | hx
  · rcases h.covered x hx with hbase | ⟨s', hs', hwin, hmem⟩
    · exact .inl hbase
    · exact .inr ⟨s', hs', hwin.trans (Span.within_join_left d s), hmem⟩
  · exact .inr ⟨s, hs, Span.within_join_right d s, hx⟩

/-- An interval made of the base and parts stays inside every closed one around the base. -/
theorem Grown.within {e : Span} (h : Grown parts base d) (hbase : base.Within e)
    (hclosed : ∀ s ∈ parts, s.Touches e → s.Within e) : d.Within e := by
  have hbne := base.nonempty
  obtain ⟨hbstart, hbstop⟩ := h.base_within
  obtain ⟨hstart, hstop⟩ := hbase
  refine ⟨?_, ?_⟩
  · -- the number just below `e` would be covered by a part that touches `e`
    by_contra hlt
    have hin : e.start - 1 ∈ d := ⟨by omega, by omega⟩
    rcases h.covered _ hin with ⟨hge, -⟩ | ⟨s, hs, -, hge, hlt'⟩
    · omega
    have hwin := hclosed s hs ⟨by omega, by omega⟩
    have hle := hwin.1
    omega
  · -- and so would the first number above it
    by_contra hlt
    have hin : e.stop ∈ d := ⟨by omega, by omega⟩
    rcases h.covered _ hin with ⟨-, hlt'⟩ | ⟨s, hs, -, hge, hlt'⟩
    · omega
    have hwin := hclosed s hs ⟨hge, by omega⟩
    have hle := hwin.2
    omega

/-- The result of joining does not depend on the order. -/
theorem Hull.unique {e : Span} (h : Hull parts base d) (h' : Hull parts base e) : d = e :=
  Span.ext_iff'.mpr
    ⟨h.toGrown.within h'.base_within h'.closed, h'.toGrown.within h.base_within h.closed⟩

end LinuxAbi.Lib
