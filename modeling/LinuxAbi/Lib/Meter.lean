import Mathlib.Data.BitVec

/-!
# Bounded counters charged by compare-and-swap

A counter with a limit that many owners charge and refund. A charge loads the counter and
loops: it gives up when the sum overflows or passes the limit, and otherwise swaps, provided
the counter still has the value seen last. `attempt` is one round, whatever value was seen, so
a charge that others interfere with is a list of attempts with other calls in between.
-/

namespace LinuxAbi.Lib

@[ext] structure Meter where
  limit : Nat
  used : Nat
deriving DecidableEq

/-- How a round ends; `lost` goes round again with what it observed. -/
inductive Attempt
  | refused
  | lost (observed : Nat)
  | charged

namespace Meter

/-- A weak compare-and-swap may fail although the values agree. -/
def attempt (m : Meter) (current amount : Nat) (spurious : Bool) : Attempt × Meter :=
  if 2 ^ 64 ≤ current + amount ∨ m.limit < current + amount then (.refused, m)
  else if spurious ∨ m.used ≠ current then (.lost m.used, m)
  else (.charged, { m with used := current + amount })

/-- An atomic subtraction, which wraps. -/
def refund (m : Meter) (amount : Nat) : Meter :=
  { m with used := (m.used + 2 ^ 64 - amount) % 2 ^ 64 }

/-- The counter stands at what is charged to it. -/
structure Holds (m : Meter) (total : Nat) : Prop where
  used_eq : m.used = total
  le_limit : total ≤ m.limit
  limit_lt : m.limit < 2 ^ 64

variable {m m' : Meter} {total current amount : Nat} {spurious : Bool} {outcome : Attempt}

/-- A round charges the whole amount or leaves the counter alone. -/
theorem attempt_cases (h : m.attempt current amount spurious = (outcome, m')) :
    (outcome = .charged ∧ m' = { m with used := m.used + amount } ∧ m.used + amount ≤ m.limit) ∨
      (outcome ≠ .charged ∧ m' = m) := by
  unfold attempt at h
  split_ifs at h with hover hlost
  · cases h
    exact .inr ⟨nofun, rfl⟩
  · cases h
    exact .inr ⟨nofun, rfl⟩
  cases h
  obtain rfl : m.used = current := by omega
  exact .inl ⟨rfl, rfl, by omega⟩

theorem Holds.charge (h : m.Holds total) (hle : m.used + amount ≤ m.limit) :
    Holds { m with used := m.used + amount } (amount + total) where
  used_eq := by show m.used + amount = _; rw [h.used_eq, Nat.add_comm]
  le_limit := by rw [← h.used_eq, Nat.add_comm]; exact hle
  limit_lt := h.limit_lt

theorem limit_refund (m : Meter) (amount : Nat) : (m.refund amount).limit = m.limit := by
  cases m
  rfl

/-- What is charged can be refunded without a wrap. -/
theorem Holds.refund (h : m.Holds (amount + total)) : (m.refund amount).Holds total := by
  have hle := h.le_limit
  have hlt := h.limit_lt
  refine ⟨?_, ?_, ?_⟩
  · simp only [Meter.refund, h.used_eq]
    omega
  · rw [limit_refund]
    omega
  · rwa [limit_refund]

theorem Holds.refund_charge (h : m.Holds total) (hle : m.used + amount ≤ m.limit) :
    Meter.refund { m with used := m.used + amount } amount = m :=
  Meter.ext (limit_refund _ _) ((h.charge hle).refund.used_eq.trans h.used_eq.symm)

end Meter

end LinuxAbi.Lib
