import Mathlib.Data.List.Induction

/-!
# Runs of a sequential object

An object with a lock around it is a state and a function
`step : σ → ω → ρ × σ` from a call to its reply and the next state. A run is a
list of calls. `events` reads off what an observer notes down along the run
(`emit` says which events one call and its reply stand for).

`run_invariant` is the one induction every table in this development uses: an
assertion about *what has been noted so far* and *the current state* that
survives one call survives every run. `run_preserves` is the rule for an
assertion about the state alone.
-/

namespace LinuxAbi.Lib

open List

universe u v x y

variable {σ : Type u} {ω : Type v} {ρ : Type x} {ε : Type y}

/-- The state after a list of calls. -/
def run (step : σ → ω → ρ × σ) : σ → List ω → σ
  | s, [] => s
  | s, o :: os => run step (step s o).2 os

/-- What is noted down along a list of calls. -/
def events (step : σ → ω → ρ × σ) (emit : ω → ρ → List ε) : σ → List ω → List ε
  | _, [] => []
  | s, o :: os => emit o (step s o).1 ++ events step emit (step s o).2 os

theorem run_append (step : σ → ω → ρ × σ) :
    ∀ (os os' : List ω) (s : σ), run step s (os ++ os') = run step (run step s os) os'
  | [], _, _ => rfl
  | o :: os, os', s => run_append step os os' (step s o).2

theorem events_append (step : σ → ω → ρ × σ) (emit : ω → ρ → List ε) :
    ∀ (os os' : List ω) (s : σ),
      events step emit s (os ++ os')
        = events step emit s os ++ events step emit (run step s os) os'
  | [], _, _ => rfl
  | o :: os, os', s => by
    show emit o (step s o).1 ++ events step emit (step s o).2 (os ++ os') = _
    rw [events_append step emit os os' (step s o).2]
    exact (List.append_assoc ..).symm

theorem run_snoc (step : σ → ω → ρ × σ) (os : List ω) (o : ω) (s : σ) :
    run step s (os ++ [o]) = (step (run step s os) o).2 :=
  run_append step os [o] s

theorem events_snoc (step : σ → ω → ρ × σ) (emit : ω → ρ → List ε) (os : List ω) (o : ω) (s : σ) :
    events step emit s (os ++ [o])
      = events step emit s os ++ emit o (step (run step s os) o).1 := by
  rw [events_append]
  show _ ++ (_ ++ []) = _
  rw [append_nil]

variable {step : σ → ω → ρ × σ} {emit : ω → ρ → List ε} {I : List ε → σ → Prop} {s : σ}
  {G : σ → ω → Prop}

/-- The invariant rule for an assertion about the past events and the current
state. -/
theorem run_invariant
    (hstep : ∀ past s o, I past s → I (past ++ emit o (step s o).1) (step s o).2) :
    ∀ (os : List ω) (past : List ε) (s : σ), I past s →
      I (past ++ events step emit s os) (run step s os) := by
  intro os
  induction os with
  | nil =>
    intro past s h
    show I (past ++ []) s
    rw [append_nil]
    exact h
  | cons o os ih =>
    intro past s h
    have hnext := ih (past ++ emit o (step s o).1) (step s o).2 (hstep past s o h)
    rw [append_assoc] at hnext
    exact hnext

/-- The invariant rule for an assertion about the state alone, over calls that meet a
condition. -/
theorem run_preserves_of {I : σ → Prop} {G : ω → Prop} (hstep : ∀ s o, G o → I s → I (step s o).2)
    (h : I s) (os : List ω) (hg : ∀ o ∈ os, G o) : I (run step s os) := by
  induction os generalizing s with
  | nil => exact h
  | cons o os ih =>
    refine ih (hstep s o (hg o mem_cons_self) h) ?_
    intro o' ho'
    exact hg o' (mem_cons_of_mem o ho')

/-- The invariant rule for an assertion about the state alone. -/
theorem run_preserves {I : σ → Prop} (hstep : ∀ s o, I s → I (step s o).2) (h : I s) (os : List ω) :
    I (run step s os) :=
  run_preserves_of (G := fun _ => True) (fun s o _ => hstep s o) h os fun _ _ => trivial

/-- Every call of a run meets a condition on what was noted before it. -/
def Guarded (step : σ → ω → ρ × σ) (emit : ω → ρ → List ε) (G : List ε → ω → Prop) (s : σ)
    (os : List ω) : Prop :=
  ∀ n o, os[n]? = some o → G (events step emit s (os.take n)) o

/-- A guarded run can be cut anywhere. -/
theorem Guarded.take_append {G : List ε → ω → Prop} {os os' : List ω}
    (h : Guarded step emit G s (os ++ os')) : Guarded step emit G s os := by
  intro n o ho
  have hn : n < os.length := (List.getElem?_eq_some_iff.mp ho).1
  have hget := h n o (by rw [List.getElem?_append_left hn]; exact ho)
  rwa [List.take_append_of_le_length (Nat.le_of_lt hn)] at hget

theorem Guarded.last {G : List ε → ω → Prop} {os : List ω} {o : ω}
    (h : Guarded step emit G s (os ++ [o])) : G (events step emit s os) o := by
  have hget := h os.length o (by simp)
  rwa [take_left] at hget

/-- The invariant rule for a run whose calls meet a condition on the past. -/
theorem run_guarded {G : List ε → ω → Prop}
    (hstep : ∀ past s o, I past s → G past o → I (past ++ emit o (step s o).1) (step s o).2)
    (hinit : I [] s) (os : List ω) (hg : Guarded step emit G s os) :
    I (events step emit s os) (run step s os) := by
  induction os using reverseRecOn with
  | nil => exact hinit
  | append_singleton os o ih =>
    have hnext := hstep _ _ o (ih hg.take_append) hg.last
    rw [run_snoc, events_snoc]
    exact hnext

/-- Every call of a run meets a condition on the state it is made in. -/
def Respects (step : σ → ω → ρ × σ) (G : σ → ω → Prop) : σ → List ω → Prop
  | _, [] => True
  | s, o :: os => G s o ∧ Respects step G (step s o).2 os

instance decidableRespects {step : σ → ω → ρ × σ} {G : σ → ω → Prop}
    [hG : ∀ s o, Decidable (G s o)] : ∀ (s : σ) (os : List ω), Decidable (Respects step G s os)
  | _, [] => .isTrue trivial
  | s, o :: os => @instDecidableAnd _ _ (hG s o) (decidableRespects (step s o).2 os)

theorem Respects.append :
    ∀ {os os' : List ω} {s : σ}, Respects step G s (os ++ os') →
      Respects step G s os ∧ Respects step G (run step s os) os'
  | [], _, _, h => ⟨trivial, h⟩
  | _ :: _, _, _, h => ⟨⟨h.1, h.2.append.1⟩, h.2.append.2⟩

theorem Respects.concat :
    ∀ {os os' : List ω} {s : σ}, Respects step G s os → Respects step G (run step s os) os' →
      Respects step G s (os ++ os')
  | [], _, _, _, h => h
  | _ :: _, _, _, h, h' => ⟨h.1, h.2.concat h'⟩

/-- The invariant rule for a run whose calls meet a condition on the state. -/
theorem run_respects
    (hstep : ∀ past s o, I past s → G s o → I (past ++ emit o (step s o).1) (step s o).2)
    (hinit : I [] s) (os : List ω) (hg : Respects step G s os) :
    I (events step emit s os) (run step s os) := by
  induction os using reverseRecOn with
  | nil => exact hinit
  | append_singleton os o ih =>
    obtain ⟨hbef, hlast⟩ := hg.append
    have hnext := hstep _ _ o (ih hbef) hlast.1
    rw [run_snoc, events_snoc]
    exact hnext

/-- The same for an assertion about the state alone. -/
theorem run_preserves_respects {I : σ → Prop} (hstep : ∀ s o, I s → G s o → I (step s o).2)
    (h : I s) (os : List ω) (hg : Respects step G s os) : I (run step s os) := by
  induction os generalizing s with
  | nil => exact h
  | cons o os ih => exact ih (hstep s o h hg.1) hg.2

/-- What is noted along a run when the notes depend on the state each call is made in. -/
def history (step : σ → ω → ρ × σ) (notes : σ → ω → List ε) : σ → List ω → List ε
  | _, [] => []
  | s, o :: os => notes s o ++ history step notes (step s o).2 os

/-- The invariant rule for such notes and the current state. -/
theorem history_invariant {notes : σ → ω → List ε}
    (hstep : ∀ past s o, I past s → I (past ++ notes s o) (step s o).2) :
    ∀ (os : List ω) (past : List ε) (s : σ), I past s →
      I (past ++ history step notes s os) (run step s os) := by
  intro os
  induction os with
  | nil =>
    intro past s h
    show I (past ++ []) s
    rw [append_nil]
    exact h
  | cons o os ih =>
    intro past s h
    have hnext := ih (past ++ notes s o) (step s o).2 (hstep past s o h)
    rw [append_assoc] at hnext
    exact hnext

end LinuxAbi.Lib
