import Mathlib.Data.List.Basic

/-!
# Walking a list together with what came before

A loop without extra storage finds duplicates by comparing each element with the elements
before it. `novel previous l` is what such a loop keeps: the elements of `l` that are neither
in `previous` nor earlier in `l`.
-/

namespace LinuxAbi.Lib

open List

variable {α : Type*} [DecidableEq α]

/-- The elements a loop sees for the first time. -/
def novel : List α → List α → List α
  | _, [] => []
  | previous, a :: rest =>
    if a ∈ previous then novel (previous ++ [a]) rest else a :: novel (previous ++ [a]) rest

theorem novel_cons_of_mem {previous : List α} {a : α} (h : a ∈ previous) (rest : List α) :
    novel previous (a :: rest) = novel (previous ++ [a]) rest :=
  if_pos h

theorem novel_cons_of_not_mem {previous : List α} {a : α} (h : a ∉ previous) (rest : List α) :
    novel previous (a :: rest) = a :: novel (previous ++ [a]) rest :=
  if_neg h

theorem mem_novel {b : α} : ∀ {l previous : List α}, b ∈ novel previous l ↔ b ∈ l ∧ b ∉ previous
  | [], _ => by simp [novel]
  | a :: rest, previous => by
    by_cases h : a ∈ previous
    · rw [novel_cons_of_mem h, mem_novel, mem_cons, mem_append, mem_singleton]
      constructor
      · rintro ⟨hrest, hnot⟩
        exact ⟨.inr hrest, fun hb => hnot (.inl hb)⟩
      · rintro ⟨hb, hnot⟩
        have hne : b ≠ a := fun heq => hnot (heq ▸ h)
        exact ⟨hb.resolve_left hne, fun hmem => hmem.elim hnot hne⟩
    · rw [novel_cons_of_not_mem h, mem_cons, mem_novel, mem_cons, mem_append,
        mem_singleton]
      constructor
      · rintro (rfl | ⟨hrest, hnot⟩)
        · exact ⟨.inl rfl, h⟩
        · exact ⟨.inr hrest, fun hb => hnot (.inl hb)⟩
      · rintro ⟨hb, hnot⟩
        by_cases heq : b = a
        · exact .inl heq
        · exact .inr ⟨hb.resolve_left heq, fun hmem => hmem.elim hnot heq⟩

theorem nodup_novel : ∀ (l previous : List α), (novel previous l).Nodup
  | [], _ => nodup_nil
  | a :: rest, previous => by
    by_cases h : a ∈ previous
    · rw [novel_cons_of_mem h]
      exact nodup_novel rest _
    rw [novel_cons_of_not_mem h, nodup_cons]
    refine ⟨fun hmem => ?_, nodup_novel rest _⟩
    exact (mem_novel.mp hmem).2 (mem_append_right _ mem_cons_self)

/-- Nothing is dropped from a list without duplicates. -/
theorem novel_eq_self : ∀ {l previous : List α}, l.Nodup → (∀ a ∈ l, a ∉ previous) →
    novel previous l = l
  | [], _, _, _ => rfl
  | a :: rest, previous, hnodup, hnew => by
    rw [novel_cons_of_not_mem (hnew a mem_cons_self)]
    rw [nodup_cons] at hnodup
    refine congrArg (a :: ·) (novel_eq_self hnodup.2 ?_)
    intro b hb hmem
    rcases mem_append.mp hmem with hprev | hlast
    · exact hnew b (mem_cons_of_mem _ hb) hprev
    · exact hnodup.1 (mem_singleton.mp hlast ▸ hb)

end LinuxAbi.Lib
