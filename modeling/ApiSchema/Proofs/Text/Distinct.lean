import Mathlib
import ApiSchema.Text.Basic

/-!
# Distinct elements

`Text.distinct` keeps the first of equal elements.
-/

namespace ApiSchema.Text

open List

variable {xs seen : List String} {x : String}

/-- A list added to one that it shares nothing with is added as a whole. -/
lemma foldl_distinct_of_nodup (seen xs : List String) (h : (seen ++ xs).Nodup) :
    xs.foldl (fun seen x => if seen.contains x then seen else seen ++ [x]) seen = seen ++ xs := by
  induction xs generalizing seen with
  | nil => simp
  | cons x xs ih =>
    have hx : x ∉ seen := by
      intro hx
      exact disjoint_of_nodup_append h hx mem_cons_self
    have happend : seen ++ x :: xs = (seen ++ [x]) ++ xs := by simp
    rw [foldl_cons, if_neg (by simpa using hx), ih (seen ++ [x]) (happend ▸ h), happend]

lemma distinct_of_nodup (h : xs.Nodup) : distinct xs = xs :=
  foldl_distinct_of_nodup [] xs h

lemma mem_foldl_distinct :
    x ∈ xs.foldl (fun seen x => if seen.contains x then seen else seen ++ [x]) seen ↔
      x ∈ seen ∨ x ∈ xs := by
  induction xs generalizing seen with
  | nil => simp
  | cons y ys ih =>
    rw [foldl_cons, ih]
    split
    next hy =>
      have hy : y ∈ seen := contains_iff_mem.1 hy
      grind
    next => simp [or_assoc]

lemma mem_distinct : x ∈ distinct xs ↔ x ∈ xs :=
  mem_foldl_distinct.trans (by simp)

/-- It makes no difference whether what is added is distinct. -/
lemma foldl_distinct_distinct (seen xs : List String) :
    (distinct xs).foldl (fun seen x => if seen.contains x then seen else seen ++ [x]) seen =
      xs.foldl (fun seen x => if seen.contains x then seen else seen ++ [x]) seen := by
  induction xs using List.reverseRecOn with
  | nil => rfl
  | append_singleton xs x ih =>
    rw [distinct, foldl_append, foldl_append, ← distinct, foldl_cons, foldl_nil,
      foldl_cons, foldl_nil]
    split
    next hx =>
      have hx : x ∈ xs := mem_distinct.1 (contains_iff_mem.1 hx)
      rw [ih, if_pos (contains_iff_mem.2 (mem_foldl_distinct.2 (.inr hx)))]
    next => rw [foldl_append, ih, foldl_cons, foldl_nil]

lemma nodup_foldl_distinct (xs : List String) (h : seen.Nodup) :
    (xs.foldl (fun seen x => if seen.contains x then seen else seen ++ [x]) seen).Nodup := by
  induction xs generalizing seen with
  | nil => exact h
  | cons x xs ih =>
    rw [foldl_cons]
    refine ih ?_
    split
    · exact h
    next hx =>
      have hx : x ∉ seen := fun hmem => hx (contains_iff_mem.2 hmem)
      exact nodup_append.2 ⟨h, by simp, by grind⟩

lemma nodup_distinct (xs : List String) : (distinct xs).Nodup :=
  nodup_foldl_distinct xs nodup_nil

/-- The names in a list of marks are listed in the order of their first marks. -/
lemma pairwise_distinct {α : Type*} [LT α] {marks : List (α × String)}
    (h : marks.Pairwise fun p q => p.1 < q.1) :
    (distinct (marks.map (·.2))).Pairwise fun x y =>
      ∃ p, (p, x) ∈ marks ∧ ∀ q, (q, y) ∈ marks → p < q := by
  induction marks using List.reverseRecOn with
  | nil => exact Pairwise.nil
  | append_singleton marks last ih =>
    obtain ⟨hmarks, -, hlast⟩ := pairwise_append.1 h
    have hlast {p q : α} {x y : String} (hp : (p, x) ∈ marks) (hq : (q, y) = last) : p < q :=
      hlast _ hp _ (mem_singleton.2 hq)
    have hkept : (distinct (marks.map (·.2))).Pairwise fun x y =>
        ∃ p, (p, x) ∈ marks ++ [last] ∧ ∀ q, (q, y) ∈ marks ++ [last] → p < q := by
      refine (ih hmarks).imp fun ⟨p, hp, hfirst⟩ => ⟨p, mem_append_left _ hp, fun q hq => ?_⟩
      rcases mem_append.1 hq with hq | hq
      · exact hfirst q hq
      · exact hlast hp (mem_singleton.1 hq)
    rw [map_append, distinct, foldl_append, ← distinct, map_singleton, foldl_cons, foldl_nil]
    split
    · exact hkept
    next hnew =>
      rw [contains_iff_mem, mem_distinct] at hnew
      refine pairwise_append.2 ⟨hkept, pairwise_singleton .., fun x hx y hy => ?_⟩
      obtain ⟨⟨p, _⟩, hp, rfl⟩ := mem_map.1 (mem_distinct.1 hx)
      refine ⟨p, mem_append_left _ hp, fun q hq => ?_⟩
      rw [mem_singleton.1 hy] at hq
      rcases mem_append.1 hq with hq | hq
      · exact absurd (mem_map.2 ⟨_, hq, rfl⟩) hnew
      · exact hlast hp (mem_singleton.1 hq)

end ApiSchema.Text
