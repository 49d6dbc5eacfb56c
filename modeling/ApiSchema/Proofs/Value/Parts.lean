import Mathlib
import ApiSchema.Value.Basic

/-!
# Parts of values

A value is made of the values inside it. What holds of a value as soon as it holds of its parts
holds of every value.
-/

namespace ApiSchema

open List

/-- The floating-point number that a scalar is. -/
def Scalar.floats : Scalar → List Double
  | .float x => [x]
  | _ => []

namespace Value

variable {x y : Value} {key : String}

/-- The values directly inside a value. -/
def parts : Value → List Value
  | scalar _ => []
  | list items => items
  | tuple items => items
  | map entries => entries.map (·.2)

lemma sizeOf_lt_of_mem_parts (h : y ∈ x.parts) : sizeOf y < sizeOf x := by
  cases x with
  | scalar s => cases h
  | list items | tuple items =>
    have : sizeOf y < sizeOf items := sizeOf_lt_of_mem h
    simp only [list.sizeOf_spec, tuple.sizeOf_spec]
    omega
  | map entries =>
    obtain ⟨⟨key, v⟩, he, rfl⟩ := mem_map.1 h
    have := sizeOf_lt_of_mem he
    simp only [map.sizeOf_spec, Prod.mk.sizeOf_spec] at this ⊢
    omega

/-- Induction over the parts of a value. -/
@[elab_as_elim]
theorem parts_induction {motive : Value → Prop}
    (step : ∀ v, (∀ x ∈ v.parts, motive x) → motive v) (v : Value) : motive v :=
  step v fun x _hx => parts_induction step x
termination_by sizeOf v
decreasing_by exact sizeOf_lt_of_mem_parts _hx

/-- A value lies inside another one, at any depth but not at none. -/
def Inside : Value → Value → Prop :=
  Relation.TransGen fun y x => y ∈ x.parts

lemma Inside.sizeOf_lt (h : y.Inside x) : sizeOf y < sizeOf x := by
  induction h with
  | single h => exact sizeOf_lt_of_mem_parts h
  | tail _ h ih => exact ih.trans (sizeOf_lt_of_mem_parts h)

lemma inside_of_mem_parts (h : y ∈ x.parts) : y.Inside x :=
  .single h

lemma Inside.of_mem_parts {z : Value} (h : z ∈ y.parts) (hy : y.Inside x) : z.Inside x :=
  .head h hy

lemma depth_lt_of_mem_parts (h : y ∈ x.parts) : y.depth < x.depth := by
  have hitems {xs : List Value} (hy : y ∈ xs) : y.depth ≤ depthItems xs := by
    induction xs with
    | nil => cases hy
    | cons x xs ih =>
      rw [depthItems]
      rcases mem_cons.1 hy with rfl | hy
      · exact le_max_left _ _
      · exact le_max_of_le_right (ih hy)
  have hentries {es : List (Scalar × Value)} (hy : y ∈ es.map (·.2)) : y.depth ≤ depthEntries es := by
    induction es with
    | nil => cases hy
    | cons e es ih =>
      rw [depthEntries]
      rcases mem_cons.1 hy with rfl | hy
      · exact le_max_left _ _
      · exact le_max_of_le_right (ih hy)
  cases x with
  | scalar s => cases h
  | list xs | tuple xs =>
    rw [depth]
    exact Nat.lt_succ_of_le (hitems h)
  | map es =>
    rw [depth]
    exact Nat.lt_succ_of_le (hentries h)

lemma Inside.depth_lt (h : y.Inside x) : y.depth < x.depth := by
  induction h with
  | single h => exact depth_lt_of_mem_parts h
  | tail _ h ih => exact ih.trans (depth_lt_of_mem_parts h)

/-! ### Members of mappings -/

lemma mem_of_find? {key : Scalar} {es : List (Scalar × Value)} {v : Value}
    (h : find? key es = some v) : v ∈ es.map (·.2) := by
  induction es with
  | nil => cases h
  | cons e es ih =>
    rw [find?] at h
    split at h
    · cases h
      exact mem_cons_self
    · exact mem_cons_of_mem _ (ih h)

lemma mem_parts_of_get? {v w : Value} (h : v.get? key = some w) : w ∈ v.parts := by
  cases v with
  | map es => exact mem_of_find? h
  | scalar _ | list _ | tuple _ => cases h

lemma mem_parts_of_get {v : Value} (h : v.get key ≠ .null) : v.get key ∈ v.parts := by
  cases hget : v.get? key with
  | none => exact absurd (by rw [get, hget]; rfl) h
  | some w =>
    rw [get, hget]
    exact mem_parts_of_get? hget

/-! ### Floating-point numbers -/

mutual

/-- The floating-point numbers in a value; those among keys are left out. -/
def floats : Value → List Double
  | .scalar s => s.floats
  | .list xs => floatsItems xs
  | .tuple xs => floatsItems xs
  | .map es => floatsEntries es

def floatsItems : List Value → List Double
  | [] => []
  | x :: xs => floats x ++ floatsItems xs

def floatsEntries : List (Scalar × Value) → List Double
  | [] => []
  | (_, v) :: rest => floats v ++ floatsEntries rest

end

lemma floatsItems_eq (xs : List Value) : floatsItems xs = xs.flatMap floats := by
  induction xs with
  | nil => rfl
  | cons x xs ih => rw [floatsItems, ih, flatMap_cons]

lemma floatsEntries_eq (es : List (Scalar × Value)) :
    floatsEntries es = (es.map (·.2)).flatMap floats := by
  induction es with
  | nil => rfl
  | cons e es ih => rw [floatsEntries, ih, map_cons, flatMap_cons]

/-- The floating-point numbers in a value are the value itself or in its parts. -/
lemma mem_floats_iff {v : Value} {x : Double} :
    x ∈ v.floats ↔ v = .float x ∨ ∃ y ∈ v.parts, x ∈ y.floats := by
  cases v with
  | scalar s => cases s <;> simp [floats, Scalar.floats, parts, eq_comm]
  | list xs | tuple xs => simp [floats, floatsItems_eq, parts]
  | map es => simp [floats, floatsEntries_eq, parts]

end Value

end ApiSchema
