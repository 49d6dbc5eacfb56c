import ApiSchema.Proofs.Value.Parts
import ApiSchema.Validator.Basic

/-!
# Parts of validators

A validator is made of the validators inside it. What holds of a validator as soon as it holds of
its children holds of every validator.
-/

namespace ApiSchema

open List

/-- The bounds of an extent. -/
def Extent.bounds (e : Extent) : List Value :=
  e.min.toList ++ e.max.toList

/-- The floating-point numbers in the bounds of an extent. -/
def Extent.floats (e : Extent) : List Double :=
  e.bounds.flatMap Value.floats

/-- The floating-point numbers among the bounds of numeric rules. -/
def NumberRules.floats (r : NumberRules) : List Double :=
  (r.minimum.toList ++ r.maximum.toList ++ r.exclusiveMinimum.toList ++ r.exclusiveMaximum.toList ++
    r.multipleOf.toList).flatMap fun n => (Value.ofNumber n).floats

namespace Validator

variable {w c u : Validator}

/-- The floating-point numbers that a validator states itself. -/
def floats : Validator → List Double
  | string length _ _ => length.floats
  | number _ rules => rules.floats
  | literal values => values.flatMap Scalar.floats
  | array _ length _ => length.floats
  | record _ count => count.floats
  | object _ _ _ count => count.floats
  | _ => []

/-- The bounds that a validator itself puts on a length or a count. -/
def extent : Validator → Extent
  | string length _ _ => length
  | array _ length _ => length
  | record _ count => count
  | object _ _ _ count => count
  | _ => {}

/-- A validator inside another one, at any depth. -/
inductive Part (w : Validator) : Validator → Prop
  | refl : Part w w
  | child {u c : Validator} (h : Part w u) (hc : c ∈ u.children) : Part w c

lemma Part.of_child (h : c.Part u) (hc : c ∈ w.children) : w.Part u := by
  induction h with
  | refl => exact .child .refl hc
  | child _ hc' ih => exact .child ih hc'

lemma Part.trans {v : Validator} (h : w.Part u) (h' : u.Part v) : w.Part v := by
  induction h' with
  | refl => exact h
  | child _ hc ih => exact .child ih hc

/-- A part of a validator is the validator itself or a part of one of its children. -/
lemma Part.eq_or_child (h : w.Part u) : u = w ∨ ∃ c ∈ w.children, c.Part u := by
  induction h with
  | refl => exact .inl rfl
  | child _ hc ih =>
    obtain rfl | ⟨c, hc', hu⟩ := ih
    · exact .inr ⟨_, hc, .refl⟩
    · exact .inr ⟨c, hc', hu.child hc⟩

/-- What holds of all parts of a validator holds of it and of all parts of its children. -/
lemma forall_part_iff (w : Validator) {P : Validator → Prop} :
    (∀ u, w.Part u → P u) ↔ P w ∧ ∀ c ∈ w.children, ∀ u, c.Part u → P u := by
  refine ⟨fun h => ⟨h w .refl, fun c hc u hu => h u (hu.of_child hc)⟩, fun ⟨hself, h⟩ u hu => ?_⟩
  obtain rfl | ⟨c, hc, hu⟩ := hu.eq_or_child
  · exact hself
  · exact h c hc u hu

lemma sizeOf_lt_of_mem_children (h : c ∈ w.children) : sizeOf c < sizeOf w := by
  cases w with
  | array items _ _ | record items _ | nullable items =>
    rw [mem_singleton.1 h]
    simp +arith
  | union branches | intersection branches =>
    have : sizeOf c < sizeOf branches := sizeOf_lt_of_mem h
    simp only [union.sizeOf_spec, intersection.sizeOf_spec]
    omega
  | object fields _ extra _ =>
    simp only [object.sizeOf_spec]
    rcases mem_append.1 h with h | h
    · obtain ⟨f, hf, rfl⟩ := mem_map.1 h
      have := sizeOf_lt_of_mem hf
      have : sizeOf f = 1 + sizeOf f.key + sizeOf f.validator + sizeOf f.required := by
        cases f
        rfl
      omega
    · obtain rfl := Option.mem_toList.1 h
      simp +arith
  | any | null | boolean | string _ _ _ | custom _ | number _ _ | literal _ | ref _ | named _ =>
    cases h

/-- Induction over the children of a validator. -/
@[elab_as_elim]
theorem children_induction {motive : Validator → Prop}
    (step : ∀ w, (∀ c ∈ w.children, motive c) → motive w) (w : Validator) : motive w :=
  step w fun c _hc => children_induction step c
termination_by sizeOf w
decreasing_by exact sizeOf_lt_of_mem_children _hc

/-- The validator at the end of a path of children. -/
def at? : Validator → List Nat → Option Validator
  | v, [] => some v
  | v, i :: path => v.children[i]?.bind fun c => c.at? path

lemma at?_cons_eq_some_iff {i : Nat} {path : List Nat} :
    w.at? (i :: path) = some u ↔ ∃ c, w.children[i]? = some c ∧ c.at? path = some u := by
  rw [at?, Option.bind_eq_some_iff]

end Validator

end ApiSchema
