import Mathlib
import ApiSchema.Schema.Node

/-!
# Parts of schemas

A schema is made of the schemas inside it. What holds of a schema as soon as it holds of its children
holds of every schema.
-/

namespace ApiSchema.Node

open List

/-- The nodes directly inside a node. -/
def children : Node → List Node
  | array _ items _ => items.toList
  | object _ properties _ additional _ =>
    properties.map (·.2) ++ match additional with
      | .typed schema => [schema]
      | _ => []
  | anyOf _ branches => branches
  | oneOf _ branches => branches
  | allOf _ branches => branches
  | _ => []

lemma sizeOf_lt_of_mem_children {node c : Node} (h : c ∈ node.children) :
    sizeOf c < sizeOf node := by
  cases node with
  | array _ items _ =>
    obtain rfl := Option.mem_toList.1 h
    simp +arith
  | anyOf _ branches | oneOf _ branches | allOf _ branches =>
    have : sizeOf c < sizeOf branches := sizeOf_lt_of_mem h
    simp only [anyOf.sizeOf_spec, oneOf.sizeOf_spec, allOf.sizeOf_spec]
    omega
  | object _ properties _ additional _ =>
    simp only [object.sizeOf_spec]
    rcases mem_append.1 h with h | h
    · obtain ⟨⟨key, node⟩, hp, rfl⟩ := mem_map.1 h
      have := sizeOf_lt_of_mem hp
      simp only [Prod.mk.sizeOf_spec] at this ⊢
      omega
    · cases additional with
      | typed schema =>
        rw [mem_singleton.1 h]
        simp +arith
      | unstated | allowed | forbidden => cases h
  | any _ | null _ | boolean _ | string _ _ | number _ _ _ | enum _ _ | literal _ _
  | reference _ _ => cases h

/-- Induction over the children of a schema. -/
@[elab_as_elim]
theorem children_induction {motive : Node → Prop}
    (step : ∀ node, (∀ c ∈ node.children, motive c) → motive node) (node : Node) : motive node :=
  step node fun c _hc => children_induction step c
termination_by sizeOf node
decreasing_by exact sizeOf_lt_of_mem_children _hc

end ApiSchema.Node
