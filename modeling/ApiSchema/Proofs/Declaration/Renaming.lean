import ApiSchema.Declaration.Order
import ApiSchema.Proofs.Declaration.References
import ApiSchema.Proofs.Graph.Renaming
import ApiSchema.Proofs.Outcome

/-!
# Renamed declarations

An injective map renames declarations: their own names, those inside their validators, those they
depend on, and those for routes. Main statement: renamed declarations have the same components in the
same order, with the new names, or fail in the same way.
-/

namespace ApiSchema

open List

/-! ### Validators -/

namespace Validator

mutual

/-- Rename the declarations that a validator refers to. -/
def rename (τ : String ↪ String) : Validator → Validator
  | named name => named (τ name)
  | array items length unique => array (rename τ items) length unique
  | record values count => record (rename τ values) count
  | object fields forbidExtra extra count =>
    object (renameFields τ fields) forbidExtra (renameExtra τ extra) count
  | union branches => union (renameAll τ branches)
  | intersection branches => intersection (renameAll τ branches)
  | nullable inner => nullable (rename τ inner)
  | v => v

def renameAll (τ : String ↪ String) : List Validator → List Validator
  | [] => []
  | v :: vs => rename τ v :: renameAll τ vs

def renameFields (τ : String ↪ String) : List (FieldOf Validator) → List (FieldOf Validator)
  | [] => []
  | ⟨key, v, required⟩ :: fs => ⟨key, rename τ v, required⟩ :: renameFields τ fs

def renameExtra (τ : String ↪ String) : Option Validator → Option Validator
  | none => none
  | some v => some (rename τ v)

end

variable (τ : String ↪ String)

lemma renameAll_eq (vs : List Validator) : renameAll τ vs = vs.map (rename τ) := by
  induction vs with
  | nil => rfl
  | cons v vs ih => rw [renameAll, ih, map_cons]

lemma map_validator_renameFields (fields : List (FieldOf Validator)) :
    (renameFields τ fields).map (·.validator) = (fields.map (·.validator)).map (rename τ) := by
  induction fields with
  | nil => rfl
  | cons f fields ih => rw [renameFields, map_cons, ih, map_cons, map_cons]

lemma children_rename (v : Validator) : (v.rename τ).children = v.children.map (rename τ) := by
  cases v with
  | object fields _ extra _ =>
    cases extra <;> simp [rename, renameExtra, children, map_validator_renameFields]
  | _ => simp [rename, children, renameAll_eq]

lemma occurrences_rename (eager : Bool) (v : Validator) :
    (v.rename τ).occurrences eager = (v.occurrences eager).map (Prod.map τ id) := by
  induction v using children_induction generalizing eager with
  | step v ih =>
    cases v with
    | named name => simp [rename, occurrences]
    | _ =>
      rw [occurrences_of_children (by simp [rename]), occurrences_of_children (by simp),
        children_rename, flatMap_map, map_flatMap]
      exact flatMap_congr fun c hc => ih c hc _

lemma references_rename (v : Validator) : (v.rename τ).references = v.references.map τ := by
  rw [references, references, occurrences_rename, map_map, ← Text.distinct_map, map_map]
  rfl

lemma eagerReferences_rename (v : Validator) :
    (v.rename τ).eagerReferences = v.eagerReferences.map τ := by
  have hinjective : Function.Injective (Prod.map τ id : String × Bool → String × Bool) :=
    τ.injective.prodMap Function.injective_id
  rw [eagerReferences, eagerReferences, references_rename, filter_map, occurrences_rename]
  congr 1
  refine filter_congr fun name _ => ?_
  rw [Function.comp_apply, Bool.eq_iff_iff, contains_iff_mem, contains_iff_mem]
  exact mem_map_of_injective hinjective (a := (name, true))

end Validator

/-! ### Declarations -/

/-- Rename a declaration and those it refers to. -/
def Declaration.rename (τ : String ↪ String) (e : Declaration) : Declaration :=
  { e with
    name := τ e.name
    validator := e.validator.rename τ
    dependencies := e.dependencies.map τ
    eager := e.eager.map τ }

lemma Declaration.rename_of (τ : String ↪ String) (name : String) (v : Validator)
    (pointer : String) :
    (Declaration.of name v pointer).rename τ = .of (τ name) (v.rename τ) pointer := by
  simp only [Declaration.of, Declaration.rename, v.references_rename, v.eagerReferences_rename]

/-- Rename the declarations for a route. -/
def Route.rename (τ : String ↪ String) (r : Route String) : Route String :=
  { r with
    request := r.request.map (Prod.map id τ)
    responses := r.responses.map (Prod.map id τ) }

/-- Rename the declarations that a fault tells of. -/
def Fault.rename (τ : String ↪ String) : Fault → Fault
  | .schema (.unbreakable names path) => .schema (.unbreakable (names.map τ) path)
  | .alreadyDeclared name => .alreadyDeclared (τ name)
  | .fingerprintTaken existing name => .fingerprintTaken (τ existing) (τ name)
  | .nameTaken name => .nameTaken (τ name)
  | fault => fault

namespace Declarations

/-- Rename all declarations. -/
def rename (τ : String ↪ String) (d : Declarations) : Declarations where
  entries := d.entries.map (Declaration.rename τ)
  routes := d.routes.map (Route.rename τ)

variable (τ : String ↪ String) (d : Declarations)

lemma names_rename : (d.rename τ).names = d.names.map τ := by
  simp only [names, rename, map_map]
  rfl

lemma add_rename (e : Declaration) : (d.rename τ).add (e.rename τ) =
    ((d.add e).map (rename τ)).mapError (Fault.rename τ) := by
  have hcontains : (d.rename τ).contains (e.rename τ).name = d.contains e.name := by
    rw [contains, contains, names_rename]
    exact contains_map τ d.names e.name
  rw [add, add, hcontains]
  cases d.contains e.name with
  | true => rfl
  | false => simp [rename, Except.map, Except.mapError]

lemma get?_rename (name : String) :
    (d.rename τ).get? (τ name) = (d.get? name).map (Declaration.rename τ) := by
  rw [get?, get?, rename, ← map_reverse, List.find?_map]
  congr 2
  funext e
  exact beq_map τ e.name name

lemma effective_rename : (d.rename τ).effective = d.effective.map (Declaration.rename τ) := by
  have hkeepLast (es : List Declaration) :
      effective.keepLast (es.map (Declaration.rename τ)) =
        (effective.keepLast es).map (Declaration.rename τ) := by
    induction es with
    | nil => rfl
    | cons e es ih =>
      have hany : (es.map (Declaration.rename τ)).any (·.name == (e.rename τ).name) =
          es.any (·.name == e.name) := by
        rw [any_map]
        congr 1
        funext e'
        exact beq_map τ e'.name e.name
      rw [map_cons, effective.keepLast, effective.keepLast, hany, ih]
      split <;> rfl
  exact hkeepLast d.entries

lemma renames_graph : d.graph.Renames τ (d.rename τ).graph where
  nodes := by
    rw [graph, names_rename, Text.distinct_map]
    rfl
  links name := by
    show (d.rename τ).dependenciesOf (τ name) = (d.dependenciesOf name).map τ
    rw [dependenciesOf, dependenciesOf, get?_rename]
    cases d.get? name <;> rfl

lemma components_rename :
    (d.rename τ).components = d.components.map (List.map (Declaration.rename τ)) := by
  rw [components, components, (renames_graph τ d).components, effective_rename, map_map,
    map_map]
  refine map_congr_left fun names _ => ?_
  rw [Function.comp_apply, Function.comp_apply, filter_map]
  congr 1
  exact filter_congr fun e _ => contains_map τ names e.name

/-! ### Components in order -/

lemma renames_eagerGraph (component : List Declaration) :
    (eagerGraph component).Renames τ (eagerGraph (component.map (Declaration.rename τ))) where
  nodes := by
    simp only [eagerGraph, map_map]
    rfl
  links name := by
    have hfind : (component.map (Declaration.rename τ)).find? (·.name == τ name) =
        (component.find? (·.name == name)).map (Declaration.rename τ) := by
      rw [List.find?_map]
      congr 2
      funext e
      exact beq_map τ e.name name
    show (((component.map (Declaration.rename τ)).find? (·.name == τ name)).map (·.eager)).getD [] = _
    rw [hfind]
    cases hfound : component.find? (·.name == name) <;> simp [eagerGraph, hfound, Declaration.rename]

lemma isCyclic_rename (component : List Declaration) :
    isCyclic (component.map (Declaration.rename τ)) = isCyclic component := by
  match component with
  | [] => rfl
  | [e] => exact contains_map τ e.dependencies e.name
  | _ :: _ :: _ => rfl

lemma settle_rename (component : List Declaration) :
    (settle (component.map (Declaration.rename τ))).outcome =
      ((settle component).outcome.map (List.map (Declaration.rename τ))).mapError (Fault.rename τ) := by
  unfold settle
  rw [isCyclic_rename, (renames_eagerGraph τ component).cycle?]
  cases isCyclic component with
  | false => rfl
  | true =>
    cases (eagerGraph component).cycle? with
    | none =>
      show Except.ok ((component.map (Declaration.rename τ)).map _) = Except.ok ((component.map _).map _)
      rw [map_map, map_map]
      rfl
    | some cycle =>
      cases component with
      | nil => rfl
      | cons e es => rfl

/-- Renamed declarations have the same components, in the same order. -/
theorem order_rename : (d.rename τ).order.outcome =
    (d.order.outcome.map (List.map (List.map (Declaration.rename τ)))).mapError (Fault.rename τ) := by
  have hall (components : List (List Declaration)) :
      (settleAll (components.map (List.map (Declaration.rename τ)))).outcome =
        ((settleAll components).outcome.map (List.map (List.map (Declaration.rename τ)))).mapError
          (Fault.rename τ) := by
    induction components with
    | nil => rfl
    | cons component components ih =>
      have hsettle := settle_rename τ component
      rw [map_cons, settleAll, settleAll]
      generalize settle component = x at hsettle ⊢
      generalize settle (component.map (Declaration.rename τ)) = y at hsettle ⊢
      generalize settleAll components = z at ih ⊢
      generalize settleAll (components.map (List.map (Declaration.rename τ))) = z' at ih ⊢
      obtain ⟨_, x⟩ := x
      obtain ⟨_, y⟩ := y
      obtain ⟨_, z⟩ := z
      obtain ⟨_, z'⟩ := z'
      cases hsettle
      cases ih
      cases x <;> cases z <;> rfl
  rw [order, components_rename, hall]
  rfl

end Declarations

end ApiSchema
