import ApiSchema.Proofs.Schema.WellFormed

/-!
# What readings ask for

A reading notes a demand for every reference that it meets. Main statement: a reading that succeeds
has asked for the targets of the schemas it gives, in the order in which they stand there.
-/

namespace ApiSchema

open List

/-! ### Targets of schemas -/

namespace Node

mutual

/-- The targets of all references in a node, in order. -/
def targets : Node → List String
  | reference _ target => [target]
  | array _ items _ => targetsOption items
  | object _ properties _ additional _ => targetsProperties properties ++ targetsAdditional additional
  | anyOf _ branches => targetsBranches branches
  | oneOf _ branches => targetsBranches branches
  | allOf _ branches => targetsBranches branches
  | _ => []

def targetsOption : Option Node → List String
  | none => []
  | some n => targets n

def targetsAdditional : Additional Node → List String
  | .typed n => targets n
  | _ => []

def targetsBranches : List Node → List String
  | [] => []
  | n :: ns => targets n ++ targetsBranches ns

def targetsProperties : List (String × Node) → List String
  | [] => []
  | (_, n) :: rest => targets n ++ targetsProperties rest

end

@[simp] lemma targetsBranches_eq (nodes : List Node) :
    targetsBranches nodes = nodes.flatMap targets := by
  induction nodes with
  | nil => rfl
  | cons n ns ih => rw [targetsBranches, ih, flatMap_cons]

@[simp] lemma targetsProperties_eq (properties : List (String × Node)) :
    targetsProperties properties = properties.flatMap (·.2.targets) := by
  induction properties with
  | nil => rfl
  | cons p ps ih => rw [targetsProperties, ih, flatMap_cons]

@[simp] lemma targetsOption_eq (node : Option Node) :
    targetsOption node = node.toList.flatMap targets := by
  cases node <;> simp [targetsOption]

@[simp] lemma targets_orNull (node : Node) : node.orNull.targets = node.targets := by
  rw [orNull]
  split
  · rfl
  · cases node <;> simp [atSite, targets]

/-- A node inside another one refers to nothing that the whole does not refer to. -/
lemma targets_subset_of_mem_children {node c : Node} (h : c ∈ node.children) :
    c.targets ⊆ node.targets := by
  intro target htarget
  cases node with
  | array _ items _ =>
    rw [targets, targetsOption_eq]
    exact mem_flatMap.2 ⟨c, h, htarget⟩
  | anyOf _ branches | oneOf _ branches | allOf _ branches =>
    rw [targets, targetsBranches_eq]
    exact mem_flatMap.2 ⟨c, h, htarget⟩
  | object _ properties _ additional _ =>
    rw [targets, targetsProperties_eq, mem_append]
    rcases mem_append.1 h with h | h
    · obtain ⟨p, hp, rfl⟩ := mem_map.1 h
      exact .inl (mem_flatMap.2 ⟨p, hp, htarget⟩)
    · cases additional with
      | typed schema =>
        rw [mem_singleton.1 h] at htarget
        exact .inr htarget
      | unstated | allowed | forbidden => cases h
  | any _ | null _ | boolean _ | string _ _ | number _ _ _ | enum _ _ | literal _ _
  | reference _ _ => cases h

end Node

/-- The targets of all references in a route, in order. -/
def Route.targets (r : Route Node) : List String :=
  (r.request ++ r.responses).flatMap (·.2.targets)

namespace Schema

/-! ### Demands -/

/-- The targets that schemas were asked for. -/
def demanded (demands : List Demand) : List String :=
  (linksIn demands).map (·.target)

lemma mem_demanded {demands : List Demand} {link : Link} (h : .schema link ∈ demands) :
    link.target ∈ demanded demands :=
  mem_map_of_mem (mem_filterMap.2 ⟨_, h, rfl⟩)

/-- The reading has asked for the targets that `f` tells of its result. -/
def Asks {α : Type} (f : α → List String) (x : Reading α) : Prop :=
  ∀ a, x.outcome = .ok a → f a = demanded x.trace

/-- Required names without a property refer to nothing. -/
lemma targets_addRequired (pointer : String) (properties : List (String × Node))
    (required : List String) :
    (addRequired pointer properties required).flatMap (·.2.targets) =
      properties.flatMap (·.2.targets) := by
  unfold addRequired
  induction required generalizing properties with
  | nil => rfl
  | cons name rest ih =>
    rw [foldl_cons, ih]
    split
    · rfl
    · simp [Node.targets]

/-- The links noted for a schema are those to its targets, in order. -/
def Noted (links : List Link) (node : Node) : Prop :=
  node.targets = links.map (·.target)

lemma Pieces.targets {links : List Link} {nodes : List Node} (h : Pieces Noted links nodes) :
    nodes.flatMap Node.targets = links.map (·.target) := by
  induction h with
  | nil => rfl
  | cons hnode _ ih => rw [flatMap_cons, hnode, ih, map_append]

lemma forms_noted (K : String → Value → Prop) : Forms K Noted where
  leaf h := by cases h <;> rfl
  reference _ _ := rfl
  array h _ _ := h
  object := by
    intro doc entries links links' declared additional _ _ hdeclared hadditional _ pointer required _
    have hadditional : Node.targetsAdditional additional = links'.map (·.target) := by
      rw [← hadditional.targets]
      cases additional <;> simp [Node.targetsAdditional, Additional.nodes]
    have hdeclared := hdeclared.targets
    rw [flatMap_map] at hdeclared
    rw [Noted, Node.targets, Node.targetsProperties_eq, targets_addRequired, hdeclared, hadditional,
      map_append]
  group _ _ h _ := by
    have h := h.targets
    rw [flatMap_map] at h
    rw [Noted, Node.targets, Node.targetsProperties_eq, h]
    exact append_nil _
  anyOf h _ := by rw [Noted, Node.targets, Node.targetsBranches_eq, h.targets]
  oneOf h _ := by rw [Noted, Node.targets, Node.targetsBranches_eq, h.targets]
  allOf _ h _ := by rw [Noted, Node.targets, Node.targetsBranches_eq, h.targets]
  orNull h := by rwa [Noted, Node.targets_orNull]

/-- A schema that is read has been asked for. -/
lemma asks_read (lib : Library) (doc : String) (raw : Value) (pointer : String) :
    Asks Node.targets (read lib doc raw pointer) :=
  ((Reader.free lib (forms_noted _)).reads_read trivial pointer).ended

/-- A document has asked for the targets of its routes. -/
lemma asks_readRoutes (lib : Library) : Asks (·.flatMap Route.targets) (readRoutes lib) := by
  intro routes hroutes
  have h : _ = demanded (readRoutes lib).trace :=
    ((Reader.free lib (forms_noted _)).reads_readRoutes.ended routes hroutes).targets
  rw [← h, flatMap_assoc]
  refine flatMap_congr fun r _ => ?_
  rw [Route.targets, Route.nodes, flatMap_map]

end Schema

end ApiSchema
