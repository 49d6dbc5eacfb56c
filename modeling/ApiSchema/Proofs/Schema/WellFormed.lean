import ApiSchema.Proofs.Schema.Parts
import ApiSchema.Proofs.Schema.Walk
import ApiSchema.Proofs.Text.Distinct

/-!
# Well-formed schemas

Reading gives schemas of a certain form only: every required name of an object has a property, and
no conjunction is empty. Main statement: all schemas of a resolved document are of that form,
however deep they stand, and the names of their properties have whatever the names in its mappings
have and new names keep.
-/

namespace ApiSchema

open List

variable {doc : Resolved}

namespace Node

variable {node : Node}

/-- Required names have properties, and conjunctions have branches. -/
def IsProper : Node → Prop
  | object _ properties required _ _ => required ⊆ properties.map (·.1)
  | allOf _ branches => branches ≠ []
  | _ => True

/-- Names of properties have the property `D`. -/
def HasNames (D : List String → Prop) : Node → Prop
  | object _ properties _ _ _ => D (properties.map (·.1))
  | _ => True

/-- A node that is proper at every depth, with names in `D`. -/
inductive WellFormed (D : List String → Prop) : Node → Prop
  | intro {node : Node} (proper : node.IsProper) (names : node.HasNames D)
    (children : ∀ c ∈ node.children, c.WellFormed D) : node.WellFormed D

variable {D : List String → Prop}

lemma WellFormed.child {c : Node} (h : node.WellFormed D) (hc : c ∈ node.children) :
    c.WellFormed D := by
  cases h with
  | intro _ _ children => exact children c hc

lemma children_atSite (s : Site) (node : Node) : (node.atSite s).children = node.children := by
  cases node <;> rfl

lemma isProper_atSite {s : Site} : (node.atSite s).IsProper ↔ node.IsProper := by
  cases node <;> rfl

lemma WellFormed.orNull (h : node.WellFormed D) : node.orNull.WellFormed D := by
  unfold Node.orNull
  split
  · exact h
  · cases h with
    | intro proper names children =>
    refine .intro (isProper_atSite.2 proper) ?_ ?_
    · cases node <;> exact names
    · rwa [children_atSite]

lemma WellFormed.of_isLeaf (h : node.IsLeaf) (hnil : D []) : node.WellFormed D := by
  cases h with
  | object site => exact .intro (nil_subset _) hnil nofun
  | any _ | null _ | boolean _ | string _ _ | number _ _ _ | array _ _ | enum _ _ | literal _ _ =>
    exact .intro trivial trivial nofun

end Node

namespace Schema

open Node (WellFormed)

variable {D : List String → Prop}

/-- Adding required names gives each of them a property, and keeps those that are there. -/
lemma addRequired_spec (pointer : String) (properties : List (String × Node))
    (required : List String) :
    properties ⊆ addRequired pointer properties required ∧
      required ⊆ (addRequired pointer properties required).map (·.1) ∧
      ∀ p ∈ addRequired pointer properties required,
        p ∈ properties ∨ p.1 ∈ required ∧ p.2 = .any ⟨pointer ++ "/required", false⟩ := by
  unfold addRequired
  induction required generalizing properties with
  | nil => exact ⟨List.Subset.refl _, nil_subset _, fun p hp => .inl hp⟩
  | cons name rest ih =>
    rw [foldl_cons]
    split
    next hany =>
      obtain ⟨hsub, hrest, hmem⟩ := ih properties
      refine ⟨hsub, cons_subset.2 ⟨?_, hrest⟩, ?_⟩
      · obtain ⟨p, hp, hname⟩ := any_eq_true.1 hany
        rw [← beq_iff_eq.1 hname]
        exact mem_map_of_mem (hsub hp)
      · exact fun p hp => (hmem p hp).imp_right (And.imp_left (mem_cons_of_mem _))
    next =>
      obtain ⟨hsub, hrest, hmem⟩ := ih (properties ++ [(name, .any ⟨pointer ++ "/required", false⟩)])
      refine ⟨List.Subset.trans (subset_append_left _ _) hsub, ?_, ?_⟩
      · refine cons_subset.2 ⟨?_, hrest⟩
        exact mem_map.2 ⟨_, hsub (mem_append_right _ (mem_singleton.2 rfl)), rfl⟩
      · intro p hp
        rcases hmem p hp with hp | ⟨hname, hp⟩
        · rcases mem_append.1 hp with hp | hp
          · exact .inl hp
          · rw [mem_singleton.1 hp]
            exact .inr ⟨mem_cons_self, rfl⟩
        · exact .inr ⟨mem_cons_of_mem _ hname, hp⟩

/-- A property of names that new names keep is kept by adding required names. -/
lemma names_addRequired (hnew : ∀ {names name}, D names → name ∉ names → D (names ++ [name]))
    (pointer : String) {properties : List (String × Node)} (h : D (properties.map (·.1)))
    (required : List String) : D ((addRequired pointer properties required).map (·.1)) := by
  unfold addRequired
  induction required generalizing properties with
  | nil => exact h
  | cons name rest ih =>
    rw [foldl_cons]
    split
    next => exact ih h
    next hany =>
      refine ih ?_
      rw [map_append]
      refine hnew h fun hname => hany ?_
      obtain ⟨p, hp, rfl⟩ := mem_map.1 hname
      exact any_eq_true.2 ⟨p, hp, beq_self_eq_true _⟩

/-- Reading makes well-formed schemas, given what holds of the names in mappings. -/
lemma forms_wellFormed {K : String → Value → Prop}
    (hentries : ∀ {doc entries}, K doc (.map entries) → D (entries.map (·.1.display)))
    (hnew : ∀ {names name}, D names → name ∉ names → D (names ++ [name]))
    (hnodup : ∀ {names}, names.Nodup → D names) : Forms K fun _ => WellFormed D where
  leaf h := .of_isLeaf h (hnodup nodup_nil)
  reference _ _ := .intro trivial trivial nofun
  array h _ _ := .intro trivial trivial fun c hc => by rwa [mem_singleton.1 hc]
  object := by
    intro doc entries links links' declared additional hknown hnames hdeclared hadditional _ pointer
      required rules
    obtain ⟨-, hrequired, hmem⟩ := addRequired_spec pointer declared required
    refine .intro (fun name hname => hrequired (Text.mem_distinct.1 hname)) ?_ fun c hc => ?_
    · exact names_addRequired hnew pointer (hnames ▸ hentries hknown) required
    · rcases mem_append.1 hc with hc | hc
      · obtain ⟨p, hp, rfl⟩ := mem_map.1 hc
        rcases hmem p hp with hp | ⟨-, hp⟩
        · exact (hdeclared.exists_of_mem (mem_map_of_mem hp)).elim fun _ => id
        · rw [hp]
          exact .intro trivial trivial nofun
      · cases additional with
        | typed schema => exact (hadditional.exists_of_mem hc).elim fun _ => id
        | unstated | allowed | forbidden => cases hc
  group := by
    intro links properties required hnames hrequired h _
    refine .intro hrequired (hnodup hnames) fun c hc => ?_
    have hc : c ∈ properties.map (·.2) := (mem_append.1 hc).resolve_right not_mem_nil
    exact (h.exists_of_mem hc).elim fun _ => id
  anyOf h _ := .intro trivial trivial fun c hc => (h.exists_of_mem hc).elim fun _ => id
  oneOf h _ := .intro trivial trivial fun c hc => (h.exists_of_mem hc).elim fun _ => id
  allOf hne h _ := .intro hne trivial fun c hc => (h.exists_of_mem hc).elim fun _ => id
  orNull := WellFormed.orNull

end Schema

/-! ### Schemas of a document -/

/-- A schema of a document: of a definition or of a route, at any depth. -/
inductive Resolved.Contains (doc : Resolved) : Node → Prop
  | definition {target : String} {node : Node} (h : (target, node) ∈ doc.definitions) :
    doc.Contains node
  | request {r : Route Node} {kind : String} {node : Node} (hr : r ∈ doc.routes)
    (h : (kind, node) ∈ r.request) : doc.Contains node
  | response {r : Route Node} {status : String} {node : Node} (hr : r ∈ doc.routes)
    (h : (status, node) ∈ r.responses) : doc.Contains node
  | child {node c : Node} (hnode : doc.Contains node) (hc : c ∈ node.children) : doc.Contains c

/-- Schemas with all that they lead to, inside or by reference. -/
structure Resolved.IsClosed (doc : Resolved) (P : Node → Prop) : Prop where
  child : ∀ {node c : Node}, P node → c ∈ node.children → P c
  target : ∀ {site : Site} {target : String} {node : Node}, P (.reference site target) →
    doc.definitions.lookup target = some node → P node

lemma Resolved.isClosed_contains (doc : Resolved) : doc.IsClosed doc.Contains where
  child := .child
  target _ h := .definition (mem_of_lookup h)

/-- Every schema of a document is as reading makes them. -/
lemma Schema.Reader.wellFormed_of_resolve {r : Reader} {D : List String → Prop}
    (hmade : ∀ {links node}, r.made links node → node.WellFormed D)
    (hcomponents : ∀ entries, components r.lib.root = .ok entries →
      ∀ entry ∈ entries, r.target (componentTarget entry.1.display))
    (h : (resolve r.lib).outcome = .ok doc) {node : Node} (hnode : doc.Contains node) :
    node.WellFormed D := by
  obtain ⟨hdefs, links, hroutes⟩ := r.made_of_resolve hcomponents h
  have hroute {route : Route Node} (hr : route ∈ doc.routes) {node : Node}
      (hnode : node ∈ route.nodes) : node.WellFormed D :=
    (hroutes.exists_of_mem (mem_flatMap.2 ⟨route, hr, hnode⟩)).elim fun _ => hmade
  induction hnode with
  | definition h => exact (hdefs _ h).elim fun _ => hmade
  | request hr h => exact hroute hr (mem_map_of_mem (mem_append_left _ h))
  | response hr h => exact hroute hr (mem_map_of_mem (mem_append_right _ h))
  | child _ hc ih => exact ih.child hc

/-- Every schema of a document is proper. -/
def Resolved.IsProper (doc : Resolved) : Prop :=
  ∀ node, doc.Contains node → node.IsProper

/-- Resolving a document gives proper schemas. -/
theorem Schema.isProper_of_resolve {lib : Library} (h : (resolve lib).outcome = .ok doc) :
    doc.IsProper := by
  intro node hnode
  have hforms : Forms (fun _ _ => True) fun _ => Node.WellFormed fun _ => True :=
    forms_wellFormed (fun _ => trivial) (fun _ _ => trivial) fun _ => trivial
  have hnode : node.WellFormed fun _ => True :=
    (Reader.free lib hforms).wellFormed_of_resolve id (fun _ _ _ _ => trivial) h hnode
  cases hnode with
  | intro proper _ _ => exact proper

end ApiSchema
