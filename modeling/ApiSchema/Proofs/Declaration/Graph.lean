import ApiSchema.Declaration.Order
import ApiSchema.Proofs.Graph.Components
import ApiSchema.Proofs.Text.Distinct

/-!
# The graph of declarations

Among declarations with distinct names, the links of the graph of names are the references of
declarations to each other, and its components are sets of declarations.
-/

namespace ApiSchema.Declarations

open List Relation

variable {d : Declarations}

variable {e f : Declaration} {y : String} {c : List Declaration}

/-- One declaration refers to another, both of the set. -/
structure DependsOn (d : Declarations) (e f : Declaration) : Prop where
  left : e ∈ d.entries
  right : f ∈ d.entries
  mem : f.name ∈ e.dependencies

/-- A declaration reaches another along references inside the set. -/
def Leads (d : Declarations) : Declaration → Declaration → Prop :=
  ReflTransGen d.DependsOn

/-! ### Names stand for declarations -/

lemma eq_of_name_eq (hnames : d.names.Nodup) (he : e ∈ d.entries) (hf : f ∈ d.entries)
    (h : e.name = f.name) : e = f :=
  inj_on_of_nodup_map hnames he hf h

lemma name_mem_names (he : e ∈ d.entries) : e.name ∈ d.names :=
  mem_map_of_mem he

lemma get?_name (hnames : d.names.Nodup) (he : e ∈ d.entries) : d.get? e.name = some e := by
  have hsome : (d.get? e.name).isSome := by
    rw [get?, List.find?_isSome]
    exact ⟨e, mem_reverse.mpr he, by simp⟩
  obtain ⟨f, hf⟩ := Option.isSome_iff_exists.mp hsome
  have hname := List.find?_some hf
  have hmem : f ∈ d.entries := mem_reverse.mp (List.mem_of_find?_eq_some hf)
  rw [hf, eq_of_name_eq hnames hmem he (by simpa using hname)]

lemma dependenciesOf_name (hnames : d.names.Nodup) (he : e ∈ d.entries) :
    d.dependenciesOf e.name = e.dependencies := by
  rw [dependenciesOf, get?_name hnames he, Option.map_some, Option.getD_some]

lemma graph_nodes (hnames : d.names.Nodup) : d.graph.nodes = d.names :=
  Text.distinct_of_nodup hnames

lemma keepLast_of_nodup {es : List Declaration} (h : (es.map (·.name)).Nodup) :
    effective.keepLast es = es := by
  induction es with
  | nil => rfl
  | cons e es ih =>
    rw [map_cons, nodup_cons] at h
    have hnone : ¬ es.any (·.name == e.name) = true := by
      intro hany
      obtain ⟨f, hf, hname⟩ := any_eq_true.mp hany
      rw [beq_iff_eq] at hname
      exact h.1 (hname ▸ mem_map_of_mem hf)
    rw [effective.keepLast, if_neg hnone, ih h.2]

lemma effective_of_nodup (hnames : d.names.Nodup) : d.effective = d.entries :=
  keepLast_of_nodup hnames

/-! ### Links stand for references -/

lemma link_iff (hnames : d.names.Nodup) (he : e ∈ d.entries) (hf : f ∈ d.entries) :
    d.graph.Link e.name f.name ↔ d.DependsOn e f := by
  have hlinks : d.graph.links e.name = e.dependencies := dependenciesOf_name hnames he
  rw [Graph.Link, Graph.next, mem_filter, hlinks, contains_iff_mem, graph_nodes hnames]
  exact ⟨fun h => ⟨he, hf, h.1⟩, fun h => ⟨h.mem, name_mem_names hf⟩⟩

/-- A link from a declared name leads to a declared name. -/
lemma exists_of_link (hnames : d.names.Nodup) (he : e ∈ d.entries) (h : d.graph.Link e.name y) :
    ∃ f ∈ d.entries, f.name = y ∧ d.DependsOn e f := by
  have hy : y ∈ d.names := graph_nodes hnames ▸ h.mem_nodes
  obtain ⟨f, hf, rfl⟩ := mem_map.mp hy
  exact ⟨f, hf, rfl, (link_iff hnames he hf).mp h⟩

lemma DependsOn.link (hnames : d.names.Nodup) (h : d.DependsOn e f) : d.graph.Link e.name f.name :=
  (link_iff hnames h.left h.right).mpr h

lemma Leads.reaches (hnames : d.names.Nodup) (h : d.Leads e f) : d.graph.Reaches e.name f.name := by
  induction h with
  | refl => exact ReflTransGen.refl
  | tail _ hmf ih => exact ih.tail (hmf.link hnames)

lemma exists_leads_of_reaches (hnames : d.names.Nodup) (he : e ∈ d.entries)
    (h : d.graph.Reaches e.name y) : ∃ f ∈ d.entries, f.name = y ∧ d.Leads e f := by
  induction h with
  | refl => exact ⟨e, he, rfl, ReflTransGen.refl⟩
  | tail _ hzy ih =>
    obtain ⟨m, hm, rfl, hem⟩ := ih
    obtain ⟨f, hf, rfl, hmf⟩ := exists_of_link hnames hm hzy
    exact ⟨f, hf, rfl, hem.tail hmf⟩

lemma reaches_iff_leads (hnames : d.names.Nodup) (he : e ∈ d.entries) (hf : f ∈ d.entries) :
    d.graph.Reaches e.name f.name ↔ d.Leads e f := by
  refine ⟨fun h => ?_, fun h => h.reaches hnames⟩
  obtain ⟨f', hf', hname, hlead⟩ := exists_leads_of_reaches hnames he h
  exact eq_of_name_eq hnames hf' hf hname ▸ hlead

/-! ### Components -/

/-- The declarations of some names, in order. -/
def members (d : Declarations) (names : List String) : List Declaration :=
  d.effective.filter fun e => names.contains e.name

lemma components_eq_map (d : Declarations) : d.components = d.graph.components.map d.members := rfl

lemma mem_members_iff (hnames : d.names.Nodup) {names : List String} :
    e ∈ d.members names ↔ e ∈ d.entries ∧ e.name ∈ names := by
  rw [members, effective_of_nodup hnames, mem_filter, contains_iff_mem]

/-- The members of a component keep the order of declaration. -/
lemma sublist_of_mem_components (hnames : d.names.Nodup) (hc : c ∈ d.components) :
    c.Sublist d.entries := by
  rw [components_eq_map] at hc
  obtain ⟨names, -, rfl⟩ := mem_map.mp hc
  rw [members, effective_of_nodup hnames]
  exact filter_sublist

/-- Every declaration is in a component. -/
lemma exists_component (hnames : d.names.Nodup) (he : e ∈ d.entries) :
    ∃ c ∈ d.components, e ∈ c := by
  have hnode : e.name ∈ d.graph.nodes := graph_nodes hnames ▸ name_mem_names he
  obtain ⟨names, hmem, hname⟩ := Graph.exists_component hnode
  rw [components_eq_map]
  exact ⟨d.members names, mem_map_of_mem hmem, (mem_members_iff hnames).mpr ⟨he, hname⟩⟩

/-- The declarations that share a component are those that lead to each other. -/
lemma mem_component_iff (hnames : d.names.Nodup) (hc : c ∈ d.components) (he : e ∈ c) :
    f ∈ c ↔ f ∈ d.entries ∧ d.Leads e f ∧ d.Leads f e := by
  rw [components_eq_map] at hc
  obtain ⟨names, hmem, rfl⟩ := mem_map.mp hc
  rw [mem_members_iff hnames] at he ⊢
  refine and_congr_right fun hf => ?_
  rw [Graph.mem_component_iff hmem he.2, graph_nodes hnames, Graph.Mutual,
    reaches_iff_leads hnames he.1 hf, reaches_iff_leads hnames hf he.1]
  exact and_iff_right (name_mem_names hf)

/-- No member of a component leads to a member of a later one. -/
lemma pairwise_components (hnames : d.names.Nodup) :
    d.components.Pairwise fun c c' => ∀ e ∈ c, ∀ f ∈ c', ¬ d.Leads e f := by
  rw [components_eq_map, pairwise_map]
  refine (Graph.pairwise_components d.graph).imp fun hnot e he f hf hlead => ?_
  rw [mem_members_iff hnames] at he hf
  exact hnot e.name he.2 f.name hf.2 (hlead.reaches hnames)

/-- All components together hold every declaration once. -/
lemma flatten_components_perm (hnames : d.names.Nodup) :
    d.components.flatten.Perm d.entries := by
  have hentries : d.entries.Nodup := List.Nodup.of_map _ hnames
  refine (perm_ext_iff_of_nodup ?_ hentries).mpr fun e => ?_
  · refine nodup_flatten.mpr ⟨fun c hc => ?_, ?_⟩
    · exact hentries.sublist (sublist_of_mem_components hnames hc)
    · refine (pairwise_components hnames).imp fun hnot e he he' => ?_
      exact hnot e he e he' ReflTransGen.refl
  · rw [mem_flatten]
    constructor
    · rintro ⟨c, hc, he⟩
      exact (sublist_of_mem_components hnames hc).subset he
    · exact exists_component hnames

/-- A reference never leads to a later component. -/
lemma le_of_dependsOn (hnames : d.names.Nodup) {i j : Nat} {c' : List Declaration}
    (hi : d.components[i]? = some c) (hj : d.components[j]? = some c') (he : e ∈ c) (hf : f ∈ c')
    (hef : d.DependsOn e f) : j ≤ i := by
  by_contra hlt
  obtain ⟨hi', rfl⟩ := List.getElem?_eq_some_iff.mp hi
  obtain ⟨hj', rfl⟩ := List.getElem?_eq_some_iff.mp hj
  exact pairwise_iff_getElem.mp (pairwise_components hnames) i j hi' hj' (by omega) e he f hf
    (ReflTransGen.single hef)

end ApiSchema.Declarations
