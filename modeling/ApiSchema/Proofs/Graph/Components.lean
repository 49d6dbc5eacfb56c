import ApiSchema.Proofs.Graph.Postorder

/-!
# Components

The components of a graph without repeated nodes hold every node once, two nodes share a component
exactly if they reach each other, and no component reaches a later one.
-/

namespace ApiSchema.Graph

open List Relation

variable {g : Graph}

variable {x y : String} {xs c : List String}

/-- Nodes that reach each other. -/
def Mutual (g : Graph) (x y : String) : Prop :=
  g.Reaches x y ∧ g.Reaches y x

lemma Mutual.refl (x : String) : g.Mutual x x :=
  ⟨ReflTransGen.refl, ReflTransGen.refl⟩

lemma Mutual.symm (h : g.Mutual x y) : g.Mutual y x :=
  ⟨h.2, h.1⟩

lemma Mutual.trans {z : String} (h : g.Mutual x y) (h' : g.Mutual y z) : g.Mutual x z :=
  ⟨ReflTransGen.trans h.1 h'.1, ReflTransGen.trans h'.2 h.2⟩

/-! ### The closure -/

lemma lookup_map_pair {α : Type} (f : String → α) (hx : x ∈ xs) :
    (xs.map fun y => (y, f y)).lookup x = some (f x) := by
  induction xs with
  | nil => simp at hx
  | cons y ys ih =>
    rw [map_cons, lookup_cons]
    by_cases hxy : x = y
    · simp [hxy]
    · rw [beq_false_of_ne hxy]
      exact ih ((mem_cons.mp hx).resolve_left hxy)

lemma reaches_closure_iff (hx : x ∈ g.nodes) : reaches g.closure x y = true ↔ g.ReachesOn x y := by
  have hlookup : g.closure.lookup x = some (g.reach x) := lookup_map_pair g.reach hx
  rw [reaches, hlookup, Option.getD_some, contains_iff_mem, mem_reach_iff]

lemma isMutual_closure_iff (hx : x ∈ g.nodes) (hy : y ∈ g.nodes) :
    isMutual g.closure x y = true ↔ g.Mutual x y := by
  rw [isMutual, Bool.or_eq_true, Bool.and_eq_true, beq_iff_eq, reaches_closure_iff hx,
    reaches_closure_iff hy]
  constructor
  · rintro (rfl | ⟨hxy, hyx⟩)
    · exact Mutual.refl x
    · exact ⟨TransGen.to_reflTransGen hxy, TransGen.to_reflTransGen hyx⟩
  · rintro ⟨hxy, hyx⟩
    rcases reflTransGen_iff_eq_or_transGen.mp hxy with rfl | hxy
    · exact .inl rfl
    · rcases reflTransGen_iff_eq_or_transGen.mp hyx with rfl | hyx
      · exact .inl rfl
      · exact .inr ⟨hxy, hyx⟩

/-! ### Representatives -/

lemma representatives_subset {closure : List (String × List String)} :
    representatives closure xs ⊆ xs := by
  induction xs with
  | nil => exact List.Subset.refl _
  | cons x xs ih =>
    rw [representatives]
    split_ifs
    · exact subset_cons_of_subset _ ih
    · exact cons_subset_cons _ ih

/-- Every node has a representative. -/
lemma exists_representative (hxs : ∀ x ∈ xs, x ∈ g.nodes) (hx : x ∈ xs) :
    ∃ r ∈ representatives g.closure xs, g.Mutual r x := by
  induction xs generalizing x with
  | nil => simp at hx
  | cons y ys ih =>
    obtain ⟨hy, hys⟩ := forall_mem_cons.mp hxs
    rw [representatives]
    split_ifs with hany
    · rcases mem_cons.mp hx with rfl | hx
      · obtain ⟨z, hz, hmutual⟩ := any_eq_true.mp hany
        rw [isMutual_closure_iff hy (hys z hz)] at hmutual
        obtain ⟨r, hr, hrz⟩ := ih hys hz
        exact ⟨r, hr, hrz.trans hmutual.symm⟩
      · exact ih hys hx
    · rcases mem_cons.mp hx with rfl | hx
      · exact ⟨x, mem_cons_self, Mutual.refl x⟩
      · obtain ⟨r, hr, hrx⟩ := ih hys hx
        exact ⟨r, mem_cons_of_mem _ hr, hrx⟩

/-- In a settled order of all nodes no representative reaches a later one: a representative comes
last of its component, so all that it reaches comes before it. -/
lemma pairwise_representatives (before xs : List String) (hnodup : (before ++ xs).Nodup)
    (hall : ∀ x, x ∈ before ++ xs ↔ x ∈ g.nodes) (hsettled : g.Settled (before ++ xs)) :
    (representatives g.closure xs).Pairwise fun r r' => ¬ g.Reaches r r' := by
  induction xs generalizing before with
  | nil => exact List.Pairwise.nil
  | cons x xs ih =>
    have happend : before ++ x :: xs = (before ++ [x]) ++ xs := by simp
    have hrest := ih (before ++ [x]) (happend ▸ hnodup) (happend ▸ hall)
      (happend ▸ hsettled)
    rw [representatives]
    split_ifs with hany
    · exact hrest
    · refine pairwise_cons.mpr ⟨fun r hr hreach => ?_, hrest⟩
      have hr : r ∈ xs := representatives_subset hr
      have hx : x ∈ g.nodes := (hall x).mp (by simp)
      rw [happend] at hnodup hall
      rcases hsettled before x xs rfl r hreach with hmem | ⟨a, hxa, hax, ha⟩
      · exact disjoint_of_nodup_append hnodup hmem hr
      · have hanodes : a ∈ g.nodes := Reaches.mem_nodes hxa hx
        have haxs : a ∈ xs := (mem_append.mp ((hall a).mpr hanodes)).resolve_left ha
        exact hany (any_eq_true.mpr ⟨a, haxs, (isMutual_closure_iff hx hanodes).mpr ⟨hxa, hax⟩⟩)

/-! ### Components -/

/-- One representative for each component, in the order of components. -/
def heads (g : Graph) : List String :=
  representatives g.closure g.postorder

/-- The component of a node. -/
def componentOf (g : Graph) (x : String) : List String :=
  g.nodes.filter (isMutual g.closure x)

lemma components_eq_map (g : Graph) : g.components = g.heads.map g.componentOf := rfl

lemma mem_nodes_of_mem_heads {r : String} (hr : r ∈ g.heads) : r ∈ g.nodes :=
  mem_postorder_iff.mp (representatives_subset hr)

lemma mem_componentOf_iff (hx : x ∈ g.nodes) :
    y ∈ g.componentOf x ↔ y ∈ g.nodes ∧ g.Mutual x y := by
  rw [componentOf, mem_filter]
  exact and_congr_right fun hy => isMutual_closure_iff hx hy

lemma pairwise_heads (g : Graph) : g.heads.Pairwise fun r r' => ¬ g.Reaches r r' :=
  pairwise_representatives [] g.postorder (nodup_postorder g) (fun _ => mem_postorder_iff)
    (settled_postorder g)

/-- No member of a component reaches a member of a later one. -/
theorem pairwise_components (g : Graph) :
    g.components.Pairwise fun c c' => ∀ x ∈ c, ∀ y ∈ c', ¬ g.Reaches x y := by
  rw [components_eq_map, pairwise_map]
  refine (pairwise_heads g).imp_of_mem fun {r r'} hr hr' hnot x hx y hy hxy => hnot ?_
  rw [mem_componentOf_iff (mem_nodes_of_mem_heads hr)] at hx
  rw [mem_componentOf_iff (mem_nodes_of_mem_heads hr')] at hy
  exact ReflTransGen.trans (ReflTransGen.trans hx.2.1 hxy) hy.2.2

/-- Every node is in a component. -/
theorem exists_component (hx : x ∈ g.nodes) : ∃ c ∈ g.components, x ∈ c := by
  obtain ⟨r, hr, hrx⟩ := exists_representative (g := g) (fun y hy => mem_postorder_iff.mp hy)
    (mem_postorder_iff.mpr hx)
  rw [components_eq_map]
  exact ⟨g.componentOf r, mem_map_of_mem hr,
    (mem_componentOf_iff (mem_nodes_of_mem_heads hr)).mpr ⟨hx, hrx⟩⟩

/-- The members of a component keep the order of nodes. -/
theorem sublist_of_mem_components (hc : c ∈ g.components) : c.Sublist g.nodes := by
  rw [components_eq_map] at hc
  obtain ⟨r, -, rfl⟩ := mem_map.mp hc
  exact filter_sublist

/-- The nodes that share a component are those that reach each other. -/
theorem mem_component_iff (hc : c ∈ g.components) (hx : x ∈ c) :
    y ∈ c ↔ y ∈ g.nodes ∧ g.Mutual x y := by
  rw [components_eq_map] at hc
  obtain ⟨r, hr, rfl⟩ := mem_map.mp hc
  have hrnodes := mem_nodes_of_mem_heads hr
  rw [mem_componentOf_iff hrnodes] at hx ⊢
  exact and_congr_right fun _ => ⟨hx.2.symm.trans, hx.2.trans⟩

end ApiSchema.Graph
