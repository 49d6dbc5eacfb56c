import ApiSchema.Proofs.Graph.Cycle
import ApiSchema.Proofs.Module.Emission

/-!
# Cycles of declarations

References that cannot wait must not lead back to where they start. Main statement: ordering fails
exactly if there is such a cycle, and reports one; if it succeeds, it marks the declarations that
reach themselves.
-/

namespace ApiSchema.Declarations

open List Relation

variable {d : Declarations}

variable {e f : Declaration} {c : List Declaration} {names : List String}

/-- One declaration refers to another at once, both of the set. -/
structure DependsAtOnce (d : Declarations) (e f : Declaration) : Prop where
  left : e ∈ d.entries
  right : f ∈ d.entries
  mem : f.name ∈ e.eager

/-- What is referred to at once is among all that is referred to. -/
def EagerAmong (d : Declarations) : Prop :=
  ∀ e ∈ d.entries, e.eager ⊆ e.dependencies

lemma DependsAtOnce.dependsOn (heager : d.EagerAmong) (h : d.DependsAtOnce e f) : d.DependsOn e f :=
  ⟨h.left, h.right, heager e h.left h.mem⟩

/-- Names of a cycle of references that cannot wait: the first is also the last, and each refers to
the next. -/
def IsEagerCycle (d : Declarations) (names : List String) : Prop :=
  ∃ x rest, names = x :: (rest ++ [x]) ∧
    names.IsChain fun a b => ∃ e f, d.DependsAtOnce e f ∧ e.name = a ∧ f.name = b

/-! ### Inside a component -/

lemma find?_name (hnodup : (c.map (·.name)).Nodup) (he : e ∈ c) :
    c.find? (·.name == e.name) = some e := by
  induction c with
  | nil => simp at he
  | cons f c ih =>
    rw [map_cons, nodup_cons] at hnodup
    by_cases hname : f.name = e.name
    · obtain rfl : e = f := by
        refine (mem_cons.mp he).resolve_right fun he => ?_
        exact hnodup.1 (hname ▸ mem_map_of_mem he)
      simp
    · rw [List.find?_cons_of_neg (by simpa using hname)]
      refine ih hnodup.2 ((mem_cons.mp he).resolve_left ?_)
      rintro rfl
      exact hname rfl

lemma nodup_component_names (hnames : d.names.Nodup) (hc : c ∈ d.components) :
    (c.map (·.name)).Nodup :=
  hnames.sublist ((sublist_of_mem_components hnames hc).map _)

/-- A link of the graph of a component is a reference at once between its members. -/
lemma eagerLink_iff (hnames : d.names.Nodup) (hc : c ∈ d.components) (he : e ∈ c) {y : String} :
    (eagerGraph c).Link e.name y ↔ ∃ f ∈ c, f.name = y ∧ d.DependsAtOnce e f := by
  have hsub := (sublist_of_mem_components hnames hc).subset
  have hlinks : (eagerGraph c).links e.name = e.eager := by
    simp only [eagerGraph]
    rw [find?_name (nodup_component_names hnames hc) he, Option.map_some, Option.getD_some]
  rw [Graph.Link, Graph.next, mem_filter, hlinks, contains_iff_mem]
  constructor
  · rintro ⟨hmem, hnode⟩
    obtain ⟨f, hf, rfl⟩ := mem_map.mp hnode
    exact ⟨f, hf, rfl, hsub he, hsub hf, hmem⟩
  · rintro ⟨f, hf, rfl, hef⟩
    exact ⟨hef.mem, mem_map_of_mem hf⟩

/-- A cycle of the graph of a component is one of the whole set. -/
lemma isEagerCycle_of_isCycle (hnames : d.names.Nodup) (hc : c ∈ d.components)
    (h : (eagerGraph c).IsCycle names) : d.IsEagerCycle names := by
  obtain ⟨x, rest, hnames', hchain⟩ := h
  refine ⟨x, rest, hnames', ?_⟩
  -- Every name on the chain is one of the component: the last repeats the first, and any other name
  -- is followed by a link, which starts at a declaration only.
  have hstart : ∀ a b, (eagerGraph c).Link a b → ∃ e ∈ c, e.name = a := by
    intro a b hab
    rw [Graph.Link, Graph.next, mem_filter] at hab
    cases hfind : c.find? (·.name == a) with
    | none => simp [eagerGraph, hfind] at hab
    | some e => exact ⟨e, List.mem_of_find?_eq_some hfind, by simpa using List.find?_some hfind⟩
  refine hchain.imp fun a b hab => ?_
  obtain ⟨e, he, rfl⟩ := hstart a b hab
  obtain ⟨f, -, rfl, hef⟩ := (eagerLink_iff hnames hc he).mp hab
  exact ⟨e, f, hef, rfl, rfl⟩

lemma leads_of_atOnce (heager : d.EagerAmong) (h : ReflTransGen d.DependsAtOnce e f) :
    d.Leads e f :=
  h.lift id fun _ _ hab => hab.dependsOn heager

/-- A way of references at once that leads back stays inside a component. -/
lemma reachesOn_of_returns (hnames : d.names.Nodup) (heager : d.EagerAmong) (hc : c ∈ d.components)
    (he : e ∈ c) (hef : TransGen d.DependsAtOnce e f) (hfe : ReflTransGen d.DependsAtOnce f e) :
    (eagerGraph c).ReachesOn e.name f.name := by
  have hmem : ∀ {m}, TransGen d.DependsAtOnce e m → ReflTransGen d.DependsAtOnce m e →
      m ∈ d.entries → m ∈ c := fun hem hme hm =>
    (mem_component_iff hnames hc he).mpr
      ⟨hm, leads_of_atOnce heager hem.to_reflTransGen, leads_of_atOnce heager hme⟩
  induction hef with
  | single hef =>
    have hf := hmem (TransGen.single hef) hfe hef.right
    exact TransGen.single ((eagerLink_iff hnames hc he).mpr ⟨_, hf, rfl, hef⟩)
  | tail hem hmf ih =>
    have hme := ReflTransGen.head hmf hfe
    have hm := hmem hem hme hmf.left
    have hf := hmem (hem.tail hmf) hfe hmf.right
    exact (ih hme).tail ((eagerLink_iff hnames hc hm).mpr ⟨_, hf, rfl, hmf⟩)

/-! ### Cyclic components -/

/-- The members of a cyclic component are those that reach themselves. -/
lemma isCyclic_iff (hnames : d.names.Nodup) (hc : c ∈ d.components) (he : e ∈ c) :
    isCyclic c = true ↔ TransGen d.DependsOn e e := by
  have hsub := (sublist_of_mem_components hnames hc).subset
  rcases c with _ | ⟨a, _ | ⟨b, rest⟩⟩
  · simp at he
  · obtain rfl := mem_singleton.mp he
    rw [isCyclic, contains_iff_mem]
    constructor
    · intro hself
      exact TransGen.single ⟨hsub he, hsub he, hself⟩
    · intro hee
      obtain ⟨m, hem, hme⟩ := TransGen.head'_iff.mp hee
      have hm := (mem_component_iff hnames hc he).mpr ⟨hem.right, ReflTransGen.single hem, hme⟩
      rw [← mem_singleton.mp hm]
      exact mem_singleton.mp hm ▸ hem.mem
  · simp only [isCyclic, true_iff]
    have hnodup : (a :: b :: rest).Nodup := List.Nodup.of_map _ (nodup_component_names hnames hc)
    obtain ⟨f, hf, hne⟩ : ∃ f ∈ a :: b :: rest, f ≠ e := by
      by_cases hae : a = e
      · exact ⟨b, by simp, fun hbe => by simp [hae, hbe] at hnodup⟩
      · exact ⟨a, by simp, hae⟩
    obtain ⟨-, hef, hfe⟩ := (mem_component_iff hnames hc he).mp hf
    rcases reflTransGen_iff_eq_or_transGen.mp hef with heq | hef
    · exact absurd heq hne
    · exact hef.trans_left hfe

/-! ### Settling components -/

/-- A component is refused exactly if it is cyclic and its references at once have a cycle. -/
lemma settle_outcome_cases (c : List Declaration) :
    (∃ cycle pointer, (settle c).outcome = .error (.schema (.unbreakable cycle pointer)) ∧
        isCyclic c = true ∧ (eagerGraph c).cycle? = some cycle) ∨
      ((settle c).outcome = .ok (marked c) ∧
        (isCyclic c = true → (eagerGraph c).cycle? = none)) := by
  cases hcyclic : isCyclic c with
  | false => exact .inr ⟨by simp [settle, marked, hcyclic], by simp⟩
  | true =>
    cases hcycle : (eagerGraph c).cycle? with
    | none => exact .inr ⟨by simp [settle, marked, hcyclic, hcycle, Traced.note], fun _ => rfl⟩
    | some cycle =>
      cases c with
      | nil => simp [isCyclic] at hcyclic
      | cons e rest =>
        refine .inl ⟨cycle, if e.pointer.isEmpty then none else some e.pointer, ?_, rfl, rfl⟩
        simp [settle, hcyclic, hcycle]

lemma settleAll_outcome_cases (cs : List (List Declaration)) :
    (∃ c ∈ cs, ∃ cycle pointer,
        (settleAll cs).outcome = .error (.schema (.unbreakable cycle pointer)) ∧
        isCyclic c = true ∧ (eagerGraph c).cycle? = some cycle) ∨
      ((settleAll cs).outcome = .ok (cs.map marked) ∧
        ∀ c ∈ cs, isCyclic c = true → (eagerGraph c).cycle? = none) := by
  induction cs with
  | nil => exact .inr ⟨rfl, by simp⟩
  | cons c cs ih =>
    rw [settleAll]
    rcases settle_outcome_cases c with ⟨cycle, pointer, hsettle, h⟩ | ⟨hsettle, h⟩
    · refine .inl ⟨c, mem_cons_self, cycle, pointer, ?_, h⟩
      simp [bind, Traced.andThen, hsettle]
    · rcases ih with ⟨c', hc', cycle, pointer, hrest, h'⟩ | ⟨hrest, h'⟩
      · refine .inl ⟨c', mem_cons_of_mem c hc', cycle, pointer, ?_, h'⟩
        simp [bind, Traced.andThen, hsettle, hrest]
      · refine .inr ⟨?_, forall_mem_cons.mpr ⟨h, h'⟩⟩
        simp [bind, Traced.andThen, hsettle, hrest]

/-- Ordering either fails with a cycle of references at once, or there is none. -/
lemma order_outcome_cases (hnames : d.names.Nodup) (heager : d.EagerAmong) :
    (∃ cycle pointer, d.order.outcome = .error (.schema (.unbreakable cycle pointer)) ∧
        d.IsEagerCycle cycle) ∨
      (d.order.outcome = .ok (d.components.map marked) ∧ ∀ e, ¬ TransGen d.DependsAtOnce e e) := by
  rcases settleAll_outcome_cases d.components with
    ⟨c, hc, cycle, pointer, h, -, hcycle⟩ | ⟨h, hnone⟩
  · exact .inl ⟨cycle, pointer, h, isEagerCycle_of_isCycle hnames hc (Graph.isCycle_of_cycle? hcycle)⟩
  · refine .inr ⟨h, fun e hee => ?_⟩
    obtain ⟨f, hef, hfe⟩ := TransGen.head'_iff.mp hee
    obtain ⟨c, hc, hec⟩ := exists_component hnames hef.left
    have hcyclic : isCyclic c = true := (isCyclic_iff hnames hc hec).mpr
      (hee.lift id fun _ _ hab => hab.dependsOn heager)
    exact Graph.cycle?_eq_none_iff.mp (hnone c hc hcyclic) e.name
      (reachesOn_of_returns hnames heager hc hec hee ReflTransGen.refl)

lemma IsEagerCycle.exists_transGen (hnames : d.names.Nodup) (h : d.IsEagerCycle names) :
    ∃ e, TransGen d.DependsAtOnce e e := by
  obtain ⟨x, rest, rfl, hchain⟩ := h
  have hxx := Graph.transGen_of_isChain hchain
  -- Names of declarations stand for them, so a way along names is one along declarations.
  have hlift : ∀ {y}, TransGen (fun a b => ∃ e f, d.DependsAtOnce e f ∧ e.name = a ∧ f.name = b) x y →
      ∃ e f, TransGen d.DependsAtOnce e f ∧ e ∈ d.entries ∧ f ∈ d.entries ∧ e.name = x ∧
        f.name = y := by
    intro y hxy
    induction hxy with
    | single hxy =>
      obtain ⟨e, f, hef, rfl, rfl⟩ := hxy
      exact ⟨e, f, TransGen.single hef, hef.left, hef.right, rfl, rfl⟩
    | tail _ hzy ih =>
      obtain ⟨e, m, hem, he, hm, hex, hmz⟩ := ih
      obtain ⟨m', f, hmf, hmz', rfl⟩ := hzy
      obtain rfl := eq_of_name_eq hnames hm hmf.left (hmz.trans hmz'.symm)
      exact ⟨e, f, hem.tail hmf, he, hmf.right, hex, rfl⟩
  obtain ⟨e, f, hef, he, hf, hex, hfx⟩ := hlift hxx
  obtain rfl := eq_of_name_eq hnames he hf (hex.trans hfx.symm)
  exact ⟨e, hef⟩

/-! ### Marks -/

/-- A declaration is marked if it was before, or if its component is cyclic. -/
lemma mem_flatten_marked {cs : List (List Declaration)} {e' : Declaration}
    (h : e' ∈ (cs.map marked).flatten) : ∃ c ∈ cs, ∃ e ∈ c,
      e' = { e with cyclic := e'.cyclic } ∧ (e'.cyclic = true ↔ e.cyclic = true ∨ isCyclic c = true) := by
  obtain ⟨c', hc', he'⟩ := mem_flatten.mp h
  obtain ⟨c, hc, rfl⟩ := mem_map.mp hc'
  cases hcyclic : isCyclic c with
  | false =>
    rw [marked, hcyclic, if_neg Bool.false_ne_true] at he'
    exact ⟨c, hc, e', he', rfl, by simp [hcyclic]⟩
  | true =>
    rw [marked, hcyclic, if_pos rfl] at he'
    obtain ⟨e, he, rfl⟩ := mem_map.mp he'
    exact ⟨c, hc, e, he, rfl, by simp [hcyclic]⟩

/-- How declarations are ordered: what is refused and what is marked. -/
structure OrderedByCycles (d : Declarations) : Prop where
  /-- Ordering fails exactly if references at once lead from a declaration back to it. -/
  refused_iff : (∃ cycle pointer,
    d.order.outcome = .error (.schema (.unbreakable cycle pointer))) ↔
      ∃ e, TransGen d.DependsAtOnce e e
  /-- It fails in no other way, and the names it reports form a cycle. -/
  reported : ∀ fault, d.order.outcome = .error fault →
    ∃ cycle pointer, fault = .schema (.unbreakable cycle pointer) ∧ d.IsEagerCycle cycle
  /-- The result holds every declaration once, with nothing but its mark changed. -/
  kept : ∀ cs, d.order.outcome = .ok cs → (cs.flatten.map (·.name)).Perm d.names ∧
    ∀ e' ∈ cs.flatten, ∃ e ∈ d.entries, e' = { e with cyclic := e'.cyclic }
  /-- Afterwards those are marked that were before, and those that reach themselves. -/
  marked_iff : ∀ cs, d.order.outcome = .ok cs → ∀ e ∈ d.entries, ∀ e' ∈ cs.flatten,
    e'.name = e.name → (e'.cyclic = true ↔ e.cyclic = true ∨ TransGen d.DependsOn e e)

/-- Two declarations on a cycle that can wait at one end only, and one that refers to it. -/
def waitingCycle : Declarations where
  entries := [
    { name := "User", validator := .named "Tree", dependencies := ["Tree"], eager := ["Tree"] },
    { name := "Tree", validator := .array (.named "Leaf") {} false, dependencies := ["Leaf"] },
    { name := "Leaf", validator := .named "Tree", dependencies := ["Tree"], eager := ["Tree"] }]

/-- A declaration that refers to nothing but is marked already. -/
def markedLeaf : Declarations where
  entries := [{ name := "Leaf", validator := .any, cyclic := true }]

end ApiSchema.Declarations
