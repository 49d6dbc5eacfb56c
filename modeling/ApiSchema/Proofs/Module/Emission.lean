import ApiSchema.Module.Layout
import ApiSchema.Proofs.Declaration.Graph
import ApiSchema.Proofs.Outcome

/-!
# Order of emission

A module holds one block for every declaration, in the order of components. A declaration that does
not lead back to itself makes a component of its own, so its block comes after the blocks of all
that it refers to.
-/

namespace ApiSchema

open List Relation Except

/-! ### Settled components -/

namespace Declarations

/-- A component with its members marked if it is cyclic. -/
def marked (component : List Declaration) : List Declaration :=
  if isCyclic component then component.map fun e => { e with cyclic := true } else component

lemma eq_marked_of_settle {c c' : List Declaration} (h : (settle c).outcome = .ok c') :
    c' = marked c := by
  rw [settle] at h
  rw [marked]
  cases hcyclic : isCyclic c with
  | false =>
    simp [hcyclic] at h
    simp [h]
  | true =>
    simp only [hcyclic, Bool.not_true, Bool.false_eq_true, ↓reduceIte] at h
    split at h
    · simp at h
    · simp [Traced.note] at h
      simp [h]

lemma eq_map_marked_of_settleAll {cs cs' : List (List Declaration)}
    (h : (settleAll cs).outcome = .ok cs') : cs' = cs.map marked := by
  induction cs generalizing cs' with
  | nil =>
    simp [settleAll] at h
    simp [h]
  | cons c cs ih =>
    rw [settleAll] at h
    obtain ⟨settled, hsettled, h⟩ := Traced.outcome_bind_eq_ok_iff.mp h
    obtain ⟨others, hothers, h⟩ := Traced.outcome_bind_eq_ok_iff.mp h
    rw [Traced.outcome_pure_eq_ok_iff] at h
    rw [← h, map_cons, ← eq_marked_of_settle hsettled, ← ih hothers]

lemma marked_names (component : List Declaration) :
    (marked component).map (·.name) = component.map (·.name) := by
  rw [marked]
  split_ifs
  · simp
  · rfl

lemma flatten_marked_names (cs : List (List Declaration)) :
    (cs.map marked).flatten.map (·.name) = cs.flatten.map (·.name) := by
  simp only [map_flatten, List.map_map]
  congr 1
  exact map_congr_left fun c _ => marked_names c

end Declarations

/-! ### Blocks -/

namespace Module

variable {names : List String} {e : Declaration} {bs : List Block} {cs : List (List Declaration)}

/-- The name that a block declares. -/
def Block.declares : Block → Option String
  | model name _ _ _ _ => some name
  | assignment name _ => some name
  | deferred name _ => some name
  | complete _ => none

lemma Block.declares_of_ofDeclaration {b : Block} (h : Block.ofDeclaration names e = .ok b) :
    b.declares = some e.name := by
  rw [Block.ofDeclaration] at h
  split at h
  · simp only at h
    split at h
    all_goals
      obtain ⟨extra, -, h⟩ := bind_eq_ok_iff.mp h
      obtain ⟨fields, -, h⟩ := bind_eq_ok_iff.mp h
      cases h
      rfl
  · obtain ⟨expr, -, h⟩ := bind_eq_ok_iff.mp h
    cases h
    split_ifs <;> rfl

lemma declares_blocksOf {es : List Declaration} (h : blocksOf names es = .ok bs) :
    bs.filterMap Block.declares = es.map (·.name) := by
  induction es generalizing bs with
  | nil =>
    cases h
    rfl
  | cons e es ih =>
    rw [blocksOf] at h
    obtain ⟨b, hb, h⟩ := bind_eq_ok_iff.mp h
    obtain ⟨others, hothers, h⟩ := bind_eq_ok_iff.mp h
    cases h
    rw [filterMap_cons_some (Block.declares_of_ofDeclaration hb), ih hothers, map_cons]

/-- Completing models declares nothing. -/
lemma declares_completion (component : List Declaration) :
    (completion component).filterMap Block.declares = [] := by
  rw [completion]
  split <;> rfl

lemma declares_blocksOfComponents (h : blocksOfComponents names cs = .ok bs) :
    bs.filterMap Block.declares = cs.flatten.map (·.name) := by
  induction cs generalizing bs with
  | nil =>
    cases h
    rfl
  | cons c cs ih =>
    rw [blocksOfComponents] at h
    obtain ⟨blocks, hblocks, h⟩ := bind_eq_ok_iff.mp h
    obtain ⟨others, hothers, h⟩ := bind_eq_ok_iff.mp h
    cases h
    rw [filterMap_append, filterMap_append, declares_blocksOf hblocks,
      declares_completion, ih hothers, flatten_cons, map_append, append_nil]

/-- The blocks of components in two parts are those of the first part, then those of the second. -/
lemma blocksOfComponents_append {cs' : List (List Declaration)}
    (h : blocksOfComponents names (cs ++ cs') = .ok bs) :
    ∃ front back, bs = front ++ back ∧ blocksOfComponents names cs = .ok front ∧
      blocksOfComponents names cs' = .ok back := by
  induction cs generalizing bs with
  | nil => exact ⟨[], bs, rfl, rfl, h⟩
  | cons c cs ih =>
    rw [cons_append, blocksOfComponents] at h
    obtain ⟨blocks, hblocks, h⟩ := bind_eq_ok_iff.mp h
    obtain ⟨others, hothers, h⟩ := bind_eq_ok_iff.mp h
    cases h
    obtain ⟨front, back, rfl, hfront, hback⟩ := ih hothers
    refine ⟨blocks ++ completion c ++ front, back, by simp, ?_, hback⟩
    rw [blocksOfComponents, hblocks, hfront]
    rfl

/-- A component of one declaration starts with the block of that declaration. -/
lemma blocksOfComponents_singleton (h : blocksOfComponents names ([e] :: cs) = .ok bs) :
    ∃ b back, bs = b :: back ∧ Block.ofDeclaration names e = .ok b := by
  rw [blocksOfComponents] at h
  obtain ⟨blocks, hblocks, h⟩ := bind_eq_ok_iff.mp h
  obtain ⟨others, -, h⟩ := bind_eq_ok_iff.mp h
  cases h
  rw [blocksOf] at hblocks
  obtain ⟨b, hb, hblocks⟩ := bind_eq_ok_iff.mp hblocks
  cases hblocks
  exact ⟨b, completion [e] ++ others, rfl, hb⟩

/-- A module writes the block of a declaration once, behind those of all that it refers to. -/
def EmitsBehindReferences (m : Module) (d : Declarations) (e : Declaration) : Prop :=
  ∃ before block after, m.blocks = before ++ block :: after ∧
    Block.ofDeclaration (d.components.flatten.map (·.name)) e = .ok block ∧
    (∀ b ∈ before ++ after, b.declares ≠ some e.name) ∧
    ∀ f ∈ d.entries, f.name ∈ e.dependencies → ∃ b ∈ before, b.declares = some f.name

end Module

/-! ### Declarations outside of cycles -/

namespace Declarations

variable {d : Declarations}

variable {e : Declaration} {cs : List (List Declaration)} {m : Module}

/-- A declaration that does not lead back to itself is a component of its own. -/
lemma singleton_component (hnames : d.names.Nodup) (he : e ∈ d.entries)
    (hacyclic : ¬ TransGen d.DependsOn e e) : [e] ∈ d.components := by
  obtain ⟨c, hc, hec⟩ := exists_component hnames he
  have hall : ∀ f ∈ c, f = e := by
    intro f hf
    obtain ⟨-, hef, hfe⟩ := (mem_component_iff hnames hc hec).mp hf
    rcases reflTransGen_iff_eq_or_transGen.mp hef with heq | hef
    · exact heq
    · exact absurd (hef.trans_left hfe) hacyclic
  have hnodup : c.Nodup :=
    (List.Nodup.of_map _ hnames).sublist (sublist_of_mem_components hnames hc)
  have hsingle : c = [e] := by
    refine perm_singleton.mp ((perm_ext_iff_of_nodup hnodup (nodup_singleton e)).mpr ?_)
    intro f
    rw [mem_singleton]
    exact ⟨hall f, fun heq => heq ▸ hec⟩
  exact hsingle ▸ hc

lemma marked_singleton (he : e ∈ d.entries) (hacyclic : ¬ TransGen d.DependsOn e e) :
    marked [e] = [e] := by
  have hself : e.name ∉ e.dependencies := fun hmem =>
    hacyclic (TransGen.single ⟨he, he, hmem⟩)
  simp [marked, isCyclic, hself]

/-- What a declaration refers to lies in the components before its own. -/
lemma mem_before_of_dependsOn (hnames : d.names.Nodup) {f : Declaration}
    {cs' : List (List Declaration)} (hcs : d.components = cs ++ [e] :: cs')
    (hacyclic : ¬ TransGen d.DependsOn e e) (hef : d.DependsOn e f) : f ∈ cs.flatten := by
  obtain ⟨c, hc, hfc⟩ := exists_component hnames hef.right
  have hpairwise := pairwise_components hnames
  rw [hcs] at hc hpairwise
  rcases mem_append.mp hc with hc | hc
  · exact mem_flatten_of_mem hc hfc
  · rcases mem_cons.mp hc with rfl | hc
    · obtain rfl := mem_singleton.mp hfc
      exact absurd (TransGen.single hef) hacyclic
    · have hlater := (pairwise_cons.mp (pairwise_append.mp hpairwise).2.1).1 c hc
      exact absurd (ReflTransGen.single hef) (hlater e mem_cons_self f hfc)

lemma nodup_flatten_names (hnames : d.names.Nodup) :
    (d.components.flatten.map (·.name)).Nodup :=
  ((flatten_components_perm hnames).map _).nodup_iff.mpr hnames

/-- The modules of ordered declarations hold the blocks of all components. -/
lemma blocks_of_order (hcs : d.order.outcome = .ok cs) {lookup : Option Module.Lookup}
    {config : Config} (hm : Module.ofComponents cs lookup config = .ok m) :
    Module.blocksOfComponents (d.components.flatten.map (·.name)) (d.components.map marked) =
      .ok m.blocks := by
  obtain rfl := eq_map_marked_of_settleAll hcs
  rw [Module.ofComponents, flatten_marked_names] at hm
  obtain ⟨blocks, hblocks, hm⟩ := bind_eq_ok_iff.mp hm
  cases hm
  exact hblocks

lemma emitsBehindReferences (hnames : d.names.Nodup)
    (hblocks : Module.blocksOfComponents (d.components.flatten.map (·.name))
      (d.components.map marked) = .ok m.blocks) (he : e ∈ d.entries)
    (hacyclic : ¬ TransGen d.DependsOn e e) : m.EmitsBehindReferences d e := by
  obtain ⟨cs, cs', hcs⟩ := append_of_mem (singleton_component hnames he hacyclic)
  have hdeclares := Module.declares_blocksOfComponents hblocks
  rw [flatten_marked_names] at hdeclares
  have hnodup := nodup_flatten_names hnames
  rw [← hdeclares] at hnodup
  have hsplit : d.components.map marked = cs.map marked ++ [e] :: cs'.map marked := by
    rw [hcs, map_append, map_cons, marked_singleton he hacyclic]
  rw [hsplit] at hblocks
  obtain ⟨front, back, hmb, hfront, hback⟩ := Module.blocksOfComponents_append hblocks
  obtain ⟨block, after, rfl, hblock⟩ := Module.blocksOfComponents_singleton hback
  refine ⟨front, block, after, hmb, hblock, ?_, ?_⟩
  · intro b hb hname
    rw [hmb, filterMap_append,
      filterMap_cons_some (Module.Block.declares_of_ofDeclaration hblock)] at hnodup
    have hout := (nodup_middle.mp hnodup).notMem
    rw [← filterMap_append] at hout
    exact hout (mem_filterMap.mpr ⟨b, hb, hname⟩)
  · intro f hf hmem
    have hbefore := mem_before_of_dependsOn hnames hcs hacyclic ⟨he, hf, hmem⟩
    have hfname : f.name ∈ front.filterMap Module.Block.declares := by
      rw [Module.declares_blocksOfComponents hfront, flatten_marked_names]
      exact mem_map_of_mem hbefore
    exact mem_filterMap.mp hfname

/-- How declarations are grouped into components, and how modules are written from them. -/
structure ComponentsInOrder (d : Declarations) : Prop where
  /-- Every declaration is in one component, once. -/
  perm : d.components.flatten.Perm d.entries
  /-- Declarations share a component exactly if each leads to the other. -/
  shared_iff : ∀ e ∈ d.entries, ∀ f ∈ d.entries,
    (∃ c ∈ d.components, e ∈ c ∧ f ∈ c) ↔ d.Leads e f ∧ d.Leads f e
  /-- What a declaration refers to is in no later component. -/
  le_of_refers : ∀ (i j : Nat) (c c' : List Declaration),
    d.components[i]? = some c → d.components[j]? = some c' →
      ∀ e ∈ c, ∀ f ∈ c', f.name ∈ e.dependencies → j ≤ i
  /-- The members of a component keep the order of declaration. -/
  sublist : ∀ c ∈ d.components, c.Sublist d.entries
  /-- A module declares the names of all components in order, and every declaration that does not
  lead back to itself behind all that it refers to. -/
  emitted : ∀ cs, d.order.outcome = .ok cs →
    ∀ lookup config m, Module.ofComponents cs lookup config = .ok m →
      m.blocks.filterMap Module.Block.declares = d.components.flatten.map (·.name) ∧
      ∀ e ∈ d.entries, ¬ TransGen d.DependsOn e e → m.EmitsBehindReferences d e

/-- A declaration that refers to one of two on a cycle, and to an unknown name. -/
def userOfCycle : Declarations where
  entries := [
    { name := "User", validator := .named "Tree", dependencies := ["Tree", "Unknown"] },
    { name := "Tree", validator := .array (.named "Leaf") {} false, dependencies := ["Leaf"] },
    { name := "Leaf", validator := .array (.named "Tree") {} false, dependencies := ["Tree"] }]

end Declarations

end ApiSchema
