import ApiSchema.Generate
import ApiSchema.Proofs.Declaration.Building
import ApiSchema.Proofs.Declaration.Unfolding
import ApiSchema.Proofs.Schema.Completeness

/-!
# Modules can be written

Once a document is resolved and has its validators, nothing on the way to its module fails but for
references that cannot be ordered. Main statement: its declarations are there, they refer to each
other only, lookup tables can be made of them, and each of them can be written as a block.
-/

namespace ApiSchema

open List

lemma Except.forM_eq_ok {e α : Type} {f : α → Except e Unit} {xs : List α}
    (h : ∀ x ∈ xs, f x = .ok ()) : xs.forM f = .ok () := by
  induction xs with
  | nil => rfl
  | cons x xs ih =>
    rw [List.forM, h x mem_cons_self]
    exact ih fun y hy => h y (mem_cons_of_mem _ hy)

namespace Module

open Validator

variable {names : List String}

/-! ### Expressions -/

lemma Symbol.ofName_name (s : Symbol) : Symbol.ofName s.name = .ok s := by
  cases s <;> rfl

lemma Expr.exists_ofValidators {vs : List Validator}
    (h : ∀ v ∈ vs, ∃ e, Expr.ofValidator v = .ok e) : ∃ es, Expr.ofValidators vs = .ok es := by
  induction vs with
  | nil => exact ⟨[], by rw [Expr.ofValidators]⟩
  | cons v vs ih =>
    obtain ⟨e, he⟩ := h v mem_cons_self
    obtain ⟨es, hes⟩ := ih fun u hu => h u (mem_cons_of_mem _ hu)
    exact ⟨e :: es, by rw [Expr.ofValidators, he, hes]; rfl⟩

/-- A validator that may stand inside of another one has an expression. -/
lemma Expr.exists_ofValidator {v : Validator} (h : Inline names v) :
    ∃ e, Expr.ofValidator v = .ok e := by
  induction v using children_induction with
  | step v ih =>
    have hchild (c : Validator) (hc : c ∈ v.children) : ∃ e, Expr.ofValidator c = .ok e :=
      ih c hc (h.child hc)
    obtain ⟨hmodel, href, -⟩ := h v .refl
    cases v with
    | array items length unique =>
      obtain ⟨e, he⟩ := hchild items (by simp [children])
      exact ⟨_, by rw [Expr.ofValidator, he]; rfl⟩
    | record values count =>
      obtain ⟨e, he⟩ := hchild values (by simp [children])
      exact ⟨_, by rw [Expr.ofValidator, he]; rfl⟩
    | nullable inner =>
      obtain ⟨e, he⟩ := hchild inner (by simp [children])
      exact ⟨_, by rw [Expr.ofValidator, he]; rfl⟩
    | union branches | intersection branches =>
      obtain ⟨es, hes⟩ : ∃ es, Expr.ofValidators branches = .ok es :=
        Expr.exists_ofValidators hchild
      exact ⟨_, by rw [Expr.ofValidator, hes]; rfl⟩
    | object _ _ _ _ => exact absurd rfl hmodel
    | ref target => exact absurd rfl (href target)
    | any | null | boolean | string _ _ _ | custom _ | number _ _ | literal _ | named _ =>
      exact ⟨_, by rw [Expr.ofValidator]⟩

/-! ### Blocks -/

lemma exists_modelFields {fields : List (FieldOf Validator)}
    (h : ∀ f ∈ fields, Inline names f.validator) (outer used : List String) :
    ∃ fs, modelFields outer used fields = .ok fs := by
  induction fields generalizing used with
  | nil => exact ⟨[], rfl⟩
  | cons f fields ih =>
    obtain ⟨type, htype⟩ := Expr.exists_ofValidator (h f mem_cons_self)
    obtain ⟨fs, hfs⟩ := ih (fun g hg => h g (mem_cons_of_mem _ hg))
      (used ++ [fieldName outer used f.key])
    exact ⟨_, by rw [modelFields, htype]; simp only [hfs]; rfl⟩

/-- A validator that may be declared has a block. -/
lemma Block.exists_ofDeclaration {d : Declaration} (h : AtTop names d.validator)
    (moduleNames : List String) : ∃ block, Block.ofDeclaration moduleNames d = .ok block := by
  by_cases hmodel : d.validator.isModel
  · cases hv : d.validator with
    | object fields forbidExtra extra count =>
      rw [hv] at h
      obtain ⟨fs, hfs⟩ := exists_modelFields (fun f hf => h.children _
        (mem_append_left _ (mem_map_of_mem hf))) (outerNames moduleNames) []
      cases extra with
      | none =>
        refine ⟨.model d.name forbidExtra none fs count, ?_⟩
        simp only [Block.ofDeclaration, hv, hfs]
        rfl
      | some w =>
        obtain ⟨e, he⟩ := Expr.exists_ofValidator (h.children w (by simp [children]))
        refine ⟨.model d.name forbidExtra (some e) fs count, ?_⟩
        simp only [Block.ofDeclaration, hv, he, hfs]
        rfl
    | _ => simp [hv, isModel] at hmodel
  · obtain ⟨e, he⟩ := Expr.exists_ofValidator (h.inline hmodel)
    refine ⟨if d.cyclic then .deferred d.name e else .assignment d.name e, ?_⟩
    rw [Block.ofDeclaration]
    split
    next hv => simp [hv, isModel] at hmodel
    next =>
      rw [he]
      rfl

lemma exists_blocksOf {ds : List Declaration} (h : ∀ d ∈ ds, AtTop names d.validator)
    (moduleNames : List String) : ∃ blocks, blocksOf moduleNames ds = .ok blocks := by
  induction ds with
  | nil => exact ⟨[], rfl⟩
  | cons d ds ih =>
    obtain ⟨block, hblock⟩ := Block.exists_ofDeclaration (h d mem_cons_self) moduleNames
    obtain ⟨blocks, hblocks⟩ := ih fun e he => h e (mem_cons_of_mem _ he)
    exact ⟨block :: blocks, by rw [blocksOf, hblock, hblocks]; rfl⟩

lemma exists_blocksOfComponents {cs : List (List Declaration)}
    (h : ∀ c ∈ cs, ∀ d ∈ c, AtTop names d.validator) (moduleNames : List String) :
    ∃ blocks, blocksOfComponents moduleNames cs = .ok blocks := by
  induction cs with
  | nil => exact ⟨[], rfl⟩
  | cons c cs ih =>
    obtain ⟨blocks, hblocks⟩ := exists_blocksOf (h c mem_cons_self) moduleNames
    obtain ⟨others, hothers⟩ := ih fun c' hc' => h c' (mem_cons_of_mem _ hc')
    exact ⟨_, by rw [blocksOfComponents, hblocks, hothers]; rfl⟩

/-! ### Tables -/

lemma Lookup.exists_ofDeclarations {d : Declarations}
    (h : ∀ r ∈ d.routes, ∀ p ∈ r.request ++ r.responses, d.contains p.2) :
    ∃ tables, Lookup.ofDeclarations d = .ok tables := by
  have hcheck : d.routes.forM (checkRoute d) = .ok () := by
    refine Except.forM_eq_ok fun r hr => ?_
    rw [checkRoute, List.find?_eq_none.2]
    intro p hp
    simpa using h r hr p hp
  exact ⟨_, by rw [ofDeclarations, hcheck]; rfl⟩

end Module

/-! ### Declarations of a document -/

namespace Validator

lemma part_of_mentions {v : Validator} {name : String} {contained : Bool}
    (h : Mentions name v contained) : v.Part (.named name) := by
  induction h with
  | here => exact .refl
  | child hc _ ih => exact ih.of_child hc

end Validator

namespace Declarations

open Validator

/-- Declarations that a module can be made of. -/
structure IsSound (d : Declarations) : Prop where
  /-- All that a declaration refers to is declared. -/
  dependencies : ∀ e ∈ d.entries, ∀ name ∈ e.dependencies, d.contains name
  routes : ∀ r ∈ d.routes, ∀ p ∈ r.request ++ r.responses, d.contains p.2
  /-- No reference to a definition is left. -/
  unresolved : ∀ e ∈ d.entries, ∀ target, ¬ e.validator.Part (.ref target)
  /-- Objects stand at the top of declarations only. -/
  models : ∀ e ∈ d.entries, ∀ c ∈ e.validator.children, ∀ u, c.Part u → ¬ u.isModel
  lookup : ∃ tables, Module.Lookup.ofDeclarations d = .ok tables
  /-- Once ordered, they can be written, with symbols that can be imported. -/
  module : ∀ components tables config, d.order.outcome = .ok components →
    ∃ m, Module.ofComponents components tables config = .ok m ∧
      ∀ s ∈ m.symbols, Module.Symbol.ofName s.name = .ok s

/-- Declarations that refer to each other only, and may be declared as they are, are sound. -/
lemma isSound_of_atTop {d : Declarations} (hmade : d.IsMade)
    (hentries : ∀ e ∈ d.entries, AtTop d.names e.validator)
    (hroutes : ∀ r ∈ d.routes, ∀ p ∈ r.request ++ r.responses, p.2 ∈ d.names) : d.IsSound where
  dependencies e he name hname := by
    rw [hmade.made e he] at hname
    obtain ⟨contained, hmentions⟩ := mem_references_iff.1 hname
    exact contains_iff_mem.2 ((hentries e he).mem_of_part (part_of_mentions hmentions))
  routes r hr p hp := contains_iff_mem.2 (hroutes r hr p hp)
  unresolved e he target hpart := by
    have htop := hentries e he
    obtain hself | ⟨c, hc, hpart⟩ := hpart.eq_or_child
    · exact htop.ref target hself.symm
    · exact (htop.children c hc _ hpart).2.1 target rfl
  models e he c hc u hu := ((hentries e he).children c hc u hu).1
  lookup := Module.Lookup.exists_ofDeclarations fun r hr p hp =>
    contains_iff_mem.2 (hroutes r hr p hp)
  module components tables config hordered := by
    obtain rfl := eq_map_marked_of_settleAll hordered
    have htop : ∀ c ∈ d.components.map marked, ∀ e ∈ c, AtTop d.names e.validator := by
      intro c' hc' e' he'
      obtain ⟨c, hc, e, he, heq, -⟩ := mem_flatten_marked (mem_flatten.2 ⟨c', hc', he'⟩)
      rw [heq]
      exact hentries e ((sublist_of_mem_components hmade.nodup hc).subset he)
    obtain ⟨blocks, hblocks⟩ := Module.exists_blocksOfComponents htop
      ((d.components.map marked).flatten.map (·.name))
    exact ⟨_, by rw [Module.ofComponents, hblocks]; rfl, fun s _ => Module.Symbol.ofName_name s⟩

/-- Nothing fails in declaring the validators of a resolved document. -/
lemma exists_ofValidators {lib : Library} {doc : Resolved} {config : Config} {t : Validators}
    (hdoc : (Schema.resolve lib).outcome = .ok doc)
    (ht : (ofDocument ⟨doc, config.formats⟩ config.includeRoutes).outcome = .ok t)
    (fingerprint : Validator → String) :
    ∃ d, ofValidators doc t fingerprint config.registry = .ok d ∧ d.IsMade ∧
      (∀ e ∈ d.entries, AtTop d.names e.validator) ∧
      ∀ r ∈ d.routes, ∀ p ∈ r.request ++ r.responses, p.2 ∈ d.names := by
  have hkeys : t.definitions.map (·.1) = doc.keys := keys_of_ofDocument ht
  have hrefs (v : Validator) (hv : v ∈ t.roots) (target : String) (hpart : v.Part (.ref target)) :
      target ∈ t.definitions.map (·.1) := by
    obtain ⟨node, -, hof⟩ := exists_node_of_mem_roots ht hv
    rw [hkeys]
    exact isSome_lookup_iff.1 (stemsFrom_of_ofNodeWithin _ node v hof _ hpart)
  obtain ⟨z, hrun, hentries, hroutes⟩ := @exists_build t config.registry fingerprint doc rfl
    (hkeys ▸ Schema.nodup_keys_of_resolve hdoc)
    (fun v hv => not_part_named_of_mem_roots ht hv) hrefs
  have hd : ofValidators doc t fingerprint config.registry = .ok z.declared := by
    rw [ofValidators, hrun]
    rfl
  obtain ⟨_, _, hdeclared, -, hfinished⟩ := finished_of_ofValidators ht hd
  exact ⟨z.declared, hd, hdeclared ▸ hfinished.isMade, hentries, hroutes⟩

/-- A document that is resolved and has its validators has declarations that a module can be made
of, whatever the fingerprints are. -/
theorem exists_isSound_of_resolve {lib : Library} {doc : Resolved} {config : Config}
    {t : Validators} (hdoc : (Schema.resolve lib).outcome = .ok doc)
    (ht : (ofDocument ⟨doc, config.formats⟩ config.includeRoutes).outcome = .ok t)
    (fingerprint : Validator → String) :
    ∃ d, ofValidators doc t fingerprint config.registry = .ok d ∧ d.IsSound := by
  obtain ⟨d, hd, hmade, hentries, hroutes⟩ := exists_ofValidators hdoc ht fingerprint
  exact ⟨d, hd, isSound_of_atTop hmade hentries hroutes⟩

theorem chain_exists_isSound :
    (Schema.resolve chainLibrary).outcome = .ok chainDocument ∧
      (ofDocument ⟨chainDocument, {}⟩ true).outcome = .ok chainValidators ∧
      ∃ d, ofValidators chainDocument chainValidators fingerprint ({} : Config).registry = .ok d ∧
        d.IsSound :=
  ⟨resolve_chain, ofDocument_chain,
    @exists_isSound_of_resolve _ _ {} _ resolve_chain ofDocument_chain fingerprint⟩

end Declarations

end ApiSchema
