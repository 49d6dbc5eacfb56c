import ApiSchema.Proofs.Declaration.Course

/-!
# Building never fails

Main statement: the declarations of a document can be built, they hold nothing but what may stand in
them, and all names that they refer to are declared.
-/

namespace ApiSchema

open List

namespace Validator

/-! ### Where validators may stand -/

/-- A validator that may stand inside of another one: no part is an object or a reference to a
definition, and its names are among those given. -/
def Inline (names : List String) (v : Validator) : Prop :=
  ∀ u, v.Part u → ¬ u.isModel ∧ (∀ target, u ≠ .ref target) ∧ ∀ name, u = .named name → name ∈ names

/-- A validator that may be declared: all that is inside of it may stand there. -/
structure AtTop (names : List String) (v : Validator) : Prop where
  ref : ∀ target, v ≠ .ref target
  named : ∀ name, v = .named name → name ∈ names
  children : ∀ c ∈ v.children, Inline names c

variable {names names' : List String} {v : Validator}

lemma Inline.child (h : Inline names v) {c : Validator} (hc : c ∈ v.children) : Inline names c :=
  fun u hu => h u (hu.of_child hc)

lemma AtTop.inline (h : AtTop names v) (hmodel : ¬ v.isModel) : Inline names v :=
  (forall_part_iff v).2 ⟨⟨hmodel, h.ref, h.named⟩, h.children⟩

lemma AtTop.mem_of_part {name : String} (h : AtTop names v) (hname : v.Part (.named name)) :
    name ∈ names := by
  obtain hself | ⟨c, hc, hpart⟩ := hname.eq_or_child
  · exact h.named name hself.symm
  · exact (h.children c hc _ hpart).2.2 name rfl

lemma AtTop.of_named {name : String} (h : name ∈ names) : AtTop names (.named name) where
  ref target htarget := by cases htarget
  named other hother := by
    cases hother
    exact h
  children c hc := by cases hc

/-- Validators that are no references may be declared if what is inside of them may stand there. -/
lemma AtTop.of_children (hproper : ¬ v.isReference) (h : ∀ c ∈ v.children, Inline names c) :
    AtTop names v where
  ref _ htarget := hproper (htarget ▸ rfl)
  named _ hname := absurd (hname ▸ rfl) hproper
  children := h

end Validator

namespace Declarations

open Validator

section

variable {plan : Plan} {bound : List (String × String)} {names : List String} {v w : Validator}

/-- What is left of a validator inside of a declaration may stand there. -/
lemma Inlined.inline (h : Inlined plan bound v w)
    (hnames : plan.names.map (·.2) ++ bound.map (·.2) ⊆ names) : Inline names w := by
  have hnamed {name : String} (hname : name ∈ plan.names.map (·.2) ++ bound.map (·.2)) :
      Inline names (.named name) :=
    (AtTop.of_named (hnames hname)).inline (by simp [isModel])
  induction v using children_induction generalizing w with
  | step v ih =>
    cases h with
    | target h => exact hnamed (mem_append_left _ (mem_names_of_lookup h))
    | shared _ h => exact hnamed (mem_append_right _ (mem_map_of_mem h))
    | kept hproper hv hresembles hchildren =>
      refine AtTop.inline (.of_children (by cases hresembles <;> exact hproper) fun d hd => ?_) ?_
      · obtain ⟨c, hc, hcd⟩ := exists_left_of_forall₂ hchildren hd
        exact ih c hc hcd
      · intro hmodel
        have hcomposite : v.isComposite ∧ v.isModel := by
          cases hresembles <;> simp_all [isModel, isComposite]
        exact hv ⟨hcomposite.1, by simp [isShared, hcomposite.2]⟩

lemma Opened.atTop (h : Opened plan bound v w)
    (hnames : plan.names.map (·.2) ++ bound.map (·.2) ⊆ names) : AtTop names w := by
  have hproper := h.proper
  refine .of_children (by cases h.resembles <;> exact hproper) fun d hd => ?_
  obtain ⟨c, -, hcd⟩ := exists_left_of_forall₂ h.children hd
  exact hcd.inline hnames

end

section

variable {t : Validators} {plan : Plan} {P : String → Prop} {V : Validator → Prop}
  {registry : Name.Registry} {s z : Draft} {fingerprint : Validator → String}

variable {v : Validator} {name : String}

lemma IsDefined.mem_names (h : IsDefined plan z v name) : name ∈ z.declared.names := by
  cases h with
  | reference _ hentry | again _ _ hentry | first _ _ hentry =>
    exact mem_map.2 ⟨_, hentry, rfl⟩

/-- Names of definitions are declared, and so are those that are bound. -/
lemma Built.names_subset (h : Built t plan P V registry z) :
    plan.names.map (·.2) ++ z.boundNames ⊆ z.declared.names := by
  refine append_subset.2 ⟨fun name hname => ?_, fun name hname => ?_⟩
  · obtain ⟨n, hn, rfl⟩ := mem_map.1 hname
    obtain ⟨d, -, -, hdefined⟩ := exists_left_of_forall₂ h.definitions hn
    exact hdefined.mem_names
  · obtain ⟨b, hb, rfl⟩ := mem_map.1 hname
    obtain ⟨v, w, pointer, -, -, -, hentry⟩ := h.bound b hb
    exact mem_map.2 ⟨_, hentry, rfl⟩

/-- Every declaration holds what may be declared: it is an alias, or what its name is bound to. -/
lemma Course.atTop (h : Course t plan P V registry s z) (hbuilt : Built t plan P V registry z)
    (hnodup : z.declared.names.Nodup) {e : Declaration} (he : e ∈ z.declared.entries) :
    AtTop z.declared.names e.validator := by
  obtain ⟨-, -, hkind⟩ := (h.building.new_entry e he).resolve_left (by simp [h.declared])
  rcases hkind with hbound | ⟨other, hother, hvalidator⟩
  · obtain ⟨b, hb, hname⟩ := mem_map.1 hbound
    obtain ⟨v, w, pointer, -, -, hopened, hentry⟩ := hbuilt.bound b hb
    have hsame : e = .of b.2 w pointer := inj_on_of_nodup_map hnodup he hentry hname.symm
    rw [hsame]
    exact hopened.atTop hbuilt.names_subset
  · rw [hvalidator]
    exact .of_named (hbuilt.names_subset hother)

lemma IsNamed.mem_names (h : IsNamed plan z.registry.bound v name)
    (hbuilt : Built t plan P V registry z) : name ∈ z.declared.names := by
  refine hbuilt.names_subset ?_
  cases h with
  | target h => exact mem_append_left _ (mem_names_of_lookup h)
  | bound _ h => exact mem_append_right _ (mem_map_of_mem h)

/-- Declarations of a document can be built, from any registry that has bound nothing yet. All that
they refer to is declared. -/
theorem exists_build {doc : Resolved} (hfresh : registry.bound = [])
    (hkeys : (t.definitions.map (·.1)).Nodup)
    (hunnamed : ∀ v ∈ t.roots, ∀ name, ¬ v.Part (.named name))
    (hrefs : ∀ v ∈ t.roots, ∀ target, v.Part (.ref target) → target ∈ t.definitions.map (·.1)) :
    ∃ z, (build doc t fingerprint).run { registry } = .ok ((), z) ∧
      (∀ e ∈ z.declared.entries, AtTop z.declared.names e.validator) ∧
      ∀ r ∈ z.declared.routes, ∀ p ∈ r.request ++ r.responses, p.2 ∈ z.declared.names := by
  have ht (plan : Plan) : BuildableAll doc t plan _ _ := buildableAll_of_unnamed hunnamed plan
  obtain ⟨z, hz⟩ := exists_run_build extensible_true hfresh hkeys (fun _ => ht _) hrefs
  obtain ⟨names, s, -, hcourse⟩ := exists_course extensible_true (fun _ => ht _) hz
  have hbuilt := hcourse.built hfresh hkeys
  refine ⟨z, hz, fun e he => hcourse.atTop hbuilt hcourse.finished.nodup he, fun r hr p hp => ?_⟩
  obtain ⟨route, -, hstep⟩ := exists_left_of_forall₂ hbuilt.routes hr
  rcases mem_append.1 hp with hp | hp
  · obtain ⟨q, -, -, hnamed⟩ := exists_left_of_forall₂ hstep.request hp
    exact hnamed.mem_names hbuilt
  · obtain ⟨q, -, -, hnamed⟩ := exists_left_of_forall₂ hstep.responses hp
    exact hnamed.mem_names hbuilt

end

end Declarations

end ApiSchema
