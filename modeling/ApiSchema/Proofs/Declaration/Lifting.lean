import ApiSchema.Proofs.Meaning.Resemblance
import ApiSchema.Proofs.Outcome

/-!
# What declarations hold

Building declarations replaces parts of validators by names. What is left of a validator then is said
here for any relation that tells which name stands for which validator.
-/

namespace ApiSchema

open List

namespace Validator

/-- References have no parts to look at. -/
def isReference : Validator → Bool
  | ref _ => true
  | named _ => true
  | _ => false

/-- A validator with parts replaced by names, each of which stands for the part. -/
inductive Lifts (stands : Validator → String → Prop) : Validator → Validator → Prop
  | named {v : Validator} {name : String} (h : stands v name) : Lifts stands v (.named name)
  | rebuilt {v w : Validator} (hproper : ¬ v.isReference) (hresembles : Resembles v w)
    (hchildren : List.Forall₂ (Lifts stands) v.children w.children) : Lifts stands v w

/-- A validator whose children are lifted, and which is itself kept. -/
structure Rebuilt (stands : Validator → String → Prop) (v w : Validator) : Prop where
  proper : ¬ v.isReference
  resembles : Resembles v w
  children : List.Forall₂ (Lifts stands) v.children w.children

lemma Rebuilt.lifts {stands : Validator → String → Prop} {v w : Validator}
    (h : Rebuilt stands v w) : Lifts stands v w :=
  .rebuilt h.proper h.resembles h.children

end Validator

/-- Two routes at one place, with related things for the same kinds of data. -/
structure Route.InStep {α β : Type} (r : α → β → Prop) (a : Route α) (b : Route β) : Prop where
  path : b.path = a.path
  method : b.method = a.method
  request : List.Forall₂ (fun p q => q.1 = p.1 ∧ r p.2 q.2) a.request b.request
  responses : List.Forall₂ (fun p q => q.1 = p.1 ∧ r p.2 q.2) a.responses b.responses

lemma Route.InStep.mono {α β : Type} {r s : α → β → Prop} {a : Route α} {b : Route β}
    (h : a.InStep r b) (hrs : ∀ x y, r x y → s x y) : a.InStep s b where
  path := h.path
  method := h.method
  request := h.request.imp fun _ _ hpq => ⟨hpq.1, hrs _ _ hpq.2⟩
  responses := h.responses.imp fun _ _ hpq => ⟨hpq.1, hrs _ _ hpq.2⟩

lemma Route.InStep.trans {α β γ : Type} {r : α → β → Prop} {s : β → γ → Prop} {q : α → γ → Prop}
    {a : Route α} {b : Route β} {c : Route γ} (hab : a.InStep r b) (hbc : b.InStep s c)
    (hq : ∀ x y z, r x y → s y z → q x z) : a.InStep q c where
  path := hbc.path.trans hab.path
  method := hbc.method.trans hab.method
  request := forall₂_trans hab.request hbc.request fun _ _ _ hxy hyz =>
    ⟨hyz.1.trans hxy.1, hq _ _ _ hxy.2 hyz.2⟩
  responses := forall₂_trans hab.responses hbc.responses fun _ _ _ hxy hyz =>
    ⟨hyz.1.trans hxy.1, hq _ _ _ hxy.2 hyz.2⟩

/-! ### Composites -/

namespace Validator

variable {v u : Validator}

lemma mem_composites_self (h : v.isComposite) : v ∈ v.composites := by
  cases v <;> simp_all [isComposite, composites]

lemma mem_compositesAll {vs : List Validator} :
    u ∈ compositesAll vs ↔ ∃ v ∈ vs, u ∈ v.composites := by
  induction vs with
  | nil => simp [compositesAll]
  | cons v vs ih => simp [compositesAll, ih]

lemma mem_compositesFields {fields : List (FieldOf Validator)} :
    u ∈ compositesFields fields ↔ ∃ f ∈ fields, u ∈ f.validator.composites := by
  induction fields with
  | nil => simp [compositesFields]
  | cons f fields ih => simp [compositesFields, ih]

lemma composites_subset_of_mem_children {c : Validator} (h : c ∈ v.children) :
    c.composites ⊆ v.composites := by
  intro u hu
  cases v with
  | array items _ _ | record items _ | nullable items =>
    rw [mem_singleton.1 h] at hu
    simp [composites, hu]
  | object fields _ extra _ =>
    simp only [composites, mem_cons, mem_append, mem_compositesFields]
    rcases mem_append.1 h with h | h
    · obtain ⟨f, hf, rfl⟩ := mem_map.1 h
      exact .inr (.inl ⟨f, hf, hu⟩)
    · obtain rfl := Option.mem_toList.1 h
      exact .inr (.inr hu)
  | union branches | intersection branches =>
    simp only [composites, mem_cons, mem_compositesAll]
    exact .inr ⟨c, h, hu⟩
  | any | null | boolean | string _ _ _ | custom _ | number _ _ | literal _ | ref _ | named _ =>
    cases h

lemma mem_composites_of_part (h : v.Part u) (hu : u.isComposite) : u ∈ v.composites := by
  have hsub : u.composites ⊆ v.composites := by
    clear hu
    induction h with
    | refl => exact List.Subset.refl _
    | child _ hc ih => exact List.Subset.trans (composites_subset_of_mem_children hc) ih
  exact hsub (mem_composites_self hu)

lemma part_of_mem_composites (h : u ∈ v.composites) : v.Part u := by
  induction v using children_induction with
  | step v ih =>
    have hchild : u = v ∨ ∃ c ∈ v.children, u ∈ c.composites := by
      cases v with
      | nullable inner => exact .inr ⟨inner, mem_singleton_self _, h⟩
      | object fields _ extra _ =>
        simp only [composites, mem_cons, mem_append, mem_compositesFields] at h
        obtain rfl | ⟨f, hf, hu⟩ | hu := h
        · exact .inl rfl
        · exact .inr ⟨_, mem_append_left _ (mem_map_of_mem hf), hu⟩
        · cases extra with
          | none => cases hu
          | some w => exact .inr ⟨w, mem_append_right _ (mem_singleton_self _), hu⟩
      | array _ _ _ | record _ _ | union _ | intersection _ =>
        simpa [composites, children, mem_compositesAll] using h
      | literal _ => exact .inl (mem_singleton.1 h)
      | any | null | boolean | string _ _ _ | custom _ | number _ _ | ref _ | named _ => cases h
    obtain rfl | ⟨c, hc, hu⟩ := hchild
    · exact .refl
    · exact (ih c hc hu).of_child hc

end Validator

namespace Declarations

open Validator

/-- The validators that a build takes fingerprints of. -/
def fingerprinted (t : Validators) : List Validator :=
  t.roots.filter (fun v => !v.isReference) ++ compositesAll t.roots

variable {t : Validators} {v : Validator}

lemma mem_fingerprinted_of_mem_roots (hv : v ∈ t.roots) (hproper : ¬ v.isReference) :
    v ∈ fingerprinted t :=
  mem_append_left _ (mem_filter.2 ⟨hv, by simpa using hproper⟩)

lemma mem_fingerprinted_of_isComposite (hcomposite : v.isComposite)
    (hv : ∃ root ∈ t.roots, root.Part v) : v ∈ fingerprinted t := by
  obtain ⟨root, hroot, hpart⟩ := hv
  exact mem_append_right _ (mem_compositesAll.2
    ⟨root, hroot, mem_composites_of_part hpart hcomposite⟩)

lemma exists_root_of_mem_fingerprinted (hv : v ∈ fingerprinted t) : ∃ root ∈ t.roots, root.Part v := by
  rcases mem_append.1 hv with hv | hv
  · exact ⟨v, (mem_filter.1 hv).1, .refl⟩
  · obtain ⟨root, hroot, hv⟩ := mem_compositesAll.1 hv
    exact ⟨root, hroot, part_of_mem_composites hv⟩

end Declarations

end ApiSchema
