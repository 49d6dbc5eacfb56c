import ApiSchema.Proofs.Declaration.Document
import ApiSchema.Proofs.Value.Names

/-!
# Required properties

Main statement: where the mappings of documents have string keys, an object of a resolved document
declares each property once, and all that it requires. Validators keep that, of objects as of
conjunctions that are merged: they have one field for each property, which is required where one of
the objects requires it, and where a record is made there is nothing to require.
-/

namespace ApiSchema

/-! ### Documents with string keys -/

/-- The documents of a library have string keys in their mappings. -/
structure Library.HasNames (lib : Library) : Prop where
  root : lib.root.HasNames
  fetch : ∀ {uri doc}, lib.fetch uri = .ok doc → doc.HasNames

lemma Library.HasNames.confined {lib : Library} (h : lib.HasNames) :
    lib.Confined (fun _ v => v.HasNames) fun _ => True where
  root := h.root
  fetch := h.fetch
  part := .part
  empty := fun _ => ⟨⟨[], rfl, List.nodup_nil⟩, nofun⟩
  target := fun _ _ _ => trivial

lemma Schema.forms_nodup :
    Forms (fun _ v => v.HasNames) fun _ node => node.WellFormed List.Nodup :=
  forms_wellFormed Value.HasNames.nodup_display
    (fun hnames hname => List.nodup_append_comm.1 (List.nodup_cons.2 ⟨hname, hnames⟩)) id

/-- Readings of a library whose mappings have string keys make objects that declare each property
once. -/
def Library.HasNames.reader {lib : Library} (h : lib.HasNames) : Schema.Reader where
  lib := lib
  known _ v := v.HasNames
  target _ := True
  reason _ := True
  made _ node := node.WellFormed List.Nodup
  confined := h.confined
  reasons := Schema.isReason_true lib
  forms := Schema.forms_nodup
  enough := Schema.suffices_true lib

lemma Library.HasNames.isProper_of_contains {lib : Library} (h : lib.HasNames) {doc : Resolved}
    (hdoc : (Schema.resolve lib).outcome = .ok doc) {site : Site} {shape : Shape}
    (hnode : doc.Contains (.object site shape.properties shape.required shape.additional
      shape.rules)) : shape.IsProper := by
  cases h.reader.wellFormed_of_resolve id (fun _ _ _ _ => trivial) hdoc hnode with
  | intro proper names _ => exact ⟨names, proper⟩

/-! ### Validators of objects -/

namespace Validator

variable {w : Validator}

/-- The fields of a validator of objects. A record has none. -/
def fields? : Validator → Option (List (FieldOf Validator))
  | object fields _ _ _ => some fields
  | record _ _ => some []
  | _ => none

variable {doc : Resolved} {formats : Format.Registry}

lemma AccountedBy.fieldsOf {schemas : Node → Prop} (h : AccountedBy doc formats schemas w)
    {fields : List (FieldOf Validator)} (hfields : w.fields? = some fields) :
    FieldsOf doc schemas fields := by
  cases w with
  | record _ _ | object _ _ _ _ =>
    cases hfields
    exact h.1
  | _ => cases hfields

/-- The validator of a node that shapes contribute to keeps them. -/
lemma exists_isObject_of_contributes {node : Node} {shapes : List Shape}
    (hshapes : doc.Contributes node shapes) {inner : Node → Making Validator}
    (h : (ofBare inner ⟨doc, formats⟩ node).outcome = .ok w) :
    ∃ fields forbidExtra extra count, IsObject fields forbidExtra extra count w ∧
      ((∀ shape ∈ shapes, shape.IsProper) → Shape.Keeps shapes fields) := by
  cases hshapes with
  | object =>
    obtain ⟨fields, forbidExtra, extra, hfields, -, -, hobject⟩ := exists_isObject_of_ofObject h
    exact ⟨fields, forbidExtra, extra, _, hobject, keeps_of_fieldFor hfields⟩
  | allOf hmany hflat =>
    rw [ofBare, ofAll] at h
    · obtain ⟨flat, hflat', h⟩ := Traced.outcome_bind_eq_ok_iff.1 h
      cases hflat.symm.trans hflat'
      obtain ⟨m, hm, h⟩ := Traced.outcome_bind_eq_ok_iff.1 h
      obtain ⟨fields, extra, hfields, -, -, hobject⟩ := exists_isObject_of_ofMerged h
      exact ⟨fields, _, extra, _, hobject, keeps_of_declared (Shape.mergedFrom_of_merge hm) hfields⟩
    · rintro b rfl
      exact hmany rfl

end Validator

namespace Resolved

/-- Names of properties are kept from schemas to validators, each once, and so is which of them are
required. -/
structure KeepsRequired (doc : Resolved) (formats : Format.Registry) : Prop where
  /-- Objects of the document declare each property once, and all that they require. -/
  objects : ∀ {site} {shape : Shape}, doc.Contains (.object site shape.properties shape.required
    shape.additional shape.rules) → shape.IsProper
  /-- The validator of an object has its fields, and that of branches that are merged those of the
  shapes that they come to. -/
  made : ∀ {node shapes w}, doc.Contains node → doc.Contributes node shapes →
    (Validator.ofNode ⟨doc, formats⟩ node).outcome = .ok w →
      ∃ fields forbidExtra extra count bare,
        Validator.IsObject fields forbidExtra extra count bare ∧
        (w = bare ∨ w = .nullable bare) ∧ Shape.Keeps shapes fields
  /-- However deep a validator of objects stands, it has the fields of such a schema. -/
  parts : ∀ {includeRoutes t root w fields},
    (Validator.ofDocument ⟨doc, formats⟩ includeRoutes).outcome = .ok t → root ∈ t.roots →
    root.Part w → w.fields? = some fields →
      ∃ node shapes, doc.Contains node ∧ doc.Contributes node shapes ∧ Shape.Keeps shapes fields

/-- Shapes come from objects of the document. -/
lemma Contributes.isProper {doc : Resolved} {node : Node} {shapes : List Shape}
    (h : doc.Contributes node shapes) (hnode : doc.Contains node)
    (hproper : ∀ {site} {shape : Shape}, doc.Contains (.object site shape.properties shape.required
      shape.additional shape.rules) → shape.IsProper) : ∀ shape ∈ shapes, shape.IsProper := by
  cases h with
  | object =>
    intro shape hshape
    cases List.mem_singleton.1 hshape
    exact hproper hnode
  | allOf _ hflat =>
    intro shape hshape
    obtain ⟨site, hobject⟩ := (Shape.flattens_of_flatten hflat).exists_object doc.isClosed_contains
      (fun b hb => .child hnode hb) hshape
    exact hproper hobject

/-- Objects of a document whose mappings have string keys declare each property once and all that
they require, and validators keep the properties and which of them are required. -/
theorem keepsRequired_of_resolve {lib : Library} (hnames : lib.HasNames) {doc : Resolved}
    (hdoc : (Schema.resolve lib).outcome = .ok doc) (formats : Format.Registry) :
    doc.KeepsRequired formats where
  objects := hnames.isProper_of_contains hdoc
  made := by
    intro node shapes w hnode hshapes hw
    obtain ⟨bare, hbare, hw⟩ := Traced.outcome_bind_eq_ok_iff.1 hw
    obtain ⟨fields, forbidExtra, extra, count, hobject, hkeeps⟩ :=
      Validator.exists_isObject_of_contributes hshapes hbare
    refine ⟨fields, forbidExtra, extra, count, bare, hobject, ?_,
      hkeeps (hshapes.isProper hnode (hnames.isProper_of_contains hdoc))⟩
    cases hw
    split
    · exact .inr rfl
    · exact .inl rfl
  parts := by
    intro includeRoutes t root w fields ht hroot hw hfields
    obtain ⟨node, hnode, hof⟩ := Validator.exists_node_of_mem_roots ht hroot
    have hstems := Validator.stemsFrom_of_ofNodeWithin _ node root hof
    obtain ⟨a, shapes, ha, hshapes, hkeeps⟩ := (hstems w hw).fieldsOf hfields
    have ha : doc.Contains a := ha.mem doc.isClosed_contains hnode
    exact ⟨a, shapes, ha, hshapes, hkeeps (hshapes.isProper ha (hnames.isProper_of_contains hdoc))⟩

end Resolved

lemma hasNames_chain : chainLibrary.HasNames where
  root := by simp [chainLibrary, Library.ofTable, chainRoot, chainSchema]
  fetch h := by cases h

/-- The chain is a merge of two objects, one of which requires a property that both declare. -/
theorem chain_keepsRequired : chainLibrary.HasNames ∧
    (Schema.resolve chainLibrary).outcome = .ok chainDocument ∧ chainDocument.KeepsRequired {} :=
  ⟨hasNames_chain, resolve_chain, Resolved.keepsRequired_of_resolve hasNames_chain resolve_chain {}⟩

end ApiSchema
