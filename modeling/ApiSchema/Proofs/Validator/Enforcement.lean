import ApiSchema.Proofs.Meaning.Same
import ApiSchema.Proofs.Validator.Translation

/-!
# No value is accepted wrongly

Main statement: what the validator of a conjunction of objects accepts satisfies every branch, where
the branches are read together: what a branch says on additional properties concerns the keys that no
branch declares.

Of schemas for one property that compare the same only one is kept, so lists of values that compare
the same have to be the same: `Resolved.KeepsApart` says where.
-/

namespace ApiSchema

open List Traced

/-- Two schemas that values have to meet at once where shapes are merged: for one property, or for
what stands beside the properties. -/
def Shape.Together (shapes : List Shape) (a b : Node) : Prop :=
  ∃ shape ∈ shapes, ∃ shape' ∈ shapes,
    (∃ key, (key, a) ∈ shape.properties ∧ (key, b) ∈ shape'.properties) ∨
      shape.additional = .typed a ∧ shape'.additional = .typed b

/-- Wherever a schema leads to objects that are merged, schemas that values have to meet at once are
told apart. -/
def Resolved.KeepsApart (doc : Resolved) (root : Node) : Prop :=
  ∀ {site branches shapes a b}, doc.Reaches root (.allOf site branches) →
    Shape.flatten doc branches = .ok (some shapes) → Shape.Together shapes a b → a ≠ b →
      doc.Distinguishes a b

/-- A shape declares each property once, and those that it requires. -/
structure Shape.IsProper (shape : Shape) : Prop where
  nodup : (shape.properties.map (·.1)).Nodup
  required : shape.required ⊆ shape.properties.map (·.1)

/-- Fields keep what shapes say on their properties: there is one field for each, and it is required
where one of the shapes requires it. -/
structure Shape.Keeps (shapes : List Shape) (fields : List (FieldOf Validator)) : Prop where
  nodup : (fields.map (·.key)).Nodup
  keys : ∀ {name}, name ∈ fields.map (·.key) ↔
    ∃ shape ∈ shapes, name ∈ shape.properties.map (·.1)
  required : ∀ {f}, f ∈ fields → (f.required ↔ ∃ shape ∈ shapes, f.key ∈ shape.required)
  exists_required : ∀ {shape name}, shape ∈ shapes → name ∈ shape.required →
    ∃ f ∈ fields, f.key = name ∧ f.required

lemma Shape.keeps_of_forall₂ {δ : Type} {r : String × δ → FieldOf Validator → Prop}
    {declared : List (String × δ)} {fields : List (FieldOf Validator)} {required : List String}
    (h : Forall₂ r declared fields)
    (hr : ∀ {d f}, r d f → f.key = d.1 ∧ f.required = required.contains d.1) {shapes : List Shape}
    (hnodup : (declared.map (·.1)).Nodup)
    (hkeys : ∀ {name}, name ∈ declared.map (·.1) ↔
      ∃ shape ∈ shapes, name ∈ shape.properties.map (·.1))
    (hrequired : ∀ {name}, name ∈ required ↔ ∃ shape ∈ shapes, name ∈ shape.required)
    (hproper : ∀ shape ∈ shapes, shape.IsProper) : Keeps shapes fields := by
  have hmap : fields.map (·.key) = declared.map (·.1) := map_eq_map_of_forall₂ h fun h => (hr h).1
  have hfield {f : FieldOf Validator} (hf : f ∈ fields) :
      f.required ↔ ∃ shape ∈ shapes, f.key ∈ shape.required := by
    obtain ⟨d, -, hd⟩ := exists_left_of_forall₂ h hf
    rw [(hr hd).2, (hr hd).1, ← hrequired, contains_iff_mem]
  refine ⟨hmap ▸ hnodup, fun {name} => hmap ▸ hkeys, hfield, fun {shape name} hshape hname => ?_⟩
  have hdeclared : name ∈ fields.map (·.key) :=
    hmap ▸ hkeys.2 ⟨shape, hshape, (hproper shape hshape).required hname⟩
  obtain ⟨f, hf, rfl⟩ := mem_map.1 hdeclared
  exact ⟨f, hf, rfl, (hfield hf).2 ⟨shape, hshape, hname⟩⟩

/-- The shapes that the validator of a node is made of: that of an object, or those of the branches
that are merged. -/
inductive Resolved.Contributes (doc : Resolved) : Node → List Shape → Prop
  | object {site : Site} {properties : List (String × Node)} {required : List String}
    {additional : Additional Node} {rules : CountRules} :
    doc.Contributes (.object site properties required additional rules)
      [⟨properties, required, additional, rules⟩]
  | allOf {site : Site} {branches : List Node} {shapes : List Shape} (hmany : branches.length ≠ 1)
    (hshapes : Shape.flatten doc branches = .ok (some shapes)) :
    doc.Contributes (.allOf site branches) shapes

/-- The floating-point numbers that a schema states itself. -/
def Node.floats : Node → List Double
  | .string _ rules => (Extent.mk rules.minLength rules.maxLength).floats
  | .number _ _ rules => rules.floats
  | .enum _ values => values.flatMap Scalar.floats
  | .literal _ values => values.flatMap Scalar.floats
  | .array _ _ rules => (Extent.mk rules.minItems rules.maxItems).floats
  | .object _ _ _ _ rules => (Extent.mk rules.minProperties rules.maxProperties).floats
  | _ => []

namespace Validator

/-! ### Where leaves stem from -/

/-- Fields that keep the shapes of one of some schemas. -/
def FieldsOf (doc : Resolved) (schemas : Node → Prop) (fields : List (FieldOf Validator)) : Prop :=
  ∃ a shapes, schemas a ∧ doc.Contributes a shapes ∧
    ((∀ shape ∈ shapes, shape.IsProper) → Shape.Keeps shapes fields)

/-- Schemas of a document account for a validator: one of them lists the values that the validator
does or has its fields, and the floating-point numbers of the validator are theirs. A validator from
outside is that of a format, and a reference leads to a definition. No schema accounts for a name. -/
def AccountedBy (doc : Resolved) (formats : Format.Registry) (schemas : Node → Prop) :
    Validator → Prop
  | .literal values => ∃ a, schemas a ∧ a.listed = values
  | .custom name => ∃ format, formats.lookup format = some name
  | .ref target => (doc.definitions.lookup target).isSome
  | .named _ => False
  | .record _ count => FieldsOf doc schemas [] ∧ ∀ x ∈ count.floats, ∃ a, schemas a ∧ x ∈ a.floats
  | .object fields _ _ count =>
    FieldsOf doc schemas fields ∧ ∀ x ∈ count.floats, ∃ a, schemas a ∧ x ∈ a.floats
  | w => ∀ x ∈ w.floats, ∃ a, schemas a ∧ x ∈ a.floats

/-- The parts of a validator are accounted for by the schemas that a node leads to. -/
def StemsFrom (doc : Resolved) (formats : Format.Registry) (node : Node) (w : Validator) : Prop :=
  ∀ u, w.Part u → AccountedBy doc formats (doc.Reaches node) u

lemma AccountedBy.mono {doc : Resolved} {formats : Format.Registry}
    {schemas schemas' : Node → Prop} (h : ∀ {a}, schemas a → schemas' a) {w : Validator}
    (hw : AccountedBy doc formats schemas w) : AccountedBy doc formats schemas' w := by
  cases w with
  | literal values =>
    obtain ⟨a, ha, hlisted⟩ := hw
    exact ⟨a, h ha, hlisted⟩
  | custom _ | ref _ | named _ => exact hw
  | record _ _ | object _ _ _ _ =>
    obtain ⟨⟨a, shapes, ha, hfields⟩, hw⟩ := hw
    exact ⟨⟨a, shapes, h ha, hfields⟩, fun x hx => (hw x hx).imp fun _ => And.imp_left h⟩
  | _ => exact fun x hx => (hw x hx).imp fun _ => And.imp_left h

/-- The floating-point numbers of a validator are those of schemas that account for it. -/
lemma AccountedBy.floats {doc : Resolved} {formats : Format.Registry} {schemas : Node → Prop}
    {w : Validator} (hw : AccountedBy doc formats schemas w) {x : Double} (hx : x ∈ w.floats) :
    ∃ a, schemas a ∧ x ∈ a.floats := by
  cases w with
  | literal values =>
    obtain ⟨a, ha, rfl⟩ := hw
    refine ⟨a, ha, ?_⟩
    cases a with
    | enum _ _ | literal _ _ => exact hx
    | _ => cases hx
  | custom _ | ref _ => cases hx
  | named name => exact hw.elim
  | record _ _ | object _ _ _ _ => exact hw.2 x hx
  | _ => exact hw x hx

section

variable {doc : Resolved} {formats : Format.Registry} {node : Node}
  {inner : Node → Making Validator}

lemma StemsFrom.of_reaches {c : Node} {w : Validator} (h : StemsFrom doc formats c w)
    (hc : doc.Reaches node c) : StemsFrom doc formats node w :=
  fun u hu => (h u hu).mono fun ha => ha.mem (doc.isClosed_reaches node) hc

lemma stemsFrom_of_children {w : Validator} (hw : AccountedBy doc formats (doc.Reaches node) w)
    (h : ∀ c ∈ w.children, StemsFrom doc formats node c) : StemsFrom doc formats node w :=
  (forall_part_iff w).2 ⟨hw, h⟩

lemma stemsFrom_any : StemsFrom doc formats node .any :=
  stemsFrom_of_children (fun _ hx => nomatch hx) fun _ hc => nomatch hc

lemma IsObject.stemsFrom {fields : List (FieldOf Validator)} {forbidExtra : Bool}
    {extra : Option Validator} {count : Extent} {w : Validator}
    (h : IsObject fields forbidExtra extra count w)
    (hkeeps : FieldsOf doc (doc.Reaches node) fields)
    (hfields : ∀ f ∈ fields, StemsFrom doc formats node f.validator)
    (hextra : ∀ x ∈ extra, StemsFrom doc formats node x)
    (hcount : ∀ x ∈ count.floats, ∃ a, doc.Reaches node a ∧ x ∈ a.floats) :
    StemsFrom doc formats node w := by
  obtain rfl | ⟨rfl, rfl, rfl⟩ := h
  · refine stemsFrom_of_children ⟨hkeeps, hcount⟩ fun c hc => ?_
    rcases mem_append.1 hc with hc | hc
    · obtain ⟨f, hf, rfl⟩ := mem_map.1 hc
      exact hfields f hf
    · exact hextra c (Option.mem_toList.1 hc)
  · refine stemsFrom_of_children ⟨hkeeps, hcount⟩ fun c hc => ?_
    rw [mem_singleton.1 hc]
    cases extra with
    | none => exact stemsFrom_any
    | some x => exact hextra x rfl

lemma stemsFrom_of_conjunction {nodes : List Node} {w : Validator}
    (h : (conjunction inner nodes).outcome = .ok w)
    (hinner : ∀ s ∈ nodes, ∀ w', (inner s).outcome = .ok w' → StemsFrom doc formats node w') :
    StemsFrom doc formats node w := by
  obtain ⟨all, hall, hw, -⟩ := exists_gathers_of_conjunction h
  have hmem (w' : Validator) (hw' : w' ∈ all) : StemsFrom doc formats node w' := by
    rcases hall.of_mem w' hw' with hw' | ⟨s, hs, hw'⟩
    · cases hw'
    · exact hinner s hs w' hw'
  obtain hw | ⟨ws, hws, rfl⟩ := hw
  · exact hmem w hw
  · exact stemsFrom_of_children (fun _ hx => nomatch hx) fun c hc => hmem c (hws hc)

/-- Shapes stem from objects that a node leads to, and so do their schemas. -/
lemma reaches_of_flatten {branches : List Node} {shapes : List Shape}
    (h : Shape.flatten doc branches = .ok (some shapes))
    (hbranches : ∀ b ∈ branches, doc.Reaches node b) {shape : Shape} (hshape : shape ∈ shapes) :
    (∀ p ∈ shape.properties, doc.Reaches node p.2) ∧
      (∀ schema, shape.additional = .typed schema → doc.Reaches node schema) ∧
      ∀ x ∈ (countOf shape.rules).floats, ∃ a, doc.Reaches node a ∧ x ∈ a.floats := by
  obtain ⟨site, hobject⟩ := (Shape.flattens_of_flatten h).exists_object (doc.isClosed_reaches node)
    hbranches hshape
  refine ⟨fun p hp => hobject.child ?_, fun schema hschema => hobject.child ?_,
    fun x hx => ⟨_, hobject, hx⟩⟩
  · exact mem_append_left _ (mem_map_of_mem hp)
  · simp [Node.children, hschema]

/-- The fields made for the properties of an object keep its shape. -/
lemma keeps_of_fieldFor {shape : Shape} {fields : List (FieldOf Validator)}
    (h : Forall₂ (FieldFor inner shape.required) shape.properties fields)
    (hproper : ∀ s ∈ [shape], s.IsProper) : Shape.Keeps [shape] fields :=
  Shape.keeps_of_forall₂ h (fun hf => ⟨hf.1, hf.2.2⟩) (hproper shape mem_cons_self).nodup
    (by simp) (by simp) hproper

/-- The fields made for what shapes declare together keep the shapes. -/
lemma keeps_of_declared {shapes : List Shape} {m : Shape.Merged} (hm : Shape.MergedFrom shapes m)
    {fields : List (FieldOf Validator)}
    (h : Forall₂ (fun d f => f.key = d.1 ∧ (conjunction inner d.2).outcome = .ok f.validator ∧
      f.required = m.required.contains d.1) m.declared fields)
    (hproper : ∀ shape ∈ shapes, shape.IsProper) : Shape.Keeps shapes fields :=
  Shape.keeps_of_forall₂ h (fun hf => ⟨hf.1, hf.2.2⟩) hm.nodup hm.keys hm.required hproper

section

variable (hinner : ∀ c w, (inner c).outcome = .ok w → StemsFrom doc formats c w)

include hinner

lemma stemsFrom_of_ofObject {site : Site} {properties : List (String × Node)}
    {required : List String} {additional : Additional Node} {rules : CountRules} {w : Validator}
    (h : (ofObject inner properties required additional rules).outcome = .ok w) :
    StemsFrom doc formats (.object site properties required additional rules) w := by
  obtain ⟨fields, forbidExtra, extra, hfields, -, hextra, hobject⟩ := exists_isObject_of_ofObject h
  refine hobject.stemsFrom ⟨_, _, .refl, .object, keeps_of_fieldFor hfields⟩ (fun f hf => ?_)
    (fun x hx => ?_) fun x hx => ⟨_, .refl, hx⟩
  · obtain ⟨p, hp, -, hw, -⟩ := exists_left_of_forall₂ hfields hf
    exact (hinner p.2 _ hw).of_reaches
      (.child .refl (mem_append_left _ (mem_map_of_mem hp)))
  · cases additional with
    | typed schema =>
      obtain ⟨w', rfl, hw'⟩ := hextra
      cases hx
      exact (hinner schema _ hw').of_reaches (.child .refl (by simp [Node.children]))
    | unstated | allowed | forbidden =>
      cases hextra
      cases hx

lemma stemsFrom_of_ofAll {site : Site} {branches : List Node} {w : Validator}
    (h : (ofAll inner doc branches).outcome = .ok w) :
    StemsFrom doc formats (.allOf site branches) w := by
  have hbranches (b : Node) (hb : b ∈ branches) : doc.Reaches (.allOf site branches) b :=
    .child .refl hb
  unfold ofAll at h
  split at h
  next b => exact (hinner b w h).of_reaches (hbranches b mem_cons_self)
  next hmany =>
    obtain ⟨flat, hflat, h⟩ := outcome_bind_eq_ok_iff.1 h
    cases flat with
    | some shapes =>
      obtain ⟨m, hm, h⟩ := outcome_bind_eq_ok_iff.1 h
      have hm := Shape.mergedFrom_of_merge hm
      obtain ⟨fields, extra, hfields, hextra, -, hobject⟩ := exists_isObject_of_ofMerged h
      have hmany : branches.length ≠ 1 := fun hone =>
        (length_eq_one_iff.1 hone).elim fun b hb => hmany b hb
      refine hobject.stemsFrom ⟨_, _, .refl, .allOf hmany hflat, keeps_of_declared hm hfields⟩
        (fun f hf => ?_) (fun x hx => ?_) fun x hx => ?_
      · obtain ⟨d, hd, -, hw, -⟩ := exists_left_of_forall₂ hfields hf
        refine stemsFrom_of_conjunction hw fun s hs w' hw' => ?_
        obtain ⟨shape, hshape, hp⟩ := hm.of_declares ⟨d, hd, rfl, hs⟩
        exact (hinner s w' hw').of_reaches ((reaches_of_flatten hflat hbranches hshape).1 _ hp)
      · refine stemsFrom_of_conjunction (hextra x hx) fun s hs w' hw' => ?_
        obtain ⟨shape, hshape, hadditional⟩ := hm.of_mem_extras hs
        exact (hinner s w' hw').of_reaches
          ((reaches_of_flatten hflat hbranches hshape).2.1 s hadditional)
      · obtain ⟨b, hb, hx⟩ := mem_flatMap.1 hx
        obtain ⟨shape, hshape, hb⟩ := hm.of_mem_bounds hb
        exact (reaches_of_flatten hflat hbranches hshape).2.2 x (mem_flatMap.2 ⟨b, hb, hx⟩)
    | none =>
      obtain ⟨ws, hws, h⟩ := outcome_bind_eq_ok_iff.1 h
      cases h
      refine stemsFrom_of_children (fun _ hx => nomatch hx) fun c hc => ?_
      obtain ⟨b, hb, hbranch⟩ := exists_left_of_forall₂ (forall₂_of_ofBranches hws) hc
      exact (hinner b c hbranch).of_reaches (hbranches b hb)

lemma stemsFrom_of_ofAny {branches : List Node} {w : Validator}
    (h : (ofAny inner branches).outcome = .ok w)
    (hbranches : ∀ b ∈ branches, doc.Reaches node b) : StemsFrom doc formats node w := by
  obtain ⟨ws, hws, h⟩ := outcome_bind_eq_ok_iff.1 h
  have hmem (w' : Validator) (hw' : w' ∈ ws) : StemsFrom doc formats node w' := by
    obtain ⟨b, hb, hbranch⟩ := exists_left_of_forall₂ (forall₂_of_ofBranches hws) hw'
    exact (hinner b w' hbranch).of_reaches (hbranches b hb)
  split at h
  · cases h
    exact hmem w mem_cons_self
  · cases h
    exact stemsFrom_of_children (fun _ hx => nomatch hx) hmem

lemma stemsFrom_of_ofBare {w : Validator}
    (h : (ofBare inner ⟨doc, formats⟩ node).outcome = .ok w) : StemsFrom doc formats node w := by
  -- Floating-point numbers that the node states itself.
  have hown {xs : List Double} (hxs : xs ⊆ node.floats) (x : Double) (hx : x ∈ xs) :
      ∃ a, doc.Reaches node a ∧ x ∈ a.floats :=
    ⟨node, .refl, hxs hx⟩
  cases node with
  | any _ | null _ | boolean _ =>
    cases h
    exact stemsFrom_of_children (fun _ hx => absurd hx not_mem_nil) (by simp [children])
  | string _ rules =>
    obtain ⟨pattern, -, h⟩ := outcome_bind_eq_ok_iff.1 h
    obtain ⟨use, huse, h⟩ := outcome_bind_eq_ok_iff.1 h
    cases use with
    | custom name =>
      cases h
      obtain ⟨f, _, ⟨⟩, -, hname⟩ | ⟨_, ⟨⟩, _⟩ | ⟨⟨⟩, _⟩ := useFormat_cases huse
      exact stemsFrom_of_children ⟨f, hname⟩ (by simp [children])
    | checked _ | ignored =>
      cases h
      exact stemsFrom_of_children (hown (List.Subset.refl _)) (by simp [children])
  | number _ integer rules =>
    obtain ⟨rules', hfloats, rfl⟩ : ∃ rules' : NumberRules, rules'.floats ⊆ rules.floats ∧
        w = .number integer rules' := by
      cases integer with
      | false =>
        cases h
        exact ⟨rules, List.Subset.refl _, rfl⟩
      | true =>
        obtain ⟨rules', hrules, rfl⟩ := Except.map_eq_ok_iff.1 h
        exact ⟨rules', NumberRules.floats_subset_of_ofInteger hrules, rfl⟩
    exact stemsFrom_of_children (hown hfloats) (by simp [children])
  | enum _ values | literal _ values =>
    cases h
    exact stemsFrom_of_children ⟨_, .refl, rfl⟩ (by simp [children])
  | array _ items rules =>
    obtain ⟨w', hsome, hnone, rfl⟩ := exists_items_of_ofBare h
    refine stemsFrom_of_children (hown (List.Subset.refl _)) fun c hc => ?_
    rw [mem_singleton.1 hc]
    cases items with
    | none =>
      rw [hnone rfl]
      exact stemsFrom_any
    | some item => exact (hinner item w' (hsome item rfl)).of_reaches (.child .refl (by simp [Node.children]))
  | object _ _ _ _ _ => exact stemsFrom_of_ofObject hinner h
  | anyOf _ branches | oneOf _ branches =>
    exact stemsFrom_of_ofAny hinner h fun b hb => .child .refl hb
  | allOf _ _ => exact stemsFrom_of_ofAll hinner h
  | reference site t =>
    simp only [ofBare] at h
    split at h
    next hdefined =>
      cases h
      exact stemsFrom_of_children hdefined (by simp [children])
    next => cases h

end

lemma stemsFrom_of_ofNodeWithin {ctx : Context} (n : Nat) (node : Node) (w : Validator)
    (h : (ofNodeWithin ctx n node).outcome = .ok w) : StemsFrom ctx.doc ctx.formats node w := by
  induction n generalizing node w with
  | zero => cases h
  | succ n ih =>
    obtain ⟨bare, hbare, h⟩ := outcome_bind_eq_ok_iff.1 h
    cases h
    have hstems := stemsFrom_of_ofBare ih hbare
    split
    · exact stemsFrom_of_children (fun _ hx => nomatch hx) (by simpa [children] using hstems)
    · exact hstems

end

/-! ### One layer -/

section

variable {basis : Basis} {ref named : String → Value → Prop} {inner : Node → Making Validator}
  {meets : Node → Value → Prop} {doc : Resolved} {formats : Format.Registry}

variable (basis ref named inner meets) in
/-- What the validator of a node accepts meets the node. -/
def Enforces (node : Node) : Prop :=
  ∀ {w v}, (inner node).outcome = .ok w → Accepts basis ref named w v → meets node v

lemma distinguishes_of_stemsFrom {a b : Node} (h : doc.Distinguishes a b) {w w' : Validator}
    (hw : StemsFrom doc formats a w) (hw' : StemsFrom doc formats b w') : w.Distinguishes w' := by
  intro values values' hvalues hvalues' hsame
  obtain ⟨c, hc, rfl⟩ := hw _ hvalues
  obtain ⟨c', hc', rfl⟩ := hw' _ hvalues'
  exact h.listed hc hc' hsame

/-- What the validator of several nodes accepts is accepted by the validator of each, also of those
that another stands for. -/
lemma exists_accepts_of_conjunction {nodes : List Node} {w : Validator}
    (h : (conjunction inner nodes).outcome = .ok w)
    (hstems : ∀ c w, (inner c).outcome = .ok w → StemsFrom doc formats c w)
    (hapart : ∀ a ∈ nodes, ∀ b ∈ nodes, a ≠ b → doc.Distinguishes a b) {v : Value}
    (hv : Accepts basis ref named w v) {s : Node} (hs : s ∈ nodes) :
    ∃ w', (inner s).outcome = .ok w' ∧ Accepts basis ref named w' v := by
  obtain ⟨all, hall, -, haccepts⟩ := exists_gathers_of_conjunction h
  obtain ⟨w₁, hw₁, w₂, hw₂, hsame⟩ := hall.exists_mem s hs
  have hv₂ := (haccepts basis ref named v).1 hv w₂ hw₂
  refine ⟨w₁, hw₁, ?_⟩
  obtain rfl | hsame := hsame
  · exact hv₂
  obtain hw₂ | ⟨s', hs', hw₂⟩ := hall.of_mem w₂ hw₂
  · cases hw₂
  by_cases hss' : s = s'
  · cases hss'
    cases hw₁.symm.trans hw₂
    exact hv₂
  · exact accepts_of_same w₁ w₂ hsame
      (distinguishes_of_stemsFrom (hapart s hs s' hs' hss') (hstems s w₁ hw₁) (hstems s' w₂ hw₂)) hv₂

lemma holds_of_ofObject {properties : List (String × Node)} {required : List String}
    {additional : Additional Node} {rules : CountRules} {w : Validator}
    (h : (ofObject inner properties required additional rules).outcome = .ok w)
    (hrequired : required ⊆ properties.map (·.1))
    (hproperties : ∀ p ∈ properties, Enforces basis ref named inner meets p.2)
    (hadditional : ∀ schema, additional = .typed schema →
      Enforces basis ref named inner meets schema)
    {v : Value} (hv : Accepts basis ref named w v) :
    ∃ es, v = .map es ∧ Shape.Holds meets [] ⟨properties, required, additional, rules⟩ es := by
  obtain ⟨fields, forbidExtra, extra, hfields, hforbid, hextra, hobject⟩ :=
    exists_isObject_of_ofObject h
  have hkeys : fields.map (·.key) = properties.map (·.1) := map_eq_map_of_forall₂ hfields (·.1)
  rw [hobject.accepts_iff, hkeys] at hv
  obtain ⟨es, rfl, hcount, hv, hforbidden, hbeside⟩ := hv
  refine ⟨es, rfl, hcount, fun k hk => ?_, fun p hp x hx => ?_, ?_⟩
  · obtain ⟨p, hp, rfl⟩ := mem_map.1 (hrequired hk)
    obtain ⟨f, hf, hkey, -, hreq⟩ := exists_right_of_forall₂ hfields hp
    rw [← hkey]
    exact (hv f hf).2 (by simpa [hreq] using hk)
  · obtain ⟨f, hf, hkey, hw, -⟩ := exists_right_of_forall₂ hfields hp
    exact hproperties p hp hw ((hv f hf).1 x (by rwa [hkey]))
  · rw [append_nil]
    cases additional with
    | unstated | allowed => trivial
    | forbidden => exact hforbidden (hforbid.2 rfl)
    | typed schema =>
      obtain ⟨w', rfl, hw'⟩ := hextra
      exact fun e he hlacks => hadditional schema rfl hw' (hbeside w' rfl e he hlacks)

lemma meets_of_ofAny {branches : List Node} {w : Validator}
    (h : (ofAny inner branches).outcome = .ok w)
    (hinner : ∀ b ∈ branches, Enforces basis ref named inner meets b) {v : Value}
    (hv : Accepts basis ref named w v) : ∃ b ∈ branches, meets b v := by
  obtain ⟨ws, hws, h⟩ := outcome_bind_eq_ok_iff.1 h
  obtain ⟨w', hw', hv⟩ : ∃ w' ∈ ws, Accepts basis ref named w' v := by
    split at h
    · cases h
      exact ⟨w, mem_cons_self, hv⟩
    · cases h
      simpa only [Accepts, acceptsSome_iff] using hv
  obtain ⟨b, hb, hbranch⟩ := exists_left_of_forall₂ (forall₂_of_ofBranches hws) hw'
  exact ⟨b, hb, hinner b hb hbranch hv⟩

section

variable {shapes : List Shape}
  (hstems : ∀ c w, (inner c).outcome = .ok w → StemsFrom doc formats c w)
  (hapart : ∀ {a b}, Shape.Together shapes a b → a ≠ b → doc.Distinguishes a b)
  (hsame : ∀ a b v, a.same b → doc.Distinguishes a b → meets b v → meets a v)

include hstems hapart hsame

/-- Where shapes are merged, what the validator of several schemas accepts meets each of them, and
each schema that one of them stands for. -/
lemma meets_of_conjunction {nodes : List Node} {w : Validator}
    (h : (conjunction inner nodes).outcome = .ok w)
    (hnodes : ∀ a ∈ nodes, ∀ b ∈ nodes, Shape.Together shapes a b)
    (hinner : ∀ s ∈ nodes, Enforces basis ref named inner meets s) {v : Value}
    (hv : Accepts basis ref named w v) {schema s : Node} (hs : s ∈ nodes)
    (hschema : s = schema ∨ schema.same s) (hpair : Shape.Together shapes schema s) :
    meets schema v := by
  obtain ⟨w', hw', hv⟩ := exists_accepts_of_conjunction h hstems
    (fun a ha b hb => hapart (hnodes a ha b hb)) hv hs
  have hmeets := hinner s hs hw' hv
  by_cases heq : schema = s
  · exact heq ▸ hmeets
  · exact hsame _ _ _ (hschema.resolve_left (Ne.symm heq)) (hapart hpair heq) hmeets

/-- What the validator of merged shapes accepts has the entries that every shape demands, among the
names of all. -/
lemma holds_of_ofMerged {m : Shape.Merged} (hm : Shape.MergedFrom shapes m)
    {w : Validator} (h : (ofMerged inner m).outcome = .ok w)
    (hrequired : ∀ shape ∈ shapes, shape.required ⊆ shape.properties.map (·.1))
    (hinner : ∀ shape ∈ shapes, (∀ p ∈ shape.properties,
        Enforces basis ref named inner meets p.2) ∧
      ∀ schema, shape.additional = .typed schema → Enforces basis ref named inner meets schema)
    {v : Value} (hv : Accepts basis ref named w v) :
    ∃ es, v = .map es ∧ ∀ shape ∈ shapes, shape.Holds meets
      (shapes.flatMap fun shape => shape.properties.map (·.1)) es := by
  obtain ⟨fields, extra, hfields, hextra, hnone, hobject⟩ := exists_isObject_of_ofMerged h
  have hkeys : fields.map (·.key) = m.declared.map (·.1) := map_eq_map_of_forall₂ hfields (·.1)
  rw [hobject.accepts_iff, hkeys] at hv
  obtain ⟨es, rfl, hcount, hv, hforbidden, hbeside⟩ := hv
  -- A key that no shape declares has no field.
  have hlacks {key : Scalar} {names : List String} (hkey : key.Lacks (names ++
      shapes.flatMap fun shape => shape.properties.map (·.1))) :
      key.Lacks (m.declared.map (·.1)) := by
    refine hkey.mono fun name hname => mem_append_right _ (mem_flatMap.2 ?_)
    exact hm.keys.1 hname
  refine ⟨es, rfl, fun shape hshape => ⟨hm.count.1 hcount shape hshape, ?_, ?_, ?_⟩⟩
  · intro k hk
    obtain ⟨d, hd, rfl⟩ := mem_map.1 (hm.keys.2 ⟨shape, hshape, hrequired shape hshape hk⟩)
    obtain ⟨f, hf, hkey, -, hreq⟩ := exists_right_of_forall₂ hfields hd
    rw [← hkey]
    refine (hv f hf).2 ?_
    rw [hreq]
    exact contains_iff_mem.2 (hm.required.2 ⟨shape, hshape, hk⟩)
  · rintro ⟨name, schema⟩ hp x hx
    obtain ⟨s, ⟨d, hd, rfl, hs⟩, hschema⟩ := hm.declares hshape hp
    obtain ⟨f, hf, hkey, hw, -⟩ := exists_right_of_forall₂ hfields hd
    have hdeclared {c : Node} (hc : c ∈ d.2) : ∃ shape ∈ shapes, (d.1, c) ∈ shape.properties :=
      hm.of_declares ⟨d, hd, rfl, hc⟩
    refine meets_of_conjunction hstems hapart hsame hw (fun a ha b hb => ?_) (fun c hc => ?_)
      ((hv f hf).1 x (by rwa [hkey])) hs hschema ?_
    · obtain ⟨shape₁, h₁, ha⟩ := hdeclared ha
      obtain ⟨shape₂, h₂, hb⟩ := hdeclared hb
      exact ⟨shape₁, h₁, shape₂, h₂, .inl ⟨d.1, ha, hb⟩⟩
    · obtain ⟨shape₁, h₁, hc⟩ := hdeclared hc
      exact (hinner shape₁ h₁).1 _ hc
    · obtain ⟨shape₁, h₁, hs⟩ := hdeclared hs
      exact ⟨shape, hshape, shape₁, h₁, .inl ⟨d.1, hp, hs⟩⟩
  · cases hadditional : shape.additional with
    | unstated | allowed => trivial
    | forbidden =>
      exact fun e he hkey => hforbidden (hm.forbidden.2 ⟨shape, hshape, hadditional⟩) e he
        (hlacks hkey)
    | typed schema =>
      intro e he hkey
      obtain ⟨s, hs, hschema⟩ := hm.extras hshape hadditional
      cases extra with
      | none =>
        obtain hnil | hforbid := hnone rfl
        · simp [hnil] at hs
        · exact absurd (hlacks hkey) (hforbidden hforbid e he)
      | some x =>
        refine meets_of_conjunction hstems hapart hsame (hextra x rfl) (fun a ha b hb => ?_)
          (fun c hc => ?_) (hbeside x rfl e he (hlacks hkey)) hs hschema ?_
        · obtain ⟨shape₁, h₁, ha⟩ := hm.of_mem_extras ha
          obtain ⟨shape₂, h₂, hb⟩ := hm.of_mem_extras hb
          exact ⟨shape₁, h₁, shape₂, h₂, .inr ⟨ha, hb⟩⟩
        · obtain ⟨shape₁, h₁, hc⟩ := hm.of_mem_extras hc
          exact (hinner shape₁ h₁).2 c hc
        · obtain ⟨shape₁, h₁, hs⟩ := hm.of_mem_extras hs
          exact ⟨shape, hshape, shape₁, h₁, .inr ⟨hadditional, hs⟩⟩

end

section

variable {ctx : Context} {root : Node} {target : Option (List String) → String → Value → Prop}

/-- What the validator of a conjunction accepts meets every branch. -/
lemma meets_of_ofAll (hdoc : ctx.doc.IsProper) (hroot : ctx.doc.Contains root)
    (hapart : ctx.doc.KeepsApart root)
    (hstems : ∀ c w, (inner c).outcome = .ok w → StemsFrom ctx.doc ctx.formats c w)
    (hinner : ∀ c, ctx.doc.Reaches root c → Enforces basis ref named inner
      (Node.Meets basis ctx.formats ctx.doc.joint target none) c)
    (htarget : ∀ {known t node v}, ctx.doc.definitions.lookup t = some node →
      Node.Meets basis ctx.formats ctx.doc.joint target known node v → target known t v)
    {site : Site} {branches : List Node} (hnode : ctx.doc.Reaches root (.allOf site branches))
    {w : Validator} (h : (ofAll inner ctx.doc branches).outcome = .ok w) {v : Value}
    (hv : Accepts basis ref named w v) :
    ∀ b ∈ branches, Node.Meets basis ctx.formats ctx.doc.joint target
      (ctx.doc.joint branches) b v := by
  unfold ofAll at h
  split at h
  next b =>
    intro b' hb'
    rw [mem_singleton.1 hb']
    exact hinner b (hnode.child mem_cons_self) h hv
  next hmany =>
    obtain ⟨flat, hflat, h⟩ := outcome_bind_eq_ok_iff.1 h
    cases flat with
    | some shapes =>
      obtain ⟨m, hm, h⟩ := outcome_bind_eq_ok_iff.1 h
      have hshapes := Shape.flattens_of_flatten hflat
      have hsame (a b : Node) (v : Value) (hab : a.same b) (hd : ctx.doc.Distinguishes a b)
          (hb : Node.Meets basis ctx.formats ctx.doc.joint target none b v) :
          Node.Meets basis ctx.formats ctx.doc.joint target none a v :=
        Node.meets_of_same a b hab hd hb
      have hrequired (shape : Shape) (hshape : shape ∈ shapes) :
          shape.required ⊆ shape.properties.map (·.1) := by
        obtain ⟨site, hobject⟩ := hshapes.exists_object (ctx.doc.isClosed_reaches root)
          (fun b hb => hnode.child hb) hshape
        exact hdoc _ (hobject.mem ctx.doc.isClosed_contains hroot)
      obtain ⟨es, rfl, hholds⟩ := holds_of_ofMerged hstems (hapart hnode hflat) hsame
        (Shape.mergedFrom_of_merge hm) h hrequired (fun shape hshape =>
          have ⟨hproperties, hadditional, _⟩ := reaches_of_flatten hflat
            (fun b hb => hnode.child hb) hshape
          ⟨fun p hp => hinner p.2 (hproperties p hp),
            fun schema hschema => hinner schema (hadditional schema hschema)⟩) hv
      rw [Resolved.joint_of_flatten hmany hflat]
      exact hshapes.meets htarget hholds
    | none =>
      obtain ⟨ws, hws, h⟩ := outcome_bind_eq_ok_iff.1 h
      cases h
      rw [Resolved.joint_of_flatten_none hflat]
      simp only [Accepts, acceptsAll_iff] at hv
      intro b hb
      obtain ⟨w, hw, hbranch⟩ := exists_right_of_forall₂ (forall₂_of_ofBranches hws) hb
      exact hinner b (hnode.child hb) hbranch (hv w hw)

/-- What the validator of a node accepts, null left aside, meets the node. -/
lemma meets_of_ofBare (hdoc : ctx.doc.IsProper) (hroot : ctx.doc.Contains root)
    (hapart : ctx.doc.KeepsApart root)
    (hstems : ∀ c w, (inner c).outcome = .ok w → StemsFrom ctx.doc ctx.formats c w)
    (hinner : ∀ c, ctx.doc.Reaches root c → Enforces basis ref named inner
      (Node.Meets basis ctx.formats ctx.doc.joint target none) c)
    (htarget : ∀ {known t node v}, ctx.doc.definitions.lookup t = some node →
      Node.Meets basis ctx.formats ctx.doc.joint target known node v → target known t v)
    (href : ∀ {site t v}, ctx.doc.Reaches root (.reference site t) → ref t v → target none t v)
    {node : Node} (hnode : ctx.doc.Reaches root node) {w : Validator}
    (h : (ofBare inner ctx node).outcome = .ok w) {v : Value}
    (hv : Accepts basis ref named w v) :
    Node.MeetsBare basis ctx.formats ctx.doc.joint target none node v := by
  cases node with
  | any _ => trivial
  | null _ | boolean _ | enum _ _ | literal _ _ =>
    cases h
    exact hv
  | string _ rules => exact (accepts_ofString_iff h).1 hv
  | number _ integer rules => exact (accepts_ofNumber_iff h).1 hv
  | array _ items rules =>
    obtain ⟨w', hsome, -, rfl⟩ := exists_items_of_ofBare h
    simp only [Accepts] at hv
    obtain ⟨xs, rfl, hlength, hunique, hitems⟩ := hv
    refine ⟨xs, rfl, hlength, hunique, fun x hx item hitem => ?_⟩
    exact hinner item (hnode.child (Option.mem_toList.2 hitem)) (hsome item hitem) (hitems x hx)
  | object _ properties required additional rules =>
    obtain ⟨es, rfl, hholds⟩ := holds_of_ofObject h
      (hdoc _ (hnode.mem ctx.doc.isClosed_contains hroot))
      (fun p hp => hinner p.2 (hnode.child (mem_append_left _ (mem_map_of_mem hp))))
      (fun schema hschema => hinner schema (hnode.child (by simp [Node.children, hschema]))) hv
    exact ⟨es, rfl, hholds.count, hholds.required, hholds.properties, hholds.additional⟩
  | anyOf _ branches | oneOf _ branches =>
    exact meets_of_ofAny h (fun b hb => hinner b (hnode.child hb)) hv
  | allOf _ branches => exact meets_of_ofAll hdoc hroot hapart hstems hinner htarget hnode h hv
  | reference site t =>
    simp only [ofBare] at h
    split at h
    · cases h
      exact href hnode hv
    · cases h

/-- What the validator of a node accepts meets the node, if references keep to that. -/
lemma meets_of_ofNodeWithin (hdoc : ctx.doc.IsProper) (hroot : ctx.doc.Contains root)
    (hapart : ctx.doc.KeepsApart root)
    (htarget : ∀ {known t node v}, ctx.doc.definitions.lookup t = some node →
      Node.Meets basis ctx.formats ctx.doc.joint target known node v → target known t v)
    (href : ∀ {site t v}, ctx.doc.Reaches root (.reference site t) → ref t v → target none t v)
    (n : Nat) (node : Node) (hnode : ctx.doc.Reaches root node) :
    Enforces basis ref named (ofNodeWithin ctx n)
      (Node.Meets basis ctx.formats ctx.doc.joint target none) node := by
  induction n generalizing node with
  | zero =>
    intro w v h
    cases h
  | succ n ih =>
    intro w v h hv
    obtain ⟨bare, hbare, h⟩ := outcome_bind_eq_ok_iff.1 h
    cases h
    rw [accepts_orNull_iff] at hv
    exact Node.meets_iff.2 (hv.imp_right (meets_of_ofBare hdoc hroot hapart
      (stemsFrom_of_ofNodeWithin n) ih htarget href hnode hbare))

end

end

end Validator

namespace Validators

section Chain

/-- A link with a tag, which only the second branch of the chain declares. -/
def chainTagged : List (Scalar × Value) :=
  [(.str "n", .int 1), (.str "tag", .str "x")]

def chainShapes : List Shape :=
  [⟨[("n", chainNumber), ("next", chainNext)], ["n"], .forbidden, {}⟩,
    ⟨[("n", chainEnum), ("tag", chainTag)], [], .unstated, {}⟩]

lemma flatten_chain :
    Shape.flatten chainDocument [chainFirst, chainSecond] = .ok (some chainShapes) := rfl

lemma accepts_chainTagged : chainValidators.Accepts lenient chainValidator (.map chainTagged) := by
  have hrules : NumberRules.Holds { exclusiveMinimum := some (.int 0) } (.int 1) := by
    constructor <;> simp [Number.lt, Number.value, ExtRat.lt]
  have hlisted : Value.IsListed [.int 1, .int 2] (.int 1) := ⟨.int 1, rfl, by decide⟩
  have hinteger : lenient.integer (.int 1) := ⟨1, rfl⟩
  refine ⟨0, ?_⟩
  simp [chainValidator, chainTagged, Validator.Accepts, Validator.AcceptsFields,
    Validator.AcceptsExtra, Validator.AcceptsAll, Value.find?, Scalar.same, Scalar.number?,
    Extent.Holds, Scalar.Lacks, Value.number?, hrules, hlisted, hinteger]
  rintro k v (⟨rfl, -⟩ | ⟨rfl, -⟩) <;> simp

/-- A schema that leads nowhere leads to itself only. -/
lemma eq_of_reaches {doc : Resolved} {leaf node : Node} (hchildren : leaf.children = [])
    (hleaf : ∀ site target, leaf ≠ .reference site target) (h : doc.Reaches leaf node) :
    node = leaf := by
  refine h.mem (P := (· = leaf)) ⟨?_, ?_⟩ rfl
  · rintro _ c rfl hc
    simp [hchildren] at hc
  · rintro site target _ heq -
    exact absurd heq.symm (hleaf site target)

lemma reaches_chain {node : Node} (h : chainDocument.Reaches chainNode node) :
    node ∈ [chainNode, chainFirst, chainSecond, chainNumber, chainNext, chainEnum, chainTag] := by
  have hnode : chainNode.children = [chainFirst, chainSecond] := rfl
  have hfirst : chainFirst.children = [chainNumber, chainNext] := rfl
  have hsecond : chainSecond.children = [chainEnum, chainTag] := rfl
  have hnumber : chainNumber.children = [] := rfl
  have hnext : chainNext.children = [] := rfl
  have henum : chainEnum.children = [] := rfl
  have htag : chainTag.children = [] := rfl
  refine h.mem ⟨fun {node c} hmem hc => ?_, fun {site target node} hmem hlookup => ?_⟩ (by simp)
  · simp only [mem_cons, not_mem_nil, or_false] at hmem ⊢
    rcases hmem with rfl | rfl | rfl | rfl | rfl | rfl | rfl <;> simp_all <;> tauto
  · obtain ⟨-, rfl⟩ : site = chainNext.site ∧ target = chainTarget := by
      simpa [chainNode, chainFirst, chainSecond, chainNumber, chainNext, chainEnum, chainTag,
        Node.site] using hmem
    cases hlookup
    simp

lemma distinguishes_chain {a b : Node} (h : Shape.Together chainShapes a b) (hne : a ≠ b) :
    chainDocument.Distinguishes a b := by
  have hnumber {node : Node} (h : chainDocument.Reaches chainNumber node) : node = chainNumber :=
    eq_of_reaches rfl (by simp [chainNumber]) h
  have henum {node : Node} (h : chainDocument.Reaches chainEnum node) : node = chainEnum :=
    eq_of_reaches rfl (by simp [chainEnum]) h
  -- Both branches declare the number, and nothing else.
  have hpair : a = chainNumber ∧ b = chainEnum ∨ a = chainEnum ∧ b = chainNumber := by
    simp only [Shape.Together, chainShapes, mem_cons, not_mem_nil, or_false,
      exists_eq_or_imp, exists_eq_left, Prod.mk.injEq] at h
    grind
  constructor
  · intro a' b' ha hb hsame
    obtain ⟨rfl, rfl⟩ | ⟨rfl, rfl⟩ := hpair
    · rw [hnumber ha, henum hb] at hsame
      simp [Node.listed, chainNumber, chainEnum, Node.sameScalars] at hsame
    · rw [henum ha, hnumber hb] at hsame
      simp [Node.listed, chainNumber, chainEnum, Node.sameScalars] at hsame
  · intro site items rules site' items' rules' ha
    obtain ⟨rfl, rfl⟩ | ⟨rfl, rfl⟩ := hpair
    · simpa [chainNumber] using hnumber ha
    · simpa [chainEnum] using henum ha

lemma keepsApart_chain : chainDocument.KeepsApart chainNode := by
  intro site branches shapes a b hreaches hflat htogether hne
  obtain ⟨-, hbranches⟩ : site = chainNode.site ∧ branches = [chainFirst, chainSecond] := by
    simpa [chainNode, chainFirst, chainSecond, chainNumber, chainNext, chainEnum, chainTag,
      Node.site] using reaches_chain hreaches
  rw [hbranches, flatten_chain] at hflat
  cases hflat
  exact distinguishes_chain htogether hne

end Chain

end Validators

end ApiSchema
