import ApiSchema.Proofs.Meaning.Node
import ApiSchema.Proofs.Meaning.Resemblance
import ApiSchema.Proofs.Schema.WellFormed

/-!
# Schemas and validators that compare the same

Schemas and validators are compared with numbers and truth values by value, so what compares the same
need not mean the same: `1` and `true` are different listed values. Main statements: schemas that
compare the same are met by the same values, and validators that compare the same accept the same
values, if the lists of values in them are also the same as JSON values.
-/

namespace ApiSchema

open List

variable {v : Value}

/-! ### Scalars and numbers -/

namespace Scalar

/-- What a scalar is compared by. -/
def sameKey : Scalar → Scalar ⊕ ExtRat
  | .bool b => .inr (.rat (if b then 1 else 0))
  | .int i => .inr (.rat i)
  | .float x => .inr x.value
  | s => .inl s

/-- What a scalar is compared by as a JSON value. -/
def jsonKey : Scalar → Scalar ⊕ ExtRat
  | .int i => .inr (.rat i)
  | .float x => .inr x.value
  | s => .inl s

lemma same_iff {a b : Scalar} : a.same b ↔ a.sameKey = b.sameKey := by
  cases a <;> cases b <;> simp [same, number?, sameKey, Number.same, Number.value]

lemma jsonSame_iff {a b : Scalar} : a.jsonSame b ↔ a.jsonKey = b.jsonKey := by
  cases a <;> cases b <;>
    simp [jsonSame, same, number?, jsonKey, Number.same, Number.value]

lemma map_value_number?_of_same {a b : Scalar} (h : a.same b) :
    a.number?.map Number.value = b.number?.map Number.value := by
  rw [same_iff] at h
  cases a <;> cases b <;> simp_all [sameKey, number?, Number.value]

lemma eq_str_iff_of_same {a b : Scalar} (h : a.same b) {s : String} : a = .str s ↔ b = .str s := by
  rw [same_iff] at h
  cases a <;> cases b <;> simp_all [sameKey]

end Scalar

/-- What all members of one option have in common with the members of another. -/
lemma forall_mem_iff_of_map_eq {α β : Type} {f : α → β} {o o' : Option α} (h : o.map f = o'.map f)
    {P : α → Prop} (hP : ∀ {a a'}, f a = f a' → (P a ↔ P a')) :
    (∀ a ∈ o, P a) ↔ ∀ a ∈ o', P a := by
  match o, o' with
  | none, none => rfl
  | some a, some a' => simpa using hP (Option.some.inj h)

namespace Node

variable {a b : Option Value}

lemma map_value_of_sameBound {a b : Option Number} (h : sameBound a b) :
    a.map Number.value = b.map Number.value := by
  cases a <;> cases b <;> simp_all [sameBound, Number.same]

lemma map_value_of_sameRule (h : sameRule a b) :
    (a.bind Value.bound?).map Number.value = (b.bind Value.bound?).map Number.value := by
  match a, b with
  | none, none => rfl
  | none, some _ | some _, none => simp [sameRule] at h
  | some v, some w =>
    cases v <;> cases w <;> simp_all [sameRule, Value.same, Value.bound?]
    exact Scalar.map_value_number?_of_same h

lemma eq_str_iff_of_sameRule (h : sameRule a b) {s : String} :
    a = some (.str s) ↔ b = some (.str s) := by
  match a, b with
  | none, none => rfl
  | none, some _ | some _, none => simp [sameRule] at h
  | some v, some w =>
    cases v <;> cases w <;> simp_all [sameRule, Value.same, Value.str]
    exact Scalar.eq_str_iff_of_same h

end Node

/-! ### Constraints -/

lemma Extent.agrees_of_same {e e' : Extent} (h : e.same e') : e.Agrees e' := by
  simp only [Extent.same, Bool.and_eq_true] at h
  intro count
  refine and_congr (forall_mem_iff_of_map_eq (Node.map_value_of_sameRule h.1) fun ha => ?_)
    (forall_mem_iff_of_map_eq (Node.map_value_of_sameRule h.2) fun ha => ?_)
  · simp only [Number.le, Number.lt, ha]
  · simp only [Number.le, Number.lt, ha]

lemma NumberRules.agrees_of_same {a b : NumberRules} (h : a.same b) : a.Agrees b := by
  simp only [NumberRules.same, Bool.and_eq_true] at h
  obtain ⟨⟨⟨⟨hmin, hmax⟩, hmin'⟩, hmax'⟩, hstep⟩ := h
  have hbound {a b : Option Number} (h : Node.sameBound a b) {P : Number → Prop}
      (hP : ∀ {x y : Number}, x.value = y.value → (P x ↔ P y)) :
      (∀ x ∈ a, P x) ↔ ∀ x ∈ b, P x :=
    forall_mem_iff_of_map_eq (Node.map_value_of_sameBound h) hP
  intro n
  have h₁ := hbound hmin (P := (·.le n)) fun h => by simp only [Number.le, Number.lt, h]
  have h₂ := hbound hmax (P := (n.le ·)) fun h => by simp only [Number.le, Number.lt, h]
  have h₃ := hbound hmin' (P := (·.lt n)) fun h => by simp only [Number.lt, h]
  have h₄ := hbound hmax' (P := (n.lt ·)) fun h => by simp only [Number.lt, h]
  have h₅ := hbound hstep (P := (n.IsMultipleOf ·)) fun h => by simp only [Number.IsMultipleOf, h]
  exact ⟨fun h => ⟨h₁.1 h.1, h₂.1 h.2, h₃.1 h.3, h₄.1 h.4, h₅.1 h.5⟩,
    fun h => ⟨h₁.2 h.1, h₂.2 h.2, h₃.2 h.3, h₄.2 h.4, h₅.2 h.5⟩⟩

lemma StringRules.Holds.of_same {basis : Basis} {formats : Format.Registry} {a b : StringRules}
    (hlength : (Extent.mk a.minLength a.maxLength).same ⟨b.minLength, b.maxLength⟩)
    (hpattern : Node.sameRule a.pattern b.pattern) (hformat : Node.sameRule a.format b.format)
    (hv : b.Holds basis formats v) : a.Holds basis formats v := by
  have hcustom : a.custom? formats = b.custom? formats := by
    unfold custom?
    split
    next f hf => rw [(Node.eq_str_iff_of_sameRule hformat).1 hf]
    next hf =>
      split
      next f hf' => exact absurd ((Node.eq_str_iff_of_sameRule hformat).2 hf') (hf f)
      next => rfl
  unfold Holds at hv ⊢
  rw [hcustom]
  split at hv
  · exact hv
  · obtain ⟨s, rfl, hs, hp, hf⟩ := hv
    refine ⟨s, rfl, (Extent.agrees_of_same hlength _).2 hs, fun p h => hp p ?_, fun f h => hf f ?_⟩
    · exact (Node.eq_str_iff_of_sameRule hpattern).1 h
    · exact (Node.eq_str_iff_of_sameRule hformat).1 h

/-- Two lists of the same JSON values. -/
def SameListed (values values' : List Scalar) : Prop :=
  List.Forall₂ (fun s t => s.jsonSame t) values values'

lemma Value.IsListed.of_same {values values' : List Scalar} (h : SameListed values values')
    (hv : v.IsListed values') : v.IsListed values := by
  obtain ⟨s, rfl, hs⟩ := hv
  refine ⟨s, rfl, ?_⟩
  induction h with
  | nil => exact hs
  | cons hab _ ih =>
    simp only [any_cons, Bool.or_eq_true] at hs ⊢
    refine hs.imp (fun hs => ?_) ih
    rw [Scalar.jsonSame_iff] at hab hs ⊢
    exact hs.trans hab.symm

/-! ### Validators -/

namespace Validator

/-- Lists of values in two validators that compare the same are the same. -/
def Distinguishes (w w' : Validator) : Prop :=
  ∀ values values', w.Part (.literal values) → w'.Part (.literal values') →
    Node.sameScalars values values' → SameListed values values'

lemma Distinguishes.child {w w' c d : Validator} (h : w.Distinguishes w') (hc : c ∈ w.children)
    (hd : d ∈ w'.children) : c.Distinguishes d :=
  fun values values' hl hl' => h values values' (hl.of_child hc) (hl'.of_child hd)

lemma forall₂_of_sameAll {ws ws' : List Validator} (h : sameAll ws ws') :
    Forall₂ (fun w w' => w.same w') ws ws' :=
  forall₂_of_itemwise (by simp [sameAll]) (by simp [sameAll]) (by simp [sameAll]) h

lemma forall₂_of_sameFields {fs fs' : List (FieldOf Validator)} (h : sameFields fs fs') :
    Forall₂ (fun f f' => f'.key = f.key ∧ f'.required = f.required ∧
      f.validator.same f'.validator) fs fs' := by
  refine forall₂_of_itemwise (by simp [sameFields]) (by simp [sameFields]) ?_ h
  rintro ⟨_, _, _⟩ ⟨_, _, _⟩ _ _ h
  simp only [sameFields, Bool.and_eq_true, beq_iff_eq] at h
  exact ⟨⟨h.1.1.1.symm, h.1.2.symm, h.1.1.2⟩, h.2⟩

/-- Validators that compare the same list values, or they are of one kind and demand the same, and
their children compare the same. -/
lemma cases_of_same {w w' : Validator} (h : w.same w') :
    (∃ values values', w = .literal values ∧ w' = .literal values' ∧
      Node.sameScalars values values') ∨
    Resembles w w' ∧ Forall₂ (fun c c' => c.same c') w.children w'.children := by
  cases w <;> cases w' <;>
    simp only [same, Bool.and_eq_true, beq_iff_eq, Bool.false_eq_true] at h
  case any.any | null.null | boolean.boolean => exact .inr ⟨.refl _, .nil⟩
  case custom.custom | ref.ref | named.named =>
    subst h
    exact .inr ⟨.refl _, .nil⟩
  case literal.literal values values' => exact .inl ⟨values, values', rfl, rfl, h⟩
  case string.string =>
    obtain ⟨⟨hlength, rfl⟩, rfl⟩ := h
    exact .inr ⟨.string _ _ (Extent.agrees_of_same hlength), .nil⟩
  case number.number =>
    obtain ⟨rfl, hrules⟩ := h
    exact .inr ⟨.number _ (NumberRules.agrees_of_same hrules), .nil⟩
  case array.array =>
    obtain ⟨⟨hitems, hlength⟩, rfl⟩ := h
    exact .inr ⟨.array _ (Extent.agrees_of_same hlength), .cons hitems .nil⟩
  case record.record =>
    exact .inr ⟨.record (Extent.agrees_of_same h.2), .cons h.1 .nil⟩
  case object.object fields _ extra _ fields' _ extra' _ =>
    obtain ⟨⟨⟨hfields, rfl⟩, hextra⟩, hcount⟩ := h
    replace hfields := forall₂_of_sameFields hfields
    have hheads : fields'.map fieldHead = fields.map fieldHead :=
      map_eq_map_of_forall₂ hfields fun h => Prod.ext h.1 h.2.1
    refine .inr ⟨.object _ hheads.symm (Extent.agrees_of_same hcount),
      (forall₂_children_object hheads.symm).2 ⟨hfields, ?_⟩⟩
    cases extra <;> cases extra' <;> simp only [sameExtra, reduceCtorEq] at hextra
    · exact .nil
    · exact .cons hextra .nil
  case union.union => exact .inr ⟨.union, forall₂_of_sameAll h⟩
  case intersection.intersection => exact .inr ⟨.intersection, forall₂_of_sameAll h⟩
  case nullable.nullable => exact .inr ⟨.nullable, .cons h .nil⟩

/-- A validator accepts what one that compares the same accepts. -/
lemma accepts_of_same {basis : Basis} {ref named : String → Value → Prop} (w w' : Validator)
    (h : w.same w') (hd : w.Distinguishes w') {v : Value} (hv : Accepts basis ref named w' v) :
    Accepts basis ref named w v := by
  induction w using children_induction generalizing w' v with
  | step w ih =>
    obtain ⟨values, values', rfl, rfl, hvalues⟩ | ⟨hresembles, hchildren⟩ := cases_of_same h
    · exact Value.IsListed.of_same (hd _ _ .refl .refl hvalues) hv
    · refine hresembles.symm.accepts (fun _ _ _ => id) (fun _ _ _ => id) ?_ hv
      refine (forall₂_imp_of_mem_of_mem hchildren fun c hc c' hc' hsame x hx => ?_).flip
      exact ih c hc c' hsame (hd.child hc hc') hx

end Validator

/-! ### Schemas -/

namespace Resolved

/-- A schema leads to another, inside or by reference. -/
inductive Reaches (doc : Resolved) (root : Node) : Node → Prop
  | refl : doc.Reaches root root
  | child {node c : Node} (h : doc.Reaches root node) (hc : c ∈ node.children) : doc.Reaches root c
  | target {site : Site} {target : String} {node : Node}
    (h : doc.Reaches root (.reference site target))
    (hnode : doc.definitions.lookup target = some node) : doc.Reaches root node

lemma isClosed_reaches (doc : Resolved) (root : Node) : doc.IsClosed (doc.Reaches root) where
  child := .child
  target := .target

/-- What a closed set of schemas leads to belongs to it. -/
lemma Reaches.mem {doc : Resolved} {P : Node → Prop} (hP : doc.IsClosed P) {root node : Node}
    (hroot : P root) (h : doc.Reaches root node) : P node := by
  induction h with
  | refl => exact hroot
  | child _ hc ih => exact hP.child ih hc
  | target _ hnode ih => exact hP.target ih hnode

end Resolved

/-- The values that a schema lists. -/
def Node.listed : Node → List Scalar
  | .enum _ values => values
  | .literal _ values => values
  | _ => []

/-- Lists of values that two schemas lead to are the same if they compare the same, and so are
demands that items be unique. -/
structure Resolved.Distinguishes (doc : Resolved) (a b : Node) : Prop where
  listed : ∀ {a' b'}, doc.Reaches a a' → doc.Reaches b b' →
    Node.sameScalars a'.listed b'.listed → SameListed a'.listed b'.listed
  unique : ∀ {site items rules site' items' rules'}, doc.Reaches a (.array site items rules) →
    doc.Reaches b (.array site' items' rules') →
    Node.sameRule rules.uniqueItems rules'.uniqueItems → rules.isUnique = rules'.isUnique

lemma Resolved.Distinguishes.child {doc : Resolved} {a b c c' : Node} (h : doc.Distinguishes a b)
    (hc : c ∈ a.children) (hc' : c' ∈ b.children) : doc.Distinguishes c c' where
  listed hr hr' := h.listed (hr.mem (doc.isClosed_reaches a) (.child .refl hc))
    (hr'.mem (doc.isClosed_reaches b) (.child .refl hc'))
  unique hr hr' := h.unique (hr.mem (doc.isClosed_reaches a) (.child .refl hc))
    (hr'.mem (doc.isClosed_reaches b) (.child .refl hc'))

/-! ### Branches that compare the same -/

namespace Node

lemma forall₂_of_sameBranches {as bs : List Node} (h : sameBranches as bs) :
    Forall₂ (fun a b => a.same b) as bs :=
  forall₂_of_itemwise (by simp [sameBranches]) (by simp [sameBranches]) (by simp [sameBranches]) h

lemma forall₂_of_sameProperties {ps qs : List (String × Node)} (h : sameProperties ps qs) :
    Forall₂ (fun p q => p.1 = q.1 ∧ p.2.same q.2) ps qs := by
  refine forall₂_of_itemwise (by simp [sameProperties]) (by simp [sameProperties]) ?_ h
  rintro ⟨_, _⟩ ⟨_, _⟩ _ _ h
  simpa [sameProperties] using h

end Node

namespace Resolved

section

variable {doc : Resolved} {follow : List String → List Node → Except Fault (Option (List Shape))}

lemma names?_ofBranches_cons (stack : List String) (b : Node) (rest : List Node) :
    names? (Shape.ofBranches doc follow stack (b :: rest)) =
      (names? (Shape.ofBranch doc follow stack b)).bind fun names =>
        (names? (Shape.ofBranches doc follow stack rest)).map (names ++ ·) := by
  simp only [Shape.ofBranches]
  split
  next h => simp [h, names?]
  next h => simp [h, names?]
  next shapes h =>
    split
    next h' => simp [h, h', names?]
    next others h' => cases others <;> simp [h, h', names?]

lemma names?_ofTarget_eq (stack : List String) (pointer pointer' target : String) :
    names? (Shape.ofTarget doc follow stack pointer target) =
      names? (Shape.ofTarget doc follow stack pointer' target) := by
  unfold Shape.ofTarget
  split <;> rfl

mutual

lemma names?_ofBranch_of_same (a b : Node) (h : a.same b) (stack : List String) :
    names? (Shape.ofBranch doc follow stack a) = names? (Shape.ofBranch doc follow stack b) := by
  match a with
  | .object site properties required additional rules =>
    obtain ⟨site', properties', required', additional', rules', rfl, hsite, hproperties⟩ :
        ∃ site' properties' required' additional' rules',
          b = .object site' properties' required' additional' rules' ∧
            site.nullable = site'.nullable ∧ Node.sameProperties properties properties' := by
      cases b <;> simp_all [Node.same]
    have hkeys := map_eq_map_of_forall₂ (Node.forall₂_of_sameProperties hproperties)
      fun h => h.1.symm
    simp only [Shape.ofBranch, hsite]
    split <;> simp [names?, hkeys]
  | .allOf site branches =>
    obtain ⟨site', branches', rfl, hsite, hbranches⟩ : ∃ site' branches',
        b = .allOf site' branches' ∧ site.nullable = site'.nullable ∧
          Node.sameBranches branches branches' := by
      cases b <;> simp_all [Node.same]
    simp only [Shape.ofBranch, hsite]
    split
    · rfl
    · exact names?_ofBranches_of_same branches branches' hbranches stack
  | .reference site target =>
    obtain ⟨site', rfl, hsite⟩ : ∃ site', b = .reference site' target ∧
        site.nullable = site'.nullable := by
      cases b <;> simp_all [Node.same]
    simp only [Shape.ofBranch, hsite]
    split
    · rfl
    · exact names?_ofTarget_eq stack _ _ target
  | .any _ | .null _ | .boolean _ | .string _ _ | .number _ _ _ | .array _ _ _ | .anyOf _ _
  | .oneOf _ _ | .enum _ _ | .literal _ _ =>
    cases b <;> simp_all [Node.same, Shape.ofBranch]

lemma names?_ofBranches_of_same (as bs : List Node) (h : Node.sameBranches as bs)
    (stack : List String) :
    names? (Shape.ofBranches doc follow stack as) =
      names? (Shape.ofBranches doc follow stack bs) := by
  match as, bs with
  | [], [] => rfl
  | [], _ :: _ | _ :: _, [] => simp [Node.sameBranches] at h
  | a :: as, b :: bs =>
    simp only [Node.sameBranches, Bool.and_eq_true] at h
    rw [names?_ofBranches_cons, names?_ofBranches_cons, names?_ofBranch_of_same a b h.1 stack,
      names?_ofBranches_of_same as bs h.2 stack]

end

end

/-- Branches that compare the same declare the same names. -/
lemma joint_eq_of_sameBranches (doc : Resolved) {as bs : List Node} (h : Node.sameBranches as bs) :
    doc.joint as = doc.joint bs := by
  match as, bs with
  | [], [] => rfl
  | [], _ :: _ | _ :: _, [] => simp [Node.sameBranches] at h
  | [_], [_] => rfl
  | [_], _ :: _ :: _ | _ :: _ :: _, [_] => simp [Node.sameBranches] at h
  | a :: a' :: as, b :: b' :: bs => exact names?_ofBranches_of_same _ _ h []

end Resolved

/-! ### Meaning -/

namespace Node

lemma nullable_eq_of_same {a b : Node} (h : a.same b) : a.nullable = b.nullable := by
  cases a <;> cases b <;> simp_all [same, nullable, site]

/-- What meets a schema meets one that compares the same. -/
lemma meets_of_same {doc : Resolved} {basis : Basis} {formats : Format.Registry}
    {ref : Option (List String) → String → Value → Prop} (a b : Node) (h : a.same b)
    (hd : doc.Distinguishes a b) {known : Option (List String)} {v : Value}
    (hv : Meets basis formats doc.joint ref known b v) :
    Meets basis formats doc.joint ref known a v := by
  induction a using children_induction generalizing b known v with
  | step a ih =>
  have hchild {c c' : Node} (hc : c ∈ a.children) (hc' : c' ∈ b.children) (hsame : c.same c')
      {known : Option (List String)} {x : Value}
      (hx : Meets basis formats doc.joint ref known c' x) :
      Meets basis formats doc.joint ref known c x :=
    ih c hc c' hsame (hd.child hc hc') hx
  clear ih
  rw [meets_iff, ← nullable_eq_of_same h] at hv
  rw [meets_iff]
  refine hv.imp_right ?_
  clear hv
  intro hv
  cases a with
  | any _ | null _ | boolean _ | reference _ _ =>
    clear hchild hd
    cases b <;> simp_all [same, MeetsBare]
  | string site rules =>
    obtain ⟨site', rules', rfl, hlength, hpattern, hformat⟩ : ∃ site' rules',
        b = .string site' rules' ∧
          (Extent.mk rules.minLength rules.maxLength).same ⟨rules'.minLength, rules'.maxLength⟩ ∧
          sameRule rules.pattern rules'.pattern ∧ sameRule rules.format rules'.format := by
      clear hchild hd hv
      cases b <;> simp_all [same, Extent.same]
    exact StringRules.Holds.of_same hlength hpattern hformat hv
  | number site integer rules =>
    obtain ⟨site', rules', rfl, hrules⟩ : ∃ site' rules',
        b = .number site' integer rules' ∧ rules.same rules' := by
      clear hchild hd hv
      cases b <;> simp_all [same, NumberRules.same]
    obtain ⟨n, hn, hinteger, hv⟩ := hv
    exact ⟨n, hn, hinteger, (NumberRules.agrees_of_same hrules n).2 hv⟩
  | array site items rules =>
    obtain ⟨site', items', rules', rfl, hitems, hlength, hunique⟩ : ∃ site' items' rules',
        b = .array site' items' rules' ∧ sameOption items items' ∧
          (Extent.mk rules.minItems rules.maxItems).same ⟨rules'.minItems, rules'.maxItems⟩ ∧
          sameRule rules.uniqueItems rules'.uniqueItems := by
      clear hchild hd hv
      cases b <;> simp_all [same, Extent.same]
    obtain ⟨xs, rfl, hxs, hunique', hv⟩ := hv
    refine ⟨xs, rfl, (Extent.agrees_of_same hlength _).2 hxs, ?_, fun x hx c hc => ?_⟩
    · rwa [hd.unique .refl .refl hunique]
    · cases hc
      cases items' with
      | none => simp [sameOption] at hitems
      | some c' =>
        rw [sameOption] at hitems
        exact hchild mem_cons_self mem_cons_self hitems (hv x hx c' rfl)
  | object site properties required additional rules =>
    obtain ⟨site', properties', required', additional', rules', rfl, hproperties, hrequired,
        hadditional, hcount⟩ : ∃ site' properties' required' additional' rules',
          b = .object site' properties' required' additional' rules' ∧
          sameProperties properties properties' ∧ sameNames required required' ∧
          sameAdditional additional additional' ∧
          (Validator.countOf rules).same (Validator.countOf rules') := by
      clear hchild hd hv
      cases b <;> simp_all [same, Extent.same, Validator.countOf]
    replace hproperties := forall₂_of_sameProperties hproperties
    have hkeys := map_eq_map_of_forall₂ hproperties fun h => h.1.symm
    simp only [sameNames, Bool.and_eq_true, all_eq_true, contains_iff_mem] at hrequired
    obtain ⟨es, rfl, hes, hv, hv', hv''⟩ := hv
    refine ⟨es, rfl, (Extent.agrees_of_same hcount _).2 hes, fun k hk => hv k (hrequired.1 k hk), fun p hp x hx => ?_, ?_⟩
    · obtain ⟨q, hq, hkey, hsame⟩ := exists_right_of_forall₂ hproperties hp
      exact hchild (mem_append_left _ (mem_map_of_mem hp))
        (mem_append_left _ (mem_map_of_mem hq)) hsame (hv' q hq x (hkey ▸ hx))
    · rw [← hkeys]
      cases additional with
      | unstated | allowed => trivial
      | forbidden =>
        obtain rfl : additional' = .forbidden := by cases additional' <;> simp_all [sameAdditional]
        exact hv''
      | typed c =>
        obtain ⟨c', rfl, hsame⟩ : ∃ c', additional' = .typed c' ∧ c.same c' := by
          clear hchild hd hv hv' hv''
          cases additional' <;> simp_all [sameAdditional]
        exact fun e he hlacks => hchild (by simp [children]) (by simp [children]) hsame
          (hv'' e he hlacks)
  | anyOf site branches | oneOf site branches =>
    obtain ⟨branches', hbranches, hchildren, hv⟩ : ∃ branches', sameBranches branches branches' ∧
        b.children = branches' ∧ ∃ b' ∈ branches', Meets basis formats doc.joint ref none b' v := by
      clear hchild hd
      cases b <;> simp_all [same, MeetsBare, children]
    obtain ⟨b', hb', hv⟩ := hv
    obtain ⟨c, hc, hsame⟩ := exists_left_of_forall₂ (forall₂_of_sameBranches hbranches) hb'
    exact ⟨c, hc, hchild hc (hchildren ▸ hb') hsame hv⟩
  | allOf site branches =>
    obtain ⟨site', branches', rfl, hbranches⟩ : ∃ site' branches',
        b = .allOf site' branches' ∧ sameBranches branches branches' := by
      clear hchild hd hv
      cases b <;> simp_all [same]
    intro c hc
    obtain ⟨c', hc', hsame⟩ := exists_right_of_forall₂ (forall₂_of_sameBranches hbranches) hc
    rw [doc.joint_eq_of_sameBranches hbranches]
    exact hchild hc hc' hsame (hv c' hc')
  | enum site values | literal site values =>
    obtain ⟨hvalues, hv⟩ : sameScalars values b.listed ∧ v.IsListed b.listed := by
      clear hchild hd
      cases b <;> simp_all [same, MeetsBare, listed]
    exact Value.IsListed.of_same (hd.listed .refl .refl hvalues) hv

end Node

end ApiSchema
