import ApiSchema.Proofs.Meaning.Validator
import ApiSchema.Proofs.Validator.Bounds
import ApiSchema.Proofs.Validator.Merge

/-!
# Validators of schemas, piece by piece

What the validator of a node is made of, given the validators of the nodes inside, and what strings,
numbers and null come to.
-/

namespace ApiSchema

open List Traced

namespace Validator

variable {basis : Basis} {ref named : String → Value → Prop}

variable {w : Validator} {v : Value} {pointer : String} {rule : Option Value}
  {formats : Format.Registry}

/-! ### Null -/

mutual

/-- A validator that is seen to admit null accepts it. -/
lemma accepts_null_of_admitsNull (w : Validator) (h : w.admitsNull) :
    Accepts basis ref named w .null := by
  match w with
  | .any | .null | .nullable _ => simp [Accepts]
  | .union branches =>
    simp only [admitsNull] at h
    simp only [Accepts]
    exact acceptsSome_null_of_admitNull branches h
  | .boolean | .string _ _ _ | .custom _ | .number _ _ | .literal _ | .array _ _ _ | .record _ _
  | .object _ _ _ _ | .intersection _ | .ref _ | .named _ => simp [admitsNull] at h

lemma acceptsSome_null_of_admitNull (branches : List Validator) (h : admitNull branches) :
    AcceptsSome basis ref named branches .null := by
  match branches with
  | [] => simp [admitNull] at h
  | w :: rest =>
    simp only [admitNull, Bool.or_eq_true] at h
    simp only [AcceptsSome]
    exact h.imp (accepts_null_of_admitsNull w) (acceptsSome_null_of_admitNull rest)

end

/-- Null is added where it is allowed and not admitted anyway. -/
lemma accepts_orNull_iff {nullable : Bool} :
    Accepts basis ref named (if nullable && !w.admitsNull then .nullable w else w) v ↔
      nullable ∧ v = .null ∨ Accepts basis ref named w v := by
  cases nullable with
  | false => simp
  | true =>
    cases hnull : w.admitsNull with
    | false => simp [Accepts]
    | true =>
      simp only [Bool.not_true, Bool.and_false, Bool.false_eq_true, if_false, true_and,
        iff_or_self]
      rintro rfl
      exact accepts_null_of_admitsNull w hnull

/-! ### Strings and numbers -/

lemma mem_of_checkPattern {pattern : Option String} (h : checkPattern pointer rule = .ok pattern)
    {p : String} : p ∈ pattern ↔ rule = some (.str p) := by
  unfold checkPattern at h
  split at h
  · cases h
    simp
  · split at h
    · cases h
      simp [eq_comm]
    · cases h
    · cases h
    · cases h
  · cases h

/-- What becomes of a format: it is known from outside, it is supported, or it is neither. -/
lemma useFormat_cases {use : FormatUse} (h : (useFormat formats pointer rule).outcome = .ok use) :
    (∃ f name, use = .custom name ∧ rule = some (.str f) ∧ formats.lookup f = some name) ∨
      (∃ f, use = .checked f ∧ rule = some (.str f) ∧ formats.lookup f = none ∧
        f ∈ Format.supported) ∨
      use = .ignored ∧ ∀ f, rule = some (.str f) → formats.lookup f = none ∧
        f ∉ Format.supported := by
  unfold useFormat at h
  split at h
  · cases h
    exact .inr (.inr ⟨rfl, by simp⟩)
  next v =>
    split at h
    · cases h
    split at h
    · split at h
      next hname =>
        cases h
        exact .inl ⟨_, _, rfl, rfl, hname⟩
      next hname =>
        split at h
        next hsupported =>
          cases h
          exact .inr (.inl ⟨_, rfl, rfl, hname, by simpa using hsupported⟩)
        next hsupported =>
          cases h
          refine .inr (.inr ⟨rfl, ?_⟩)
          rintro f ⟨⟩
          exact ⟨hname, by simpa using hsupported⟩
    next hother =>
      cases h
      refine .inr (.inr ⟨rfl, ?_⟩)
      rintro f ⟨⟩
      exact absurd rfl (hother f)

/-- The validator of a string schema accepts what its rules demand. -/
lemma accepts_ofString_iff {rules : StringRules}
    (h : (ofString formats pointer rules).outcome = .ok w) :
    Accepts basis ref named w v ↔ rules.Holds basis formats v := by
  obtain ⟨pattern, hpattern, h⟩ := outcome_bind_eq_ok_iff.1 h
  obtain ⟨use, huse, h⟩ := outcome_bind_eq_ok_iff.1 h
  have hmem (p : String) : p ∈ pattern ↔ rules.pattern = some (.str p) :=
    mem_of_checkPattern hpattern
  obtain ⟨f, name, rfl, hf, hname⟩ | ⟨f, rfl, hf, hname, hsupported⟩ | ⟨rfl, hignored⟩ :=
    useFormat_cases huse
  · cases h
    simp [StringRules.Holds, StringRules.custom?, Accepts, hf, hname]
  · cases h
    simp [StringRules.Holds, StringRules.custom?, Accepts, hf, hname, hmem, hsupported]
  · cases h
    have hcustom : rules.custom? formats = none := by
      unfold StringRules.custom?
      split
      next f hf => exact (hignored f hf).1
      next => rfl
    have hformat (s : String) : ∀ f, rules.format = some (.str f) → f ∈ Format.supported →
        basis.format f s := fun f hf hsupported => absurd hsupported (hignored f hf).2
    simp only [StringRules.Holds, hcustom, Accepts, hmem]
    refine exists_congr fun s => and_congr_right fun _ => and_congr_right fun _ =>
      and_congr_right fun _ => ?_
    exact iff_of_true (by simp) (hformat s)

/-- The validator of a numeric schema accepts what its kind and rules demand. -/
lemma accepts_ofNumber_iff {integer : Bool} {rules : NumberRules}
    (h : ofNumber integer rules = .ok w) :
    Accepts basis ref named w v ↔
      ∃ n, v.number? = some n ∧ (integer → basis.integer n) ∧ rules.Holds n := by
  unfold ofNumber at h
  split at h
  next hinteger =>
    obtain ⟨normal, hnormal, rfl⟩ := Except.map_eq_ok_iff.1 h
    simp only [Accepts, hinteger]
    refine exists_congr fun n => and_congr_right fun _ => and_congr_right fun hn => ?_
    obtain ⟨i, hi⟩ := basis.integral (hn trivial)
    exact NumberRules.holds_iff_of_ofInteger hnormal hi
  next hinteger =>
    cases h
    simp [Accepts, hinteger]

/-! ### Trees -/

section

variable {inner : Node → Making Validator}

variable {required : List String} {properties : List (String × Node)}
  {fields : List (FieldOf Validator)} {w : Validator} {nodes : List Node}

lemma forall₂_of_ofBranches {branches : List Node} {ws : List Validator}
    (h : (ofBranches inner branches).outcome = .ok ws) :
    Forall₂ (fun b w => (inner b).outcome = .ok w) branches ws := by
  induction branches generalizing ws with
  | nil =>
    cases h
    exact .nil
  | cons b rest ih =>
    obtain ⟨w, hw, h⟩ := outcome_bind_eq_ok_iff.1 h
    obtain ⟨ws, hws, h⟩ := outcome_bind_eq_ok_iff.1 h
    cases h
    exact .cons hw (ih hws)

/-- A field stands for a property. -/
def FieldFor (inner : Node → Making Validator) (required : List String) (p : String × Node)
    (f : FieldOf Validator) : Prop :=
  f.key = p.1 ∧ (inner p.2).outcome = .ok f.validator ∧ f.required = required.contains p.1

lemma forall₂_of_ofProperties (h : (ofProperties inner required properties).outcome = .ok fields) :
    Forall₂ (FieldFor inner required) properties fields := by
  induction properties generalizing fields with
  | nil =>
    cases h
    exact .nil
  | cons p rest ih =>
    obtain ⟨w, hw, h⟩ := outcome_bind_eq_ok_iff.1 h
    obtain ⟨fields, hfields, h⟩ := outcome_bind_eq_ok_iff.1 h
    cases h
    exact .cons ⟨rfl, hw, rfl⟩ (ih hfields)

lemma forall₂_of_ofDeclared {declared : List (String × List Node)}
    (h : (ofDeclared inner required declared).outcome = .ok fields) :
    Forall₂ (fun d f => f.key = d.1 ∧ (conjunction inner d.2).outcome = .ok f.validator ∧
      f.required = required.contains d.1) declared fields := by
  induction declared generalizing fields with
  | nil =>
    cases h
    exact .nil
  | cons d rest ih =>
    obtain ⟨w, hw, h⟩ := outcome_bind_eq_ok_iff.1 h
    obtain ⟨fields, hfields, h⟩ := outcome_bind_eq_ok_iff.1 h
    cases h
    exact .cons ⟨rfl, hw, rfl⟩ (ih hfields)

/-- The validator of an array schema has a validator for its items: any value passes where no schema
is given. -/
lemma exists_items_of_ofBare {ctx : Context} {site : Site} {items : Option Node}
    {rules : ArrayRules} (h : (ofBare inner ctx (.array site items rules)).outcome = .ok w) :
    ∃ w', (∀ node ∈ items, (inner node).outcome = .ok w') ∧ (items = none → w' = .any) ∧
      w = .array w' ⟨rules.minItems, rules.maxItems⟩ rules.isUnique := by
  cases items with
  | none =>
    cases h
    refine ⟨.any, by simp, fun _ => rfl, congrArg (array _ _) ?_⟩
    unfold ArrayRules.isUnique
    cases rules.uniqueItems <;> rfl
  | some node =>
    obtain ⟨w', hw', h⟩ := outcome_bind_eq_ok_iff.1 h
    cases h
    refine ⟨w', by simpa using hw', by simp, congrArg (array _ _) ?_⟩
    unfold ArrayRules.isUnique
    cases rules.uniqueItems <;> rfl

/-! ### Conjunctions of nodes -/

/-- Validators of nodes in order, one standing for those that are the same. -/
structure Gathers (inner : Node → Making Validator) (nodes : List Node)
    (known all : List Validator) : Prop where
  kept : known ⊆ all
  of_mem : ∀ w ∈ all, w ∈ known ∨ ∃ node ∈ nodes, (inner node).outcome = .ok w
  exists_mem : ∀ node ∈ nodes, ∃ w, (inner node).outcome = .ok w ∧ ∃ w' ∈ all, w' = w ∨ w.same w'

lemma gathers_of_ofDistinct {known all : List Validator}
    (h : (ofDistinct inner known nodes).outcome = .ok all) : Gathers inner nodes known all := by
  induction nodes generalizing known with
  | nil =>
    cases h
    exact ⟨List.Subset.refl _, fun w hw => .inl hw, by simp⟩
  | cons node rest ih =>
    obtain ⟨w, hw, h⟩ := outcome_bind_eq_ok_iff.1 h
    extract_lets next at h
    split at h
    · cases h
    have hrest := ih h
    have hmem : ∃ w' ∈ all, w' = w ∨ w.same w' := by
      split at hrest
      next hany =>
        obtain ⟨w', hw', hsame⟩ := any_eq_true.1 hany
        exact ⟨w', hrest.kept hw', .inr hsame⟩
      next => exact ⟨w, hrest.kept (by simp), .inl rfl⟩
    refine ⟨?_, ?_, ?_⟩
    · refine List.Subset.trans ?_ hrest.kept
      split
      · exact List.Subset.refl _
      · exact subset_append_left _ _
    · intro w' hw'
      rcases hrest.of_mem w' hw' with hw' | ⟨node', hnode', hw'⟩
      · split at hw'
        · exact .inl hw'
        · rcases mem_append.1 hw' with hw' | hw'
          · exact .inl hw'
          · rw [mem_singleton.1 hw']
            exact .inr ⟨node, mem_cons_self, hw⟩
      · exact .inr ⟨node', mem_cons_of_mem _ hnode', hw'⟩
    · simp only [mem_cons, forall_eq_or_imp]
      exact ⟨⟨w, hw, hmem⟩, hrest.exists_mem⟩

/-- The validator of several nodes is made of the gathered validators, and accepts what all of them
accept. -/
lemma exists_gathers_of_conjunction (h : (conjunction inner nodes).outcome = .ok w) :
    ∃ all, Gathers inner nodes [] all ∧ (w ∈ all ∨ ∃ ws ⊆ all, w = .intersection ws) ∧
      ∀ (basis : Basis) (ref named : String → Value → Prop) (v : Value),
        Accepts basis ref named w v ↔ ∀ w' ∈ all, Accepts basis ref named w' v := by
  obtain ⟨all, hall, h⟩ := outcome_bind_eq_ok_iff.1 h
  extract_lets proper at h
  -- What is left out accepts anything.
  obtain ⟨chosen, hchosen, hsub, hrest⟩ : ∃ chosen,
      (if all.length ≤ 1 || proper.isEmpty then all else proper) = chosen ∧ chosen ⊆ all ∧
      ∀ w' ∈ all, w' ∈ chosen ∨ w' = .any := by
    split
    · exact ⟨all, rfl, List.Subset.refl _, fun w' hw' => .inl hw'⟩
    · refine ⟨proper, rfl, filter_subset_self _, fun w' hw' => ?_⟩
      cases hany : w'.isAny with
      | true => cases w' <;> simp_all [isAny]
      | false => exact .inl (mem_filter.2 ⟨hw', by simp [hany]⟩)
  rw [hchosen] at h
  have haccepts (basis : Basis) (ref named : String → Value → Prop) (v : Value) :
      (∀ w' ∈ chosen, Accepts basis ref named w' v) ↔ ∀ w' ∈ all, Accepts basis ref named w' v := by
    refine ⟨fun hv w' hw' => ?_, fun hv w' hw' => hv w' (hsub hw')⟩
    obtain hw' | rfl := hrest w' hw'
    · exact hv w' hw'
    · trivial
  refine ⟨all, gathers_of_ofDistinct hall, ?_⟩
  simp only [← haccepts]
  split at h
  · cases h
    exact ⟨.inl (hsub mem_cons_self), by simp⟩
  · cases h
    exact ⟨.inr ⟨chosen, hsub, rfl⟩, by simp [Accepts, acceptsAll_iff]⟩

/-! ### Objects -/

/-- A validator of objects with these fields: a record, where that says as much. -/
def IsObject (fields : List (FieldOf Validator)) (forbidExtra : Bool) (extra : Option Validator)
    (count : Extent) (w : Validator) : Prop :=
  w = .object fields forbidExtra extra count ∨
    fields = [] ∧ forbidExtra = false ∧ w = .record (extra.getD .any) count

lemma IsObject.accepts_iff {forbidExtra : Bool} {extra : Option Validator} {count : Extent}
    (h : IsObject fields forbidExtra extra count w) {v : Value} :
    Accepts basis ref named w v ↔
      ∃ es, v = .map es ∧ count.Holds es.length ∧
        (∀ f ∈ fields, (∀ x, Value.find? (.str f.key) es = some x →
          Accepts basis ref named f.validator x) ∧
          (f.required → (Value.find? (.str f.key) es).isSome)) ∧
        (forbidExtra → ∀ e ∈ es, ¬ e.1.Lacks (fields.map (·.key))) ∧
        ∀ w' ∈ extra, ∀ e ∈ es, e.1.Lacks (fields.map (·.key)) →
          Accepts basis ref named w' e.2 := by
  obtain rfl | ⟨rfl, rfl, rfl⟩ := h
  · simp only [Accepts, acceptsFields_iff, acceptsExtra_iff]
  · cases extra <;> simp [Accepts, Scalar.Lacks]

/-- Extra entries are judged by the validator of a schema for them, if there is one. -/
def ExtraFor (inner : Node → Making Validator) (additional : Additional Node)
    (extra : Option Validator) : Prop :=
  match additional with
  | .typed schema => ∃ w, extra = some w ∧ (inner schema).outcome = .ok w
  | _ => extra = none

/-- The validator of an object schema has fields for its properties. -/
lemma exists_isObject_of_ofObject {additional : Additional Node} {rules : CountRules}
    (h : (ofObject inner properties required additional rules).outcome = .ok w) :
    ∃ fields, ∃ forbidExtra : Bool, ∃ extra,
      Forall₂ (FieldFor inner required) properties fields ∧
      (forbidExtra ↔ additional = .forbidden) ∧ ExtraFor inner additional extra ∧
      IsObject fields forbidExtra extra (countOf rules) w := by
  unfold ofObject at h
  split at h
  · cases h
    exact ⟨[], false, none, .nil, by simp, rfl, .inr ⟨rfl, rfl, rfl⟩⟩
  · cases h
    exact ⟨[], false, none, .nil, by simp, rfl, .inr ⟨rfl, rfl, rfl⟩⟩
  · obtain ⟨values, hvalues, h⟩ := outcome_bind_eq_ok_iff.1 h
    cases h
    exact ⟨[], false, some values, .nil, by simp, ⟨values, rfl, hvalues⟩, .inr ⟨rfl, rfl, rfl⟩⟩
  · obtain ⟨fields, hfields, h⟩ := outcome_bind_eq_ok_iff.1 h
    have hfields := forall₂_of_ofProperties hfields
    split at h
    · obtain ⟨extra, hextra, h⟩ := outcome_bind_eq_ok_iff.1 h
      cases h
      exact ⟨fields, false, some extra, hfields, by simp, ⟨extra, rfl, hextra⟩, .inl rfl⟩
    · cases h
      exact ⟨fields, true, none, hfields, by simp, rfl, .inl rfl⟩
    next htyped hforbidden =>
      cases h
      refine ⟨fields, false, none, hfields, by simpa using hforbidden, ?_, .inl rfl⟩
      unfold ExtraFor
      split
      · exact absurd rfl (htyped _)
      · rfl

/-- The validator of merged objects has a field for every declared name. What stands beside the
fields is judged by all schemas for it, unless nothing may. -/
lemma exists_isObject_of_ofMerged {m : Shape.Merged} (h : (ofMerged inner m).outcome = .ok w) :
    ∃ fields extra,
      Forall₂ (fun d f => f.key = d.1 ∧ (conjunction inner d.2).outcome = .ok f.validator ∧
        f.required = m.required.contains d.1) m.declared fields ∧
      (∀ x ∈ extra, (conjunction inner m.extras).outcome = .ok x) ∧
      (extra = none → m.extras = [] ∨ m.forbidden) ∧
      IsObject fields m.forbidden extra m.count w := by
  unfold ofMerged at h
  extract_lets next at h
  have hnext (extra : Option Validator) (h : (next extra).outcome = .ok w) :
      ∃ fields, Forall₂ (fun d f => f.key = d.1 ∧
          (conjunction inner d.2).outcome = .ok f.validator ∧
          f.required = m.required.contains d.1) m.declared fields ∧
        IsObject fields m.forbidden (if m.forbidden then none else extra) m.count w := by
    unfold next at h
    split at h
    next hrecord =>
      cases h
      obtain ⟨hdeclared, hforbidden⟩ : m.declared = [] ∧ m.forbidden = false := by
        simpa using hrecord
      rw [hdeclared, hforbidden]
      exact ⟨[], .nil, .inr ⟨rfl, rfl, rfl⟩⟩
    next =>
      obtain ⟨fields, hfields, h⟩ := outcome_bind_eq_ok_iff.1 h
      cases h
      exact ⟨fields, forall₂_of_ofDeclared hfields, .inl rfl⟩
  split at h
  next hempty =>
    obtain ⟨fields, hfields, hw⟩ := hnext none h
    exact ⟨fields, _, hfields, by simp, fun _ => .inl (by simpa using hempty), hw⟩
  next =>
    obtain ⟨extra, hextra, h⟩ := outcome_bind_eq_ok_iff.1 h
    obtain ⟨fields, hfields, hw⟩ := hnext (some extra) h
    refine ⟨fields, _, hfields, fun x hx => ?_, fun hnone => .inr ?_, hw⟩
    · split at hx
      · cases hx
      · cases hx
        exact hextra
    · split at hnone
      next hforbidden => exact hforbidden
      next => cases hnone

end

end Validator

end ApiSchema
