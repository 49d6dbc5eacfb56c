import ApiSchema.Proofs.Json.Text
import ApiSchema.Proofs.Meaning.Resemblance
import ApiSchema.Validator.Canonical

/-!
# Canonical texts

The canonical text of a list tells the texts of its items, and that of a mapping tells the text
under each key. Main statement: so it is with the canonical texts of validators whose floating-point
numbers are of the binary64 format.
-/

namespace ApiSchema

open List

namespace Json

variable {v w : Value} {xs ys : List Value} {pairs pairs' : List (String × Value)}

/-! ### Floating-point numbers -/

lemma fits_iff (v : Value) :
    Fits v ↔ (∀ x, v = .float x → x.IsBinary64) ∧ ∀ y ∈ v.parts, Fits y := by
  simp only [Fits, Value.mem_floats_iff (v := v), or_imp, forall_and]
  exact and_congr_right fun _ =>
    ⟨fun h y hy x hx => h x ⟨y, hy, hx⟩, fun h x ⟨y, hy, hx⟩ => h y hy x hx⟩

@[simp] lemma fits_list : Fits (.list xs) ↔ ∀ x ∈ xs, Fits x := by
  simp [fits_iff (.list xs), Value.parts]

@[simp] lemma fits_object : Fits (.object pairs) ↔ ∀ p ∈ pairs, Fits p.2 := by
  have hparts : (Value.object pairs).parts = pairs.map (·.2) := by simp [Value.object, Value.parts]
  rw [fits_iff, hparts, forall_mem_map]
  exact and_iff_right fun x hx => by cases hx

@[simp] lemma fits_scalar {s : Scalar} : Fits (.scalar s) ↔ ∀ x ∈ s.floats, x.IsBinary64 :=
  Iff.rfl

/-! ### Sorted keys -/

lemma sortKeysItems_eq (xs : List Value) : sortKeysItems xs = xs.map sortKeys := by
  induction xs with
  | nil => rfl
  | cons x xs ih => rw [sortKeysItems, ih, map_cons]

lemma sortKeysMembers_eq (es : List (Scalar × Value)) :
    sortKeysMembers es = es.map fun e => (e.1, sortKeys e.2) := by
  induction es with
  | nil => rfl
  | cons e es ih => rw [sortKeysMembers, ih, map_cons]

lemma sortKeys_object (pairs : List (String × Value)) :
    sortKeys (.object pairs) = .object ((pairs.mergeSort fun a b => Text.le a.1 b.1).map
      fun p => (p.1, sortKeys p.2)) := by
  simp only [Value.object, sortKeys, sortKeysMembers_eq, map_map, Function.comp_def]
  refine congrArg Value.map (Eq.symm ?_)
  exact map_mergeSort fun _ _ _ _ => rfl

/-- Sorting keys leaves the floating-point numbers as they are. -/
lemma Fits.sortKeys (h : Fits v) : Fits (sortKeys v) := by
  induction v using Value.parts_induction with
  | step v ih =>
    have hpart (x : Value) (hx : x ∈ v.parts) : Fits (Json.sortKeys x) := ih x hx (h.part hx)
    cases v with
    | scalar s => exact h
    | list xs | tuple xs =>
      rw [fits_iff]
      refine ⟨fun x hx => (by cases hx), fun y hy => ?_⟩
      rw [Json.sortKeys, Value.parts, sortKeysItems_eq] at hy
      obtain ⟨x, hx, rfl⟩ := mem_map.1 hy
      exact hpart x hx
    | map es =>
      rw [fits_iff]
      refine ⟨fun x hx => (by cases hx), fun y hy => ?_⟩
      simp only [Json.sortKeys, Value.parts, sortKeysMembers_eq, mem_map, mem_mergeSort] at hy
      obtain ⟨_, ⟨e, he, rfl⟩, rfl⟩ := hy
      exact hpart e.2 (mem_map_of_mem he)

/-! ### Texts of parts -/

open Validator (canonicalString)

lemma opening_eq_of_canonicalString_eq (h : canonicalString v = canonicalString w) :
    opening v = opening w := by
  have hsort (v : Value) : opening (sortKeys v) = opening v := by cases v <;> rfl
  rw [← hsort v, ← hsort w]
  exact opening_eq_of_writeValue_append_eq (congrArg (· ++ []) h)

lemma scalar_eq_of_canonicalString_eq {s t : Scalar} (hs : Fits (.scalar s))
    (ht : Fits (.scalar t)) (h : canonicalString (.scalar s) = canonicalString (.scalar t)) :
    s = t := by
  have hend : Delimited [] := by simp [Delimited]
  exact (writeScalar_append_inj hs ht hend hend h).1

/-- Lists with the same text have items with the same text. -/
lemma forall₂_of_canonicalString_list (hxs : Fits (.list xs)) (hys : Fits (.list ys))
    (h : canonicalString (.list xs) = canonicalString (.list ys)) :
    Forall₂ (fun x y => canonicalString x = canonicalString y) xs ys := by
  rw [canonicalString, canonicalString, sortKeys, sortKeys, sortKeysItems_eq, sortKeysItems_eq] at h
  rw [fits_list] at hxs hys
  have hforall := (forall₂_of_writeValue_list
    (forall_mem_map.2 fun x hx => told_of_fits _ (hxs x hx).sortKeys)
    (forall_mem_map.2 fun y hy => (hys y hy).sortKeys) (congrArg (· ++ []) h)).1
  rwa [forall₂_map_left_iff, forall₂_map_right_iff] at hforall

/-- Mappings with the same text have the same texts under their keys. -/
lemma perm_of_canonicalString_object (hpairs : Fits (.object pairs))
    (hpairs' : Fits (.object pairs'))
    (h : canonicalString (.object pairs) = canonicalString (.object pairs')) :
    (pairs.map (Prod.map id canonicalString)).Perm (pairs'.map (Prod.map id canonicalString)) := by
  let sorted (ps : List (String × Value)) := ps.mergeSort fun p q => Text.le p.1 q.1
  have hsort (ps : List (String × Value)) : sortKeys (.object ps) =
      .map ((sorted ps).map fun p => (Scalar.str p.1, sortKeys p.2)) := by
    rw [sortKeys_object]
    simp [Value.object, sorted]
  rw [fits_object] at hpairs hpairs'
  rw [canonicalString, canonicalString, hsort, hsort] at h
  have hforall := (forall₂_of_writeValue_map
    (forall_mem_map.2 fun p hp => told_of_fits _ (hpairs p (mem_mergeSort.1 hp)).sortKeys)
    (forall_mem_map.2 fun p hp => (hpairs' p (mem_mergeSort.1 hp)).sortKeys)
    (congrArg (· ++ []) h)).1
  rw [forall₂_map_left_iff, forall₂_map_right_iff] at hforall
  have hequal : (sorted pairs').map (Prod.map id canonicalString) =
      (sorted pairs).map (Prod.map id canonicalString) :=
    map_eq_map_of_forall₂ hforall fun hpq => Prod.ext hpq.1.symm hpq.2.symm
  exact ((mergeSort_perm pairs _).map _).symm.trans
    ((Perm.of_eq hequal.symm).trans ((mergeSort_perm pairs' _).map _))

section

variable (hpairs : Fits (.object pairs)) (hpairs' : Fits (.object pairs'))
  (hnodup : (pairs.map (·.1)).Nodup)
  (h : canonicalString (.object pairs) = canonicalString (.object pairs')) (key : String)

include hpairs hpairs' hnodup h

lemma canonicalString_eq_of_lookup (hv : pairs.lookup key = some v)
    (hw : pairs'.lookup key = some w) : canonicalString v = canonicalString w := by
  have hperm := perm_of_canonicalString_object hpairs hpairs' h
  set texts := pairs'.map (Prod.map id canonicalString) with htexts
  have hkeys : (texts.map (·.1)).Nodup := by
    rw [← (hperm.map _).nodup_iff]
    simpa [Function.comp_def] using hnodup
  have hmem : (key, canonicalString v) ∈ texts :=
    hperm.subset (mem_map_of_mem (f := Prod.map id canonicalString) (mem_of_lookup hv))
  have hlookup := lookup_of_mem hkeys hmem
  rw [htexts, lookup_map, hw] at hlookup
  exact (Option.some.inj hlookup).symm

lemma scalar_eq_of_lookup {s t : Scalar} (hs : pairs.lookup key = some (.scalar s))
    (ht : pairs'.lookup key = some (.scalar t)) : s = t :=
  scalar_eq_of_canonicalString_eq (fits_object.1 hpairs _ (mem_of_lookup hs))
    (fits_object.1 hpairs' _ (mem_of_lookup ht))
    (canonicalString_eq_of_lookup hpairs hpairs' hnodup h key hs ht)

end

end Json

namespace Validator

open Json

variable {v w : Validator} {e : Extent}

/-! ### Members of canonical forms -/

lemma canonicalValues_eq (xs : List Value) : canonicalValues xs = xs.map canonicalValue := by
  induction xs with
  | nil => rfl
  | cons x xs ih => rw [canonicalValues, ih, map_cons]

lemma canonicalAll_eq (vs : List Validator) : canonicalAll vs = vs.map canonical := by
  induction vs with
  | nil => rfl
  | cons v vs ih => rw [canonicalAll, ih, map_cons]

/-- The canonical form of a field. -/
def fieldForm (f : FieldOf Validator) : List (String × Value) :=
  [("@", .str "FieldSpec"), ("key", .str f.key), ("validator", canonical f.validator),
    ("required", .bool f.required)]

lemma canonicalFields_eq (fields : List (FieldOf Validator)) :
    canonicalFields fields = fields.map fun f => .object (fieldForm f) := by
  induction fields with
  | nil => rfl
  | cons f fields ih => rw [canonicalFields, ih, map_cons]; rfl

/-- The kind of a validator in its canonical form. -/
def kind : Validator → String
  | any => "AnyValidator"
  | null => "NoneValidator"
  | boolean => "BoolValidator"
  | string .. => "StringValidator"
  | custom _ => "CustomValidator"
  | number .. => "NumberValidator"
  | literal _ => "LiteralValidator"
  | array .. => "ArrayValidator"
  | record .. => "RecordValidator"
  | object .. => "ObjectValidator"
  | union _ => "UnionValidator"
  | intersection _ => "IntersectionValidator"
  | nullable _ => "NullableValidator"
  | ref _ => "RefValidator"
  | named _ => "NamedRef"

/-- The members of a canonical form. -/
def members (v : Validator) : List (String × Value) :=
  v.canonical.entries.map fun e => (e.1.display, e.2)

lemma canonical_eq_members (v : Validator) : v.canonical = .object v.members := by
  cases v <;> rfl

lemma nodup_members (v : Validator) : (v.members.map (·.1)).Nodup := by
  cases v <;> simp [members, canonical, tagged, Value.object, Value.entries, Scalar.display]

lemma lookup_members_kind (v : Validator) : v.members.lookup "@" = some (.str v.kind) := by
  cases v <;> rfl

/-! ### Floating-point numbers of canonical forms -/

lemma fits_canonicalValue {v : Value} (h : Fits v) : Fits (canonicalValue v) := by
  induction v using Value.parts_induction with
  | step v ih =>
    have hmarked (kind : String) : Fits (marked kind v) := by simp [marked, h, Scalar.floats]
    cases v with
    | scalar s =>
      cases s with
      | int _ | float _ => exact hmarked _
      | null | bool _ | str _ => exact h
    | list _ | map _ => exact hmarked _
    | tuple xs =>
      rw [canonicalValue, canonicalValues_eq, fits_list]
      exact forall_mem_map.2 fun x hx => ih x hx (h.part hx)

lemma fits_bounds (h : ∀ x ∈ e.floats, x.IsBinary64) :
    Fits (e.min.getD .null) ∧ Fits (e.max.getD .null) := by
  have hbound {r : Option Value} (hr : r.toList ⊆ e.bounds) : Fits (r.getD .null) := by
    cases r with
    | none => nofun
    | some v => exact fun x hx => h x (mem_flatMap.2 ⟨v, hr mem_cons_self, hx⟩)
  exact ⟨hbound (subset_append_left _ _), hbound (subset_append_right _ _)⟩

/-- The bounds of numeric rules. -/
def numberBounds (rules : NumberRules) : List (Option Number) :=
  [rules.minimum, rules.maximum, rules.exclusiveMinimum, rules.exclusiveMaximum, rules.multipleOf]

lemma fits_numberBounds {rules : NumberRules} (h : ∀ x ∈ rules.floats, x.IsBinary64)
    {b : Option Number} (hb : b ∈ numberBounds rules) :
    Fits ((b.map Value.ofNumber).getD .null) := by
  cases b with
  | none => nofun
  | some n =>
    refine fun x hx => h x (mem_flatMap.2 ⟨n, ?_, hx⟩)
    simp only [numberBounds, mem_cons, not_mem_nil, or_false] at hb
    obtain hb | hb | hb | hb | hb := hb <;> simp [← hb]

/-- All floating-point numbers in a validator are of the binary64 format. -/
def IsBinary64 (v : Validator) : Prop :=
  ∀ u, v.Part u → ∀ x ∈ u.floats, x.IsBinary64

lemma IsBinary64.part {u : Validator} (h : v.IsBinary64) (hu : v.Part u) : u.IsBinary64 :=
  fun w hw => h w (hu.trans hw)

lemma IsBinary64.child {c : Validator} (h : v.IsBinary64) (hc : c ∈ v.children) : c.IsBinary64 :=
  h.part (.child .refl hc)

lemma IsBinary64.fits (h : v.IsBinary64) : Fits v.canonical := by
  induction v using children_induction with
  | step v ih =>
    have hself := h v .refl
    have hchild (c : Validator) (hc : c ∈ v.children) : Fits c.canonical := ih c hc (h.child hc)
    have htext (s : Option String) : Fits (canonicalText s) := by
      intro x hx
      cases s <;> cases hx
    have hextent {e : Extent} (he : ∀ x ∈ e.floats, x.IsBinary64) :
        Fits (canonicalRule e.min) ∧ Fits (canonicalRule e.max) :=
      ⟨fits_canonicalValue (fits_bounds he).1, fits_canonicalValue (fits_bounds he).2⟩
    cases v with
    | string length pattern format =>
      simp [canonical, tagged, Scalar.floats, htext, hextent hself]
    | number integer rules =>
      have hbound (b : Option Number) (hb : b ∈ numberBounds rules) : Fits (canonicalBound b) :=
        fits_canonicalValue (fits_numberBounds hself hb)
      simpa [canonical, tagged, Scalar.floats, numberBounds] using hbound
    | literal values =>
      have hvalues (s : Scalar) (hs : s ∈ values) : Fits (canonicalValue (.scalar s)) :=
        fits_canonicalValue fun x hx => hself x (mem_flatMap.2 ⟨s, hs, hx⟩)
      simpa [canonical, tagged, Scalar.floats] using hvalues
    | array items length unique =>
      have hitems := hchild items mem_cons_self
      simp [canonical, tagged, Scalar.floats, hitems, hextent hself]
    | record values count =>
      have hvalues := hchild values mem_cons_self
      simp [canonical, tagged, Scalar.floats, hvalues, hextent hself]
    | object fields forbidExtra extra count =>
      have hfields (f : FieldOf Validator) (hf : f ∈ fields) : Fits f.validator.canonical :=
        hchild f.validator (mem_append_left _ (mem_map_of_mem hf))
      have hextra : Fits (canonicalExtra extra) := by
        cases extra with
        | none => exact fun x hx => by cases hx
        | some w => exact hchild w (mem_append_right _ mem_cons_self)
      simpa [canonical, tagged, Scalar.floats, canonicalFields_eq, fieldForm, hextra,
        hextent hself] using hfields
    | union branches | intersection branches =>
      simpa [canonical, tagged, Scalar.floats, canonicalAll_eq, children] using hchild
    | nullable inner => simp [canonical, tagged, Scalar.floats, hchild inner mem_cons_self]
    | any | null | boolean | custom _ | ref _ | named _ => simp [canonical, tagged, Scalar.floats]

end Validator

end ApiSchema
