import ApiSchema.Proofs.Declaration.Meaning
import ApiSchema.Proofs.Validator.Canonical

/-!
# Validators that are alike

Two validators are alike if they are the same but for bounds that are lists or mappings, of which
only their text counts. Main statement: validators with the same canonical text are alike.
-/

namespace ApiSchema

open List Json Validator

/-! ### Values -/

/-- The same value, where of lists and mappings only the text with sorted keys counts. -/
inductive Value.Alike : Value → Value → Prop
  | scalar (s : Scalar) : Alike (.scalar s) (.scalar s)
  | list {xs ys : List Value} (h : canonicalString (.list xs) = canonicalString (.list ys)) :
    Alike (.list xs) (.list ys)
  | map {es fs : List (Scalar × Value)}
    (h : canonicalString (.map es) = canonicalString (.map fs)) : Alike (.map es) (.map fs)
  | tuple {xs ys : List Value} (h : List.Forall₂ Alike xs ys) : Alike (.tuple xs) (.tuple ys)

/-- Extents with bounds that are alike; a bound that is null counts as none. -/
structure Extent.Alike (e e' : Extent) : Prop where
  min : Value.Alike (e.min.getD .null) (e'.min.getD .null)
  max : Value.Alike (e.max.getD .null) (e'.max.getD .null)

/-! ### Bounds -/

namespace Value

variable {v w : Value}

/-- Fixed sequences apart, a value is its own canonical form or is marked with its kind. -/
lemma canonicalValue_cases (v : Value) : (∃ s, v = .scalar s ∧ canonicalValue v = .scalar s) ∨
    (∃ xs, v = .tuple xs) ∨ (∀ xs, v ≠ .tuple xs) ∧ ∃ kind, canonicalValue v = marked kind v := by
  match v with
  | .null | .bool _ | .str _ => exact .inl ⟨_, rfl, rfl⟩
  | .tuple xs => exact .inr (.inl ⟨xs, rfl⟩)
  | .scalar (.int _) | .scalar (.float _) | .list _ | .map _ =>
    exact .inr (.inr ⟨by simp, _, rfl⟩)

lemma canonicalString_eq_of_marked {kind kind' : String} (hv : Fits v) (hw : Fits w)
    (h : canonicalString (marked kind v) = canonicalString (marked kind' w)) :
    canonicalString v = canonicalString w := by
  have hfits {kind : String} {v : Value} (hv : Fits v) :
      Fits (.object [("#", .str kind), ("v", v)]) := by simp [hv, Scalar.floats]
  exact canonicalString_eq_of_lookup (hfits hv) (hfits hw) (by simp) h "v" rfl rfl

/-- Constraints with the same canonical text are alike. -/
lemma alike_of_canonicalString_eq (hv : Fits v) (hw : Fits w)
    (h : canonicalString (canonicalValue v) = canonicalString (canonicalValue w)) : Alike v w := by
  induction v using parts_induction generalizing w with
  | step v ih =>
    have hopening := opening_eq_of_canonicalString_eq h
    obtain ⟨s, rfl, hs⟩ | ⟨xs, rfl⟩ | ⟨hxs, kind, hkind⟩ := canonicalValue_cases v
    · obtain ⟨t, rfl, ht⟩ | ⟨ys, rfl⟩ | ⟨-, kind', hkind'⟩ := canonicalValue_cases w
      · rw [hs, ht] at h
        obtain rfl := scalar_eq_of_canonicalString_eq hv hw h
        exact .scalar s
      · rw [hs] at hopening
        cases hopening
      · rw [hs, hkind'] at hopening
        cases hopening
    · obtain ⟨t, rfl, ht⟩ | ⟨ys, rfl⟩ | ⟨-, kind', hkind'⟩ := canonicalValue_cases w
      · rw [ht] at hopening
        cases hopening
      · have hfits {zs : List Value} (hzs : Fits (.tuple zs)) : Fits (.list (canonicalValues zs)) :=
          fits_canonicalValue hzs
        have hforall := forall₂_of_canonicalString_list (hfits hv) (hfits hw) h
        rw [canonicalValues_eq, canonicalValues_eq, forall₂_map_left_iff, forall₂_map_right_iff]
          at hforall
        refine .tuple (forall₂_imp_of_mem_of_mem hforall fun x hx y hy hxy => ?_)
        exact ih x hx (hv.part hx) (hw.part hy) hxy
      · rw [hkind'] at hopening
        cases hopening
    · obtain ⟨t, rfl, ht⟩ | ⟨ys, rfl⟩ | ⟨hys, kind', hkind'⟩ := canonicalValue_cases w
      · rw [hkind, ht] at hopening
        cases hopening
      · rw [hkind] at hopening
        cases hopening
      · rw [hkind, hkind'] at h
        have htext := canonicalString_eq_of_marked hv hw h
        match v, w, opening_eq_of_canonicalString_eq htext with
        | .scalar s, .scalar t, _ =>
          obtain rfl := scalar_eq_of_canonicalString_eq hv hw htext
          exact .scalar s
        | .list _, .list _, _ => exact .list htext
        | .map _, .map _, _ => exact .map htext
        | .tuple xs, _, _ => exact absurd rfl (hxs xs)
        | _, .tuple ys, _ => exact absurd rfl (hys ys)

end Value

/-! ### Validators -/

/-- Bounds that are alike stand for the same number. -/
lemma Value.Alike.bound?_eq {v w : Value} (h : v.Alike w) : v.bound? = w.bound? := by
  cases h <;> rfl

lemma Extent.Alike.agrees {e e' : Extent} (h : e.Alike e') : e.Agrees e' := by
  have hbound (r : Option Value) : r.bind Value.bound? = (r.getD .null).bound? := by
    cases r <;> rfl
  intro count
  simp only [Extent.Holds, Extent.AtLeast, Extent.AtMost, hbound, h.min.bound?_eq, h.max.bound?_eq]

namespace Validator

variable {v w : Validator} {a : Value}

/-- Two validators have one canonical text. -/
def SameText (v w : Validator) : Prop :=
  canonicalString v.canonical = canonicalString w.canonical

/-- Two validators are the same but for their children, and for bounds that are alike. -/
inductive SameHead : Validator → Validator → Prop
  | any : SameHead .any .any
  | null : SameHead .null .null
  | boolean : SameHead .boolean .boolean
  | string {length length' : Extent} (pattern format : Option String)
    (hlength : length.Alike length') :
    SameHead (.string length pattern format) (.string length' pattern format)
  | custom (name : String) : SameHead (.custom name) (.custom name)
  | number (integer : Bool) (rules : NumberRules) :
    SameHead (.number integer rules) (.number integer rules)
  | literal (values : List Scalar) : SameHead (.literal values) (.literal values)
  | array {items items' : Validator} {length length' : Extent} (unique : Bool)
    (hlength : length.Alike length') :
    SameHead (.array items length unique) (.array items' length' unique)
  | record {values values' : Validator} {count count' : Extent} (hcount : count.Alike count') :
    SameHead (.record values count) (.record values' count')
  | object {fields fields' : List (FieldOf Validator)} {extra extra' : Option Validator}
    {count count' : Extent} (forbidExtra : Bool)
    (hfields : fields.map fieldHead = fields'.map fieldHead) (hcount : count.Alike count') :
    SameHead (.object fields forbidExtra extra count) (.object fields' forbidExtra extra' count')
  | union {branches branches' : List Validator} : SameHead (.union branches) (.union branches')
  | intersection {branches branches' : List Validator} :
    SameHead (.intersection branches) (.intersection branches')
  | nullable {inner inner' : Validator} : SameHead (.nullable inner) (.nullable inner')
  | ref (target : String) : SameHead (.ref target) (.ref target)
  | named (name : String) : SameHead (.named name) (.named name)

/-- Two validators are the same but for bounds that are alike, at any depth. -/
inductive Alike : Validator → Validator → Prop
  | intro {v w : Validator} (head : SameHead v w)
    (children : List.Forall₂ Alike v.children w.children) : Alike v w

/-- Validators of one head demand the same. -/
lemma SameHead.resembles (h : SameHead v w) : Resembles v w := by
  cases h with
  | string pattern format hlength => exact .string pattern format hlength.agrees
  | array unique hlength => exact .array unique hlength.agrees
  | record hcount => exact .record hcount.agrees
  | object forbidExtra hfields hcount => exact .object forbidExtra hfields hcount.agrees
  | union => exact .union
  | intersection => exact .intersection
  | nullable => exact .nullable
  | _ => exact .refl _

/-! ### Parts of canonical texts -/

lemma fits_of_lookup (hv : Fits v.canonical) {key : String} (ha : v.members.lookup key = some a) :
    Fits a := by
  rw [canonical_eq_members, fits_object] at hv
  exact hv _ (mem_of_lookup ha)

/-- Validators with one text have the same text under each name. -/
lemma SameText.member (h : SameText v w) (hv : Fits v.canonical) (hw : Fits w.canonical)
    (key : String) {b : Value} (ha : v.members.lookup key = some a)
    (hb : w.members.lookup key = some b) : canonicalString a = canonicalString b := by
  rw [canonical_eq_members] at hv hw
  rw [SameText, canonical_eq_members, canonical_eq_members] at h
  exact canonicalString_eq_of_lookup hv hw v.nodup_members h key ha hb

lemma canonicalText_injective {s s' : Option String}
    (h : canonicalString (canonicalText s) = canonicalString (canonicalText s')) : s = s' := by
  have htext (s : Option String) : canonicalText s = .scalar (s.elim .null .str) := by
    cases s <;> rfl
  have hfits (s : Option String) : Fits (.scalar (s.elim .null .str)) := by cases s <;> nofun
  rw [htext, htext] at h
  have hscalar := scalar_eq_of_canonicalString_eq (hfits s) (hfits s') h
  cases s <;> cases s' <;> simp_all

/-- Numeric rules with bounds of the same text are the same. -/
lemma numberRules_eq {rules rules' : NumberRules} (hrules : ∀ x ∈ rules.floats, x.IsBinary64)
    (hrules' : ∀ x ∈ rules'.floats, x.IsBinary64)
    (h : Forall₂ (fun b b' => canonicalString (canonicalBound b) = canonicalString (canonicalBound b'))
      (numberBounds rules) (numberBounds rules')) : rules = rules' := by
  have hforall : Forall₂ Eq (numberBounds rules) (numberBounds rules') :=
    forall₂_imp_of_mem_of_mem h fun b hb b' hb' htext => by
      have hlike := Value.alike_of_canonicalString_eq (fits_numberBounds hrules hb)
        (fits_numberBounds hrules' hb') htext
      rcases b with _ | _ | _ <;> rcases b' with _ | _ | _ <;> cases hlike <;> rfl
  have hbounds : numberBounds rules = numberBounds rules' := forall₂_eq_eq_eq ▸ hforall
  cases rules
  cases rules'
  simp_all [numberBounds]

lemma forall₂_sameText {vs ws : List Validator} (hvs : Fits (.list (canonicalAll vs)))
    (hws : Fits (.list (canonicalAll ws)))
    (h : canonicalString (.list (canonicalAll vs)) = canonicalString (.list (canonicalAll ws))) :
    Forall₂ SameText vs ws := by
  have hforall := forall₂_of_canonicalString_list hvs hws h
  rwa [canonicalAll_eq, canonicalAll_eq, forall₂_map_left_iff, forall₂_map_right_iff]
    at hforall

/-- The fields of an object, by their text. -/
lemma forall₂_fields_sameText {fields fields' : List (FieldOf Validator)}
    (hfields : Fits (.list (canonicalFields fields)))
    (hfields' : Fits (.list (canonicalFields fields')))
    (h : canonicalString (.list (canonicalFields fields)) =
      canonicalString (.list (canonicalFields fields'))) :
    Forall₂ (fun f f' => f'.key = f.key ∧ f'.required = f.required ∧
      SameText f.validator f'.validator) fields fields' := by
  have hforall := forall₂_of_canonicalString_list hfields hfields' h
  rw [canonicalFields_eq, canonicalFields_eq, forall₂_map_left_iff,
    forall₂_map_right_iff] at hforall
  rw [canonicalFields_eq, fits_list] at hfields hfields'
  refine forall₂_imp_of_mem_of_mem hforall fun f hf f' hf' htext => ?_
  have hfits := hfields _ (mem_map_of_mem hf)
  have hfits' := hfields' _ (mem_map_of_mem hf')
  have hnodup : ((fieldForm f).map (·.1)).Nodup := by simp [fieldForm]
  have hkey := scalar_eq_of_lookup hfits hfits' hnodup htext "key" rfl rfl
  have hrequired := scalar_eq_of_lookup hfits hfits' hnodup htext "required" rfl rfl
  exact ⟨(Scalar.str.inj hkey).symm, (Scalar.bool.inj hrequired).symm,
    canonicalString_eq_of_lookup hfits hfits' hnodup htext "validator" rfl rfl⟩

/-- What an object says on other properties, by its text. -/
lemma forall₂_extra_sameText {extra extra' : Option Validator}
    (h : canonicalString (canonicalExtra extra) = canonicalString (canonicalExtra extra')) :
    Forall₂ SameText extra.toList extra'.toList := by
  have hobject (v : Validator) : opening v.canonical = some '\x7b' := by
    rw [canonical_eq_members]
    rfl
  have hopening := opening_eq_of_canonicalString_eq h
  match extra, extra' with
  | none, none => exact .nil
  | none, some v => cases hopening.trans (hobject v)
  | some v, none => cases (hobject v).symm.trans hopening
  | some v, some w => exact .cons h .nil

/-- Validators with one text have one head, and children with one text. -/
lemma SameText.sameHead_and_children (h : SameText v w) (hv : v.IsBinary64) (hw : w.IsBinary64) :
    SameHead v w ∧ Forall₂ SameText v.children w.children := by
  have hself := hv v .refl
  have hself' := hw w .refl
  have hleft {a : Value} (key : String) (ha : v.members.lookup key = some a) : Fits a :=
    fits_of_lookup hv.fits ha
  have hright {b : Value} (key : String) (hb : w.members.lookup key = some b) : Fits b :=
    fits_of_lookup hw.fits hb
  have hmember {a b : Value} (key : String) (ha : v.members.lookup key = some a)
      (hb : w.members.lookup key = some b) : canonicalString a = canonicalString b :=
    h.member hv.fits hw.fits key ha hb
  have hscalar {s t : Scalar} (key : String) (hs : v.members.lookup key = some (.scalar s))
      (ht : w.members.lookup key = some (.scalar t)) : s = t :=
    scalar_eq_of_canonicalString_eq (hleft key hs) (hright key ht) (hmember key hs ht)
  have hextent {e e' : Extent} (he : ∀ x ∈ e.floats, x.IsBinary64)
      (he' : ∀ x ∈ e'.floats, x.IsBinary64) (least most : String)
      (hmin : v.members.lookup least = some (canonicalRule e.min))
      (hmax : v.members.lookup most = some (canonicalRule e.max))
      (hmin' : w.members.lookup least = some (canonicalRule e'.min))
      (hmax' : w.members.lookup most = some (canonicalRule e'.max)) : e.Alike e' :=
    ⟨Value.alike_of_canonicalString_eq (fits_bounds he).1 (fits_bounds he').1
      (hmember least hmin hmin'),
      Value.alike_of_canonicalString_eq (fits_bounds he).2 (fits_bounds he').2
        (hmember most hmax hmax')⟩
  have hkind := hscalar "@" v.lookup_members_kind w.lookup_members_kind
  rw [Scalar.str.injEq] at hkind
  cases v <;> cases w <;> simp only [kind, String.reduceEq] at hkind
  case any.any => exact ⟨.any, .nil⟩
  case null.null => exact ⟨.null, .nil⟩
  case boolean.boolean => exact ⟨.boolean, .nil⟩
  case string.string length pattern format length' pattern' format' =>
    have hlength : length.Alike length' :=
      hextent hself hself' "min_length" "max_length" rfl rfl rfl rfl
    obtain rfl := canonicalText_injective (hmember "pattern" rfl rfl)
    obtain rfl := canonicalText_injective (hmember "format" rfl rfl)
    exact ⟨.string pattern format hlength, .nil⟩
  case custom.custom name name' =>
    cases hscalar "name" rfl rfl
    exact ⟨.custom name, .nil⟩
  case number.number integer rules integer' rules' =>
    cases hscalar "integer" rfl rfl
    have hrules := numberRules_eq hself hself' (.cons (hmember "minimum" rfl rfl)
      (.cons (hmember "maximum" rfl rfl) (.cons (hmember "exclusive_minimum" rfl rfl)
        (.cons (hmember "exclusive_maximum" rfl rfl) (.cons (hmember "multiple_of" rfl rfl) .nil)))))
    cases hrules
    exact ⟨.number integer rules, .nil⟩
  case literal.literal values values' =>
    have hforall := forall₂_of_canonicalString_list (hleft "values" rfl) (hright "values" rfl)
      (hmember "values" rfl rfl)
    rw [forall₂_map_left_iff, forall₂_map_right_iff] at hforall
    have hvalues : Forall₂ Eq values values' :=
      forall₂_imp_of_mem_of_mem hforall fun s hs s' hs' htext => by
        have hfits : Fits (.scalar s) := fun x hx => hself x (mem_flatMap.2 ⟨s, hs, hx⟩)
        have hfits' : Fits (.scalar s') := fun x hx => hself' x (mem_flatMap.2 ⟨s', hs', hx⟩)
        cases Value.alike_of_canonicalString_eq hfits hfits' htext
        rfl
    obtain rfl : values = values' := forall₂_eq_eq_eq ▸ hvalues
    exact ⟨.literal values, .nil⟩
  case array.array items length unique items' length' unique' =>
    have hlength : length.Alike length' :=
      hextent hself hself' "min_items" "max_items" rfl rfl rfl rfl
    cases hscalar "unique" rfl rfl
    exact ⟨.array unique hlength, .cons (hmember "items" rfl rfl) .nil⟩
  case record.record values count values' count' =>
    have hcount : count.Alike count' :=
      hextent hself hself' "min_properties" "max_properties" rfl rfl rfl rfl
    exact ⟨.record hcount, .cons (hmember "values" rfl rfl) .nil⟩
  case object.object fields forbidExtra extra count fields' forbidExtra' extra' count' =>
    have hcount : count.Alike count' :=
      hextent hself hself' "min_properties" "max_properties" rfl rfl rfl rfl
    cases hscalar "forbid_extra" rfl rfl
    have hfields := forall₂_fields_sameText (hleft "fields" rfl) (hright "fields" rfl)
      (hmember "fields" rfl rfl)
    have hextra := forall₂_extra_sameText (hmember "extra" rfl rfl)
    have hheads : fields.map fieldHead = fields'.map fieldHead :=
      (map_eq_map_of_forall₂ hfields fun hf => by simp [fieldHead, hf.1, hf.2.1]).symm
    exact ⟨.object forbidExtra hheads hcount,
      (forall₂_children_object hheads).2 ⟨hfields, hextra⟩⟩
  case union.union branches branches' =>
    exact ⟨.union, forall₂_sameText (hleft "branches" rfl) (hright "branches" rfl)
      (hmember "branches" rfl rfl)⟩
  case intersection.intersection branches branches' =>
    exact ⟨.intersection, forall₂_sameText (hleft "branches" rfl) (hright "branches" rfl)
      (hmember "branches" rfl rfl)⟩
  case nullable.nullable inner inner' =>
    exact ⟨.nullable, .cons (hmember "inner" rfl rfl) .nil⟩
  case ref.ref target target' =>
    cases hscalar "target" rfl rfl
    exact ⟨.ref target, .nil⟩
  case named.named name name' =>
    cases hscalar "name" rfl rfl
    exact ⟨.named name, .nil⟩

/-- Validators with one text are alike. -/
theorem SameText.alike (h : SameText v w) (hv : v.IsBinary64) (hw : w.IsBinary64) : Alike v w := by
  induction v using children_induction generalizing w with
  | step v ih =>
    obtain ⟨hhead, hchildren⟩ := h.sameHead_and_children hv hw
    refine .intro hhead (forall₂_imp_of_mem_of_mem hchildren fun c hc c' hc' hcc' => ?_)
    exact ih c hc hcc' (hv.child hc) (hw.child hc')

/-- The same validator, or one with the same text where the text tells. -/
def Equated (v w : Validator) : Prop :=
  v = w ∨ SameText v w ∧ v.IsBinary64 ∧ w.IsBinary64

theorem likeness_equated : Likeness Equated where
  refl v := .inl rfl
  symm h := h.imp Eq.symm fun ⟨htext, hv, hw⟩ => ⟨htext.symm, hw, hv⟩
  trans h h' := by
    obtain rfl | ⟨htext, hu, hv⟩ := h
    · exact h'
    · obtain rfl | ⟨htext', -, hw⟩ := h'
      · exact .inr ⟨htext, hu, hv⟩
      · exact .inr ⟨htext.trans htext', hu, hw⟩
  resembles h := by
    obtain rfl | ⟨htext, hv, hw⟩ := h
    · exact .refl _
    · exact (htext.sameHead_and_children hv hw).1.resembles
  children h := by
    obtain rfl | ⟨htext, hv, hw⟩ := h
    · exact forall₂_same.2 fun _ _ => .inl rfl
    · refine forall₂_imp_of_mem_of_mem (htext.sameHead_and_children hv hw).2 fun c hc c' hc' h => ?_
      exact .inr ⟨h, hv.child hc, hw.child hc'⟩

end Validator

end ApiSchema
