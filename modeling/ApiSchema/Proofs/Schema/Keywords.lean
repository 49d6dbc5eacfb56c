import ApiSchema.Proofs.Meaning.Node
import ApiSchema.Proofs.Meaning.Raw
import ApiSchema.Proofs.Schema.Listed

/-!
# Keywords of a raw schema

What the constraints that are read from a raw schema say of a value, against what its keywords
assert: for strings and numbers, for listed values, for each type on its own, and for the types that
are declared.
-/

namespace ApiSchema

open List Except Option

namespace Node

variable (basis : Basis) (target : String → Value → Prop)

variable {node : Node}

/-- A value meets a schema that is read on its own, without validators from outside. -/
abbrev MeetsAlone (node : Node) (v : Value) : Prop :=
  node.Meets basis {} (fun _ => none) (fun _ => target) none v

/-- Whatever meets the schema has the property. -/
def Guarantees (P : Value → Prop) (node : Node) : Prop :=
  ∀ v, node.MeetsAlone basis target v → P v

variable {basis target} {P Q : Value → Prop}

lemma Guarantees.mono (h : node.Guarantees basis target P) (hPQ : ∀ v, P v → Q v) :
    node.Guarantees basis target Q :=
  fun v hv => hPQ v (h v hv)

/-- Where null is not allowed beside, only what the kind of the node says counts. -/
lemma guarantees_of_bare (hsite : node.nullable = false)
    (h : ∀ v, node.MeetsBare basis {} (fun _ => none) (fun _ => target) none v → P v) :
    node.Guarantees basis target P := by
  intro v hv
  rcases meets_iff.1 hv with hnull | hbare
  · simp [hsite] at hnull
  · exact h v hbare

lemma meetsAlone_orNull {v : Value} (h : node.orNull.MeetsAlone basis target v) :
    v = .null ∨ node.MeetsAlone basis target v := by
  unfold orNull at h
  split at h
  · exact .inr h
  · rcases meets_iff.1 h with hnull | hbare
    · exact .inl hnull.2
    · refine .inr (meets_iff.2 (.inr ?_))
      cases node <;> exact hbare

end Node

namespace Schema

open Node (Guarantees guarantees_of_bare)
open Traced

variable {key : String} {keywords : List String} {rules : NumberRules} {n : Number} {t : Scalar}

/-! ### Keywords -/

lemma given_eq_some_iff {raw v : Value} : given key raw = some v ↔ raw.get key = v ∧ v ≠ .null := by
  unfold given Value.get
  cases h : raw.get? key with
  | none =>
    simp only [getD_none, reduceCtorEq, false_iff]
    rintro ⟨rfl, hv⟩
    exact hv rfl
  | some u =>
    split
    next hu =>
      cases hu
      simp only [getD_some, reduceCtorEq, false_iff]
      rintro ⟨rfl, hv⟩
      exact hv rfl
    next hu =>
      simp only [getD_some, Option.some.injEq]
      refine ⟨?_, And.left⟩
      rintro rfl
      exact ⟨rfl, fun hnull => hu (by rw [hnull])⟩

lemma get?_eq_none_of_has {raw : Value} (h : raw.has key = false) : raw.get? key = none := by
  simpa [Value.has] using h

lemma get_of_has {raw : Value} (h : raw.has key = false) : raw.get key = .null := by
  rw [Value.get, get?_eq_none_of_has h, getD_none]

lemma has_of_hasAny {raw : Value} (h : hasAny keywords raw = false) (hkey : key ∈ keywords) :
    raw.has key = false := by
  simpa using any_eq_false.1 h key hkey

lemma given_of_hasAny {raw : Value} (h : hasAny keywords raw = false) (hkey : key ∈ keywords) :
    given key raw = none := by
  rw [given, get?_eq_none_of_has (has_of_hasAny h hkey)]

lemma hasAny_of_subset {more : List String} {raw : Value} (h : hasAny more raw = false)
    (hsub : keywords ⊆ more) : hasAny keywords raw = false :=
  any_eq_false.2 fun key hkey => any_eq_false.1 h key (hsub hkey)

/-! ### Strings and numbers -/

variable {basis : Basis} {raw v : Value} {pointer : String}

lemma assertsString_of_absent (h : hasAny stringKeywords raw = false) (s : String) :
    AssertsString basis raw s where
  length := by
    rw [given_of_hasAny h (by decide), given_of_hasAny h (by decide)]
    exact ⟨Extent.atLeast_none _, Extent.atMost_none _⟩
  pattern p hp := by simp [given_of_hasAny h (show "pattern" ∈ stringKeywords by decide)] at hp
  format f hf := by simp [given_of_hasAny h (show "format" ∈ stringKeywords by decide)] at hf

lemma exists_assertsString (h : (readStringRules raw).Holds basis {} v) :
    ∃ s, v = .str s ∧ AssertsString basis raw s := by
  have hcustom : (readStringRules raw).custom? {} = none := by
    unfold StringRules.custom?
    split <;> rfl
  rw [StringRules.Holds, hcustom] at h
  obtain ⟨s, rfl, hlength, hpattern, hformat⟩ := h
  exact ⟨s, rfl, hlength, hpattern, hformat⟩

lemma numberAt_of_hasAny (h : hasAny keywords raw = false) (hkey : key ∈ keywords) :
    numberAt key raw = none := by
  rw [numberAt, given_of_hasAny h hkey, Option.bind_none]

lemma assertsNumber_of_absent (h : hasAny numberKeywords raw = false) (n : Number) :
    AssertsNumber raw n where
  minimum b hb := by simp [numberAt_of_hasAny h (show "minimum" ∈ numberKeywords by decide)] at hb
  maximum b hb := by simp [numberAt_of_hasAny h (show "maximum" ∈ numberKeywords by decide)] at hb
  exclusiveMinimum b hb := by
    simp [numberAt_of_hasAny h (show "exclusiveMinimum" ∈ numberKeywords by decide)] at hb
  exclusiveMaximum b hb := by
    simp [numberAt_of_hasAny h (show "exclusiveMaximum" ∈ numberKeywords by decide)] at hb
  flaggedMinimum hflag := by
    simp [given_of_hasAny h (show "exclusiveMinimum" ∈ numberKeywords by decide)] at hflag
  flaggedMaximum hflag := by
    simp [given_of_hasAny h (show "exclusiveMaximum" ∈ numberKeywords by decide)] at hflag
  multipleOf step hstep := by
    simp [numberAt_of_hasAny h (show "multipleOf" ∈ numberKeywords by decide)] at hstep

lemma eq_numberAt_of_readBound {bound : Option Number} (h : readBound raw pointer key = .ok bound) :
    bound = numberAt key raw := by
  unfold readBound at h
  unfold numberAt
  split at h
  next hgiven =>
    cases h
    rw [hgiven, Option.bind_none]
  next u hgiven =>
    split at h
    next n hn =>
      cases h
      rw [hgiven, bind_some, hn]
    next => cases h

/-- What the two bounds that are read demand is what the bounds as written demand: an exclusive
bound is a number of its own, or a flag that makes the inclusive bound exclusive. -/
lemma bounds_iff_of_readExclusive {inclusive : Option Number}
    {bounds : Option Number × Option Number} (within strictly : Number → Prop)
    (h : readExclusive raw pointer key inclusive = .ok bounds)
    (hstrict : ∀ b, strictly b → within b) :
    ((∀ b ∈ bounds.1, within b) ∧ ∀ b ∈ bounds.2, strictly b) ↔
      (∀ b ∈ inclusive, within b) ∧ (∀ b, numberAt key raw = some b → strictly b) ∧
        (given key raw = some (.bool true) → ∀ b ∈ inclusive, strictly b) := by
  unfold readExclusive at h
  unfold numberAt
  split at h
  next hgiven =>
    cases h
    simp [hgiven]
  next flag hgiven =>
    cases h
    cases flag with
    | true =>
      simp only [if_true, Option.not_mem_none, false_implies, implies_true, true_and, hgiven,
        bind_some, Value.number?, reduceCtorEq, forall_const]
      exact ⟨fun hs => ⟨fun b hb => hstrict b (hs b hb), hs⟩, And.right⟩
    | false => simp [hgiven, Value.number?]
  next u hbool hgiven =>
    split at h
    next n hn =>
      cases h
      have hflag : u ≠ .bool true := fun hu => hbool true hu
      simp [hgiven, hn, hflag]
    next => cases h

/-- What is read of the numeric keywords, side by side. -/
lemma sides_of_readNumberRules (h : readNumberRules raw pointer = .ok rules) :
    readExclusive raw pointer "exclusiveMinimum" (numberAt "minimum" raw) =
        .ok (rules.minimum, rules.exclusiveMinimum) ∧
      readExclusive raw pointer "exclusiveMaximum" (numberAt "maximum" raw) =
        .ok (rules.maximum, rules.exclusiveMaximum) ∧
      rules.multipleOf = numberAt "multipleOf" raw := by
  obtain ⟨minimum, hmin, h⟩ := bind_eq_ok_iff.1 h
  obtain ⟨maximum, hmax, h⟩ := bind_eq_ok_iff.1 h
  obtain ⟨step, hstep, h⟩ := bind_eq_ok_iff.1 h
  obtain ⟨lower, hlower, h⟩ := bind_eq_ok_iff.1 h
  obtain ⟨upper, hupper, h⟩ := bind_eq_ok_iff.1 h
  cases h
  cases eq_numberAt_of_readBound hmin
  cases eq_numberAt_of_readBound hmax
  exact ⟨hlower, hupper, eq_numberAt_of_readBound hstep⟩

lemma assertsNumber_of_holds (h : readNumberRules raw pointer = .ok rules) (hn : rules.Holds n) :
    AssertsNumber raw n := by
  obtain ⟨hlower, hupper, hstep⟩ := sides_of_readNumberRules h
  obtain ⟨hminimum, hexcMin, hflagMin⟩ := (bounds_iff_of_readExclusive (fun b => b.le n)
    (fun b => b.lt n) hlower fun _ => Number.le_of_lt).1 ⟨hn.minimum, hn.exclusiveMinimum⟩
  obtain ⟨hmaximum, hexcMax, hflagMax⟩ := (bounds_iff_of_readExclusive (fun b => n.le b)
    (fun b => n.lt b) hupper fun _ => Number.le_of_lt).1 ⟨hn.maximum, hn.exclusiveMaximum⟩
  exact {
    minimum := hminimum
    maximum := hmaximum
    exclusiveMinimum := hexcMin
    exclusiveMaximum := hexcMax
    flaggedMinimum := hflagMin
    flaggedMaximum := hflagMax
    multipleOf := hstep ▸ hn.multipleOf }

/-! ### Listed values -/

lemma number?_of_jsonSame {s : Scalar} (h : s.jsonSame t) (hn : Value.number? (.scalar t) = some n) :
    ∃ m, Value.number? (.scalar s) = some m ∧ m.value = n.value := by
  cases t with
  | null | bool _ | str _ => cases hn
  | int _ | float _ =>
    cases hn
    cases s with
    | null | bool _ | str _ => cases h
    | int _ | float _ => exact ⟨_, rfl, beq_iff_eq.1 h⟩

lemma exists_value_of_isInteger {x : Double} (h : x.isInteger) : ∃ i : Int, x.value = .rat i := by
  unfold Double.isInteger at h
  split at h
  next q hq =>
    refine ⟨q.num, ?_⟩
    rw [Double.value, hq, Rat.coe_int_num_of_den_eq_one (beq_iff_eq.1 h)]
  next => cases h

/-- A value that equals a scalar of a type as a JSON value is of that type. -/
lemma hasType_of_jsonSame {s : Scalar} (h : s.jsonSame t) {type : String}
    (htype : hasType t type = .ok true) : Value.HasType (.scalar s) type := by
  cases t with
  | null =>
    cases beq_iff_eq.1 (Except.ok.inj htype)
    cases s with
    | null => exact .null
    | bool _ | int _ | float _ | str _ => cases h
  | bool b =>
    cases beq_iff_eq.1 (Except.ok.inj htype)
    cases s with
    | bool b => exact .boolean b
    | null | int _ | float _ | str _ => cases h
  | str u =>
    cases beq_iff_eq.1 (Except.ok.inj htype)
    cases s with
    | str u => exact .string u
    | null | bool _ | int _ | float _ => cases h
  | int i =>
    obtain ⟨m, hm, hvalue⟩ := number?_of_jsonSame h rfl
    simp only [hasType] at htype
    split at htype
    next hinteger =>
      rw [hinteger]
      exact .integer hm hvalue
    next =>
      cases beq_iff_eq.1 (Except.ok.inj htype)
      exact .number hm
  | float x =>
    obtain ⟨m, hm, hvalue⟩ := number?_of_jsonSame h rfl
    simp only [hasType, Except.ok.injEq] at htype
    split at htype
    next hinteger =>
      rw [hinteger]
      obtain ⟨i, hi⟩ := exists_value_of_isInteger htype
      exact .integer hm (hvalue.trans hi)
    next =>
      cases beq_iff_eq.1 htype
      exact .number hm

lemma assertsListed_of_isAmong {s : Scalar} (h : IsAmong raw t) (hsame : s.jsonSame t) :
    AssertsListed raw (.scalar s) ∧ AssertsType raw (.scalar s) := by
  refine ⟨⟨?_, ?_⟩, ⟨?_, ?_⟩⟩
  · intro u hu
    rw [h.const u hu]
    exact hsame
  · intro hconst us hus
    exact ⟨_, h.enum hconst us hus, hsame⟩
  · intro name hname
    exact hasType_of_jsonSame hsame (h.name name hname)
  · intro types htypes
    obtain ⟨name, hmem, htype⟩ := h.list types htypes
    exact ⟨name, hmem, hasType_of_jsonSame hsame htype⟩

lemma guarantees_of_readListed {target : String → Value → Prop} {node : Node}
    (h : readListed raw pointer = .ok node) :
    node.Guarantees basis target fun v => AssertsListed raw v ∧ AssertsType raw v := by
  obtain ⟨values, hvalues, rfl | rfl⟩ := isAmong_of_readListed h
  all_goals
    refine guarantees_of_bare rfl ?_
    rintro _ ⟨s, rfl, hs⟩
    obtain ⟨t, ht, hsame⟩ := any_eq_true.1 hs
    exact assertsListed_of_isAmong (hvalues t ht) hsame

/-! ### One type -/

section

variable {sat : Value → Value → Prop}

lemma AssertsTyped.of_string {s : String} (h : AssertsString basis raw s) :
    AssertsTyped basis sat raw (.str s) where
  string := by
    rintro _ ⟨⟩
    exact h
  number := by
    rintro n ⟨⟩
  array := by
    rintro xs ⟨⟩
  object := by
    rintro es ⟨⟩

lemma AssertsTyped.of_number {n : Number} (hv : v.number? = some n) (h : AssertsNumber raw n) :
    AssertsTyped basis sat raw v where
  string := by
    rintro s rfl
    cases hv
  number := by
    intro m hm
    rw [← Option.some.inj (hv.symm.trans hm)]
    exact h
  array := by
    rintro xs rfl
    cases hv
  object := by
    rintro es rfl
    cases hv

lemma AssertsTyped.of_array {xs : List Value} (h : AssertsArray sat raw xs) :
    AssertsTyped basis sat raw (.list xs) where
  string := by
    rintro s ⟨⟩
  number := by
    rintro n ⟨⟩
  array := by
    rintro _ ⟨⟩
    exact h
  object := by
    rintro es ⟨⟩

lemma AssertsTyped.of_object {es : List (Scalar × Value)} (h : AssertsObject sat raw es) :
    AssertsTyped basis sat raw (.map es) where
  string := by
    rintro s ⟨⟩
  number := by
    rintro n ⟨⟩
  array := by
    rintro xs ⟨⟩
  object := by
    rintro _ ⟨⟩
    exact h

/-- No keyword is about truth values or null. -/
lemma AssertsTyped.of_plain (h : v = .null ∨ ∃ b, v = .bool b) : AssertsTyped basis sat raw v := by
  rcases h with rfl | ⟨b, rfl⟩
  all_goals
    refine ⟨?_, ?_, ?_, ?_⟩ <;> rintro _ ⟨⟩

lemma assertsArray_of_absent (h : hasAny arrayKeywords raw = false) (xs : List Value) :
    AssertsArray sat raw xs where
  length := by
    rw [given_of_hasAny h (by decide), given_of_hasAny h (by decide)]
    exact ⟨Extent.atLeast_none _, Extent.atMost_none _⟩
  unique hunique := by
    simp [given_of_hasAny h (show "uniqueItems" ∈ arrayKeywords by decide)] at hunique
  items schema hschema := by
    simp [given_of_hasAny h (show "items" ∈ arrayKeywords by decide)] at hschema

lemma assertsObject_of_absent (h : hasAny objectKeywords raw = false)
    (es : List (Scalar × Value)) : AssertsObject sat raw es where
  count := by
    rw [given_of_hasAny h (by decide), given_of_hasAny h (by decide)]
    exact ⟨Extent.atLeast_none _, Extent.atMost_none _⟩
  required name hname := by
    rw [requiredNames, get_of_has (has_of_hasAny h (by decide))] at hname
    cases hname
  properties p hp := by
    rw [get_of_has (has_of_hasAny h (by decide))] at hp
    cases hp
  forbidden hforbidden := by
    simp [given_of_hasAny h (show "additionalProperties" ∈ objectKeywords by decide)] at hforbidden
  additional schema hschema := by
    simp [given_of_hasAny h (show "additionalProperties" ∈ objectKeywords by decide)] at hschema

lemma assertsTyped_of_absent (h : hasAny typedKeywords raw = false) (v : Value) :
    AssertsTyped basis sat raw v where
  string s _ := assertsString_of_absent (hasAny_of_subset h (by decide)) s
  number n _ := assertsNumber_of_absent (hasAny_of_subset h (by decide)) n
  array xs _ := assertsArray_of_absent (hasAny_of_subset h (by decide)) xs
  object es _ := assertsObject_of_absent (hasAny_of_subset h (by decide)) es

end

/-! ### Declared types -/

lemma eq_str_of_same {s : String} (h : v.same (.str s)) : v = .str s := by
  cases v with
  | scalar a =>
    cases a with
    | str t => rw [beq_iff_eq.1 h]
    | null | bool _ | int _ | float _ => cases h
  | list _ | tuple _ | map _ => cases h

lemma declaredTypes_of_list {types : List Value} (h : raw.get "type" = .list types) :
    declaredTypes raw =
      (types.filter fun t => !t.same (.str "null"), types.any fun t => t.same (.str "null")) := by
  rw [declaredTypes, h]

/-- Types are declared, and none of them is another than null. -/
def OnlyNull (raw : Value) : Prop :=
  raw.get "type" ≠ .null ∧ (declaredTypes raw).1 = []

/-- A value of one of the declared types is of the type that is asserted, unless only null is. -/
lemma assertsType_of_declared (honly : ¬ OnlyNull raw)
    (h : (declaredTypes raw).1 ≠ [] → ∃ name, .str name ∈ (declaredTypes raw).1 ∧ v.HasType name) :
    AssertsType raw v where
  name name hname := by
    have htypes : (declaredTypes raw).1 = [.str name] := by rw [declaredTypes, hname]
    rw [htypes] at h
    obtain ⟨other, hother, hhas⟩ := h (cons_ne_nil _ _)
    cases mem_singleton.1 hother
    exact hhas
  list types hlist := by
    have hne : (declaredTypes raw).1 ≠ [] := fun hnil => honly ⟨by simp [hlist], hnil⟩
    obtain ⟨name, hmem, hhas⟩ := h hne
    rw [declaredTypes_of_list hlist] at hmem
    exact ⟨name, mem_of_mem_filter hmem, hhas⟩

lemma allowsNull_of_declared (h : (declaredTypes raw).2 = true) : AllowsNull raw := by
  refine .inr ?_
  cases hget : raw.get "type" with
  | list types =>
    rw [declaredTypes_of_list hget] at h
    obtain ⟨t, ht, hsame⟩ := any_eq_true.1 h
    exact ⟨types, rfl, eq_str_of_same hsame ▸ ht⟩
  | scalar s =>
    rw [declaredTypes, hget] at h
    cases s <;> cases h
  | tuple _ | map _ =>
    rw [declaredTypes, hget] at h
    cases h

/-- Where null is left out and nothing remains, there was a list of nothing but null. -/
lemma OnlyNull.exists_list (h : OnlyNull raw) :
    ∃ types, raw.get "type" = .list types ∧ ∀ t ∈ types, t = .str "null" := by
  obtain ⟨hnull, h⟩ := h
  cases hget : raw.get "type" with
  | list types =>
    refine ⟨types, rfl, fun t ht => eq_str_of_same ?_⟩
    rw [declaredTypes_of_list hget] at h
    simpa using filter_eq_nil_iff.1 h t ht
  | scalar s =>
    rw [declaredTypes, hget] at h
    cases s with
    | null => exact absurd hget hnull
    | bool _ | int _ | float _ | str _ => cases h
  | tuple _ | map _ =>
    rw [declaredTypes, hget] at h
    cases h

end Schema

end ApiSchema
