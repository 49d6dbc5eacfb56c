import ApiSchema.Proofs.Meaning.Basis

/-!
# Meaning of raw schemas

What the keywords of a schema assert, as they are written: each keyword on its own, about values of
the type it applies to. A keyword whose value is null asserts nothing.
-/

namespace ApiSchema

open Filter

/-- A value is of the type of that name. -/
inductive Value.HasType : Value → String → Prop
  | string (s : String) : HasType (.str s) "string"
  | number {v : Value} {n : Number} (h : v.number? = some n) : HasType v "number"
  | integer {v : Value} {n : Number} {i : Int} (h : v.number? = some n) (hint : n.value = .rat i) :
    HasType v "integer"
  | boolean (b : Bool) : HasType (.bool b) "boolean"
  | null : HasType .null "null"
  | array (xs : List Value) : HasType (.list xs) "array"
  | object (es : List (Scalar × Value)) : HasType (.map es) "object"

namespace Schema

/-! ### Keywords of one type -/

/-- The number under a keyword. -/
def numberAt (key : String) (raw : Value) : Option Number :=
  (given key raw).bind Value.number?

/-- The names of properties. -/
def propertyNames (raw : Value) : List String :=
  (raw.get "properties").entries.map (·.1.display)

/-- The names that are required. -/
def requiredNames (raw : Value) : List String :=
  match raw.get "required" with
  | .list names => names.map Value.display
  | _ => []

/-- What the keywords for strings assert. Only formats that are known assert something. -/
structure AssertsString (basis : Basis) (raw : Value) (s : String) : Prop where
  length : (Extent.mk (given "minLength" raw) (given "maxLength" raw)).Holds s.length
  pattern : ∀ p, given "pattern" raw = some (.str p) → basis.pattern p s
  format : ∀ f, given "format" raw = some (.str f) → f ∈ Format.supported → basis.format f s

/-- What the keywords for numbers assert. An exclusive bound is a number of its own, or a flag that
makes the inclusive bound exclusive. -/
structure AssertsNumber (raw : Value) (n : Number) : Prop where
  minimum : ∀ b, numberAt "minimum" raw = some b → b.le n
  maximum : ∀ b, numberAt "maximum" raw = some b → n.le b
  exclusiveMinimum : ∀ b, numberAt "exclusiveMinimum" raw = some b → b.lt n
  exclusiveMaximum : ∀ b, numberAt "exclusiveMaximum" raw = some b → n.lt b
  flaggedMinimum : given "exclusiveMinimum" raw = some (.bool true) →
    ∀ b, numberAt "minimum" raw = some b → b.lt n
  flaggedMaximum : given "exclusiveMaximum" raw = some (.bool true) →
    ∀ b, numberAt "maximum" raw = some b → n.lt b
  multipleOf : ∀ step, numberAt "multipleOf" raw = some step → n.IsMultipleOf step

section

-- `inner` tells what satisfies a schema inside the present one.
variable (basis : Basis) (inner : Value → Value → Prop)

/-- What the keywords for arrays assert. -/
structure AssertsArray (raw : Value) (xs : List Value) : Prop where
  length : (Extent.mk (given "minItems" raw) (given "maxItems" raw)).Holds xs.length
  unique : given "uniqueItems" raw = some (.bool true) → Check.areUnique xs
  items : ∀ schema, given "items" raw = some schema → ∀ x ∈ xs, inner schema x

/-- What the keywords for objects assert. Additional properties are those that are neither declared
nor required. -/
structure AssertsObject (raw : Value) (es : List (Scalar × Value)) : Prop where
  count : (Extent.mk (given "minProperties" raw) (given "maxProperties" raw)).Holds es.length
  required : ∀ name ∈ requiredNames raw, (Value.find? (.str name) es).isSome
  properties : ∀ p ∈ (raw.get "properties").entries, ∀ x,
    Value.find? (.str p.1.display) es = some x → inner p.2 x
  forbidden : given "additionalProperties" raw = some (.bool false) →
    ∀ e ∈ es, ¬ e.1.Lacks (propertyNames raw ++ requiredNames raw)
  additional : ∀ schema, given "additionalProperties" raw = some schema →
    (∀ b, schema ≠ .bool b) →
      ∀ e ∈ es, e.1.Lacks (propertyNames raw ++ requiredNames raw) → inner schema e.2

/-- What the keywords for one type assert about a value. -/
structure AssertsTyped (raw v : Value) : Prop where
  string : ∀ s, v = .str s → AssertsString basis raw s
  number : ∀ n, v.number? = some n → AssertsNumber raw n
  array : ∀ xs, v = .list xs → AssertsArray inner raw xs
  object : ∀ es, v = .map es → AssertsObject inner raw es

/-! ### All keywords -/

/-- What the type asserts: a name, or a list of names. -/
structure AssertsType (raw v : Value) : Prop where
  name : ∀ name, raw.get "type" = .str name → v.HasType name
  list : ∀ types, raw.get "type" = .list types → ∃ name, .str name ∈ types ∧ v.HasType name

/-- What the listed values assert. Beside a single value, a list of values is left aside. -/
structure AssertsListed (raw v : Value) : Prop where
  const : ∀ u, raw.get? "const" = some u → v.jsonSame u
  enum : raw.has "const" = false →
    ∀ us, raw.get? "enum" = some (.list us) → ∃ u ∈ us, v.jsonSame u

/-- The types are a list that names nothing but null, and this list is empty or stands beside a
combination. What else such a schema says of its own is left aside. -/
def IsAside (raw : Value) : Prop :=
  ∃ types, raw.get "type" = .list types ∧ (∀ t ∈ types, t = .str "null") ∧
    (types = [] ∨ raw.has "allOf" ∨ raw.has "anyOf" ∨ raw.has "oneOf")

/-- What a mapping without a reference asserts about a value. One of several schemas is taken to mean
some of them. -/
structure Asserts (raw v : Value) : Prop where
  type : ¬ IsAside raw → AssertsType raw v
  listed : ¬ IsAside raw → AssertsListed raw v
  typed : ¬ IsAside raw → AssertsTyped basis inner raw v
  allOf : ∀ ms, raw.get? "allOf" = some (.list ms) → ∀ m ∈ ms, inner m v
  anyOf : ∀ ms, raw.get? "anyOf" = some (.list ms) → ∃ m ∈ ms, inner m v
  oneOf : ∀ ms, raw.get? "oneOf" = some (.list ms) → ∃ m ∈ ms, inner m v

/-! ### Schemas inside of schemas -/

/-- Null is allowed by a schema that says so, or has it among its types. -/
def AllowsNull (raw : Value) : Prop :=
  isTrue (raw.get "nullable") ∨ ∃ types, raw.get "type" = .list types ∧ .str "null" ∈ types

variable (lib : Library) (doc : String) (target : String → Value → Prop)

/-- A value satisfies a schema of the document `doc`, given what it is to satisfy the schemas inside
it and the targets of references. -/
def SatisfiesLayer (raw v : Value) : Prop :=
  v = .null ∧ AllowsNull raw ∨
    match raw.get? "$ref" with
    | some ref => ∃ text referrer place, ref = .str text ∧
        lib.locate text doc referrer = .ok place ∧ target place.target v
    | none => Asserts basis inner raw v

end

section

variable (basis : Basis) (lib : Library) (doc : String) (target : String → Value → Prop)

/-- A value satisfies the first `n` layers of a schema. -/
def SatisfiesWithin : Nat → Value → Value → Prop
  | 0, _, _ => True
  | n + 1, raw, v => SatisfiesLayer basis (SatisfiesWithin n) lib doc target raw v

/-- A value satisfies all layers of a schema. -/
def Satisfies (raw v : Value) : Prop :=
  ∀ n, SatisfiesWithin basis lib doc target n raw v

end

variable {basis : Basis} {lib : Library} {doc : String} {target : String → Value → Prop}

lemma Asserts.mono {inner inner' : Value → Value → Prop} {raw v : Value}
    (h : Asserts basis inner raw v) (hinner : ∀ m x, inner m x → inner' m x) :
    Asserts basis inner' raw v where
  type := h.type
  listed := h.listed
  typed haside := {
    string := (h.typed haside).string
    number := (h.typed haside).number
    array := fun xs hxs =>
      let harray := (h.typed haside).array xs hxs
      { length := harray.length
        unique := harray.unique
        items := fun schema hschema x hx => hinner _ _ (harray.items schema hschema x hx) }
    object := fun es hes =>
      let hobject := (h.typed haside).object es hes
      { count := hobject.count
        required := hobject.required
        properties := fun p hp x hx => hinner _ _ (hobject.properties p hp x hx)
        forbidden := hobject.forbidden
        additional := fun schema hschema hbool e he hlacks =>
          hinner _ _ (hobject.additional schema hschema hbool e he hlacks) } }
  allOf ms hms m hm := hinner _ _ (h.allOf ms hms m hm)
  anyOf ms hms := (h.anyOf ms hms).imp fun _ hm => ⟨hm.1, hinner _ _ hm.2⟩
  oneOf ms hms := (h.oneOf ms hms).imp fun _ hm => ⟨hm.1, hinner _ _ hm.2⟩

lemma SatisfiesLayer.mono {inner inner' : Value → Value → Prop} {raw v : Value}
    (h : SatisfiesLayer basis inner lib doc target raw v)
    (hinner : ∀ m x, inner m x → inner' m x) :
    SatisfiesLayer basis inner' lib doc target raw v := by
  refine Or.imp_right (fun h => ?_) h
  cases href : raw.get? "$ref" with
  | some ref => simpa only [href] using h
  | none =>
    rw [href] at h
    exact h.mono hinner

lemma SatisfiesWithin.of_succ {n : Nat} {raw v : Value}
    (h : SatisfiesWithin basis lib doc target (n + 1) raw v) :
    SatisfiesWithin basis lib doc target n raw v := by
  induction n generalizing raw v with
  | zero => trivial
  | succ n ih => exact SatisfiesLayer.mono h fun _ _ => ih

lemma SatisfiesWithin.of_le {m n : Nat} (hmn : m ≤ n) {raw v : Value}
    (h : SatisfiesWithin basis lib doc target n raw v) :
    SatisfiesWithin basis lib doc target m raw v := by
  induction hmn with
  | refl => exact h
  | step _ ih => exact ih h.of_succ

/-- If at every depth some of finitely many schemas is satisfied, one of them is satisfied at every
depth. -/
lemma exists_satisfies {ms : List Value} {v : Value}
    (h : ∀ n, ∃ m ∈ ms, SatisfiesWithin basis lib doc target n m v) :
    ∃ m ∈ ms, Satisfies basis lib doc target m v := by
  by_contra hnone
  have hfails : ∀ m ∈ ms, ∀ᶠ n in atTop, ¬ SatisfiesWithin basis lib doc target n m v := by
    intro m hm
    obtain ⟨k, hk⟩ : ∃ k, ¬ SatisfiesWithin basis lib doc target k m v := by
      by_contra hall
      exact hnone ⟨m, hm, fun n => not_not.1 fun hn => hall ⟨n, hn⟩⟩
    exact (eventually_ge_atTop k).mono fun n hkn hn => hk (hn.of_le hkn)
  obtain ⟨n, hn⟩ := (eventually_forall_mem hfails).exists
  obtain ⟨m, hm, hsatisfies⟩ := h n
  exact hn m hm hsatisfies

lemma Asserts.of_forall_within {raw v : Value}
    (h : ∀ n, Asserts basis (SatisfiesWithin basis lib doc target n) raw v) :
    Asserts basis (Satisfies basis lib doc target) raw v where
  type := (h 0).type
  listed := (h 0).listed
  typed haside := {
    string := ((h 0).typed haside).string
    number := ((h 0).typed haside).number
    array := fun xs hxs =>
      { length := (((h 0).typed haside).array xs hxs).length
        unique := (((h 0).typed haside).array xs hxs).unique
        items := fun schema hschema x hx n =>
          (((h n).typed haside).array xs hxs).items schema hschema x hx }
    object := fun es hes =>
      { count := (((h 0).typed haside).object es hes).count
        required := (((h 0).typed haside).object es hes).required
        properties := fun p hp x hx n =>
          (((h n).typed haside).object es hes).properties p hp x hx
        forbidden := (((h 0).typed haside).object es hes).forbidden
        additional := fun schema hschema hbool e he hlacks n =>
          (((h n).typed haside).object es hes).additional schema hschema hbool e he hlacks } }
  allOf ms hms m hm n := (h n).allOf ms hms m hm
  anyOf ms hms := exists_satisfies fun n => (h n).anyOf ms hms
  oneOf ms hms := exists_satisfies fun n => (h n).oneOf ms hms

/-- A value satisfies a schema exactly if it satisfies one layer of it, and the schemas inside. -/
theorem satisfies_iff {raw v : Value} :
    Satisfies basis lib doc target raw v ↔
      SatisfiesLayer basis (Satisfies basis lib doc target) lib doc target raw v := by
  constructor
  · intro h
    by_cases hnull : v = .null ∧ AllowsNull raw
    · exact .inl hnull
    have hlayer (n : Nat) := (h (n + 1)).resolve_left hnull
    cases href : raw.get? "$ref" with
    | some ref => exact .inr (by simpa only [href] using hlayer 0)
    | none =>
      refine .inr ?_
      simp only [href] at hlayer ⊢
      exact .of_forall_within hlayer
  · intro h n
    cases n with
    | zero => trivial
    | succ n => exact h.mono fun m x hx => hx n

end Schema

end ApiSchema
