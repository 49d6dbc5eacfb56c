import ApiSchema.Proofs.Schema.Keywords
import ApiSchema.Proofs.Validator.Bounds

/-!
# Bounds of integer schemas

The bounds of a raw schema are rational numbers, inclusive or exclusive, and a flag may turn an
inclusive one into an exclusive one. Main statement: the integers within the bounds of the validator
of an integer schema are those that satisfy the keywords as written.
-/

namespace ApiSchema

namespace Number

lemma toRat?_eq_some_iff {b : Number} {q : Rat} : b.toRat? = some q ↔ b.value = .rat q := by
  cases b with
  | int i => simp [toRat?, value]
  | float x =>
    cases hx : x.toRat? with
    | none =>
      simp only [toRat?, hx, value, Double.value, reduceCtorEq, false_iff]
      split <;> simp
    | some p => simp [toRat?, hx, value_float hx]

end Number

namespace Schema

variable {raw : Value} {pointer : String}

/-- The rational number that a keyword denotes, if it is a finite number. -/
def rationalAt (key : String) (raw : Value) : Option Rat :=
  (numberAt key raw).bind Number.toRat?

/-- What a bound and its exclusive twin demand on one side: the bound is kept, strictly where the
twin is the flag, and a twin that is a number is kept strictly. -/
structure KeepsSide (raw : Value) (key twin : String) (within strictly : Rat → Prop) : Prop where
  inclusive : ∀ q, rationalAt key raw = some q → within q
  exclusive : ∀ q, rationalAt twin raw = some q → strictly q
  flagged : given twin raw = some (.bool true) → ∀ q, rationalAt key raw = some q → strictly q

/-- An integer satisfies the bounds of a raw schema. -/
structure KeepsBounds (raw : Value) (i : Int) : Prop where
  lower : KeepsSide raw "minimum" "exclusiveMinimum" (· ≤ (i : Rat)) (· < (i : Rat))
  upper : KeepsSide raw "maximum" "exclusiveMaximum" ((i : Rat) ≤ ·) ((i : Rat) < ·)

/-- A demand on the rational number under a keyword is one on the number, if that is finite. -/
lemma forall_rationalAt_iff {key : String} {demand : Rat → Prop} {demand' : Number → Prop}
    (hdemand : ∀ {b q}, b.value = .rat q → (demand' b ↔ demand q))
    (hfinite : ∀ b, numberAt key raw = some b → b.IsFinite) :
    (∀ q, rationalAt key raw = some q → demand q) ↔
      ∀ b, numberAt key raw = some b → demand' b := by
  constructor
  · intro h b hb
    obtain ⟨q, hq⟩ := hfinite b hb
    refine (hdemand hq).2 (h q ?_)
    rw [rationalAt, hb, Option.bind_some, Number.toRat?_eq_some_iff.2 hq]
  · intro h q hq
    obtain ⟨b, hb, hbq⟩ := Option.bind_eq_some_iff.1 hq
    exact (hdemand (Number.toRat?_eq_some_iff.1 hbq)).1 (h b hb)

/-- The two bounds that are read for one side demand what the keywords of that side do. -/
lemma keepsSide_iff_of_readExclusive {key twin : String} {bounds : Option Number × Option Number}
    {within strictly : Rat → Prop} {within' strictly' : Number → Prop}
    (h : readExclusive raw pointer twin (numberAt key raw) = .ok bounds)
    (hwithin : ∀ {b q}, b.value = .rat q → (within' b ↔ within q))
    (hstrictly : ∀ {b q}, b.value = .rat q → (strictly' b ↔ strictly q))
    (hstrict : ∀ b, strictly' b → within' b)
    (hfinite : (∀ b ∈ bounds.1, b.IsFinite) ∧ ∀ b ∈ bounds.2, b.IsFinite) :
    KeepsSide raw key twin within strictly ↔
      (∀ b ∈ bounds.1, within' b) ∧ ∀ b ∈ bounds.2, strictly' b := by
  obtain ⟨hkey, htwin, -⟩ :=
    (bounds_iff_of_readExclusive Number.IsFinite Number.IsFinite h fun _ => id).1 hfinite
  rw [bounds_iff_of_readExclusive within' strictly' h hstrict]
  have hinclusive := forall_rationalAt_iff hwithin hkey
  have hexclusive := forall_rationalAt_iff hstrictly htwin
  have hflagged := forall_rationalAt_iff hstrictly hkey
  constructor
  · rintro ⟨h₁, h₂, h₃⟩
    exact ⟨hinclusive.1 h₁, hexclusive.1 h₂, fun hflag => hflagged.1 (h₃ hflag)⟩
  · rintro ⟨h₁, h₂, h₃⟩
    exact ⟨hinclusive.2 h₁, hexclusive.2 h₂, fun hflag => hflagged.2 (h₃ hflag)⟩

lemma admits_iff_keepsBounds {rules : NumberRules} {i : Int}
    (h : readNumberRules raw pointer = .ok rules)
    (hlower : (∀ b ∈ rules.minimum, b.IsFinite) ∧ ∀ b ∈ rules.exclusiveMinimum, b.IsFinite)
    (hupper : (∀ b ∈ rules.maximum, b.IsFinite) ∧ ∀ b ∈ rules.exclusiveMaximum, b.IsFinite) :
    rules.Admits (.int i) ↔ KeepsBounds raw i := by
  obtain ⟨hreadLower, hreadUpper, -⟩ := sides_of_readNumberRules h
  have hi := Number.value_int i
  have hlow := keepsSide_iff_of_readExclusive hreadLower
    (fun hb => Number.le_iff_of_value hb hi) (fun hb => Number.lt_iff_of_value hb hi)
    (fun _ => Number.le_of_lt) hlower
  have hup := keepsSide_iff_of_readExclusive hreadUpper
    (fun hb => Number.le_iff_of_value hi hb) (fun hb => Number.lt_iff_of_value hi hb)
    (fun _ => Number.le_of_lt) hupper
  constructor
  · rintro ⟨h₁, h₂, h₃, h₄⟩
    exact ⟨hlow.2 ⟨h₁, h₃⟩, hup.2 ⟨h₂, h₄⟩⟩
  · rintro ⟨h₁, h₂⟩
    obtain ⟨hmin, hexcMin⟩ := hlow.1 h₁
    obtain ⟨hmax, hexcMax⟩ := hup.1 h₂
    exact ⟨hmin, hmax, hexcMin, hexcMax⟩

/-- The validator of an integer schema has the integers within its bounds that satisfy the bounds as
written. -/
theorem admits_ofNumber_iff_keepsBounds {rules : NumberRules} {v : Validator}
    (hread : readNumberRules raw pointer = .ok rules)
    (hv : Validator.ofNumber true rules = .ok v) :
    ∃ normal, v = .number true normal ∧ ∀ i : Int, normal.Admits (.int i) ↔ KeepsBounds raw i := by
  obtain ⟨normal, hnormal, rfl⟩ := Except.map_eq_ok_iff.1 hv
  obtain ⟨hlower, hupper⟩ := NumberRules.isFinite_of_ofInteger hnormal
  refine ⟨normal, rfl, fun i => ?_⟩
  rw [NumberRules.admits_iff_of_ofInteger hnormal (Number.value_int i),
    admits_iff_keepsBounds hread hlower hupper]

/-- A schema whose lower bounds are fractional, one of them exclusive, and whose upper bound is made
exclusive by a flag. -/
def mixedBounds : Value :=
  .object [("type", .str "integer"), ("minimum", .float (.finite true 5 (-1))),
    ("exclusiveMinimum", .float (.finite false 3 (-1))), ("maximum", .int 10),
    ("exclusiveMaximum", .bool true)]

/-- What is read of it: the flag has moved the upper bound. -/
def mixedRules : NumberRules where
  minimum := some (.float (.finite true 5 (-1)))
  exclusiveMinimum := some (.float (.finite false 3 (-1)))
  exclusiveMaximum := some (.int 10)

/-- The least integer of that schema is two, the greatest nine. -/
theorem keepsBounds_mixedBounds :
    readNumberRules mixedBounds "#" = .ok mixedRules ∧
      ∀ i : Int, KeepsBounds mixedBounds i ↔ 2 ≤ i ∧ i < 10 := by
  have hread : readNumberRules mixedBounds "#" = .ok mixedRules := by decide
  have hnormal : mixedRules.ofInteger =
      .ok { minimum := some (.int 2), exclusiveMaximum := some (.int 10) } := by
    decide +kernel
  have hv : Validator.ofNumber true mixedRules =
      .ok (.number true { minimum := some (.int 2), exclusiveMaximum := some (.int 10) }) := by
    rw [Validator.ofNumber, if_pos rfl, hnormal, Except.map]
  refine ⟨hread, fun i => ?_⟩
  obtain ⟨normal, heq, hiff⟩ := admits_ofNumber_iff_keepsBounds hread hv
  cases heq
  have hlow : (Number.int 2).le (.int i) ↔ 2 ≤ i := by
    rw [Number.le_iff_of_value (Number.value_int 2) (Number.value_int i), Int.cast_le]
  have hup : (Number.int i).lt (.int 10) ↔ i < 10 := by
    rw [Number.lt_iff_of_value (Number.value_int i) (Number.value_int 10), Int.cast_lt]
  rw [← hiff, ← hlow, ← hup]
  refine ⟨fun h => ⟨h.minimum _ rfl, h.exclusiveMaximum _ rfl⟩, fun h => ⟨?_, ?_, ?_, ?_⟩⟩
  all_goals simp [h.1, h.2]

end Schema

end ApiSchema
