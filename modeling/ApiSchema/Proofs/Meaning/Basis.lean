import Mathlib
import ApiSchema.Check
import ApiSchema.Validator.OfNode

/-!
# Meaning of constraints

What single constraints demand of a value, apart from the place they stand at: bounds on numbers and
counts, listed values, strings. Patterns, formats and the validators from outside are taken as given
by a `Basis`. Schemas and validators get their meaning from these in the modules that follow.
-/

namespace ApiSchema

/-- What schemas and validators take as given: the strings that a pattern or a format admits, the
values that a validator from outside admits, and the numbers that count as integers. -/
structure Basis where
  pattern : String → String → Prop
  format : String → String → Prop
  custom : String → Value → Prop
  integer : Number → Prop
  /-- An integer is at least integral; whether `1.0` is one is left open. -/
  integral : ∀ {n : Number}, integer n → ∃ i : Int, n.value = .rat i

/-- Every number counts as an integer that is one; patterns, formats and validators from outside
admit anything. -/
def lenient : Basis where
  pattern _ _ := True
  format _ _ := True
  custom _ _ := True
  integer n := ∃ i : Int, n.value = .rat i
  integral h := h

/-! ### Bounds -/

lemma ExtRat.not_lt_of_lt {a b : ExtRat} (hab : a.lt b) : b.lt a = false := by
  cases a <;> cases b <;> simp_all [ExtRat.lt]
  exact hab.le

/-- The number that a bound on a count stands for. Whatever counts as no number bounds nothing. -/
def Value.bound? : Value → Option Number
  | .scalar s => s.number?
  | _ => none

namespace Extent

/-- A count is not below the lower bound. -/
def AtLeast (bound : Option Value) (count : Nat) : Prop :=
  ∀ b ∈ bound.bind Value.bound?, b.le (.int count)

/-- A count is not above the upper bound. -/
def AtMost (bound : Option Value) (count : Nat) : Prop :=
  ∀ b ∈ bound.bind Value.bound?, Number.le (.int count) b

/-- A count lies within an extent. -/
def Holds (e : Extent) (count : Nat) : Prop :=
  AtLeast e.min count ∧ AtMost e.max count

@[simp] lemma atLeast_none (count : Nat) : AtLeast none count := by
  simp [AtLeast]

@[simp] lemma atMost_none (count : Nat) : AtMost none count := by
  simp [AtMost]

end Extent

namespace Number

protected lemma le_of_lt {a b : Number} (h : a.lt b) : a.le b := by
  rw [le, lt, ExtRat.not_lt_of_lt h]
  rfl

/-- A finite number that is a whole multiple of a finite step, both taken exactly. -/
def IsMultipleOf (n step : Number) : Prop :=
  ∃ q m : Rat, ∃ k : Int, n.value = .rat q ∧ step.value = .rat m ∧ q = k * m

end Number

/-- A number lies within the bounds and is a multiple of the step. -/
structure NumberRules.Holds (rules : NumberRules) (n : Number) : Prop where
  minimum : ∀ b ∈ rules.minimum, b.le n
  maximum : ∀ b ∈ rules.maximum, n.le b
  exclusiveMinimum : ∀ b ∈ rules.exclusiveMinimum, b.lt n
  exclusiveMaximum : ∀ b ∈ rules.exclusiveMaximum, n.lt b
  multipleOf : ∀ step ∈ rules.multipleOf, n.IsMultipleOf step

/-! ### Scalars -/

/-- A value that is one of the listed ones, as JSON values. -/
def Value.IsListed (values : List Scalar) (v : Value) : Prop :=
  ∃ s, v = .scalar s ∧ values.any s.jsonSame

namespace StringRules

/-- The validator from outside that judges strings of these rules, if their format has one. -/
def custom? (formats : Format.Registry) (rules : StringRules) : Option String :=
  match rules.format with
  | some (.str format) => formats.lookup format
  | _ => none

/-- A value is a string as the rules demand. A format with a validator from outside is judged by
that alone, and one that is not known demands nothing. -/
def Holds (basis : Basis) (formats : Format.Registry) (rules : StringRules) (v : Value) : Prop :=
  match rules.custom? formats with
  | some name => basis.custom name v
  | none =>
    ∃ s, v = .str s ∧ (Extent.mk rules.minLength rules.maxLength).Holds s.length ∧
      (∀ p, rules.pattern = some (.str p) → basis.pattern p s) ∧
      ∀ f, rules.format = some (.str f) → f ∈ Format.supported → basis.format f s

end StringRules

/-- The arrays that have to be free of repetition. -/
def ArrayRules.isUnique (rules : ArrayRules) : Bool :=
  rules.uniqueItems.any Schema.isTrue

/-! ### Entries of mappings -/

/-- A key is none of these names. -/
def Scalar.Lacks (names : List String) (key : Scalar) : Prop :=
  ∀ name ∈ names, key ≠ .str name

lemma Scalar.Lacks.mono {names names' : List String} {key : Scalar} (h : key.Lacks names')
    (hsub : names ⊆ names') : key.Lacks names :=
  fun name hname => h name (hsub hname)

/-- What an object may hold beside the names: nothing, what a schema allows, or anything. -/
def Additional.Holds {α : Type} (meets : α → Value → Prop) (additional : Additional α)
    (names : List String) (entries : List (Scalar × Value)) : Prop :=
  match additional with
  | .forbidden => ∀ e ∈ entries, ¬ e.1.Lacks names
  | .typed schema => ∀ e ∈ entries, e.1.Lacks names → meets schema e.2
  | _ => True

/-! ### Chains of readings -/

/-- What late members of a chain say of every item of a list, they say of all of them. -/
lemma eventually_forall_mem {α ι : Type} {l : Filter ι} {xs : List α} {P : ι → α → Prop}
    (h : ∀ x ∈ xs, ∀ᶠ n in l, P n x) : ∀ᶠ n in l, ∀ x ∈ xs, P n x := by
  induction xs with
  | nil => simp
  | cons x xs ih =>
    simp only [List.mem_cons, forall_eq_or_imp] at h ⊢
    exact h.1.and (ih h.2)

end ApiSchema
