import ApiSchema.Check
import ApiSchema.Declaration.Basic

/-!
# Acceptance

What a generated module accepts: every validator judges a value, and an accepted value comes out as
the module sees it. Integers come out of number fields as floating point numbers, listed values as
the listed one, and objects with all their declared fields, missing ones null.
-/

namespace ApiSchema.Acceptance

/-! ### Bounds -/

/-- Whether a count is within an extent. Bounds that are no numbers bound nothing. -/
def isWithin (extent : Extent) (count : Nat) : Bool :=
  let n : Number := .int count
  (match extent.min.bind Value.number? with
    | some bound => !n.lt bound
    | none => true) &&
  (match extent.max.bind Value.number? with
    | some bound => !bound.lt n
    | none => true)

def isBetween (rules : NumberRules) (n : Number) : Bool :=
  rules.minimum.all (fun b => !n.lt b) && rules.maximum.all (fun b => !b.lt n) &&
    rules.exclusiveMinimum.all (fun b => b.lt n) && rules.exclusiveMaximum.all (fun b => n.lt b)

def asDoubles (rules : NumberRules) : NumberRules :=
  let near (n : Number) : Number :=
    match n.toDouble? with
    | some x => .float x
    | none => n
  { minimum := rules.minimum.map near
    maximum := rules.maximum.map near
    exclusiveMinimum := rules.exclusiveMinimum.map near
    exclusiveMaximum := rules.exclusiveMaximum.map near
    multipleOf := rules.multipleOf.map near }

/-! ### Scalars -/

/-- An integer: bounds are exact, and so is a step. -/
def judgeInteger (rules : NumberRules) (i : Int) : Bool :=
  isBetween rules (.int i) &&
    match rules.multipleOf with
    | none => true
    | some step =>
      match step.decimalValue? with
      | some exact => exact != 0 && Check.isMultiple i exact
      | none => false

def judgeFloat (rules : NumberRules) (x : Double) : Bool :=
  let rules := asDoubles rules
  isBetween rules (.float x) &&
    match rules.multipleOf with
    | some (.float step) => x.isNearMultiple step
    | _ => true

/-- Numbers by their kind; truth values are no numbers. -/
def judgeNumber (integer : Bool) (rules : NumberRules) (v : Value) : Option Value :=
  match v.number? with
  | none => none
  | some n =>
    if integer then
      match n with
      | .int i => if judgeInteger rules i then some v else none
      | .float _ => none
    else
      match n.toDouble? with
      | some x => if judgeFloat rules x then some (.float x) else none
      | none => none

/-- Strings by length, pattern and format. A pattern or format that cannot be checked refuses. -/
def judgeString (length : Extent) (pattern format : Option String) (v : Value) : Option Value :=
  match v with
  | .str s =>
    let passes (check : Except Fault Check) : Bool :=
      match check with
      | .ok check => (check v).isOk
      | .error _ => false
    if isWithin length s.length && pattern.all (fun p => passes (Check.pattern p)) &&
        format.all (fun f => passes (Check.format f)) then some v
    else none
  | _ => none

def sameKind : Scalar → Scalar → Bool
  | .null, .null => true
  | .bool _, .bool _ => true
  | .int _, .int _ => true
  | .float _, .float _ => true
  | .str _, .str _ => true
  | _, _ => false

/-- Listed values: one of the same kind comes first; otherwise the last that counts as the same. -/
def judgeLiteral (values : List Scalar) (v : Value) : Option Value :=
  match v with
  | .scalar s =>
    if values.any s.jsonSame then
      match values.find? (fun t => sameKind s t && s.same t) with
      | some t => some (.scalar t)
      | none => (values.reverse.find? s.same).map .scalar
    else none
  | _ => none

/-! ### Trees -/

section

-- `named` judges a value by the declaration of a name.
variable (named : String → Value → Option Value)

def judgeEach (judge : Value → Option Value) : List Value → Option (List Value)
  | [] => some []
  | v :: vs =>
    match judge v, judgeEach judge vs with
    | some w, some ws => some (w :: ws)
    | _, _ => none

/-- Judge the value of every entry by one judge. -/
def judgeEntries (judge : Value → Option Value) :
    List (Scalar × Value) → Option (List (Scalar × Value))
  | [] => some []
  | (k, v) :: rest =>
    match judge v, judgeEntries judge rest with
    | some w, some others => some ((k, w) :: others)
    | _, _ => none

/-- The entries under keys without a field. -/
def extraEntries (fields : List (FieldOf Validator)) (entries : List (Scalar × Value)) :
    List (Scalar × Value) :=
  entries.filter fun (k, _) => !fields.any fun f => k == .str f.key

mutual

/-- Judge a value: the value as it comes out, if it is accepted. -/
def judge : Validator → Value → Option Value
  | .any, v => some v
  | .null, v => if v.isNull then some v else none
  | .boolean, v =>
    match v with
    | .bool _ => some v
    | _ => none
  | .string length pattern format, v => judgeString length pattern format v
  | .custom _, _ => none
  | .number integer rules, v => judgeNumber integer rules v
  | .literal values, v => judgeLiteral values v
  | .array items length unique, v =>
    match v with
    | .list vs =>
      match judgeEach (judge items) vs with
      | some ws =>
        if isWithin length vs.length && (!unique || Check.areUnique ws) then some (.list ws)
        else none
      | none => none
    | _ => none
  | .record values count, v =>
    match v with
    | .map entries =>
      if isWithin count entries.length then (judgeEntries (judge values) entries).map .map
      else none
    | _ => none
  | .object fields forbidExtra extra count, v =>
    match v with
    | .map entries =>
      let extras := extraEntries fields entries
      if isWithin count entries.length && (!forbidExtra || extras.isEmpty) then
        match judgeFields fields entries, judgeExtra extra extras with
        | some out, some rest => some (.map (out ++ rest))
        | _, _ => none
      else none
    | _ => none
  | .union branches, v => judgeUnion branches v
  | .intersection branches, v => if judgeAll branches v then some v else none
  | .nullable inner, v => if v.isNull then some v else judge inner v
  | .ref _, _ => none
  | .named name, v => named name v

/-- Judge by the first branch that accepts. -/
def judgeUnion : List Validator → Value → Option Value
  | [], _ => none
  | branch :: rest, v =>
    match judge branch v with
    | some w => some w
    | none => judgeUnion rest v

def judgeAll : List Validator → Value → Bool
  | [], _ => true
  | branch :: rest, v => (judge branch v).isSome && judgeAll rest v

/-- Judge the fields of an object; a missing field that is not required comes out as null. -/
def judgeFields : List (FieldOf Validator) → List (Scalar × Value) →
    Option (List (Scalar × Value))
  | [], _ => some []
  | ⟨key, validator, required⟩ :: rest, entries =>
    let out :=
      match Value.find? (.str key) entries with
      | some v => judge validator v
      | none => if required then none else some .null
    match out, judgeFields rest entries with
    | some w, some others => some ((.str key, w) :: others)
    | _, _ => none

/-- Judge what an object holds beside its fields. -/
def judgeExtra : Option Validator → List (Scalar × Value) → Option (List (Scalar × Value))
  | none, entries => some entries
  | some validator, entries => judgeEntries (judge validator) entries

end

end

/-! ### Declarations -/

/-- Judge a value by the declaration of a name, through at most `n` names. -/
def judgeNamedWithin (d : Declarations) : Nat → String → Value → Option Value
  | 0, _, _ => none
  | n + 1, name, v =>
    match d.get? name with
    | some entry => judge (judgeNamedWithin d n) entry.validator v
    | none => none

/-- Whether the declaration of a name accepts a value. Names lead from one to another only so often
before the value gets smaller. -/
def accepts (d : Declarations) (name : String) (v : Value) : Bool :=
  (judgeNamedWithin d ((v.depth + 1) * (d.entries.length + 1)) name v).isSome

end ApiSchema.Acceptance
