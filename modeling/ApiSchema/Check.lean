import ApiSchema.Fault
import ApiSchema.Format.Check
import ApiSchema.Number.Multiple
import ApiSchema.Pattern.Match
import ApiSchema.Pattern.Read
import ApiSchema.Value.Key

/-!
# Checks of values

The checks that generated modules refer to by name. A check returns the value it accepts and tells
why it refuses another.
-/

namespace ApiSchema

/-- A check: the value it accepts, or why it refuses. -/
abbrev Check := Value → Except Fault Value

namespace Check

def format (name : String) : Except Fault Check :=
  match Format.check? name with
  | none => .error (.unknownName name)
  | some test => .ok fun v =>
    let refused : Except Fault Value := .error (.refused ("value is not a valid " ++ name))
    match v with
    | .str s => if test s.toList then .ok v else refused
    | _ => if name = "uri" ∨ name = "url" then refused else .error .wrongKind

/-- The check that a pattern matches somewhere. -/
def pattern (text : String) : Except Fault Check :=
  match Pattern.read text.toList with
  | .error .tooManyRounds => .error .overflow
  | .error .clashingFlags => .error .clashingFlags
  | .error problem => .error (.malformedPattern (problem.message text.toList))
  | .ok regex => .ok fun v =>
    match v with
    | .str s =>
      if regex.isFoundIn s.toList then .ok v
      else .error (.refused ("string does not match pattern " ++ Text.quote text))
    | _ => .error .wrongKind

/-- The check that a value is one of several, as JSON values. -/
def exactValues (values : List Value) : Check := fun v =>
  if (values.map Value.key).any v.key.same then .ok v
  else .error (.refused ("value must be one of " ++ Text.join ", " (values.map Value.literal)))

/-- Whether no two values are equal as JSON values. -/
def areUnique : List Value → Bool
  | [] => true
  | v :: vs => !vs.any v.jsonSame && areUnique vs

def uniqueItems : Check := fun v =>
  match v with
  | .list items | .tuple items =>
    if Key.areNew [] (items.map Value.key) then .ok v
    else .error (.refused "array items must be unique")
  | _ => .error .wrongKind

/-- The exact number that a value counts as; a truth value counts as zero or one. -/
def exactNumber (v : Value) : Except Fault Rat :=
  match v with
  | .scalar (.str s) => .error (.noNumber s)
  | .scalar s =>
    match s.number? with
    | some n =>
      match n.toRat? with
      | some q => .ok q
      | none => .error .overflow
    | none => .error .wrongKind
  | _ => .error .wrongKind

def isMultiple (q step : Rat) : Bool :=
  (q / step).den == 1

/-- The check that a value is an exact multiple of a step as written in decimal. -/
def multipleOf (step : Value) : Except Fault Check :=
  match step.number?.bind Number.decimalValue? with
  | none => .error (.noNumber step.literal)
  | some exact => .ok fun v => do
    let q ← exactNumber v
    if exact = 0 then throw .divisionByZero
    if isMultiple q exact then return v
    else throw (.refused ("value must be a multiple of " ++ step.display))

def countBound (v : Value) : Except Fault Number :=
  match v with
  | .scalar s =>
    match s.number? with
    | some n => .ok n
    | none => .error .incomparable
  | _ => .error .incomparable

/-- The check on the number of properties of an object; other values pass. -/
def propertyCount (least most : Option Value) : Check := fun v => do
  match v with
  | .map entries =>
    let count : Number := .int entries.length
    match least with
    | some bound =>
      if count.lt (← countBound bound) then
        throw (.refused ("object must have at least " ++ bound.display ++ " properties"))
    | none => pure ()
    match most with
    | some bound =>
      if (← countBound bound).lt count then
        throw (.refused ("object must have at most " ++ bound.display ++ " properties"))
    | none => pure ()
    return v
  | v => return v

end Check

end ApiSchema
