import ApiSchema.Fault
import ApiSchema.Schema.Node

/-!
# Bounds of integers

Bounds of an integer schema may be written as any numbers. Those of its validator are integers that
admit the same integers: a fractional bound moves inward, and an exclusive one becomes inclusive.
-/

namespace ApiSchema

namespace Number

/-- The least integer that is not less. -/
def ceil? : Number → Option Int
  | .int i => some i
  | .float x => x.toRat?.map Rat.ceil

/-- The greatest integer that is not greater. -/
def floor? : Number → Option Int
  | .int i => some i
  | .float x => x.toRat?.map Rat.floor

/-- The integer that a number is, if it is one. An integer that no `Double` comes near has no
answer. -/
def asInteger? : Number → Except Fault (Option Int)
  | .int i =>
    match Double.ofInt? i with
    | some _ => .ok (some i)
    | none => .error .overflow
  | .float x => .ok (if x.isInteger then x.truncate? else none)

end Number

namespace NumberRules

def orOverflow : Option Int → Except Fault Int
  | some i => .ok i
  | none => .error .overflow

/-- The sharper of two lower bounds. -/
def sharperLower : Option Int → Option Int → Option Int
  | some a, some b => some (max a b)
  | some a, none => some a
  | none, b => b

/-- The sharper of two upper bounds. -/
def sharperUpper : Option Int → Option Int → Option Int
  | some a, some b => some (min a b)
  | some a, none => some a
  | none, b => b

/-- An inclusive bound as an integer, rounded by `round?`. -/
def inclusive (round? : Number → Option Int) : Option Number → Except Fault (Option Int)
  | none => .ok none
  | some n => (orOverflow (round? n)).map some

/-- An exclusive bound as an inclusive one, if it is fractional, or as an exclusive one. -/
def exclusive (round? : Number → Option Int) :
    Option Number → Except Fault (Option Int × Option Int)
  | none => .ok (none, none)
  | some n => do
    match ← n.asInteger? with
    | some i => return (none, some i)
    | none => return (some (← orOverflow (round? n)), none)

/-- The bounds of an integer schema as integers. -/
def ofInteger (rules : NumberRules) : Except Fault NumberRules := do
  let lower ← inclusive Number.ceil? rules.minimum
  let upper ← inclusive Number.floor? rules.maximum
  let (lower', above) ← exclusive Number.ceil? rules.exclusiveMinimum
  let (upper', below) ← exclusive Number.floor? rules.exclusiveMaximum
  return {
    minimum := (sharperLower lower lower').map .int
    maximum := (sharperUpper upper upper').map .int
    exclusiveMinimum := above.map .int
    exclusiveMaximum := below.map .int
    multipleOf := rules.multipleOf.map fun step =>
      match step with
      | .int i => .int i
      | .float x =>
        match if x.isInteger then x.truncate? else none with
        | some i => .int i
        | none => .float x }

end NumberRules

end ApiSchema
