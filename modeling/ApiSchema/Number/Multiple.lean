import ApiSchema.Number.Decimal

/-!
# Multiples

Two readings of "multiple of". The exact one divides the value by the step as it is written in
decimal. The one for floating point numbers forgives an error of one part in a thousand million.
-/

namespace ApiSchema

namespace Double

/-- The number that the decimal text of a finite number denotes. -/
def decimalValue? : Double → Option Rat
  | .infinite _ => none
  | .finite negative m e =>
    let magnitude : Rat :=
      if m = 0 then 0
      else
        let decimal := shortest m e
        if 0 ≤ decimal.exponent then (decimal.digits * Nat.pow 10 decimal.exponent.toNat : Nat)
        else mkRat decimal.digits (Nat.pow 10 (-decimal.exponent).toNat)
    some (if negative then -magnitude else magnitude)

/-- What is left when the quotient is cut toward zero. -/
def remainder (x m : Rat) : Rat :=
  x - m * (Int.tdiv (x / m).num (x / m).den : Int)

def magnitude (q : Rat) : Rat :=
  if q < 0 then -q else q

/-- The value of the nearest number of the format. -/
def rounded (q : Rat) : ExtRat :=
  (ofRat q).value

/-- A multiple up to one part in a thousand million of `x`. An infinite `x`, or a step of zero,
leaves no remainder to judge by. -/
def isNearMultiple (x step : Double) : Bool :=
  match x.toRat?, step.toRat? with
  | none, _ => true
  | some x, none => x == 0
  | some x, some m =>
    if m = 0 then true
    else
      let r := magnitude (remainder x m)
      let slack := rounded (magnitude x / 1000000000)
      let isOver (q : Rat) : Bool := slack.lt (rounded q)
      !(isOver r && isOver (magnitude (r - m)))

end Double

namespace Number

/-- The number that the decimal text of a number denotes. -/
def decimalValue? : Number → Option Rat
  | .int i => some i
  | .float x => x.decimalValue?

/-- The exact value of a finite number. -/
def toRat? : Number → Option Rat
  | .int i => some i
  | .float x => x.toRat?

/-- The nearest number of the floating point format, unless out of range. -/
def toDouble? : Number → Option Double
  | .int i => Double.ofInt? i
  | .float x => some x

end Number

end ApiSchema
