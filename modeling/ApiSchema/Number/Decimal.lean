import ApiSchema.Number.Double

/-!
# Decimal text of floating point numbers

Reading takes digits and a power of ten to the nearest number of the format. Writing takes the
fewest digits that read back as the same number and, of those, the nearest to it.
-/

namespace ApiSchema

namespace Double

/-! ### Reading -/

/-- How many decimal digits a positive integer has. -/
def digitCount (n : Nat) : Nat :=
  (Nat.toDigits 10 n).length

/-- The number nearest to `± digits · 10 ^ exponent`. Powers of ten far outside the range of the
format are decided without being computed. -/
def ofDecimal (negative : Bool) (digits : Nat) (exponent : Int) : Double :=
  if digits = 0 then .finite negative 0 0
  else
    let top := exponent + digitCount digits
    if 400 < top then .infinite negative
    else if top < -400 then .finite negative 0 0
    else if 0 ≤ exponent then ofRatio negative (digits * Nat.pow 10 exponent.toNat) 1
    else ofRatio negative digits (Nat.pow 10 (-exponent).toNat)

/-! ### Writing -/

def digitValue (c : Char) : Nat :=
  c.toNat - '0'.toNat

/-- The natural number that a list of digits denotes. -/
def digitsValue (cs : List Char) : Nat :=
  cs.foldl (fun n c => 10 * n + digitValue c) 0

/-- The power of ten at or below the positive ratio `n / d`. -/
def floorLog10 (n d : Nat) : Int :=
  if d ≤ n then digitCount (n / d) - 1 else -(digitCount ((d - 1) / n) : Int)

/-- A decimal: `digits · 10 ^ exponent`. -/
structure Decimal where
  digits : Nat
  exponent : Int

/-- The two decimals of `count` digits around `n / d`, the lower one first. -/
def neighbours (n d : Nat) (count : Nat) : Decimal × Decimal :=
  let e := floorLog10 n d - (count - 1 : Nat)
  let low := if 0 ≤ e then n / (d * Nat.pow 10 e.toNat) else n * Nat.pow 10 (-e).toNat / d
  (⟨low, e⟩, ⟨low + 1, e⟩)

/-- Whether the lower neighbour is the nearer one, or as near and even. -/
def lowerIsNearer (n d : Nat) (low : Decimal) : Bool :=
  let (twice, unit) :=
    if 0 ≤ low.exponent then (2 * n, d * Nat.pow 10 low.exponent.toNat)
    else (2 * n * Nat.pow 10 (-low.exponent).toNat, d)
  let middle := (2 * low.digits + 1) * unit
  decide (twice < middle) || (decide (twice = middle) && low.digits % 2 == 0)

/-- The first decimal, from `count` digits on, that reads back as `x`, whose value is `n / d`. -/
def shortestFrom (x : Double) (n d : Nat) : Nat → Nat → Decimal
  | 0, count => (neighbours n d count).1
  | steps + 1, count =>
    let (low, high) := neighbours n d count
    let lowReads := decide (ofDecimal false low.digits low.exponent = x)
    let highReads := decide (ofDecimal false high.digits high.exponent = x)
    if lowReads && (!highReads || lowerIsNearer n d low) then low
    else if highReads then high
    else shortestFrom x n d steps (count + 1)

/-- The shortest decimal of a positive number `m · 2 ^ e`; seventeen digits always suffice. -/
def shortest (m : Nat) (e : Int) : Decimal :=
  let x := finite false m e
  if 0 ≤ e then shortestFrom x (m * Nat.pow 2 e.toNat) 1 17 1
  else shortestFrom x m (Nat.pow 2 (-e).toNat) 17 1

/-- Digits with the power of ten of the first one, written positionally when that power is from -4
to 15 and in scientific notation, with at least two digits of exponent, otherwise. -/
def writeDigits (digits : List Char) (power : Int) : List Char :=
  if -4 ≤ power ∧ power < 16 then
    if power < 0 then
      "0.".toList ++ List.replicate (-power - 1).toNat '0' ++ digits
    else
      let whole := power.toNat + 1
      if digits.length ≤ whole then
        digits ++ List.replicate (whole - digits.length) '0' ++ ".0".toList
      else digits.take whole ++ '.' :: digits.drop whole
  else
    let fraction := if digits.length ≤ 1 then [] else '.' :: digits.drop 1
    let width := Nat.toDigits 10 power.natAbs
    let padded := if width.length < 2 then '0' :: width else width
    digits.take 1 ++ fraction ++ 'e' :: (if power < 0 then '-' else '+') :: padded

def dropTrailingZeros (digits : List Char) : List Char :=
  (digits.reverse.dropWhile (· == '0')).reverse

/-- The decimal text of a number: `0.1`, `1.0`, `1e+16`, `1.5e-07`, `-0.0`, `inf`. -/
def text : Double → String
  | .infinite negative => if negative then "-inf" else "inf"
  | .finite negative m e =>
    let magnitude :=
      if m = 0 then "0.0".toList
      else
        let decimal := shortest m e
        let digits := Nat.toDigits 10 decimal.digits
        writeDigits (dropTrailingZeros digits) (decimal.exponent + digits.length - 1)
    String.ofList (if negative then '-' :: magnitude else magnitude)

end Double

end ApiSchema
