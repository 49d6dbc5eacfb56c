/-!
# Binary floating point numbers, exactly

A `Double` is a number of the binary64 format, held as sign, mantissa and exponent, so that every
comparison is one of exact rationals. Rounding happens in one place, `Double.ofRat`: to the nearest
number of the format, a half to the even mantissa, and past the largest number to an infinity.
-/

namespace ApiSchema

/-- A binary64 number: `± mantissa · 2 ^ exponent`, or an infinity. The mantissa is odd, or zero
with exponent zero; the two zeros differ in sign. -/
inductive Double where
  | finite (negative : Bool) (mantissa : Nat) (exponent : Int)
  | infinite (negative : Bool)
deriving DecidableEq, Inhabited

namespace Double

/-- The significant bits of a normal number. -/
def precision : Nat := 53

/-- The exponent of the least positive number. -/
def leastExponent : Int := -1074

/-- From this power of two on, numbers are infinite. -/
def overflowExponent : Int := 1024

/-! ### Construction and rounding -/

/-- Move factors of two out of a mantissa, as many as the first argument allows. -/
def shiftOut : Nat → Nat → Int → Nat × Int
  | 0, m, e => (m, e)
  | n + 1, m, e => if m % 2 = 0 then shiftOut n (m / 2) (e + 1) else (m, e)

/-- The number `± m · 2 ^ e`, brought to an odd mantissa. -/
def ofDyadic (negative : Bool) (m : Nat) (e : Int) : Double :=
  if m = 0 then .finite negative 0 0
  else
    let (m', e') := shiftOut m.log2 m e
    .finite negative m' e'

/-- The power of two at or below `n / d`. -/
def floorLog2 (n d : Nat) : Int :=
  let k : Int := (n.log2 : Int) - (d.log2 : Int)
  let reached := if 0 ≤ k then d * Nat.pow 2 k.toNat ≤ n else d ≤ n * Nat.pow 2 (-k).toNat
  if reached then k else k - 1

/-- The integer nearest to `n / d`, a half going to the even one. -/
def roundHalfEven (n d : Nat) : Nat :=
  let q := n / d
  let r := n % d
  if 2 * r < d then q
  else if d < 2 * r then q + 1
  else if q % 2 = 0 then q else q + 1

/-- The number of the format nearest to `± n / d`. -/
def ofRatio (negative : Bool) (n d : Nat) : Double :=
  if n = 0 then .finite negative 0 0
  else
    let e := max (floorLog2 n d - (precision - 1 : Nat)) leastExponent
    let m :=
      if 0 ≤ e then roundHalfEven n (d * Nat.pow 2 e.toNat)
      else roundHalfEven (n * Nat.pow 2 (-e).toNat) d
    if m = 0 then .finite negative 0 0
    else if overflowExponent ≤ e + m.log2 then .infinite negative
    else ofDyadic negative m e

/-- The number of the format nearest to a rational. -/
def ofRat (q : Rat) : Double :=
  ofRatio (decide (q.num < 0)) q.num.natAbs q.den

/-- The number of the format nearest to an integer, unless the integer is out of range. -/
def ofInt? (i : Int) : Option Double :=
  match ofRatio (decide (i < 0)) i.natAbs 1 with
  | .infinite _ => none
  | x => some x

/-! ### Exact value -/

/-- The exact value of a finite number. -/
def toRat? : Double → Option Rat
  | .infinite _ => none
  | .finite negative m e =>
    let magnitude : Rat :=
      if 0 ≤ e then (m * Nat.pow 2 e.toNat : Nat) else mkRat m (Nat.pow 2 (-e).toNat)
    some (if negative then -magnitude else magnitude)

def isInteger (x : Double) : Bool :=
  match x.toRat? with
  | some q => q.den == 1
  | none => false

/-- The integer part, toward zero, of a finite number. -/
def truncate? (x : Double) : Option Int :=
  x.toRat?.map fun q => Int.tdiv q.num q.den

def isNegative : Double → Bool
  | .finite negative _ _ => negative
  | .infinite negative => negative

end Double

/-! ### Numbers of either kind -/

/-- A rational, or one of the two infinities. -/
inductive ExtRat where
  | bottom
  | rat (q : Rat)
  | top
deriving DecidableEq

def ExtRat.lt : ExtRat → ExtRat → Bool
  | .bottom, .bottom => false
  | .bottom, _ => true
  | .rat p, .rat q => p < q
  | .rat _, .top => true
  | _, _ => false

def Double.value (x : Double) : ExtRat :=
  match x.toRat? with
  | some q => .rat q
  | none => if x.isNegative then .bottom else .top

/-- A number as documents write it: an integer of any size, or a `Double`. The two kinds stay
apart even where their values agree. -/
inductive Number where
  | int (i : Int)
  | float (x : Double)
deriving DecidableEq, Inhabited

namespace Number

def value : Number → ExtRat
  | .int i => .rat i
  | .float x => x.value

/-- Equality of values: `1` and `1.0` agree, and so do the two zeros. -/
def same (a b : Number) : Bool :=
  a.value == b.value

def lt (a b : Number) : Bool :=
  a.value.lt b.value

def le (a b : Number) : Bool :=
  !b.lt a

def isFloat : Number → Bool
  | .int _ => false
  | .float _ => true

end Number

end ApiSchema
