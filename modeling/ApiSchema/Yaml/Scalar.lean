import ApiSchema.Value.Basic

/-!
# Plain scalars of YAML

What a scalar without quotes denotes in YAML 1.1: nothing, a truth value, an integer in one of five
notations, a floating point number with a point in it, or else the text itself.
-/

namespace ApiSchema.Yaml

/-- Whether a text is one of the words: in lower case, with a capital, or all in capitals. -/
def isWord (words : List String) (text : String) : Bool :=
  words.any fun w => text == w || text == w.capitalize || text == w.toUpper

/-- A sign at the head, and the rest. -/
def cutSign : List Char → Bool × List Char
  | '-' :: rest => (true, rest)
  | '+' :: rest => (false, rest)
  | rest => (false, rest)

/-! ### Integers -/

/-- The number that digits of a base denote; underscores between them do not count. Anything else
is refused. -/
def digits? (base : Nat) (cs : List Char) : Option Nat :=
  cs.foldlM (fun n c =>
    if c = '_' then some n
    else do
      let d ← Text.hexValue? c
      if d < base then some (base * n + d) else none) 0

/-- A part after a colon: below sixty, in one digit or two. -/
def sixtieth? : List Char → Option Nat
  | [a] => digits? 10 [a]
  | [a, b] => if a.isDigit && b.isDigit && a < '6' then digits? 10 [a, b] else none
  | _ => none

/-- A number to the base of sixty, its parts divided by colons. -/
def sexagesimal? (cs : List Char) : Option Nat :=
  match cs.splitOn ':' with
  | first :: rest => do
    let n ← digits? 10 first
    rest.foldlM (fun n part => do some (60 * n + (← sixtieth? part))) n
  | [] => none

/-- An integer without its sign: a leading zero marks the octal notation. -/
def natural? : List Char → Option Nat
  | ['0'] => some 0
  | '0' :: 'b' :: ds => if ds.isEmpty then none else digits? 2 ds
  | '0' :: 'x' :: ds => if ds.isEmpty then none else digits? 16 ds
  | '0' :: ds => digits? 8 ds
  | c :: ds => if c.isDigit then sexagesimal? (c :: ds) else none
  | [] => none

def integer? (cs : List Char) : Option Int :=
  let (negative, body) := cutSign cs
  (natural? body).map fun n => if negative then -(n : Int) else n

/-! ### Floating point numbers -/

/-- An exponent, which has a sign, or nothing. -/
def exponent? : List Char → Option Int
  | [] => some 0
  | e :: sign :: ds =>
    if (e = 'e' ∨ e = 'E') ∧ (sign = '+' ∨ sign = '-') ∧ ds ≠ [] ∧ ds.all Char.isDigit then
      let n : Int := Double.digitsValue ds
      some (if sign = '-' then -n else n)
    else none
  | _ => none

def isDigitOrLine (c : Char) : Bool :=
  c.isDigit || c == '_'

/-- The number with these digits before the point and this text after it. -/
def afterPoint? (negative : Bool) (whole after : List Char) : Option Double := do
  let fraction := (after.takeWhile isDigitOrLine).filter Char.isDigit
  let exponent ← exponent? (after.dropWhile isDigitOrLine)
  some (Double.ofDecimal negative (Double.digitsValue (whole.filter Char.isDigit ++ fraction))
    (exponent - fraction.length))

/-- A number with a point. Without a digit before the point it has no sign, unless it is infinite. -/
def float? (cs : List Char) : Option Double :=
  let (negative, body) := cutSign cs
  match Text.cutAt '.' body with
  | (_, none) => none
  | ([], some after) =>
    if isWord ["inf"] (String.ofList after) then some (.infinite negative)
    else if cs.head? = some '.' && (after.head?.map Char.isDigit).getD false then
      afterPoint? negative [] after
    else none
  | (c :: whole, some after) =>
    if c.isDigit && whole.all isDigitOrLine then afterPoint? negative (c :: whole) after else none

/-! ### All kinds -/

/-- What a scalar without quotes denotes. -/
def resolve (text : String) : Scalar :=
  if text.isEmpty || text == "~" || isWord ["null"] text then .null
  else if isWord ["yes", "true", "on"] text then .bool true
  else if isWord ["no", "false", "off"] text then .bool false
  else match float? text.toList with
    | some x => .float x
    | none =>
      match integer? text.toList with
      | some i => .int i
      | none => .str text

end ApiSchema.Yaml
