import ApiSchema.Module.Symbol
import ApiSchema.Validator.Basic

/-!
# Type expressions

A validator is written in a generated module as a type expression. Expressions are trees; their text
is made from them last.
-/

namespace ApiSchema.Module

/-- Types that are known without import. -/
inductive Builtin where
  | dict
  | float
  | int
  | list
  | str
deriving DecidableEq

namespace Builtin

def all : List Builtin :=
  [dict, float, int, list, str]

def name : Builtin → String
  | dict => "dict"
  | float => "float"
  | int => "int"
  | list => "list"
  | str => "str"

end Builtin

inductive Expr where
  | symbol (s : Symbol)
  | builtin (b : Builtin)
  /-- A declaration, or a validator from outside. -/
  | name (n : String)
  | literal (v : Value)
  /-- A head with arguments in brackets. -/
  | index (head : Expr) (args : List Expr)
  /-- A head with arguments in parentheses, those by name last. -/
  | call (head : Expr) (args : List Expr) (named : List (String × Value))

namespace Expr

/-! ### Text -/

def namedArgument (arg : String × Value) : String :=
  arg.1 ++ "=" ++ arg.2.literal

mutual

def text : Expr → String
  | symbol s => s.name
  | builtin b => b.name
  | name n => n
  | literal v => v.literal
  | index head args => text head ++ "[" ++ Text.join ", " (texts args) ++ "]"
  | call head args named =>
    text head ++ "(" ++ Text.join ", " (texts args ++ named.map namedArgument) ++ ")"

def texts : List Expr → List String
  | [] => []
  | e :: es => text e :: texts es

end

mutual

def symbols : Expr → List Symbol
  | symbol s => [s]
  | index head args => symbols head ++ symbolsAll args
  | call head args _ => symbols head ++ symbolsAll args
  | _ => []

def symbolsAll : List Expr → List Symbol
  | [] => []
  | e :: es => symbols e ++ symbolsAll es

end

/-! ### Building blocks -/

/-- A type with remarks, or the type alone if there are none. -/
def annotated (type : Expr) (remarks : List Expr) : Expr :=
  if remarks.isEmpty then type else index (symbol .annotated) (type :: remarks)

/-- A check that runs after the type has been checked. -/
def after (check : Expr) : Expr :=
  call (symbol .afterValidator) [check] []

/-- Arguments by name, those without a value left out. -/
def given (args : List (String × Option Value)) : List (String × Value) :=
  args.filterMap fun (key, v) => v.map (key, ·)

/-- A remark with arguments by name, or nothing if there are none. -/
def constrained (s : Symbol) (args : List (String × Value)) : List Expr :=
  if args.isEmpty then [] else [call (symbol s) [] args]

def lengthBounds (e : Extent) : List (String × Value) :=
  given [("min_length", e.min), ("max_length", e.max)]

/-! ### Validators -/

/-- Bounds of strings count as written when they are not null. -/
def ofString (length : Extent) (pattern format : Option String) : Expr :=
  let bounds := lengthBounds length
  let base : Expr := if bounds.isEmpty then symbol .strictStr else builtin .str
  let strict : List Expr :=
    if bounds.isEmpty then []
    else [call (symbol .stringConstraints) [] (("strict", .bool true) :: bounds)]
  let checks (s : Symbol) (arg : Option String) : List Expr :=
    match arg with
    | some text => [after (call (symbol s) [literal (.str text)] [])]
    | none => []
  annotated base (strict ++ checks .checkPattern pattern ++ checks .checkFormat format)

/-- A step that is not an integer has a check of its own for integers. -/
def fractionalStep (integer : Bool) (rules : NumberRules) : Option Number :=
  match rules.multipleOf with
  | some step => if integer && step.isFloat then some step else none
  | none => none

def ofNumber (integer : Bool) (rules : NumberRules) : Expr :=
  let fractional := fractionalStep integer rules
  let bound (n : Option Number) : Option Value := n.map Value.ofNumber
  let bounds := given [("ge", bound rules.minimum), ("gt", bound rules.exclusiveMinimum),
    ("le", bound rules.maximum), ("lt", bound rules.exclusiveMaximum),
    ("multiple_of", if fractional.isSome then none else bound rules.multipleOf)]
  if bounds.isEmpty && fractional.isNone then
    symbol (if integer then .strictInt else .strictFloat)
  else
    let step : List Expr :=
      match fractional with
      | some n => [after (call (symbol .checkMultipleOf) [literal (.ofNumber n)] [])]
      | none => []
    annotated (builtin (if integer then .int else .float))
      (call (symbol .strict) [] [] :: constrained .field bounds ++ step)

/-- Whether a value is a number or a truth value. -/
def isNumeric (s : Scalar) : Bool :=
  s.number?.isSome

/-- Numbers and truth values among listed values are told apart by an extra check. -/
def ofLiteral (values : List Scalar) : Expr :=
  let args := values.map fun s => literal (.scalar s)
  let type := index (symbol .literal) args
  if values.any isNumeric then
    annotated type [call (symbol .beforeValidator) [call (symbol .exactValues) args []] []]
  else type

def ofArray (items : Expr) (length : Extent) (unique : Bool) : Expr :=
  annotated (index (builtin .list) [items])
    (constrained .field (lengthBounds length) ++
      if unique then [after (symbol .uniqueItems)] else [])

def ofRecord (values : Expr) (count : Extent) : Expr :=
  annotated (index (builtin .dict) [builtin .str, values])
    (constrained .field (lengthBounds count))

def ofUnion (branches : List Expr) : Expr :=
  annotated (index (symbol .union) branches)
    [call (symbol .field) [] [("union_mode", .str "left_to_right")]]

def ofIntersection (branches : List Expr) : Expr :=
  annotated (symbol .any) [after (call (symbol .allOf) branches [])]

mutual

/-- The expression of a validator. Objects and references to definitions have to be declared
first. -/
def ofValidator : Validator → Except Fault Expr
  | .named n => .ok (name n)
  | .any => .ok (symbol .any)
  | .null => .ok (literal .null)
  | .boolean => .ok (symbol .strictBool)
  | .string length pattern format => .ok (ofString length pattern format)
  | .custom n => .ok (name n)
  | .number integer rules => .ok (ofNumber integer rules)
  | .literal values => .ok (ofLiteral values)
  | .array items length unique => do
    let items ← ofValidator items
    return ofArray items length unique
  | .record values count => do
    let values ← ofValidator values
    return ofRecord values count
  | .union branches => ofUnion <$> ofValidators branches
  | .intersection branches => ofIntersection <$> ofValidators branches
  | .nullable inner => do
    let inner ← ofValidator inner
    return index (symbol .optional) [inner]
  | .object .. => .error (.unpromoted "ObjectValidator")
  | .ref _ => .error (.unpromoted "RefValidator")

def ofValidators : List Validator → Except Fault (List Expr)
  | [] => .ok []
  | v :: vs => do
    let e ← ofValidator v
    let es ← ofValidators vs
    return e :: es

end

end Expr

end ApiSchema.Module
