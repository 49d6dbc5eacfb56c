import ApiSchema.Number.Decimal
import ApiSchema.Text.Quoted

/-!
# Values

The values that documents are made of: scalars, sequences and order-keeping mappings. Mappings have
scalar keys; those of a JSON document are strings.

Three equalities are in use. Lean's own equality keeps `1`, `1.0` and `true` apart. `same` compares
numbers, the two truth values among them, by value; it is the equality of mapping keys. `jsonSame`
compares numbers by value and keeps truth values apart; it is the equality of JSON values.
-/

namespace ApiSchema

/-- A value without parts. -/
inductive Scalar where
  | null
  | bool (b : Bool)
  | int (i : Int)
  | float (x : Double)
  | str (s : String)
deriving DecidableEq, Inhabited

/-- A value: a scalar, a list, a fixed sequence, or a mapping in order of first mention. -/
inductive Value where
  | scalar (s : Scalar)
  | list (items : List Value)
  | tuple (items : List Value)
  | map (entries : List (Scalar × Value))
deriving Inhabited

namespace Scalar

/-- The number a scalar counts as; truth values count as zero and one. -/
def number? : Scalar → Option Number
  | .bool b => some (.int (if b then 1 else 0))
  | .int i => some (.int i)
  | .float x => some (.float x)
  | _ => none

/-- Equality with numbers and truth values compared by value. -/
def same (a b : Scalar) : Bool :=
  match a.number?, b.number? with
  | some x, some y => x.same y
  | none, none => a == b
  | _, _ => false

/-- Equality of JSON scalars: numbers by value, truth values apart from numbers. -/
def jsonSame : Scalar → Scalar → Bool
  | .bool a, .bool b => a == b
  | .bool _, _ => false
  | _, .bool _ => false
  | a, b => a.same b

/-- The literal of a scalar in generated source. -/
def literal : Scalar → String
  | .null => "None"
  | .bool b => if b then "True" else "False"
  | .int i => toString i
  | .float x => x.text
  | .str s => Text.quote s

/-- A scalar as part of a text: like its literal, but a string stands for itself. -/
def display : Scalar → String
  | .str s => s
  | s => s.literal

end Scalar

namespace Value

@[match_pattern] abbrev null : Value := .scalar .null

@[match_pattern] abbrev bool (b : Bool) : Value := .scalar (.bool b)

@[match_pattern] abbrev int (i : Int) : Value := .scalar (.int i)

@[match_pattern] abbrev float (x : Double) : Value := .scalar (.float x)

@[match_pattern] abbrev str (s : String) : Value := .scalar (.str s)

/-- A mapping with string keys. -/
def object (entries : List (String × Value)) : Value :=
  .map (entries.map fun (k, v) => (.str k, v))

def ofNumber : Number → Value
  | .int i => .int i
  | .float x => .float x

/-! ### Mappings -/

def find? (key : Scalar) : List (Scalar × Value) → Option Value
  | [] => none
  | (k, v) :: rest => if k.same key then some v else find? key rest

/-- Put a value under a key: in the place of the old one, or at the end. -/
def put (key : Scalar) (value : Value) : List (Scalar × Value) → List (Scalar × Value)
  | [] => [(key, value)]
  | (k, v) :: rest => if k.same key then (k, value) :: rest else (k, v) :: put key value rest

/-- The mapping with these entries, where a later entry takes the value of an earlier equal key. -/
def ofEntries (entries : List (Scalar × Value)) : Value :=
  .map (entries.foldl (fun m (k, v) => put k v m) [])

/-- The entries of a mapping; other values have none. -/
def entries : Value → List (Scalar × Value)
  | .map es => es
  | _ => []

def isMap : Value → Bool
  | .map _ => true
  | _ => false

def get? (key : String) (v : Value) : Option Value :=
  find? (.str key) v.entries

/-- The value under a string key, unless it is absent or null. -/
def get (key : String) (v : Value) : Value :=
  (v.get? key).getD .null

def has (key : String) (v : Value) : Bool :=
  (v.get? key).isSome

/-! ### Kinds -/

def isNull : Value → Bool
  | .null => true
  | _ => false

/-- A number that is not a truth value. -/
def number? : Value → Option Number
  | .int i => some (.int i)
  | .float x => some (.float x)
  | _ => none

/-- Null, false, zero and what is empty. -/
def isEmpty : Value → Bool
  | .null => true
  | .bool b => !b
  | .int i => i == 0
  | .float x => x.value == .rat 0
  | .str s => s.isEmpty
  | .list xs => xs.isEmpty
  | .tuple xs => xs.isEmpty
  | .map es => es.isEmpty

/-- The name of a value's kind in error messages. -/
def kindName : Value → String
  | .null => "NoneType"
  | .bool _ => "bool"
  | .int _ => "int"
  | .float _ => "float"
  | .str _ => "str"
  | .list _ => "list"
  | .tuple _ => "tuple"
  | .map _ => "dict"

/-! ### Equality -/

mutual

/-- Equality with numbers and truth values compared by value, and mappings by their keys. -/
def same : Value → Value → Bool
  | .scalar a, .scalar b => a.same b
  | .list xs, .list ys => sameItems xs ys
  | .tuple xs, .tuple ys => sameItems xs ys
  | .map es, .map fs => es.length == fs.length && sameEntries es fs
  | _, _ => false

def sameItems : List Value → List Value → Bool
  | [], [] => true
  | x :: xs, y :: ys => same x y && sameItems xs ys
  | _, _ => false

/-- Whether every entry is found, with the same value, among the second list. -/
def sameEntries : List (Scalar × Value) → List (Scalar × Value) → Bool
  | [], _ => true
  | (k, v) :: rest, fs =>
    (match find? k fs with
      | some w => same v w
      | none => false) && sameEntries rest fs

end

mutual

/-- Equality of JSON values: numbers by value, objects regardless of the order of keys. -/
def jsonSame : Value → Value → Bool
  | .scalar a, .scalar b => a.jsonSame b
  | .list xs, .list ys => jsonSameItems xs ys
  | .list xs, .tuple ys => jsonSameItems xs ys
  | .tuple xs, .list ys => jsonSameItems xs ys
  | .tuple xs, .tuple ys => jsonSameItems xs ys
  | .map es, .map fs => es.length == fs.length && jsonSameEntries es fs
  | _, _ => false

def jsonSameItems : List Value → List Value → Bool
  | [], [] => true
  | x :: xs, y :: ys => jsonSame x y && jsonSameItems xs ys
  | _, _ => false

def jsonSameEntries : List (Scalar × Value) → List (Scalar × Value) → Bool
  | [], _ => true
  | (k, v) :: rest, fs =>
    (match find? k fs with
      | some w => jsonSame v w
      | none => false) && jsonSameEntries rest fs

end

/-! ### Order -/

mutual

/-- Whether the first value comes before the second: numbers by value, texts by code point,
sequences by their first difference. Values of unlike kinds have no order. -/
def precedes? : Value → Value → Option Bool
  | .scalar a, .scalar b =>
    match a.number?, b.number?, a, b with
    | some x, some y, _, _ => some (x.lt y)
    | _, _, .str s, .str t => some (decide (s < t))
    | _, _, _, _ => none
  | .list xs, .list ys => precedesItems? xs ys
  | .tuple xs, .tuple ys => precedesItems? xs ys
  | _, _ => none

def precedesItems? : List Value → List Value → Option Bool
  | [], [] => some false
  | [], _ :: _ => some true
  | _ :: _, [] => some false
  | x :: xs, y :: ys => if same x y then precedesItems? xs ys else precedes? x y

end

/-! ### Size and text -/

mutual

/-- How deep the parts of a value are nested. -/
def depth : Value → Nat
  | .scalar _ => 0
  | .list xs => depthItems xs + 1
  | .tuple xs => depthItems xs + 1
  | .map es => depthEntries es + 1

def depthItems : List Value → Nat
  | [] => 0
  | x :: xs => max (depth x) (depthItems xs)

def depthEntries : List (Scalar × Value) → Nat
  | [] => 0
  | (_, v) :: rest => max (depth v) (depthEntries rest)

end

mutual

/-- The literal of a value in generated source and in messages. -/
def literal : Value → String
  | .scalar s => s.literal
  | .list xs => "[" ++ Text.join ", " (literalItems xs) ++ "]"
  | .tuple [x] => "(" ++ literal x ++ ",)"
  | .tuple xs => "(" ++ Text.join ", " (literalItems xs) ++ ")"
  | .map es => "\x7b" ++ Text.join ", " (literalEntries es) ++ "\x7d"

def literalItems : List Value → List String
  | [] => []
  | x :: xs => literal x :: literalItems xs

def literalEntries : List (Scalar × Value) → List String
  | [] => []
  | (k, v) :: rest => (k.literal ++ ": " ++ literal v) :: literalEntries rest

end

/-- A value as part of a text: like its literal, but a string stands for itself. -/
def display : Value → String
  | .scalar s => s.display
  | v => v.literal

mutual

/-- Whether a value can be a member of a set: neither a list nor a mapping is part of it. -/
def isHashable : Value → Bool
  | .scalar _ => true
  | .list _ => false
  | .tuple xs => areHashable xs
  | .map _ => false

def areHashable : List Value → Bool
  | [] => true
  | x :: xs => isHashable x && areHashable xs

end

end Value

end ApiSchema
