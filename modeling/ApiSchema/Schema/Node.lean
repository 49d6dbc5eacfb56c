import ApiSchema.Value.Basic

/-!
# Schema nodes

A schema of a document after reading: one kind, the constraints of that kind, and the place it was
read from. References stay references; they name their target.
-/

namespace ApiSchema

/-- Where a node was read, and whether null is allowed beside what the node allows. -/
structure Site where
  pointer : String
  nullable : Bool := false
deriving DecidableEq

/-- Constraints of strings, as written. -/
structure StringRules where
  minLength : Option Value := none
  maxLength : Option Value := none
  pattern : Option Value := none
  format : Option Value := none

structure NumberRules where
  minimum : Option Number := none
  maximum : Option Number := none
  exclusiveMinimum : Option Number := none
  exclusiveMaximum : Option Number := none
  multipleOf : Option Number := none
deriving DecidableEq

structure ArrayRules where
  minItems : Option Value := none
  maxItems : Option Value := none
  uniqueItems : Option Value := none

/-- Bounds on the number of properties, as written. -/
structure CountRules where
  minProperties : Option Value := none
  maxProperties : Option Value := none

/-- What an object may hold beside its properties. -/
inductive Additional (α : Type) where
  /-- Nothing is said. -/
  | unstated
  /-- Anything. -/
  | allowed
  /-- Nothing. -/
  | forbidden
  /-- What a schema allows. -/
  | typed (schema : α)

inductive Node where
  | any (site : Site)
  | null (site : Site)
  | boolean (site : Site)
  | string (site : Site) (rules : StringRules)
  | number (site : Site) (integer : Bool) (rules : NumberRules)
  | array (site : Site) (items : Option Node) (rules : ArrayRules)
  | object (site : Site) (properties : List (String × Node)) (required : List String)
      (additional : Additional Node) (rules : CountRules)
  | anyOf (site : Site) (branches : List Node)
  | oneOf (site : Site) (branches : List Node)
  | allOf (site : Site) (branches : List Node)
  | enum (site : Site) (values : List Scalar)
  | literal (site : Site) (values : List Scalar)
  | reference (site : Site) (target : String)

namespace Node

def site : Node → Site
  | any s => s
  | null s => s
  | boolean s => s
  | string s _ => s
  | number s _ _ => s
  | array s _ _ => s
  | object s _ _ _ _ => s
  | anyOf s _ => s
  | oneOf s _ => s
  | allOf s _ => s
  | enum s _ => s
  | literal s _ => s
  | reference s _ => s

def pointer (n : Node) : String :=
  n.site.pointer

def nullable (n : Node) : Bool :=
  n.site.nullable

/-- The same node at another site. -/
def atSite (s : Site) : Node → Node
  | any _ => any s
  | null _ => null s
  | boolean _ => boolean s
  | string _ r => string s r
  | number _ i r => number s i r
  | array _ i r => array s i r
  | object _ p q a r => object s p q a r
  | anyOf _ b => anyOf s b
  | oneOf _ b => oneOf s b
  | allOf _ b => allOf s b
  | enum _ v => enum s v
  | literal _ v => literal s v
  | reference _ t => reference s t

def isAny : Node → Bool
  | any _ => true
  | _ => false

/-- Allow null as well. A node that allows anything stays as it is. -/
def orNull (n : Node) : Node :=
  if n.isAny then n else n.atSite { n.site with nullable := true }

/-! ### Equality -/

def sameRule : Option Value → Option Value → Bool
  | none, none => true
  | some a, some b => a.same b
  | _, _ => false

/-- Equality of numeric bounds by value. -/
def sameBound : Option Number → Option Number → Bool
  | none, none => true
  | some a, some b => a.same b
  | _, _ => false

/-- Equality of lists of scalars, numbers and truth values by value. -/
def sameScalars : List Scalar → List Scalar → Bool
  | [], [] => true
  | a :: as, b :: bs => a.same b && sameScalars as bs
  | _, _ => false

/-- Whether two lists hold the same names. -/
def sameNames (xs ys : List String) : Bool :=
  xs.all ys.contains && ys.all xs.contains

mutual

/-- Equality of what two nodes allow, as far as it is written the same way: places are left out,
and numbers and truth values are compared by value. -/
def same : Node → Node → Bool
  | any s, any t => s.nullable == t.nullable
  | null s, null t => s.nullable == t.nullable
  | boolean s, boolean t => s.nullable == t.nullable
  | string s a, string t b =>
    s.nullable == t.nullable && sameRule a.minLength b.minLength &&
      sameRule a.maxLength b.maxLength && sameRule a.pattern b.pattern && sameRule a.format b.format
  | number s i a, number t j b =>
    s.nullable == t.nullable && i == j && sameBound a.minimum b.minimum &&
      sameBound a.maximum b.maximum && sameBound a.exclusiveMinimum b.exclusiveMinimum &&
      sameBound a.exclusiveMaximum b.exclusiveMaximum && sameBound a.multipleOf b.multipleOf
  | array s i a, array t j b =>
    s.nullable == t.nullable && sameOption i j && sameRule a.minItems b.minItems &&
      sameRule a.maxItems b.maxItems && sameRule a.uniqueItems b.uniqueItems
  | object s p q x a, object t p' q' x' b =>
    s.nullable == t.nullable && sameProperties p p' && sameNames q q' && sameAdditional x x' &&
      sameRule a.minProperties b.minProperties && sameRule a.maxProperties b.maxProperties
  | anyOf s xs, anyOf t ys => s.nullable == t.nullable && sameBranches xs ys
  | oneOf s xs, oneOf t ys => s.nullable == t.nullable && sameBranches xs ys
  | allOf s xs, allOf t ys => s.nullable == t.nullable && sameBranches xs ys
  | enum s xs, enum t ys => s.nullable == t.nullable && sameScalars xs ys
  | literal s xs, literal t ys => s.nullable == t.nullable && sameScalars xs ys
  | reference s a, reference t b => s.nullable == t.nullable && a == b
  | _, _ => false

def sameOption : Option Node → Option Node → Bool
  | none, none => true
  | some a, some b => same a b
  | _, _ => false

def sameAdditional : Additional Node → Additional Node → Bool
  | .unstated, .unstated => true
  | .allowed, .allowed => true
  | .forbidden, .forbidden => true
  | .typed a, .typed b => same a b
  | _, _ => false

def sameBranches : List Node → List Node → Bool
  | [], [] => true
  | a :: as, b :: bs => same a b && sameBranches as bs
  | _, _ => false

def sameProperties : List (String × Node) → List (String × Node) → Bool
  | [], [] => true
  | (k, a) :: as, (l, b) :: bs => k == l && same a b && sameProperties as bs
  | _, _ => false

end

/-! ### Size -/

mutual

def size : Node → Nat
  | array _ items _ => sizeOption items + 1
  | object _ properties _ additional _ => sizeProperties properties + sizeAdditional additional + 1
  | anyOf _ branches => sizeBranches branches + 1
  | oneOf _ branches => sizeBranches branches + 1
  | allOf _ branches => sizeBranches branches + 1
  | _ => 1

def sizeOption : Option Node → Nat
  | none => 0
  | some n => size n

def sizeAdditional : Additional Node → Nat
  | .typed n => size n
  | _ => 0

def sizeBranches : List Node → Nat
  | [] => 0
  | n :: ns => size n + sizeBranches ns

def sizeProperties : List (String × Node) → Nat
  | [] => 0
  | (_, n) :: rest => size n + sizeProperties rest

end

end Node

end ApiSchema
