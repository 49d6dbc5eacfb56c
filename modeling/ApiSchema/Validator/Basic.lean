import ApiSchema.Schema.Node

/-!
# Validators

What is to be accepted, free of any document: the rules of a schema after constraints have been
normalised and conjunctions of objects merged. Validators refer to each other by the target of a
definition, and once declared, by name.
-/

namespace ApiSchema

/-- Bounds on a length or a count, as written. -/
structure Extent where
  min : Option Value := none
  max : Option Value := none

/-- A field of an object, with something of type `α` for its value. -/
structure FieldOf (α : Type) where
  key : String
  validator : α
  required : Bool

inductive Validator where
  | any
  | null
  | boolean
  | string (length : Extent) (pattern format : Option String)
  /-- A validator of that name supplied from outside. -/
  | custom (name : String)
  | number (integer : Bool) (rules : NumberRules)
  | literal (values : List Scalar)
  | array (items : Validator) (length : Extent) (unique : Bool)
  /-- An object without declared fields. -/
  | record (values : Validator) (count : Extent)
  /-- An object with declared fields. -/
  | object (fields : List (FieldOf Validator)) (forbidExtra : Bool) (extra : Option Validator)
      (count : Extent)
  | union (branches : List Validator)
  | intersection (branches : List Validator)
  | nullable (inner : Validator)
  /-- What the definition of that target says. -/
  | ref (target : String)
  /-- What the declaration of that name says. -/
  | named (name : String)
deriving Inhabited

namespace Extent

def isEmpty (e : Extent) : Bool :=
  e.min.isNone && e.max.isNone

def same (a b : Extent) : Bool :=
  Node.sameRule a.min b.min && Node.sameRule a.max b.max

def isHashable (e : Extent) : Bool :=
  e.min.all Value.isHashable && e.max.all Value.isHashable

end Extent

namespace NumberRules

/-- Equality with bounds compared by value. -/
def same (a b : NumberRules) : Bool :=
  Node.sameBound a.minimum b.minimum && Node.sameBound a.maximum b.maximum &&
    Node.sameBound a.exclusiveMinimum b.exclusiveMinimum &&
    Node.sameBound a.exclusiveMaximum b.exclusiveMaximum &&
    Node.sameBound a.multipleOf b.multipleOf

end NumberRules

namespace Validator

def isAny : Validator → Bool
  | any => true
  | _ => false

/-- Objects with declared fields are written as models. -/
def isModel : Validator → Bool
  | object .. => true
  | _ => false

/-- Validators worth sharing when they occur more than once. -/
def isComposite : Validator → Bool
  | array .. => true
  | record .. => true
  | object .. => true
  | union _ => true
  | intersection _ => true
  | literal _ => true
  | _ => false

/-- The validators directly inside a validator. -/
def children : Validator → List Validator
  | array items _ _ => [items]
  | record values _ => [values]
  | object fields _ extra _ => fields.map (·.validator) ++ extra.toList
  | union branches => branches
  | intersection branches => branches
  | nullable inner => [inner]
  | _ => []

mutual

/-- Whether null is accepted without looking behind references. -/
def admitsNull : Validator → Bool
  | union branches => admitNull branches
  | any => true
  | null => true
  | nullable _ => true
  | _ => false

def admitNull : List Validator → Bool
  | [] => false
  | v :: vs => admitsNull v || admitNull vs

end

/-! ### Equality -/

mutual

/-- Equality with numbers and truth values compared by value. -/
def same : Validator → Validator → Bool
  | any, any => true
  | null, null => true
  | boolean, boolean => true
  | string l p f, string l' p' f' => l.same l' && p == p' && f == f'
  | custom n, custom n' => n == n'
  | number i r, number i' r' => i == i' && r.same r'
  | literal vs, literal vs' => Node.sameScalars vs vs'
  | array v l u, array v' l' u' => same v v' && l.same l' && u == u'
  | record v c, record v' c' => same v v' && c.same c'
  | object fs b e c, object fs' b' e' c' =>
    sameFields fs fs' && b == b' && sameExtra e e' && c.same c'
  | union bs, union bs' => sameAll bs bs'
  | intersection bs, intersection bs' => sameAll bs bs'
  | nullable v, nullable v' => same v v'
  | ref t, ref t' => t == t'
  | named n, named n' => n == n'
  | _, _ => false

def sameAll : List Validator → List Validator → Bool
  | [], [] => true
  | v :: vs, w :: ws => same v w && sameAll vs ws
  | _, _ => false

def sameFields : List (FieldOf Validator) → List (FieldOf Validator) → Bool
  | [], [] => true
  | ⟨k, v, r⟩ :: fs, ⟨k', v', r'⟩ :: fs' => k == k' && same v v' && r == r' && sameFields fs fs'
  | _, _ => false

def sameExtra : Option Validator → Option Validator → Bool
  | none, none => true
  | some v, some w => same v w
  | _, _ => false

end

/-! ### Membership in sets -/

mutual

/-- Whether a validator can be a member of a set: every bound as written can. -/
def isHashable : Validator → Bool
  | string length _ _ => length.isHashable
  | array items length _ => isHashable items && length.isHashable
  | record values count => isHashable values && count.isHashable
  | object fields _ extra count =>
    areHashableFields fields && isHashableExtra extra && count.isHashable
  | union branches => areHashable branches
  | intersection branches => areHashable branches
  | nullable inner => isHashable inner
  | _ => true

def areHashable : List Validator → Bool
  | [] => true
  | v :: vs => isHashable v && areHashable vs

def areHashableFields : List (FieldOf Validator) → Bool
  | [] => true
  | ⟨_, v, _⟩ :: fs => isHashable v && areHashableFields fs

def isHashableExtra : Option Validator → Bool
  | none => true
  | some v => isHashable v

end

end Validator

end ApiSchema
