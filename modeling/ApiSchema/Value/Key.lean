import ApiSchema.Value.Basic

/-!
# Keys of values

Sets of values are kept as sets of keys. The key of a value is made of scalars, sequences and sets of
keys, with a tag for the kind of the value, so that equal JSON values have the same key and others
have not.
-/

namespace ApiSchema

/-- A key: a scalar, keys in order, or a set of keys. -/
inductive Key where
  | scalar (s : Scalar)
  | tuple (items : List Key)
  | set (members : List Key)
deriving Inhabited

namespace Key

mutual

/-- Equality of keys: scalars with numbers and truth values by value, sequences item by item, sets
by the members that one has and the other has too. -/
def same : Key → Key → Bool
  | .scalar a, .scalar b => a.same b
  | .tuple xs, .tuple ys => sameItems xs ys
  | .set xs, .set ys => areAmong xs ys && ys.all fun y => isAmong xs y
  | _, _ => false
termination_by structural k => k

def sameItems : List Key → List Key → Bool
  | [], [] => true
  | x :: xs, y :: ys => same x y && sameItems xs ys
  | _, _ => false
termination_by structural ks => ks

/-- Whether each of the first keys is one of the second. -/
def areAmong : List Key → List Key → Bool
  | [], _ => true
  | x :: xs, ys => ys.any (same x) && areAmong xs ys
termination_by structural ks => ks

/-- Whether one of the keys is the given one. -/
def isAmong : List Key → Key → Bool
  | [], _ => false
  | x :: xs, y => same x y || isAmong xs y
termination_by structural ks => ks

end

/-- Whether keys are new one after another, beside those already seen. -/
def areNew (seen : List Key) : List Key → Bool
  | [] => true
  | k :: ks => !seen.any k.same && areNew (k :: seen) ks

/-- A key with the tag of a kind. -/
def tagged (tag : String) (k : Key) : Key :=
  .tuple [.scalar (.str tag), k]

end Key

namespace Value

mutual

def key : Value → Key
  | .null => .tagged "NoneType" (.scalar .null)
  | .bool b => .tagged "bool" (.scalar (.bool b))
  | .int i => .tagged "number" (.scalar (.int i))
  | .float x => .tagged "number" (.scalar (.float x))
  | .str s => .tagged "string" (.scalar (.str s))
  | .list xs => .tagged "array" (.tuple (itemKeys xs))
  | .tuple xs => .tagged "array" (.tuple (itemKeys xs))
  | .map es => .tagged "object" (.set (entryKeys es))

def itemKeys : List Value → List Key
  | [] => []
  | x :: xs => key x :: itemKeys xs

/-- The keys of the entries of a mapping: the name and the key of the value. -/
def entryKeys : List (Scalar × Value) → List Key
  | [] => []
  | (k, v) :: rest => .tuple [.scalar k, key v] :: entryKeys rest

end

end Value

end ApiSchema
