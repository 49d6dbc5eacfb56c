import ApiSchema.Fault

/-!
# Assigned names

A registry hands out names, none of them twice, and binds names to fingerprints one to one. For
every name that was asked for again it keeps the number it last put behind the name, so that the
search for the next one starts there.
-/

namespace ApiSchema.Name

/-- The names in use, and the fingerprints bound to names. -/
structure Registry where
  /-- What every name handed out starts with. -/
  start : String := ""
  used : List String := []
  /-- Names with the number last put behind them, the latest first. -/
  counts : List (String × Nat) := []
  /-- Fingerprints with the name each is bound to. -/
  bound : List (String × String) := []

namespace Registry

def numbered (name : String) (k : Nat) : String :=
  name ++ "_" ++ toString k

/-- The number last put behind a name; the name alone counts as the first. -/
def count (r : Registry) (name : String) : Nat :=
  (r.counts.lookup name).getD 1

/-- The least number above `last` that makes a name not in use. One of the next `used.length + 1`
numbers does. -/
def freeNumber (used : List String) (name : String) (last : Nat) : Nat :=
  last + 1 + ((List.range (used.length + 1)).find? fun i =>
    !used.contains (numbered name (last + 1 + i))).getD 0

/-- Hand out a name made from `base`: as it is if it is free, numbered otherwise. -/
def assign (r : Registry) (base : String) : String × Registry :=
  let name := r.start ++ base
  let taken := r.used.contains name
  let number := freeNumber r.used name (r.count name)
  let chosen := if taken then numbered name number else name
  (chosen, { r with
    used := r.used ++ [chosen]
    counts := if taken then (name, number) :: r.counts else r.counts })

def lookup (r : Registry) (fingerprint : String) : Option String :=
  r.bound.lookup fingerprint

def fingerprintOf (r : Registry) (name : String) : Option String :=
  (r.bound.find? fun (_, n) => n == name).map (·.1)

/-- Bind a name to a fingerprint, unless either is bound otherwise. -/
def bind (r : Registry) (fingerprint name : String) : Except Fault Registry :=
  match r.lookup fingerprint, r.fingerprintOf name with
  | some existing, other =>
    if existing ≠ name then .error (.fingerprintTaken existing name)
    else
      match other with
      | some f => if f ≠ fingerprint then .error (.nameTaken name) else .ok r
      | none => .ok r
  | none, some _ => .error (.nameTaken name)
  | none, none => .ok { r with bound := r.bound ++ [(fingerprint, name)] }

def contains (r : Registry) (name : String) : Bool :=
  r.used.contains name

/-! ### Calls -/

/-- What a registry can be asked. -/
inductive Call where
  | assign (base : String)
  | bind (fingerprint name : String)
  | lookup (fingerprint : String)

/-- What a registry answers. -/
inductive Answer where
  | assigned (name : String)
  | bound
  | refused (fault : Fault)
  | found (name : Option String)

/-- The answer to a call, and the registry after it. -/
def call (r : Registry) : Call → Answer × Registry
  | .assign base =>
    let (name, r) := r.assign base
    (.assigned name, r)
  | .bind fingerprint name =>
    match r.bind fingerprint name with
    | .ok r => (.bound, r)
    | .error fault => (.refused fault, r)
  | .lookup fingerprint => (.found (r.lookup fingerprint), r)

end Registry

end ApiSchema.Name
