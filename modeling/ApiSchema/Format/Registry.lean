import ApiSchema.Fault

/-!
# Formats with validators of their own

A registry gives string formats a validator supplied from outside, by name. A format keeps its
validator until the registry is cleared.
-/

namespace ApiSchema.Format

/-- Formats with the name of their validator. -/
structure Registry where
  entries : List (String × String) := []

namespace Registry

def lookup (r : Registry) (format : String) : Option String :=
  r.entries.lookup format

def isRegistered (r : Registry) (format : String) : Bool :=
  (r.lookup format).isSome

/-- Give one format a validator, in the place of what it had. -/
def assign (r : Registry) (format name : String) : Registry :=
  if r.isRegistered format then
    ⟨r.entries.map fun (f, n) => if f = format then (f, name) else (f, n)⟩
  else ⟨r.entries ++ [(format, name)]⟩

/-! ### Changes -/

/-- A change that can fail. What was done before a failure stays done. -/
abbrev Change := ExceptT Fault (StateM Registry)

/-- Refuse a format that has another validator already. -/
def refuseTaken (name format : String) : Change Unit := do
  match (← get).lookup format with
  | some existing =>
    if existing = name then pure () else throw (.schema (.formatTaken format existing name))
  | none => pure ()

/-- What changes a registry. -/
inductive Call where
  | register (name : String) (formats : List String)
  | clear

/-- Register a validator for formats, once none of them is refused, or forget all formats. -/
def Call.change : Call → Change Unit
  | register name formats => do
    formats.forM (refuseTaken name)
    formats.forM fun format => modify (·.assign format name)
  | clear => set ({} : Registry)

/-- The outcome of a call, and the registry after it. -/
def call (r : Registry) (c : Call) : Except Fault Unit × Registry :=
  c.change.run r

/-- The registry with a validator for formats. -/
def register (r : Registry) (name : String) (formats : List String) : Except Fault Registry :=
  let (outcome, r) := r.call (.register name formats)
  outcome.map fun _ => r

/-! ### Views -/

def validators (r : Registry) : List String :=
  Text.distinct (r.entries.map (·.2))

def size (r : Registry) : Nat :=
  r.entries.length

end Registry

/-- The formats with a check of their own. -/
def supported : List String :=
  ["color-hex", "date", "date-time", "email", "iso-date", "iso-date-time", "objectid", "uri",
    "url", "uuid"]

end ApiSchema.Format
