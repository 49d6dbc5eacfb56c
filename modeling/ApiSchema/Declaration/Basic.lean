import ApiSchema.Schema.Route
import ApiSchema.Validator.Basic

/-!
# Declarations

A declaration is a validator with a name. Declarations refer to each other by name: at once, or from
within an array, a record or an object, where the reference can wait.
-/

namespace ApiSchema

/-- A named validator. -/
structure Declaration where
  name : String
  validator : Validator
  pointer : String := ""
  /-- The names referred to, in order of first use. -/
  dependencies : List String := []
  /-- Those referred to at once. -/
  eager : List String := []
  /-- Whether the declaration can reach itself. -/
  cyclic : Bool := false

/-- All declarations of a module, and the names for every route. -/
structure Declarations where
  entries : List Declaration := []
  routes : List (Route String) := []

namespace Declarations

def names (d : Declarations) : List String :=
  d.entries.map (·.name)

def contains (d : Declarations) (name : String) : Bool :=
  d.names.contains name

/-- The declaration of a name; of several, the last. -/
def get? (d : Declarations) (name : String) : Option Declaration :=
  d.entries.reverse.find? (·.name == name)

/-- Add a declaration under a name that has none yet. -/
def add (d : Declarations) (entry : Declaration) : Except Fault Declarations :=
  if d.contains entry.name then .error (.alreadyDeclared entry.name)
  else .ok { d with entries := d.entries ++ [entry] }

end Declarations

namespace Validator

/-! ### References by name -/

mutual

/-- Every reference by name, from left to right, with whether it is outside of any container. -/
def occurrences (eager : Bool) : Validator → List (String × Bool)
  | named name => [(name, eager)]
  | array items _ _ => occurrences false items
  | record values _ => occurrences false values
  | object fields _ extra _ => occurrencesFields fields ++ occurrencesExtra extra
  | union branches => occurrencesAll eager branches
  | intersection branches => occurrencesAll eager branches
  | nullable inner => occurrences eager inner
  | _ => []

def occurrencesAll (eager : Bool) : List Validator → List (String × Bool)
  | [] => []
  | v :: vs => occurrences eager v ++ occurrencesAll eager vs

def occurrencesFields : List (FieldOf Validator) → List (String × Bool)
  | [] => []
  | ⟨_, v, _⟩ :: fs => occurrences false v ++ occurrencesFields fs

def occurrencesExtra : Option Validator → List (String × Bool)
  | none => []
  | some v => occurrences false v

end

/-- The names referred to, in order of first use. -/
def references (v : Validator) : List String :=
  Text.distinct ((v.occurrences true).map (·.1))

/-- The names referred to outside of any container, in order of first use anywhere. -/
def eagerReferences (v : Validator) : List String :=
  v.references.filter fun name => (v.occurrences true).contains (name, true)

end Validator

/-- A declaration with the references of its validator. -/
def Declaration.of (name : String) (v : Validator) (pointer : String) : Declaration where
  name := name
  validator := v
  pointer := pointer
  dependencies := v.references
  eager := v.eagerReferences

end ApiSchema
