import ApiSchema.Declaration.Basic
import ApiSchema.Graph

/-!
# Order of declarations

Declarations are grouped into components that reach each other, each component after all that it
refers to. Members of a cycle are marked. A cycle of references that cannot wait is refused.
-/

namespace ApiSchema.Declarations

/-- The declarations that count: of several with one name, the last. -/
def effective (d : Declarations) : List Declaration :=
  keepLast d.entries
where
  /-- Drop declarations whose name comes again. -/
  keepLast : List Declaration → List Declaration
    | [] => []
    | e :: rest => if rest.any (·.name == e.name) then keepLast rest else e :: keepLast rest

def dependenciesOf (d : Declarations) (name : String) : List String :=
  ((d.get? name).map (·.dependencies)).getD []

def graph (d : Declarations) : Graph where
  nodes := Text.distinct d.names
  links := d.dependenciesOf

/-- The components of declarations, each after all that it refers to, with its members in the order
of declaration. -/
def components (d : Declarations) : List (List Declaration) :=
  d.graph.components.map fun names => d.effective.filter fun e => names.contains e.name

/-- The graph of references that cannot wait, inside one component. -/
def eagerGraph (component : List Declaration) : Graph where
  nodes := component.map (·.name)
  links name := ((component.find? (·.name == name)).map (·.eager)).getD []

/-- Whether the members of a component reach themselves. -/
def isCyclic : List Declaration → Bool
  | [] => false
  | [e] => e.dependencies.contains e.name
  | _ => true

/-- Check one component and mark it if it is cyclic; cyclic groups are noted by their names. -/
def settle (component : List Declaration) :
    Traced (List String) Fault (List Declaration) := do
  if !isCyclic component then return component
  match (eagerGraph component).cycle?, component.head? with
  | some cycle, some head =>
    throw (.schema (.unbreakable cycle (if head.pointer.isEmpty then none else some head.pointer)))
  | _, _ =>
    Traced.note (component.map (·.name))
    return component.map fun e => { e with cyclic := true }

def settleAll : List (List Declaration) →
    Traced (List String) Fault (List (List Declaration))
  | [] => pure []
  | component :: rest => do
    let settled ← settle component
    let others ← settleAll rest
    return settled :: others

/-- The declarations in order, by components, with those on cycles marked. -/
def order (d : Declarations) : Traced (List String) Fault (List (List Declaration)) :=
  settleAll d.components

end ApiSchema.Declarations
