import ApiSchema.Schema.Route

/-!
# Resolved documents

Resolving a document reads every component, every route, and every schema that is referred to,
however far away, each of them once. References are followed where they are met, so the first fault
in reading order is the one reported; a target met again while it is being read is part of a cycle.
-/

namespace ApiSchema

/-- A document with all that it refers to: the schema of every target, the name each target goes by,
the routes, and the targets that lie on a cycle of references. -/
structure Resolved where
  definitions : List (String × Node)
  names : List (String × String)
  routes : List (Route Node)
  cyclic : List String

namespace Schema

/-- What is known in the course of a resolution. -/
structure Walk where
  /-- Targets that have been read. -/
  definitions : List (String × Node) := []
  /-- Targets in the order they were first met, with their names. -/
  names : List (String × String) := []
  /-- Targets found on a cycle. -/
  cyclic : List String := []
  /-- Documents that were opened, in order. -/
  opened : List String := []

/-- A step of a resolution; what was found before a fault stays known. -/
abbrev Resolving := ExceptT Fault (StateM Walk)

namespace Walk

def isDefined (w : Walk) (target : String) : Bool :=
  (w.definitions.lookup target).isSome

def markCyclic (targets : List String) (w : Walk) : Walk :=
  { w with cyclic := Text.distinct (w.cyclic ++ targets) }

def openDocument (uri : String) (w : Walk) : Walk :=
  if w.opened.contains uri then w else { w with opened := w.opened ++ [uri] }

/-- Give a target its name, when it is met for the first time. -/
def introduce (target name : String) (w : Walk) : Walk :=
  if (w.names.lookup target).isSome then w else { w with names := w.names ++ [(target, name)] }

def record (target : String) (node : Node) (w : Walk) : Walk :=
  { w with definitions := w.definitions ++ [(target, node)] }

end Walk

/-- The name of a target that is not a component: the last part of its fragment, or of its document. -/
def targetName (place : Location) : String :=
  let last := Text.lastPart '/' (if place.fragment.isEmpty then place.uri else place.fragment).toList
  let name := String.ofList (Pointer.unescapeChars last)
  if name.isEmpty then "Schema" else name

/-- Meet the demands of a reading in order, and go on with its outcome. -/
def meet (define : Link → Resolving Unit) {α : Type} (reading : Reading α) : Resolving α := do
  reading.trace.forM fun demand =>
    match demand with
    | .document uri => modify (Walk.openDocument uri)
    | .schema link => define link
  match reading.outcome with
  | .ok a => pure a
  | .error fault => throw fault

/-- Read the schema that a link leads to, unless it has been read, or is being read: `stack` holds
the targets being read. -/
def defineWithin (lib : Library) : Nat → List String → Link → Resolving Unit
  | 0, _, _ => throw .endless
  | n + 1, stack, link => do
    if (← get).isDefined link.target then return
    if stack.contains link.target then
      modify (Walk.markCyclic (stack.dropWhile (· != link.target)))
      return
    let place ← meet (fun _ => pure ())
      (Traced.ofExcept (lib.locate link.target link.uri link.referrer))
    let ref := if link.ref.isEmpty then link.target else link.ref
    let raw ← meet (fun _ => pure ()) (lib.lookup ref place.uri place.fragment link.referrer)
    modify (Walk.introduce link.target (targetName place))
    let node ← meet (defineWithin lib n (stack ++ [link.target]))
      (read lib place.uri raw link.target)
    modify (Walk.record link.target node)

def define (lib : Library) (link : Link) : Resolving Unit :=
  defineWithin lib (lib.limit + 1) [] link

/-- The entries of `components.schemas`. -/
def components (root : Value) : Except Fault (List (Scalar × Value)) :=
  match root.get "components" with
  | .map entries =>
    mappingAt "schemas" (.map entries)
      (.general "components.schemas must be a mapping" (some "#/components/schemas"))
  | _ => .ok []

def componentTarget (name : String) : String :=
  "#/components/schemas/" ++ Pointer.escape name

def resolveAll (lib : Library) : Resolving (List (Route Node)) := do
  if !lib.root.isMap then throw (.general "Document root must be a mapping" none)
  let entries ← meet (fun _ => pure ()) (Traced.ofExcept (components lib.root))
  let names := entries.map fun (key, _) => key.display
  names.forM fun name => modify (Walk.introduce (componentTarget name) name)
  names.forM fun name =>
    define lib ⟨componentTarget name, lib.base, componentTarget name, ""⟩
  meet (define lib) (readRoutes lib)

/-- The schemas of the targets in the order they were first met. -/
def Walk.inOrder (w : Walk) : List (String × Node) :=
  w.names.filterMap fun (target, _) => (w.definitions.lookup target).map (target, ·)

/-- Resolve a document; the documents opened on the way are the trace. -/
def resolve (lib : Library) : Traced String Fault Resolved :=
  let (outcome, walk) := (resolveAll lib).run {}
  ⟨walk.opened, outcome.map fun routes =>
    ⟨walk.inOrder, walk.names, routes, walk.cyclic⟩⟩

end Schema

/-! ### Libraries from tables -/

namespace Library

mutual

/-- How many references a value holds. -/
def countRefs : Value → Nat
  | .scalar _ => 0
  | .list xs => countRefsItems xs
  | .tuple xs => countRefsItems xs
  | .map es => countRefsEntries es

def countRefsItems : List Value → Nat
  | [] => 0
  | x :: xs => countRefs x + countRefsItems xs

def countRefsEntries : List (Scalar × Value) → Nat
  | [] => 0
  | (k, v) :: rest => (if k = .str "$ref" then 1 else 0) + countRefs v + countRefsEntries rest

end

/-- The library of one document and a table of others. Every target stems from a component, or from
a reference as read in one of the documents, so there are no more targets than the limit. -/
def ofTable (base : String) (root : Value) (table : List (String × Value)) : Library where
  base := base
  root := root
  fetch uri :=
    match table.lookup uri with
    | some doc => .ok doc
    | none => .error (.general "no such document" (some uri))
  limit :=
    let refs := countRefs root + (table.map fun (_, doc) => countRefs doc).foldr (· + ·) 0
    refs * (table.length + 1) + ((root.get "components").get "schemas").entries.length

end Library

end ApiSchema
