import ApiSchema.Schema.Read

/-!
# Routes

A route is a path and a method, with a schema for each kind of request data and for each status of
a response. Path items, parameters, bodies and responses may be references of their own; those are
followed on the spot, by `deref`.
-/

namespace ApiSchema

/-- A route, with something of type `α` for every kind of request data and every status. -/
structure Route (α : Type) where
  path : String
  method : String
  pointer : String
  request : List (String × α)
  responses : List (String × α)

namespace Route

/-- The methods a path item may hold, as written there and as named in tables. -/
def methods : List (String × String) :=
  [("get", "GET"), ("post", "POST"), ("put", "PUT"), ("patch", "PATCH"), ("delete", "DELETE"),
    ("head", "HEAD"), ("options", "OPTIONS"), ("trace", "TRACE")]

/-- The locations of parameters that are checked, each with its kind of request data. -/
def locations : List (String × String) :=
  [("path", "params"), ("query", "query"), ("header", "headers")]

/-- Take the names out of the parameters of a path: a brace, no slash or closing brace, and a closing
brace become a pair of braces. -/
def templateChars : List Char → List Char
  | [] => []
  | c :: rest =>
    if c = '\x7b' ∧ rest.find? (fun d => d == '\x7d' || d == '/') = some '\x7d' then
      '\x7b' :: '\x7d' :: skip rest
    else c :: templateChars rest
where
  /-- Go on behind the next closing brace. -/
  skip : List Char → List Char
    | [] => []
    | c :: rest => if c = '\x7d' then templateChars rest else skip rest

def template (path : String) : String :=
  String.ofList (templateChars path.toList)

end Route

/-! ### References to parts of routes -/

/-- A raw part of a route, with the document it stands in and its place there. -/
structure Part where
  raw : Value
  doc : String
  pointer : String

/-- Follow references until something else is met; `seen` holds the targets met before. -/
def Part.derefWithin (lib : Library) : Nat → List String → Part → Reading Part
  | 0, _, _ => throw .endless
  | n + 1, seen, part =>
    match part.raw.get? "$ref" with
    | some (.str ref) => do
      let place ← Traced.ofExcept (lib.locate ref part.doc part.pointer)
      if seen.contains place.target then
        throw (.general ("Reference loop through '" ++ ref ++ "'") (some part.pointer))
      let raw ← lib.lookup ref place.uri place.fragment part.pointer
      Part.derefWithin lib n (place.target :: seen) ⟨raw, place.uri, place.target⟩
    | _ => pure part

/-- Follow references until something else is met. -/
def Part.deref (lib : Library) (part : Part) : Reading Part :=
  part.derefWithin lib (lib.limit + 1) []

namespace Schema

/-! ### Media types -/

/-- The media types of a body in order of preference: JSON, what is based on JSON, any other. -/
def preferredTypes (content : List (Scalar × Value)) : List Scalar :=
  .str "application/json" ::
    (content.filterMap fun (k, _) =>
      match k with
      | .str name => if Text.hasSuffix "+json" name then some k else none
      | _ => none) ++
    content.map (·.1)

/-- The schema of the preferred media type, with its place. Without one the place is that of the
whole. -/
def mediaSchema (content : List (Scalar × Value)) (pointer : String) : Value × String :=
  ((preferredTypes content).findSome? fun type =>
    match Value.find? type content with
    | some (.map media) =>
      (Value.find? (.str "schema") media).map fun schema =>
        (schema, pointer ++ "/" ++ Pointer.escape type.display ++ "/schema")
    | _ => none).getD (.null, pointer)

/-! ### Parameters -/

/-- A parameter by its name and location. -/
structure Parameter where
  name : String
  location : String
  part : Part

/-- Put a parameter in the place of an earlier one of that name and location, or at the end. -/
def Parameter.put (p : Parameter) : List Parameter → List Parameter
  | [] => [p]
  | q :: rest =>
    if q.name = p.name ∧ q.location = p.location then p :: rest else q :: Parameter.put p rest

/-- Parameters where later ones replace earlier ones. -/
def Parameter.merge (earlier later : List Parameter) : List Parameter :=
  later.foldl (fun ps p => p.put ps) earlier

def readParameter (lib : Library) (entry : Part) : Reading Parameter := do
  let part ← entry.deref lib
  match part.raw.get? "name" with
  | some name =>
    let location := ((part.raw.get? "in").getD (.str "query")).display
    return ⟨name.display, location, part⟩
  | none => throw (.general "parameter must be a mapping with a name" (some part.pointer))

/-- The entries of a list of parameters from position `i` on. -/
def readParameterList (lib : Library) (doc pointer : String) (i : Nat) :
    List Value → Reading (List Parameter)
  | [] => pure []
  | raw :: rest => do
    let parameter ← readParameter lib ⟨raw, doc, pointer ++ "/parameters/" ++ toString i⟩
    let parameters ← readParameterList lib doc pointer (i + 1) rest
    return parameter :: parameters

def readParameters (lib : Library) (raw : Value) (doc pointer : String) :
    Reading (List Parameter) :=
  match raw with
  | .null => pure []
  | .list entries => do
    let parameters ← readParameterList lib doc pointer 0 entries
    return Parameter.merge [] parameters
  | _ => throw (.general "parameters must be a list" (some (pointer ++ "/parameters")))

/-- The raw schema of a parameter, with its place: of its own, or that of its content. -/
def Parameter.schema (p : Parameter) : Value × String :=
  match p.part.raw.get "schema", p.part.raw.get "content" with
  | .null, .map content => mediaSchema content (p.part.pointer ++ "/content")
  | schema, _ => (schema, p.part.pointer ++ "/schema")

/-- A parameter has to be there if it is part of the path, or says so. -/
def Parameter.isRequired (p : Parameter) : Bool :=
  p.location == "path" || isTrue (p.part.raw.get "required")

def readParameterSchemas (lib : Library) : List Parameter → Reading (List (String × Node))
  | [] => pure []
  | p :: rest => do
    let (raw, place) := p.schema
    let node ← read lib p.part.doc (if raw.isNull then .map [] else raw) place
    let nodes ← readParameterSchemas lib rest
    return (p.name, node) :: nodes

/-- The object that the parameters of each location make. -/
def readGroups (lib : Library) (parameters : List Parameter) (pointer : String) :
    List (String × String) → Reading (List (String × Node))
  | [] => pure []
  | (location, kind) :: rest => do
    let here := parameters.filter (·.location == location)
    let properties ← readParameterSchemas lib here
    let groups ← readGroups lib parameters pointer rest
    if properties.isEmpty then return groups
    let required := (here.filter Parameter.isRequired).map (·.name)
    return (kind, .object ⟨pointer ++ "/parameters", false⟩ properties required .unstated {})
      :: groups

/-! ### Operations -/

/-- The schema of the body of a request, if there is one. -/
def readBody (lib : Library) (operation : Value) (doc pointer : String) :
    Reading (List (String × Node)) :=
  match operation.get? "requestBody" with
  | none => pure []
  | some raw => do
    let body ← Part.deref lib ⟨raw, doc, pointer ++ "/requestBody"⟩
    match body.raw.get "content" with
    | .map content =>
      match mediaSchema content (body.pointer ++ "/content") with
      | (.null, _) => return []
      | (schema, place) =>
        let node ← read lib body.doc schema place
        return [("body", node)]
    | _ => return []

/-- The schema of one response. A response without content is null. -/
def readResponse (lib : Library) (entry : Part) : Reading Node := do
  let response ← entry.deref lib
  match response.raw.get "content" with
  | .map content =>
    match mediaSchema content (response.pointer ++ "/content") with
    | (.null, _) => return .null ⟨response.pointer, false⟩
    | (schema, place) => read lib response.doc schema place
  | _ => return .null ⟨response.pointer, false⟩

def readResponses (lib : Library) (doc pointer : String) :
    List (Scalar × Value) → Reading (List (String × Node))
  | [] => pure []
  | (key, raw) :: rest => do
    let status := key.display
    let node ← readResponse lib ⟨raw, doc, pointer ++ "/responses/" ++ Pointer.escape status⟩
    let nodes ← readResponses lib doc pointer rest
    return (status, node) :: nodes

/-- The mapping under a key, where a value that is empty counts as an empty mapping. -/
def mappingAt (key : String) (raw : Value) (fault : Fault) :
    Except Fault (List (Scalar × Value)) :=
  match raw.get key with
  | .map entries => .ok entries
  | v => if v.isEmpty then .ok [] else .error fault

/-- The routes read so far, and for each template and method the path it was first met at. -/
structure Routing where
  seen : List ((String × String) × String) := []
  routes : List (Route Node) := []

/-- Read the operation under one method of a path item, if there is one. -/
def readOperation (lib : Library) (path : String) (item : Part) (shared : List Parameter)
    (acc : Routing) (method : String × String) : Reading Routing := do
  let operation := item.raw.get method.1
  if !operation.isMap then return acc
  let key := (Route.template path, method.2)
  match acc.seen.lookup key with
  | some other => throw (.schema (.duplicateRoute method.2 path other))
  | none => pure ()
  let pointer := item.pointer ++ "/" ++ method.1
  let own ← readParameters lib (operation.get "parameters") item.doc pointer
  let groups ← readGroups lib (Parameter.merge shared own) pointer Route.locations
  let body ← readBody lib operation item.doc pointer
  let statuses ← Traced.ofExcept (mappingAt "responses" operation
    (.general "responses must be a mapping" (some (pointer ++ "/responses"))))
  let responses ← readResponses lib item.doc pointer statuses
  return ⟨acc.seen ++ [(key, path)],
    acc.routes ++ [⟨path, method.2, pointer, groups ++ body, responses⟩]⟩

def readPath (lib : Library) (acc : Routing) (entry : Scalar × Value) : Reading Routing := do
  let path := entry.1.display
  let item ← Part.deref lib ⟨entry.2, lib.base, "#/paths/" ++ Pointer.escape path⟩
  if !item.raw.isMap then return acc
  let shared ← readParameters lib (item.raw.get "parameters") item.doc item.pointer
  Route.methods.foldlM (readOperation lib path item shared) acc

def readRoutes (lib : Library) : Reading (List (Route Node)) := do
  let paths ← Traced.ofExcept (mappingAt "paths" lib.root
    (.general "paths must be a mapping" (some "#/paths")))
  let routing ← paths.foldlM (readPath lib) {}
  return routing.routes

end Schema

end ApiSchema
