import ApiSchema.Store.FileTree
import ApiSchema.Value.Json
import ApiSchema.Yaml.Read
import ApiSchema.Uri.Basic

/-!
# Documents and their cache

A document is a mapping, read from a file or fetched from the web, in JSON or in YAML. A cache keeps
the documents read from files together with the stamps of the files, and hands them out again as
long as the stamp is the same; when there is no room it gives up the oldest one. Fetched documents
are kept for good.
-/

namespace ApiSchema

/-! ### Documents -/

namespace Document

/-- Whether a name ends as the names of YAML files do. -/
def isYamlName (name : String) : Bool :=
  let lower := String.ofList (name.toList.map Char.toLower)
  Text.hasSuffix ".yml" lower || Text.hasSuffix ".yaml" lower

/-- The document that a text holds. What is not read as JSON is read as YAML; `yaml` leaves out the
first attempt. -/
def ofText (text source : String) (yaml : Bool) : Except Fault Value :=
  match (if yaml then none else Json.read? text) <|> Yaml.read? text with
  | none => .error (.general "Invalid YAML" (some source))
  | some value =>
    if value.isMap then .ok value
    else .error (.general "Document root must be a mapping" (some source))

/-- The fault of a document that cannot be read from a file. -/
def unreadable (asked : String) (path : String) (fault : FileFault) : Fault :=
  .general ("Failed to read document: " ++ fault.message asked) (some path)

/-- The document in a file. -/
def ofFile (files : FileTree) (path : Path) : Except Fault Value := do
  if !path.isWellFormed then throw .malformedPath
  match files.read path with
  | .ok text => ofText text path.text (isYamlName path.suffix)
  | .error fault => throw (unreadable path.text path.text fault)

end Document

/-! ### The web -/

structure Response where
  status : Nat := 200
  reason : String := "OK"
  text : String := ""

/-- What is found under the addresses of the web. -/
abbrev Web := List (String × Response)

namespace Response

/-- Why an answer is no document. -/
def problem? (r : Response) (url : String) : Option String :=
  let say (kind : String) : String :=
    toString r.status ++ " " ++ kind ++ " Error: " ++ r.reason ++ " for url: " ++ url
  if 400 ≤ r.status ∧ r.status < 500 then some (say "Client")
  else if 500 ≤ r.status ∧ r.status < 600 then some (say "Server")
  else none

end Response

namespace Document

def unfetchable (url problem : String) : Fault :=
  .general ("Failed to fetch document: " ++ problem) (some url)

/-- The document under an address. -/
def ofUrl (web : Web) (url : String) : Except Fault Value :=
  match web.lookup url with
  | none => .error (unfetchable url "refused")
  | some r =>
    match r.problem? url with
    | some problem => .error (unfetchable url problem)
    | none =>
      match Uri.split url "" with
      | .ok u => ofText r.text url (isYamlName u.path)
      | .error problem => .error (.malformedUri problem)

end Document

/-! ### The cache -/

/-- A document with the stamp of its file. -/
structure CachedFile where
  data : Value
  stamp : Option Stamp

/-- Documents from files by their absolute paths, the oldest first, and fetched ones by address. -/
structure Cache where
  /-- How many documents from files are kept. -/
  room : Nat := 100
  files : List (List String × CachedFile) := []
  remote : List (String × Value) := []

/-- A step that uses a cache; the cache is there after a fault, too. -/
abbrev Caching := ExceptT Fault (StateM Cache)

namespace Cache

def size (c : Cache) : Nat :=
  c.files.length + c.remote.length

/-- Put a document under its path: in the place of the old one, or at the end. -/
def put (place : List String) (file : CachedFile) :
    List (List String × CachedFile) → List (List String × CachedFile)
  | [] => [(place, file)]
  | (p, f) :: rest => if p = place then (p, file) :: rest else (p, f) :: put place file rest

/-- Keep a document. When there is no room, the oldest one is given up first. -/
def insert (place : List String) (file : CachedFile) (c : Cache) : Except Fault Cache :=
  if c.files.length < c.room then .ok { c with files := put place file c.files }
  else match c.files with
    | [] => .error .noRoom
    | _ :: rest => .ok { c with files := put place file rest }

def forget (place : List String) (c : Cache) : Cache :=
  { c with files := c.files.filter fun e => e.1 != place }

def clear (c : Cache) : Cache :=
  { c with files := [], remote := [] }

def document (files : FileTree) (path : Path) : Caching Value := do
  if !path.isWellFormed then throw .malformedPath
  let place := path.resolve files.current
  let absolute := Path.absolute place
  match files.stamp absolute with
  | .error fault => throw (Document.unreadable absolute.text path.text fault)
  | .ok stamp =>
    match (← get).files.lookup place with
    | some file => if file.stamp = stamp then return file.data
    | none => pure ()
    match Document.ofFile files absolute with
    | .error fault => throw fault
    | .ok data =>
      match (← get).insert place ⟨data, stamp⟩ with
      | .error fault => throw fault
      | .ok c =>
        set c
        return data

def remoteDocument (web : Web) (url : String) : Caching Value := do
  match (← get).remote.lookup url with
  | some data => return data
  | none =>
    match Document.ofUrl web url with
    | .error fault => throw fault
    | .ok data =>
      modify fun c => { c with remote := c.remote ++ [(url, data)] }
      return data

end Cache

end ApiSchema
