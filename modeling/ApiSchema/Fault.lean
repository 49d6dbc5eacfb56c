import ApiSchema.Text.Quoted

/-!
# What can go wrong

Each way to fail is a cause; the wording of all of them stands here.
-/

namespace ApiSchema

/-- A fault of a document or of the formats registered for it. -/
inductive SchemaFault where
  /-- A fault with a wording of its own. -/
  | general (reason : String) (path : Option String)
  /-- A reference that leads nowhere. -/
  | unresolved (ref : String) (referrer : Option String)
  /-- A keyword, or a use of it, for which there is no validator. -/
  | unsupported (keyword : String) (path : Option String) (detail : Option String)
  /-- Declarations that need each other before any of them can be made. -/
  | unbreakable (names : List String) (path : Option String)
  /-- Two routes that differ only in the names of path parameters. -/
  | duplicateRoute (method path other : String)
  /-- A format that has another validator already. -/
  | formatTaken (format existing new : String)
deriving DecidableEq

namespace SchemaFault

/-- Where in the document the fault lies. -/
def path : SchemaFault → Option String
  | general _ path => path
  | unresolved _ referrer => referrer
  | unsupported _ path _ => path
  | unbreakable _ path => path
  | duplicateRoute _ path _ => some ("#/paths/" ++ path)
  | formatTaken _ _ _ => none

/-- What the fault is, without its place. -/
def reason : SchemaFault → String
  | general reason _ => reason
  | unresolved ref _ => "Unresolved reference '" ++ ref ++ "'"
  | unsupported keyword _ detail =>
    "Unsupported schema keyword '" ++ keyword ++ "'" ++
      match detail with
      | some text => if text.isEmpty then "" else ": " ++ text
      | none => ""
  | unbreakable names _ => "Reference cycle cannot be broken: " ++ Text.join " -> " names
  | duplicateRoute method path other =>
    "Duplicate route " ++ method ++ " " ++ path ++ " (conflicts with " ++ other ++ ")"
  | formatTaken format existing new =>
    "Format '" ++ format ++ "' is already registered to '" ++ existing ++ "', cannot register '" ++
      new ++ "'"

/-- The message of a fault: its place in brackets, if it has one, and the reason. -/
def message (f : SchemaFault) : String :=
  match f.path with
  | some path => if path.isEmpty then f.reason else "[" ++ path ++ "] " ++ f.reason
  | none => f.reason

end SchemaFault

/-- What can be wrong with a path. -/
inductive FileFault where
  | missing
  /-- A file already is there. -/
  | exists
  /-- A file stands on the way. -/
  | notDirectory
  | isDirectory
deriving DecidableEq

/-- The message of a fault of a path, with its number. -/
def FileFault.message (path : String) (f : FileFault) : String :=
  let problem := match f with
    | .missing => "[Errno 2] No such file or directory"
    | .exists => "[Errno 17] File exists"
    | .notDirectory => "[Errno 20] Not a directory"
    | .isDirectory => "[Errno 21] Is a directory"
  problem ++ ": " ++ Text.quote path

/-- Everything that can end a run early. -/
inductive Fault where
  | schema (fault : SchemaFault)
  | invalidPrefix (text : String)
  | alreadyDeclared (name : String)
  /-- A fingerprint that has another name already. -/
  | fingerprintTaken (existing name : String)
  /-- A name that has another fingerprint already. -/
  | nameTaken (name : String)
  /-- A validator that has to be declared on its own before it can be written in an expression. -/
  | unpromoted (kind : String)
  /-- A route that refers to a name without a declaration. -/
  | unknownDeclaration (method path name : String)
  | notImportable (name : String)
  | unknownName (name : String)
  /-- A list or a mapping where a key is needed. -/
  | unhashable
  /-- Two values without an order. -/
  | incomparable
  /-- A value of a kind that an operation does not take. -/
  | wrongKind
  /-- A number without a representation of the kind asked for. -/
  | overflow
  | divisionByZero
  /-- Digits that do not make a number. -/
  | noNumber (text : String)
  /-- A malformed reference to a document. -/
  | malformedUri (problem : String)
  /-- Nothing to evict: a cache without room for any entry. -/
  | noRoom
  /-- Schemas that contain themselves without end once they are merged. -/
  | endless
  /-- A value that a check refuses. -/
  | refused (reason : String)
  | malformedPattern (problem : String)
  | clashingFlags
  /-- A path that holds a null character. -/
  | malformedPath
  /-- A path that cannot be written or read. -/
  | file (fault : FileFault) (path : String)
deriving DecidableEq

namespace Fault

def general (reason : String) (path : Option String) : Fault :=
  .schema (.general reason path)

def unresolved (ref referrer : String) : Fault :=
  .schema (.unresolved ref (some referrer))

def unsupported (keyword pointer : String) : Fault :=
  .schema (.unsupported keyword (some pointer) none)

def unsupportedFor (keyword pointer detail : String) : Fault :=
  .schema (.unsupported keyword (some pointer) (some detail))

def message : Fault → String
  | schema fault => fault.message
  | invalidPrefix text => "name_prefix must be a valid identifier, got " ++ Text.quote text
  | alreadyDeclared name => "Declaration '" ++ name ++ "' already exists"
  | fingerprintTaken existing name =>
    "Fingerprint already bound to '" ++ existing ++ "', cannot bind '" ++ name ++ "'"
  | nameTaken name => "Name '" ++ name ++ "' is already bound to a different schema"
  | unpromoted kind => kind ++ " must be promoted to a declaration before rendering"
  | unknownDeclaration method path name =>
    "Route " ++ method ++ " " ++ path ++ " references unknown declaration '" ++ name ++ "'"
  | notImportable name => "'" ++ name ++ "' is not an importable symbol"
  | unknownName name => name
  | unhashable => "value cannot be a key"
  | incomparable => "values cannot be ordered"
  | wrongKind => "value is of the wrong kind"
  | overflow => "number out of range"
  | divisionByZero => "division by zero"
  | noNumber text => "invalid literal for int() with base 10: " ++ Text.quote text
  | malformedUri problem => problem
  | noRoom => "no room for an entry"
  | endless => "schema contains itself without end"
  | refused reason => reason
  | malformedPattern problem => problem
  | clashingFlags => "ASCII and UNICODE flags are incompatible"
  | malformedPath => "embedded null byte"
  | file fault path => fault.message path

end Fault

end ApiSchema
