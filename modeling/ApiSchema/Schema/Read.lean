import ApiSchema.Schema.Node
import ApiSchema.Schema.Reference

/-!
# Reading schemas

A raw schema becomes a `Node`. Reading goes by layers: one layer turns the keywords of one mapping
into a node, given how to read the schemas inside it. References are not followed here; each is
noted as a demand where it stands.
-/

namespace ApiSchema.Schema

/-! ### Keywords -/

/-- Keywords that no validator stands for. -/
def unsupportedKeywords : List String :=
  ["not", "if", "then", "else", "patternProperties", "prefixItems", "contains", "propertyNames",
    "dependentSchemas", "dependentRequired", "dependencies", "unevaluatedProperties",
    "unevaluatedItems"]

def objectKeywords : List String :=
  ["properties", "additionalProperties", "required", "minProperties", "maxProperties"]

def arrayKeywords : List String :=
  ["items", "minItems", "maxItems", "uniqueItems"]

def stringKeywords : List String :=
  ["minLength", "maxLength", "pattern", "format"]

def numberKeywords : List String :=
  ["minimum", "maximum", "exclusiveMinimum", "exclusiveMaximum", "multipleOf"]

/-- Keywords that constrain values of one type only. -/
def typedKeywords : List String :=
  objectKeywords ++ arrayKeywords ++ stringKeywords ++ numberKeywords

def typeNames : List String :=
  ["string", "number", "integer", "boolean", "null", "array", "object"]

/-- The types of JSON values, each with the keywords that constrain values of it. -/
def jsonTypes : List (String × List String) :=
  [("string", stringKeywords), ("number", numberKeywords), ("boolean", []), ("null", []),
    ("array", arrayKeywords), ("object", objectKeywords)]

def hasAny (keywords : List String) (raw : Value) : Bool :=
  keywords.any raw.has

def isTrue : Value → Bool
  | .bool b => b
  | _ => false

/-- The value of a keyword, where null counts as absent. -/
def given (key : String) (raw : Value) : Option Value :=
  match raw.get? key with
  | some .null => none
  | other => other

/-! ### Constraints -/

def readStringRules (raw : Value) : StringRules where
  minLength := given "minLength" raw
  maxLength := given "maxLength" raw
  pattern := given "pattern" raw
  format := given "format" raw

def readArrayRules (raw : Value) : ArrayRules where
  minItems := given "minItems" raw
  maxItems := given "maxItems" raw
  uniqueItems := given "uniqueItems" raw

def readCountRules (raw : Value) : CountRules where
  minProperties := given "minProperties" raw
  maxProperties := given "maxProperties" raw

def readBound (raw : Value) (pointer key : String) : Except Fault (Option Number) :=
  match given key raw with
  | none => .ok none
  | some v =>
    match v.number? with
    | some n => .ok (some n)
    | none => .error (.unsupportedFor key pointer ("expected a number, found " ++ v.literal))

/-- An exclusive bound beside the inclusive one: either a number of its own, or a flag that makes
the inclusive bound exclusive. The result is the inclusive and the exclusive bound. -/
def readExclusive (raw : Value) (pointer key : String) (inclusive : Option Number) :
    Except Fault (Option Number × Option Number) :=
  match given key raw with
  | none => .ok (inclusive, none)
  | some (.bool b) => .ok (if b then (none, inclusive) else (inclusive, none))
  | some v =>
    match v.number? with
    | some n => .ok (inclusive, some n)
    | none =>
      .error (.unsupportedFor key pointer ("expected a number or boolean, found " ++ v.literal))

def readNumberRules (raw : Value) (pointer : String) : Except Fault NumberRules := do
  let minimum ← readBound raw pointer "minimum"
  let maximum ← readBound raw pointer "maximum"
  let multipleOf ← readBound raw pointer "multipleOf"
  let (minimum, exclusiveMinimum) ← readExclusive raw pointer "exclusiveMinimum" minimum
  let (maximum, exclusiveMaximum) ← readExclusive raw pointer "exclusiveMaximum" maximum
  return ⟨minimum, maximum, exclusiveMinimum, exclusiveMaximum, multipleOf⟩

/-! ### Listed values -/

/-- Whether a scalar is of a type. An integer that no `Double` comes near has no answer. -/
def hasType (s : Scalar) (type : String) : Except Fault Bool :=
  match s with
  | .null => .ok (type == "null")
  | .bool _ => .ok (type == "boolean")
  | .str _ => .ok (type == "string")
  | .int i =>
    if type = "integer" then
      match Double.ofInt? i with
      | some _ => .ok true
      | none => .error .overflow
    else .ok (type == "number")
  | .float x => .ok (if type = "integer" then x.isInteger else type == "number")

/-- Whether a scalar is of one of the types, tried in order. -/
def hasSomeType (s : Scalar) : List String → Except Fault Bool
  | [] => .ok false
  | type :: rest =>
    match hasType s type with
    | .ok true => .ok true
    | .ok false => hasSomeType s rest
    | .error fault => .error fault

/-- The scalars of one of the types. -/
def ofSomeType (types : List String) : List Scalar → Except Fault (List Scalar)
  | [] => .ok []
  | s :: rest => do
    let keep ← hasSomeType s types
    let kept ← ofSomeType types rest
    return if keep then s :: kept else kept

/-- Equal values of one kind: `1`, `1.0` and `true` are three. -/
def twins (a b : Scalar) : Bool :=
  (match a, b with
    | .null, .null => true
    | .bool _, .bool _ => true
    | .int _, .int _ => true
    | .float _, .float _ => true
    | .str _, .str _ => true
    | _, _ => false) && a.same b

/-- Keep the first of twins. -/
def dropTwins (values : List Scalar) : List Scalar :=
  values.foldl (fun kept s => if kept.any (twins s) then kept else kept ++ [s]) []

/-- The scalars among listed values; anything else is refused. -/
def readScalars (pointer : String) : List Value → Except Fault (List Scalar)
  | [] => .ok []
  | .scalar s :: rest => do
    let scalars ← readScalars pointer rest
    return s :: scalars
  | v :: _ => .error (.unsupportedFor "enum" pointer ("non-scalar value " ++ v.literal))

/-- A declared type as a name, if it is one. -/
def readTypeName (pointer : String) (v : Value) : Except Fault String :=
  match v with
  | .str name =>
    if typeNames.contains name then .ok name
    else .error (.unsupportedFor "type" pointer ("unknown type " ++ v.literal))
  | _ => .error (.unsupportedFor "type" pointer ("unknown type " ++ v.literal))

/-- The declared types that listed values are checked against. -/
def readDeclared (pointer : String) : List Value → Except Fault (List String)
  | [] => .ok []
  | v :: rest => do
    if !v.isHashable then throw .unhashable
    let name ← readTypeName pointer v
    let names ← readDeclared pointer rest
    return name :: names

/-- The values of `const` or of `enum`, narrowed to the declared types. -/
def readListed (raw : Value) (pointer : String) : Except Fault Node := do
  let single := raw.get? "const"
  let keyword := if single.isSome then "const" else "enum"
  let listed ← match single with
    | some v => pure [v]
    | none =>
      match raw.get "enum" with
      | .list (v :: vs) => pure (v :: vs)
      | _ => throw (.unsupportedFor "enum" pointer "expected a non-empty list")
  let scalars ← readScalars pointer listed
  let scalars ← match raw.get "type" with
    | .null => pure scalars
    | declared => do
      let names ← readDeclared pointer (match declared with
        | .list vs => vs
        | v => [v])
      let kept ← ofSomeType names scalars
      if kept.isEmpty then
        throw (.unsupportedFor keyword pointer "no value matches the declared type")
      pure kept
  let values := dropTwins scalars
  return if single.isSome then .literal ⟨pointer, false⟩ values else .enum ⟨pointer, false⟩ values

/-! ### One layer -/

section Layer

-- `inner` reads a schema inside the present one, given its place.
variable (inner : Value → String → Reading Node)

def readBranches (place : String) (i : Nat) : List Value → Reading (List Node)
  | [] => pure []
  | member :: rest => do
    let node ← inner member (place ++ "/" ++ toString i)
    let nodes ← readBranches place (i + 1) rest
    return node :: nodes

def readProperties (place : String) : List (Scalar × Value) → Reading (List (String × Node))
  | [] => pure []
  | (key, schema) :: rest => do
    let name := key.display
    let node ← inner schema (place ++ "/" ++ Pointer.escape name)
    let nodes ← readProperties place rest
    return (name, node) :: nodes

/-- Add required names that have no property of their own: they may hold anything. -/
def addRequired (pointer : String) (properties : List (String × Node)) (required : List String) :
    List (String × Node) :=
  required.foldl (fun ps name =>
    if ps.any (·.1 == name) then ps
    else ps ++ [(name, .any ⟨pointer ++ "/required", false⟩)]) properties

/-- What `additionalProperties` says. -/
def readAdditional (raw : Value) (pointer : String) : Reading (Additional Node) :=
  match raw.get "additionalProperties" with
  | .null => pure .unstated
  | .bool b => pure (if b then .allowed else .forbidden)
  | .map [] => pure .allowed
  | schema => do
    let node ← inner schema (pointer ++ "/additionalProperties")
    return .typed node

def readObject (raw : Value) (pointer : String) : Reading Node := do
  let properties := raw.get "properties"
  let entries ← match properties with
    | .map es => pure es
    | v =>
      if v.isEmpty then pure []
      else throw (.unsupportedFor "properties" pointer "expected a mapping")
  let required ← match raw.get "required" with
    | .list vs => pure vs
    | v =>
      if v.isEmpty then pure []
      else throw (.unsupportedFor "required" pointer "expected a list")
  let names := required.map Value.display
  let declared ← readProperties inner (pointer ++ "/properties") entries
  let additional ← readAdditional inner raw pointer
  return .object ⟨pointer, false⟩ (addRequired pointer declared names) (Text.distinct names)
    additional (readCountRules raw)

def readArray (raw : Value) (pointer : String) : Reading Node := do
  let items ← match raw.get "items" with
    | .null => pure none
    | .list _ => throw (.unsupportedFor "items" pointer "tuple validation is not supported")
    | schema => do
      let node ← inner schema (pointer ++ "/items")
      pure (some node)
  return .array ⟨pointer, false⟩ items (readArrayRules raw)

/-- The schema of a mapping taken as one of a type. -/
def readTyped (raw type : Value) (pointer : String) : Reading Node :=
  match readTypeName pointer type with
  | .error fault => throw fault
  | .ok name =>
    if name = "string" then pure (.string ⟨pointer, false⟩ (readStringRules raw))
    else if name = "number" ∨ name = "integer" then do
      let rules ← Traced.ofExcept (readNumberRules raw pointer)
      return .number ⟨pointer, false⟩ (name == "integer") rules
    else if name = "boolean" then pure (.boolean ⟨pointer, false⟩)
    else if name = "null" then pure (.null ⟨pointer, false⟩)
    else if name = "array" then readArray inner raw pointer
    else readObject inner raw pointer

/-- A type with no constraint. -/
def bareType (pointer type : String) : Node :=
  if type = "string" then .string ⟨pointer, false⟩ {}
  else if type = "number" then .number ⟨pointer, false⟩ false {}
  else if type = "boolean" then .boolean ⟨pointer, false⟩
  else if type = "null" then .null ⟨pointer, false⟩
  else if type = "array" then .array ⟨pointer, false⟩ none {}
  else .object ⟨pointer, false⟩ [] [] .unstated {}

/-- One branch for every JSON type, constrained by the keywords of that type. -/
def readEveryType (raw : Value) (pointer : String) :
    List (String × List String) → Reading (List Node)
  | [] => pure []
  | (type, keywords) :: rest => do
    let node ←
      if hasAny keywords raw then readTyped inner raw (.str type) pointer
      else pure (bareType pointer type)
    let nodes ← readEveryType raw pointer rest
    return node :: nodes

/-- Constraints without a type. Those of strings and numbers leave values of other types alone;
those of arrays and objects on their own imply the type. -/
def readUntyped (raw : Value) (pointer : String) : Reading Node :=
  if hasAny (stringKeywords ++ numberKeywords) raw then do
    let branches ← readEveryType inner raw pointer jsonTypes
    return .anyOf ⟨pointer, false⟩ branches
  else if hasAny arrayKeywords raw then readTyped inner raw (.str "array") pointer
  else readTyped inner raw (.str "object") pointer

/-- One branch for every listed type. -/
def readTypes (raw : Value) (pointer : String) : List Value → Reading (List Node)
  | [] => pure []
  | type :: rest => do
    let node ← readTyped inner raw type pointer
    let nodes ← readTypes raw pointer rest
    return node :: nodes

/-- What type and typed keywords say. -/
def readShape (raw : Value) (types : List Value) (pointer : String) : Reading Node :=
  match types with
  | [] => readUntyped inner raw pointer
  | [type] => readTyped inner raw type pointer
  | types => do
    let branches ← readTypes inner raw pointer types
    return .anyOf ⟨pointer, false⟩ branches

/-- What the keywords other than combinations say. -/
def readBase (raw : Value) (types : List Value) (pointer : String) : Reading Node :=
  if raw.has "enum" || raw.has "const" then do
    let values ← Traced.ofExcept (readListed raw pointer)
    if hasAny typedKeywords raw then
      let shape ← readShape inner raw types pointer
      return .allOf ⟨pointer, false⟩ [values, shape]
    else return values
  else readShape inner raw types pointer

/-- The members of a combination keyword, if it is there. -/
def readCombination (raw : Value) (pointer keyword : String)
    (make : Site → List Node → Node) : Reading (List Node) :=
  match raw.get? keyword with
  | none => pure []
  | some (.list (m :: ms)) => do
    let branches ← readBranches inner (pointer ++ "/" ++ keyword) 0 (m :: ms)
    return [make ⟨pointer ++ "/" ++ keyword, false⟩ branches]
  | some _ => throw (.unsupportedFor keyword pointer "expected a non-empty list")

/-- The first unsupported keyword of a mapping. -/
def findUnsupported (raw : Value) : Option String :=
  unsupportedKeywords.find? raw.has

/-- The types that a mapping declares, without null, and whether null was among them. -/
def declaredTypes (raw : Value) : List Value × Bool :=
  match raw.get "type" with
  | .null => ([], false)
  | .list vs =>
    let isNullName (v : Value) : Bool := v.same (.str "null")
    (vs.filter fun v => !isNullName v, vs.any isNullName)
  | v => ([v], false)

/-- A mapping without a reference. -/
def readMapping (raw : Value) (pointer : String) : Reading Node := do
  match findUnsupported raw with
  | some keyword => throw (.unsupported keyword pointer)
  | none => pure ()
  let (types, listsNull) := declaredTypes raw
  let nullable := isTrue (raw.get "nullable") || listsNull
  let onlyNull := !(raw.get "type").isNull && types.isEmpty
  let hasBase := !types.isEmpty || raw.has "enum" || raw.has "const" || hasAny typedKeywords raw
  let base ←
    if !onlyNull && hasBase then do
      let node ← readBase inner raw types pointer
      pure [node]
    else pure []
  let allOf ← readCombination inner raw pointer "allOf" .allOf
  let anyOf ← readCombination inner raw pointer "anyOf" .anyOf
  let oneOf ← readCombination inner raw pointer "oneOf" .oneOf
  match base ++ allOf ++ anyOf ++ oneOf with
  | [] => return if onlyNull then .null ⟨pointer, false⟩ else .any ⟨pointer, false⟩
  | [node] => return if nullable then node.orNull else node
  | nodes =>
    let node := Node.allOf ⟨pointer, false⟩ nodes
    return if nullable then node.orNull else node

end Layer

/-! ### All layers -/

/-- A reference, noted as a demand. -/
def readReference (lib : Library) (doc : String) (raw ref : Value) (pointer : String) :
    Reading Node :=
  match ref with
  | .str text => do
    let place ← Traced.ofExcept (lib.locate text doc pointer)
    Traced.note (.schema ⟨place.target, place.uri, text, pointer⟩)
    return .reference ⟨pointer, isTrue (raw.get "nullable")⟩ place.target
  | _ => throw (.unsupportedFor "$ref" pointer "reference must be a string")

/-- Read one raw schema of the document `doc`, given how to read the schemas inside it. -/
def readLayer (lib : Library) (doc : String) (inner : Value → String → Reading Node)
    (raw : Value) (pointer : String) : Reading Node :=
  match raw with
  | .bool true => pure (.any ⟨pointer, false⟩)
  | .map [] => pure (.any ⟨pointer, false⟩)
  | .map _ =>
    match raw.get? "$ref" with
    | some ref => readReference lib doc raw ref pointer
    | none => readMapping inner raw pointer
  | v => throw (.unsupportedFor "schema" pointer ("expected a mapping, found " ++ v.kindName))

/-- Read a raw schema through at most `n` layers. -/
def readWithin (lib : Library) (doc : String) : Nat → Value → String → Reading Node
  | 0, _, _ => throw .endless
  | n + 1, raw, pointer => readLayer lib doc (readWithin lib doc n) raw pointer

/-- Read a raw schema; its depth bounds the layers. -/
def read (lib : Library) (doc : String) (raw : Value) (pointer : String) : Reading Node :=
  readWithin lib doc (raw.depth + 1) raw pointer

end ApiSchema.Schema
