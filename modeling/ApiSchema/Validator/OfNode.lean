import ApiSchema.Format.Registry
import ApiSchema.Pattern.Read
import ApiSchema.Validator.Bounds
import ApiSchema.Validator.Merge

/-!
# Validators of schemas

Every node of a resolved document has a validator. Like reading, this goes by layers, given how to
deal with the nodes inside; a merged object may lead to nodes of other definitions. Formats that are
not known are left out, and noted.
-/

namespace ApiSchema

/-- An unknown string format, with the place of its schema. -/
structure UnknownFormat where
  format : Value
  pointer : String

/-- A step that may note unknown formats. -/
abbrev Making := Traced UnknownFormat Fault

namespace Validator

/-- What the validators of a document depend on. -/
structure Context where
  doc : Resolved
  formats : Format.Registry

/-! ### Strings and numbers -/

/-- The pattern of a string schema, if it can be read. -/
def checkPattern (pointer : String) : Option Value → Except Fault (Option String)
  | none => .ok none
  | some (.str pattern) =>
    match Pattern.read pattern.toList with
    | .ok _ => .ok (some pattern)
    | .error .tooManyRounds => .error .overflow
    | .error .clashingFlags => .error .clashingFlags
    | .error problem =>
      .error (.unsupportedFor "pattern" pointer
        ("invalid regular expression: " ++ problem.message pattern.toList))
  | some v => .error (.unsupportedFor "pattern" pointer ("expected a string, found " ++ v.literal))

/-- What becomes of a format. -/
inductive FormatUse where
  /-- There is none, or none that is known. -/
  | ignored
  /-- A check of its own. -/
  | checked (format : String)
  /-- A validator from outside. -/
  | custom (name : String)

/-- What becomes of the format of a string schema. -/
def useFormat (formats : Format.Registry) (pointer : String) :
    Option Value → Making FormatUse
  | none => pure .ignored
  | some v =>
    if !v.isHashable then throw .unhashable
    else
      match v with
      | .str format =>
        match formats.lookup format with
        | some name => pure (.custom name)
        | none =>
          if Format.supported.contains format then pure (.checked format)
          else do
            Traced.note ⟨v, pointer⟩
            return .ignored
      | v => do
        Traced.note ⟨v, pointer⟩
        return .ignored

def ofString (formats : Format.Registry) (pointer : String) (rules : StringRules) :
    Making Validator := do
  let pattern ← Traced.ofExcept (checkPattern pointer rules.pattern)
  let length : Extent := ⟨rules.minLength, rules.maxLength⟩
  match ← useFormat formats pointer rules.format with
  | .custom name => return .custom name
  | .checked format => return .string length pattern (some format)
  | .ignored => return .string length pattern none

def ofNumber (integer : Bool) (rules : NumberRules) : Except Fault Validator :=
  if integer then rules.ofInteger.map (number true) else .ok (number false rules)

/-! ### Composites -/

section

-- `inner` gives the validator of a node inside the present one.
variable (inner : Node → Making Validator)

def ofBranches : List Node → Making (List Validator)
  | [] => pure []
  | branch :: rest => do
    let v ← inner branch
    let vs ← ofBranches rest
    return v :: vs

def ofProperties (required : List String) :
    List (String × Node) → Making (List (FieldOf Validator))
  | [] => pure []
  | (key, schema) :: rest => do
    let v ← inner schema
    let fields ← ofProperties required rest
    return ⟨key, v, required.contains key⟩ :: fields

/-- The extent that rules on the number of properties say. -/
def countOf (rules : CountRules) : Extent :=
  ⟨rules.minProperties, rules.maxProperties⟩

/-- The validator of an object schema: of one without properties that forbids nothing, a record. -/
def ofObject (properties : List (String × Node)) (required : List String)
    (additional : Additional Node) (rules : CountRules) : Making Validator := do
  match properties, additional with
  | [], .unstated => return .record .any (countOf rules)
  | [], .allowed => return .record .any (countOf rules)
  | [], .typed schema =>
    let values ← inner schema
    return .record values (countOf rules)
  | properties, additional =>
    let fields ← ofProperties inner required properties
    match additional with
    | .typed schema =>
      let extra ← inner schema
      return .object fields false (some extra) (countOf rules)
    | .forbidden => return .object fields true none (countOf rules)
    | _ => return .object fields false none (countOf rules)

/-- The validators of nodes in order, each once. -/
def ofDistinct (known : List Validator) : List Node → Making (List Validator)
  | [] => pure known
  | node :: rest => do
    let v ← inner node
    if !v.isHashable then throw .unhashable
    ofDistinct (if known.any v.same then known else known ++ [v]) rest

/-- The validator of what satisfies all nodes. Beside others, one that accepts anything is left
out. -/
def conjunction (nodes : List Node) : Making Validator := do
  let all ← ofDistinct inner [] nodes
  let proper := all.filter fun v => !v.isAny
  match if all.length ≤ 1 || proper.isEmpty then all else proper with
  | [v] => return v
  | vs => return .intersection vs

/-- The fields of merged objects in order. -/
def ofDeclared (required : List String) :
    List (String × List Node) → Making (List (FieldOf Validator))
  | [] => pure []
  | (key, schemas) :: rest => do
    let v ← conjunction inner schemas
    let fields ← ofDeclared required rest
    return ⟨key, v, required.contains key⟩ :: fields

def ofMerged (merged : Shape.Merged) : Making Validator := do
  let extra ←
    if merged.extras.isEmpty then pure none
    else do
      let v ← conjunction inner merged.extras
      pure (some v)
  if merged.declared.isEmpty && !merged.forbidden then
    return .record (extra.getD .any) merged.count
  let fields ← ofDeclared inner merged.required merged.declared
  return .object fields merged.forbidden (if merged.forbidden then none else extra) merged.count

def ofAll (doc : Resolved) (branches : List Node) : Making Validator := do
  match branches with
  | [branch] => inner branch
  | branches =>
    match ← Traced.ofExcept (Shape.flatten doc branches) with
    | some shapes =>
      let merged ← Traced.ofExcept (Shape.merge shapes)
      ofMerged inner merged
    | none =>
      let vs ← ofBranches inner branches
      return .intersection vs

def ofAny (branches : List Node) : Making Validator := do
  match ← ofBranches inner branches with
  | [v] => return v
  | vs => return .union vs

/-- The validator of a node, null left aside. -/
def ofBare (ctx : Context) : Node → Making Validator
  | .any _ => pure .any
  | .null _ => pure .null
  | .boolean _ => pure .boolean
  | .string site rules => ofString ctx.formats site.pointer rules
  | .number _ integer rules => Traced.ofExcept (ofNumber integer rules)
  | .enum _ values => pure (.literal values)
  | .literal _ values => pure (.literal values)
  | .array _ items rules => do
    let items ← match items with
      | some schema => inner schema
      | none => pure .any
    return .array items ⟨rules.minItems, rules.maxItems⟩
      (match rules.uniqueItems with
        | some v => Schema.isTrue v
        | none => false)
  | .object _ properties required additional rules =>
    ofObject inner properties required additional rules
  | .anyOf _ branches => ofAny inner branches
  | .oneOf _ branches => ofAny inner branches
  | .allOf _ branches => ofAll inner ctx.doc branches
  | .reference site target =>
    if (ctx.doc.definitions.lookup target).isSome then pure (.ref target)
    else throw (.unsupportedFor "$ref" site.pointer "reference has no resolved target")

/-- The validator of a node, given those of the nodes inside. -/
def ofLayer (ctx : Context) (node : Node) : Making Validator := do
  let v ← ofBare inner ctx node
  return if node.nullable && !v.admitsNull then .nullable v else v

end

/-- The validator of a node, through at most `n` layers. -/
def ofNodeWithin (ctx : Context) : Nat → Node → Making Validator
  | 0, _ => throw .endless
  | n + 1, node => ofLayer (ofNodeWithin ctx n) ctx node

def nodeCount (doc : Resolved) : Nat :=
  let routeNodes := doc.routes.flatMap fun r => r.request.map Prod.snd ++ r.responses.map Prod.snd
  (doc.definitions.map Prod.snd ++ routeNodes).foldr (fun node n => node.size + n) 0

/-- The validator of a node. Layers lead from node to node; more of them than there are nodes come
by one node twice, and would never end. -/
def ofNode (ctx : Context) (node : Node) : Making Validator :=
  ofNodeWithin ctx (nodeCount ctx.doc + node.size + 1) node

end Validator

end ApiSchema
