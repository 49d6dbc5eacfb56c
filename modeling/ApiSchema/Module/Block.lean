import ApiSchema.Declaration.Basic
import ApiSchema.Module.Expr
import ApiSchema.Name.Identifier

/-!
# Blocks of generated modules

Every declaration is written as one block: an object as a model with fields, anything else as an
alias. An alias on a cycle holds its expression as text, and models on a cycle are completed after
the last of them.
-/

namespace ApiSchema.Module

/-- A field of a model: the name it has there, the key it is read from, and its type. -/
structure ModelField where
  name : String
  key : String
  type : Expr
  required : Bool

inductive Block where
  | model (name : String) (forbidExtra : Bool) (extra : Option Expr) (fields : List ModelField)
      (count : Extent)
  | assignment (name : String) (expr : Expr)
  | deferred (name : String) (expr : Expr)
  /-- Complete the models of a cycle. -/
  | complete (names : List String)

/-! ### Field names -/

/-- The name that a check on the number of properties has in a model. -/
def countCheckName : String := "validate_property_count"

/-- The names that fields must not hide: those of the module, of symbols and of builtins. -/
def outerNames (moduleNames : List String) : List String :=
  moduleNames ++ Symbol.names ++ Builtin.all.map Builtin.name

/-- The name of a field before it is told apart from other fields. -/
def fieldBase (outer : List String) (key : String) : String :=
  let name := Name.field key
  if outer.contains name || Name.modelAttributes.contains name || name == countCheckName then
    name ++ "_"
  else name

/-- The name of a field beside those in use: numbered from 2 on if need be. One of the first
`used.length + 1` numbers makes it free. -/
def fieldName (outer used : List String) (key : String) : String :=
  let base := fieldBase outer key
  if used.contains base then
    let numbered (i : Nat) : String := base ++ "_" ++ toString (i + 2)
    numbered (((List.range (used.length + 1)).find? fun i => !used.contains (numbered i)).getD 0)
  else base

/-- The fields of a model in order, beside the names in use. -/
def modelFields (outer : List String) (used : List String) :
    List (FieldOf Validator) → Except Fault (List ModelField)
  | [] => .ok []
  | ⟨key, v, required⟩ :: rest => do
    let name := fieldName outer used key
    let type ← Expr.ofValidator v
    let fields ← modelFields outer (used ++ [name]) rest
    return ⟨name, key, type, required⟩ :: fields

namespace Block

/-- The block of a declaration, in a module with these names. -/
def ofDeclaration (moduleNames : List String) (d : Declaration) : Except Fault Block :=
  match d.validator with
  | .object fields forbidExtra extra count => do
    let extra ← match extra with
      | some v => some <$> Expr.ofValidator v
      | none => pure none
    let fields ← modelFields (outerNames moduleNames) [] fields
    return .model d.name forbidExtra extra fields count
  | v => do
    let expr ← Expr.ofValidator v
    return if d.cyclic then .deferred d.name expr else .assignment d.name expr

/-! ### Text -/

def fieldLine (f : ModelField) : String :=
  let renamed : List (String × Value) := if f.name = f.key then [] else [("alias", .str f.key)]
  let head := "    " ++ f.name ++ ": " ++ f.type.text
  match f.required, renamed with
  | true, [] => head
  | false, [] => head ++ " = None"
  | required, renamed =>
    let default : List (String × Value) := if required then [] else [("default", .null)]
    head ++ " = " ++ (Expr.call (.symbol .field) [] (default ++ renamed)).text

def countCheck (count : Extent) : Expr :=
  .call (.call (.symbol .modelValidator) [] [("mode", .str "before")])
    [.call (.symbol .propertyCount)
      [.literal (count.min.getD .null), .literal (count.max.getD .null)] []] []

/-- The lines of a model. An empty line sets off its parts, and none stands at the end. -/
def modelLines (name : String) (forbidExtra : Bool) (extra : Option Expr)
    (fields : List ModelField) (count : Extent) : List String :=
  let config : Expr :=
    .call (.symbol .configDict) [] [("extra", .str (if forbidExtra then "forbid" else "allow"))]
  let head :=
    ["class " ++ name ++ "(" ++ Symbol.baseModel.name ++ "):", "    model_config = " ++ config.text]
  let extraLine :=
    match extra with
    | some expr =>
      let type : Expr := .index (.builtin .dict) [.builtin .str, expr]
      let value : Expr := .call (.symbol .field) [] [("init", .bool false)]
      ["    __pydantic_extra__: " ++ type.text ++ " = " ++ value.text]
    | none => []
  let body := extraLine ++ fields.map fieldLine
  let check :=
    if count.isEmpty then [] else ["", "    " ++ countCheckName ++ " = " ++ (countCheck count).text]
  if body.isEmpty && check.isEmpty then head else head ++ [""] ++ body ++ check

def text : Block → String
  | model name forbidExtra extra fields count =>
    Text.join "\n" (modelLines name forbidExtra extra fields count)
  | assignment name expr => name ++ " = " ++ expr.text
  | deferred name expr =>
    let type : Expr := .call (.symbol .typeAliasType) [.literal (.str name), .literal (.str expr.text)] []
    name ++ " = " ++ type.text
  | complete names => Text.join "\n" (names.map (· ++ ".model_rebuild()"))

def symbols : Block → List Symbol
  | model _ _ extra fields count =>
    [.baseModel, .configDict] ++
      (match extra with
        | some expr => .field :: expr.symbols
        | none => []) ++
      fields.flatMap (fun f => f.type.symbols ++ if f.name = f.key then [] else [.field]) ++
      if count.isEmpty then [] else (countCheck count).symbols
  | assignment _ expr => expr.symbols
  | deferred _ expr => .typeAliasType :: expr.symbols
  | complete _ => []

end Block

end ApiSchema.Module
