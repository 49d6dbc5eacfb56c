import ApiSchema.Fault

/-!
# Symbols of generated modules

The names that a generated module may import, and the modules they come from.
-/

namespace ApiSchema.Module

/-- Where symbols come from, in the order of import lines. -/
inductive Origin where
  | typing
  | models
  | extensions
  | checks
deriving DecidableEq

inductive Symbol where
  | annotated
  | any
  | literal
  | optional
  | union
  | afterValidator
  | baseModel
  | beforeValidator
  | configDict
  | field
  | strict
  | strictBool
  | strictFloat
  | strictInt
  | strictStr
  | stringConstraints
  | modelValidator
  | typeAliasType
  | allOf
  | checkFormat
  | checkMultipleOf
  | checkPattern
  | exactValues
  | propertyCount
  | uniqueItems
deriving DecidableEq

namespace Origin

def all : List Origin :=
  [typing, models, extensions, checks]

def path : Origin → String
  | typing => "typing"
  | models => "pydantic"
  | extensions => "typing_extensions"
  | checks => "openapi_codegen.validator_codegen.runtime"

end Origin

namespace Symbol

def all : List Symbol :=
  [annotated, any, literal, optional, union, afterValidator, baseModel, beforeValidator, configDict,
    field, strict, strictBool, strictFloat, strictInt, strictStr, stringConstraints,
    modelValidator, typeAliasType, allOf, checkFormat, checkMultipleOf, checkPattern, exactValues,
    propertyCount, uniqueItems]

def name : Symbol → String
  | annotated => "Annotated"
  | any => "Any"
  | literal => "Literal"
  | optional => "Optional"
  | union => "Union"
  | afterValidator => "AfterValidator"
  | baseModel => "BaseModel"
  | beforeValidator => "BeforeValidator"
  | configDict => "ConfigDict"
  | field => "Field"
  | strict => "Strict"
  | strictBool => "StrictBool"
  | strictFloat => "StrictFloat"
  | strictInt => "StrictInt"
  | strictStr => "StrictStr"
  | stringConstraints => "StringConstraints"
  | modelValidator => "model_validator"
  | typeAliasType => "TypeAliasType"
  | allOf => "all_of"
  | checkFormat => "check_format"
  | checkMultipleOf => "check_multiple_of"
  | checkPattern => "check_pattern"
  | exactValues => "exact_values"
  | propertyCount => "property_count"
  | uniqueItems => "unique_items"

def origin : Symbol → Origin
  | annotated => .typing
  | any => .typing
  | literal => .typing
  | optional => .typing
  | union => .typing
  | typeAliasType => .extensions
  | allOf => .checks
  | checkFormat => .checks
  | checkMultipleOf => .checks
  | checkPattern => .checks
  | exactValues => .checks
  | propertyCount => .checks
  | uniqueItems => .checks
  | _ => .models

def ofName (name : String) : Except Fault Symbol :=
  match all.find? (·.name == name) with
  | some s => .ok s
  | none => .error (.notImportable name)

def names : List String :=
  all.map name

end Symbol

/-- The import line for the symbols of one origin, if any of them are used. -/
def importLine (used : List Symbol) (origin : Origin) : Option String :=
  match (used.filter (·.origin == origin)).map Symbol.name with
  | [] => none
  | names =>
    some ("from " ++ origin.path ++ " import " ++
      Text.join ", " (Text.sorted (Text.distinct names)))

def importLines (used : List Symbol) : List String :=
  Origin.all.filterMap (importLine used)

end ApiSchema.Module
