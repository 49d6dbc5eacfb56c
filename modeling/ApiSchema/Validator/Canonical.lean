import ApiSchema.Digest.Sha256
import ApiSchema.Validator.Basic
import ApiSchema.Value.Json

/-!
# Canonical form and fingerprint

Every validator has a canonical value that holds all of it: its kind under `@`, and its parts by
name. A number is marked with its kind, so that `1`, `1.0` and `true` stay apart. The fingerprint is
the digest of the canonical value as JSON text with sorted keys.
-/

namespace ApiSchema

namespace Validator

/-- A value marked with its kind. -/
def marked (kind : String) (v : Value) : Value :=
  .object [("#", .str kind), ("v", v)]

mutual

/-- The canonical form of a constraint. Fixed sequences are lists of their parts; whatever is
neither text, truth value nor null is marked with its kind. -/
def canonicalValue : Value → Value
  | .tuple xs => .list (canonicalValues xs)
  | .scalar (.int i) => marked "int" (.int i)
  | .scalar (.float x) => marked "float" (.float x)
  | .scalar s => .scalar s
  | .list xs => marked "list" (.list xs)
  | .map es => marked "dict" (.map es)

def canonicalValues : List Value → List Value
  | [] => []
  | x :: xs => canonicalValue x :: canonicalValues xs

end

def canonicalRule (r : Option Value) : Value :=
  canonicalValue (r.getD .null)

def canonicalBound (b : Option Number) : Value :=
  canonicalRule (b.map Value.ofNumber)

def canonicalText (s : Option String) : Value :=
  match s with
  | some s => .str s
  | none => .null

/-- A kind with its parts. -/
def tagged (kind : String) (parts : List (String × Value)) : Value :=
  .object (("@", .str kind) :: parts)

mutual

def canonical : Validator → Value
  | any => tagged "AnyValidator" []
  | null => tagged "NoneValidator" []
  | boolean => tagged "BoolValidator" []
  | string length pattern format =>
    tagged "StringValidator"
      [("min_length", canonicalRule length.min), ("max_length", canonicalRule length.max),
        ("pattern", canonicalText pattern), ("format", canonicalText format)]
  | custom name => tagged "CustomValidator" [("name", .str name)]
  | number integer rules =>
    tagged "NumberValidator"
      [("integer", .bool integer), ("minimum", canonicalBound rules.minimum),
        ("maximum", canonicalBound rules.maximum),
        ("exclusive_minimum", canonicalBound rules.exclusiveMinimum),
        ("exclusive_maximum", canonicalBound rules.exclusiveMaximum),
        ("multiple_of", canonicalBound rules.multipleOf)]
  | literal values =>
    tagged "LiteralValidator" [("values", .list (values.map fun s => canonicalValue (.scalar s)))]
  | array items length unique =>
    tagged "ArrayValidator"
      [("items", canonical items), ("min_items", canonicalRule length.min),
        ("max_items", canonicalRule length.max), ("unique", .bool unique)]
  | record values count =>
    tagged "RecordValidator"
      [("values", canonical values), ("min_properties", canonicalRule count.min),
        ("max_properties", canonicalRule count.max)]
  | object fields forbidExtra extra count =>
    tagged "ObjectValidator"
      [("fields", .list (canonicalFields fields)), ("forbid_extra", .bool forbidExtra),
        ("extra", canonicalExtra extra), ("min_properties", canonicalRule count.min),
        ("max_properties", canonicalRule count.max)]
  | union branches => tagged "UnionValidator" [("branches", .list (canonicalAll branches))]
  | intersection branches =>
    tagged "IntersectionValidator" [("branches", .list (canonicalAll branches))]
  | nullable inner => tagged "NullableValidator" [("inner", canonical inner)]
  | ref target => tagged "RefValidator" [("target", .str target)]
  | named name => tagged "NamedRef" [("name", .str name)]

def canonicalAll : List Validator → List Value
  | [] => []
  | v :: vs => canonical v :: canonicalAll vs

def canonicalFields : List (FieldOf Validator) → List Value
  | [] => []
  | ⟨key, v, required⟩ :: fs =>
    tagged "FieldSpec" [("key", .str key), ("validator", canonical v), ("required", .bool required)]
      :: canonicalFields fs

def canonicalExtra : Option Validator → Value
  | none => .null
  | some v => canonical v

end

/-- The text of a canonical value: JSON with sorted keys and no blanks. -/
def canonicalString (v : Value) : List Char :=
  Json.writeValue (Json.sortKeys v)

def fingerprint (v : Validator) : String :=
  Sha256.hexDigest (canonicalString v.canonical)

end Validator

end ApiSchema
