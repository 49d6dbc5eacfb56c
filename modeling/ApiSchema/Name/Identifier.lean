import ApiSchema.Name.Pascal
import ApiSchema.Unicode.Identifier

/-!
# Identifiers of generated source

Names of schemas become identifiers and names of properties become field names.
-/

namespace ApiSchema.Name

/-- The reserved words of generated source. -/
def keywords : List String :=
  ["False", "None", "True", "and", "as", "assert", "async", "await", "break", "class", "continue",
    "def", "del", "elif", "else", "except", "finally", "for", "from", "global", "if", "import",
    "in", "is", "lambda", "nonlocal", "not", "or", "pass", "raise", "return", "try", "while",
    "with", "yield"]

def isKeyword (s : String) : Bool :=
  keywords.contains s

def isIdentifier (s : String) : Bool :=
  Unicode.isIdentifier s.toList

/-- Turn a name into an identifier: one that is an identifier and not reserved stays as it is, any
other is written in Pascal case, with an underscore before a digit. -/
def identifier (s : String) : String :=
  if isIdentifier s && !isKeyword s then s
  else
    let name := pascal s
    if name.isEmpty then "Schema"
    else match name.toList with
      | c :: _ => if c.isDigit then "_" ++ name else name
      | [] => name

/-! ### Fields -/

/-- Attributes of every model that a field must not hide. -/
def modelAttributes : List String :=
  ["construct", "copy", "dict", "fields", "from_orm", "json", "parse_file", "parse_obj",
    "parse_raw", "schema", "schema_json", "update_forward_refs", "validate"]

/-- A property name with every other character than ASCII letters, digits and underscores replaced,
and no underscore at the front. -/
def fieldStem (s : String) : List Char :=
  let cs := (s.toList.map fun c => if c.isAlphanum || c == '_' then c else '_').dropWhile (· == '_')
  if cs.isEmpty then "field".toList else cs

/-- Turn a property name into a field name: not begun by a digit or by `model_`, not reserved, and
not hiding an attribute of models. -/
def field (s : String) : String :=
  let stem := fieldStem s
  let stem := match stem with
    | c :: _ => if c.isDigit then "field_".toList ++ stem else stem
    | [] => stem
  let name := String.ofList stem
  if "model_".toList.isPrefixOf stem then "field_" ++ name
  else if isKeyword name || modelAttributes.contains name then name ++ "_"
  else name

end ApiSchema.Name
