import ApiSchema.Fault
import ApiSchema.Traced
import ApiSchema.Uri.Basic
import ApiSchema.Value.Basic
import ApiSchema.Text.Percent
import ApiSchema.Unicode.Digit

/-!
# References

A reference names a document and a pointer into it. The documents at hand form a `Library`; what a
reading asks of it is noted as a list of demands, in order: documents that were opened and schemas
that were referred to.
-/

namespace ApiSchema

/-! ### Pointer tokens -/

namespace Pointer

/-- Escape a token: the tilde and the slash are written `~0` and `~1`. -/
def escapeChars (cs : List Char) : List Char :=
  Text.replaceChar '/' ['~', '1'] (Text.replaceChar '~' ['~', '0'] cs)

def escape (token : String) : String :=
  String.ofList (escapeChars token.toList)

/-- The inverse of `escape`, after percent decoding. -/
def unescapeChars (cs : List Char) : List Char :=
  Text.replacePair '~' '0' ['~'] (Text.replacePair '~' '1' ['/'] (Percent.decode cs))

def unescape (token : String) : String :=
  String.ofList (unescapeChars token.toList)

/-- The tokens of a fragment, behind its leading slashes. -/
def tokens (fragment : String) : List String :=
  ((fragment.toList.dropWhile (· == '/')).splitOn '/').map fun cs =>
    String.ofList (unescapeChars cs)

/-- The most digits that are read as a number. -/
def digitLimit : Nat := 4300

/-- The index that a token of digits denotes. -/
def index? (token : String) : Except Fault Nat :=
  match token.toList.mapM Unicode.decimalValue? with
  | some digits =>
    if digits.length ≤ digitLimit then .ok (digits.foldl (fun n d => 10 * n + d) 0)
    else .error (.noNumber token)
  | none => .error (.noNumber token)

/-- One step into a value: by key into a mapping, by position into a list. -/
def step (node : Value) (token : String) : Except Fault (Option Value) :=
  match node with
  | .map entries => .ok (Value.find? (.str token) entries)
  | .list items =>
    if token.isEmpty || !token.toList.all Unicode.isDigit then .ok none
    else (index? token).map fun i => items[i]?
  | _ => .ok none

def follow (node : Value) : List String → Except Fault (Option Value)
  | [] => .ok (some node)
  | token :: rest =>
    match step node token with
    | .ok (some next) => follow next rest
    | .ok none => .ok none
    | .error fault => .error fault

end Pointer

/-! ### Libraries -/

/-- The documents at hand: the one read, at its base, and those that can be fetched. -/
structure Library where
  base : String
  root : Value
  fetch : String → Except Fault Value
  /-- How many references may lead on from one another. -/
  limit : Nat

/-- A reference to a schema: the target it names, the document the target was located in, and the
reference as written with the place it stands at. -/
structure Link where
  target : String
  uri : String
  ref : String
  referrer : String
deriving DecidableEq

/-- What a reading asks for. -/
inductive Demand where
  | document (uri : String)
  | schema (link : Link)
deriving DecidableEq

/-- A reading of a part of a document. -/
abbrev Reading := Traced Demand Fault

/-- A located target: its canonical name, its document and the fragment in it. -/
structure Location where
  target : String
  uri : String
  fragment : String
deriving DecidableEq

namespace Library

/-- Locate a reference found in the document `doc`. Targets in the base document are named by their
fragment alone. -/
def locate (lib : Library) (ref doc referrer : String) : Except Fault Location :=
  let (before, after) := Text.cutAt '#' ref.toList
  let fragment := String.ofList (after.getD [])
  let uri : Except String String :=
    if before.isEmpty then .ok doc
    else if doc.isEmpty then .ok (String.ofList before)
    else Uri.join doc (String.ofList before)
  match uri with
  | .error problem => .error (.malformedUri problem)
  | .ok uri =>
    if !fragment.isEmpty && !Text.hasPrefix "/" fragment then .error (.unresolved ref referrer)
    else
      let target := if uri = lib.base then "#" ++ fragment else uri ++ "#" ++ fragment
      .ok ⟨target, uri, fragment⟩

/-- Open a document. A reference to one that cannot be had is unresolved. -/
def document (lib : Library) (ref uri referrer : String) : Reading Value :=
  if uri = lib.base then pure lib.root
  else do
    Traced.note (.document uri)
    match lib.fetch uri with
    | .ok doc => pure doc
    | .error (.schema _) => throw (.unresolved ref referrer)
    | .error fault => throw fault

/-- The value at a fragment of a document. -/
def lookup (lib : Library) (ref uri fragment referrer : String) : Reading Value := do
  let doc ← lib.document ref uri referrer
  if fragment.isEmpty then return doc
  match Pointer.follow doc (Pointer.tokens fragment) with
  | .ok (some value) => return value
  | .ok none => throw (.unresolved ref referrer)
  | .error fault => throw fault

end Library

end ApiSchema
