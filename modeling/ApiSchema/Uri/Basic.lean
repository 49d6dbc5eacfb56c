import ApiSchema.Uri.Address
import ApiSchema.Text.Quoted

/-!
# References to documents

Splitting a reference into its components, putting them together again, and resolving a relative
reference against a base, by the rules of RFC 3986 with the parameters of the last segment kept
apart.
-/

namespace ApiSchema

/-- The components of a reference; an absent one is empty. -/
structure Uri where
  scheme : String
  authority : String
  path : String
  params : String
  query : String
  fragment : String

namespace Uri

/-! ### Schemes -/

/-- Schemes whose references may be relative. -/
def relativeSchemes : List String :=
  ["", "ftp", "http", "gopher", "nntp", "imap", "wais", "file", "https", "shttp", "mms",
    "prospero", "rtsp", "rtsps", "rtspu", "sftp", "svn", "svn+ssh", "ws", "wss"]

/-- Schemes whose references have an authority. -/
def authoritySchemes : List String :=
  ["", "ftp", "http", "gopher", "nntp", "telnet", "imap", "wais", "file", "mms", "https", "shttp",
    "snews", "prospero", "rtsp", "rtsps", "rtspu", "rsync", "svn", "svn+ssh", "sftp", "nfs", "git",
    "git+ssh", "ws", "wss"]

/-- Schemes whose last path segment may have parameters. -/
def paramSchemes : List String :=
  ["", "ftp", "hdl", "prospero", "http", "imap", "https", "shttp", "rtsp", "rtsps", "rtspu", "sip",
    "sips", "mms", "sftp", "tel"]

def isSchemeChar (c : Char) : Bool :=
  c.isAlphanum || c == '+' || c == '-' || c == '.'

/-- The scheme and the rest, if a scheme is written. -/
def cutScheme? (cs : List Char) : Option (List Char × List Char) :=
  match Text.cutAt ':' cs, cs with
  | (before, some after), c :: _ =>
    if !before.isEmpty && c.isAlpha && before.all isSchemeChar then
      some (before.map Char.toLower, after)
    else none
  | _, _ => none

/-! ### Authority -/

/-- Characters whose compatibility form holds a delimiter. -/
def disguisedDelimiters : List Nat :=
  [0x2047, 0x2048, 0x2049, 0x2100, 0x2101, 0x2105, 0x2106, 0x2a74, 0xfe13, 0xfe16, 0xfe55, 0xfe56,
    0xfe5f, 0xfe6b, 0xff03, 0xff0f, 0xff1a, 0xff1f, 0xff20]

/-- An address of a future version: `v`, its number, a dot and something after it. -/
def isFutureAddress (cs : List Char) : Bool :=
  match Text.cutAt '.' (cs.drop 1) with
  | (version, some rest) =>
    cs.head? == some 'v' && !version.isEmpty && version.all Text.isHex && !rest.isEmpty &&
      !rest.contains '\n'
  | _ => false

/-- What is wrong with an authority, if anything. -/
def authorityProblem? (cs : List Char) : Option String :=
  let opened := cs.contains '['
  let closed := cs.contains ']'
  if opened != closed then some "Invalid IPv6 URL"
  else
    let host := (Text.cutAt ']' ((Text.cutAt '[' cs).2.getD [])).1
    if opened && host.head? == some 'v' && !isFutureAddress host then
      some "IPvFuture address is invalid"
    else if opened && host.head? != some 'v' && isIPv4 host then
      some "An IPv4 address cannot be in brackets"
    else if opened && host.head? != some 'v' && !isIPv6 ((Text.cutAt '%' host).1) then
      some (Text.quote (String.ofList host) ++ " does not appear to be an IPv4 or IPv6 address")
    else if cs.any fun c => disguisedDelimiters.contains c.toNat then
      some ("netloc '" ++ String.ofList cs ++
        "' contains invalid characters under NFKC normalization")
    else none

/-! ### Splitting -/

/-- Cut a fragment or a query off the end of a text. -/
def cutTail (mark : Char) (cs : List Char) : List Char × List Char :=
  let (before, after) := Text.cutAt mark cs
  (before, after.getD [])

/-- Cut the parameters off the last segment of a path. -/
def cutParams (cs : List Char) : List Char × List Char :=
  let last := Text.lastPart '/' cs
  match Text.cutAt ';' last with
  | (before, some after) => (cs.take (cs.length - last.length) ++ before, after)
  | (_, none) => (cs, [])

/-- The components of a reference, with a scheme to take where none is written; or what is wrong
with its authority. -/
def split (text : String) (defaultScheme : String) : Except String Uri := do
  let cs := (text.toList.dropWhile fun c => c.toNat ≤ 32).filter fun c =>
    c != '\t' && c != '\r' && c != '\n'
  let (scheme, rest) := (cutScheme? cs).getD (defaultScheme.toList, cs)
  let (authority, rest) := match rest with
    | '/' :: '/' :: after =>
      let inside (c : Char) : Bool := c != '/' && c != '?' && c != '#'
      (after.takeWhile inside, after.dropWhile inside)
    | _ => ([], rest)
  match authorityProblem? authority with
  | some problem => throw problem
  | none =>
    let (rest, fragment) := cutTail '#' rest
    let (path, query) := cutTail '?' rest
    let scheme := String.ofList scheme
    let (path, params) := if paramSchemes.contains scheme then cutParams path else (path, [])
    return {
      scheme := scheme
      authority := String.ofList authority
      path := String.ofList path
      params := String.ofList params
      query := String.ofList query
      fragment := String.ofList fragment }

def text (u : Uri) : String :=
  let path := if u.params.isEmpty then u.path else u.path ++ ";" ++ u.params
  let path :=
    if !u.authority.isEmpty || (!u.scheme.isEmpty && authoritySchemes.contains u.scheme) ||
        Text.hasPrefix "//" path then
      "//" ++ u.authority ++ (if path.isEmpty || Text.hasPrefix "/" path then path else "/" ++ path)
    else path
  (if u.scheme.isEmpty then "" else u.scheme ++ ":") ++ path ++
    (if u.query.isEmpty then "" else "?" ++ u.query) ++
    (if u.fragment.isEmpty then "" else "#" ++ u.fragment)

/-! ### Joining -/

/-- Work off the dot segments of a path; `done` is what precedes, the last segment first. -/
def removeDots (done : List String) : List String → List String
  | [] => done.reverse
  | seg :: rest =>
    if seg = ".." then removeDots done.tail rest
    else if seg = "." then removeDots done rest
    else removeDots (seg :: done) rest

/-- Leave out empty segments except the first and the last. -/
def squeeze (segments : List String) : List String :=
  match segments with
  | [] => []
  | [s] => [s]
  | s :: rest => s :: rest.dropLast.filter (fun t => !t.isEmpty) ++ rest.getLast?.toList

/-- The path that a relative path denotes beside the path of the base. -/
def joinPath (base path : String) : String :=
  let parts := Text.split '/' base
  let parts := if parts.getLast? == some "" then parts else parts.dropLast
  let own := Text.split '/' path
  let segments := if Text.hasPrefix "/" path then own else squeeze (parts ++ own)
  let last := segments.getLast?
  let resolved := removeDots [] segments ++
    (if last == some "." || last == some ".." then [""] else [])
  let joined := Text.join "/" resolved
  if joined.isEmpty then "/" else joined

/-- The reference that `ref` denotes in a document at `base`. -/
def join (base ref : String) : Except String String := do
  if base.isEmpty then return ref
  if ref.isEmpty then return base
  let b ← split base ""
  let r ← split ref b.scheme
  if r.scheme ≠ b.scheme ∨ !relativeSchemes.contains r.scheme then return ref
  if authoritySchemes.contains r.scheme && !r.authority.isEmpty then return r.text
  let authority := if authoritySchemes.contains r.scheme then b.authority else r.authority
  let r := { r with authority := authority }
  if r.path.isEmpty && r.params.isEmpty then
    let query := if r.query.isEmpty then b.query else r.query
    return { r with path := b.path, params := b.params, query := query }.text
  return { r with path := joinPath b.path r.path }.text

/-- A reference without its fragment. -/
def defragment (text : String) : Except String String := do
  if text.toList.contains '#' then
    let u ← split text ""
    return { u with fragment := "" }.text
  else return text

end Uri

end ApiSchema
