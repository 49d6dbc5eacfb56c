import ApiSchema.Uri.Host

/-!
# Web addresses

Absolute addresses as browsers read them. Blanks and control characters around an address and line
breaks inside of it are dropped. Schemes that are about hosts need one, however many slashes stand
before it; other schemes may go on in any way, but a host that they give has to be sound.
-/

namespace ApiSchema.Format

def hostSchemes : List String :=
  ["http", "https", "ws", "wss", "ftp"]

/-- What is read of an address: no blanks around it, and no line breaks or tabs. -/
def significant (cs : List Char) : List Char :=
  (Text.strip (·.toNat ≤ 32) cs).filter fun c => c != '\t' && c != '\n' && c != '\r'

/-- The scheme in lower case, and what follows its colon. -/
def scheme? (cs : List Char) : Option (String × List Char) :=
  match cs.span (· != ':') with
  | (name, _ :: rest) =>
    let isPart (c : Char) : Bool := c.isAlphanum || c == '+' || c == '-' || c == '.'
    if name.head?.any Char.isAlpha && name.all isPart then
      some (String.ofList (name.map Char.toLower), rest)
    else none
  | (_, []) => none

/-- The part before path, query and fragment. A backslash counts as a slash where `special`. -/
def authority (special : Bool) (cs : List Char) : List Char :=
  cs.takeWhile fun c => !(c == '/' || c == '?' || c == '#' || (special && c == '\\'))

/-- Cut user information off: everything up to the last at sign. -/
def cutUser (cs : List Char) : Option (List Char) × List Char :=
  match cs.reverse.span (· != '@') with
  | (host, _ :: user) => (some user.reverse, host.reverse)
  | (host, []) => (none, host.reverse)

/-- Cut at the first colon outside of brackets. -/
def cutPort (inside : Bool) : List Char → List Char × Option (List Char)
  | [] => ([], none)
  | c :: rest =>
    if c = ':' ∧ !inside then ([], some rest)
    else
      let (host, port) := cutPort (if c = '[' then true else if c = ']' then false else inside) rest
      (c :: host, port)

/-- A port is a number of sixteen bits, or nothing. -/
def isPort (cs : List Char) : Bool :=
  let digits := cs.takeWhile (· != '\\')
  digits.all Char.isDigit && Double.digitsValue digits ≤ 65535

/-- The authority of a scheme that is about hosts. -/
def isHostAuthority (cs : List Char) : Bool :=
  let (host, port) := cutPort false (cutUser cs).2
  Uri.isHost host && port.all isPort

/-- The authority of any other scheme; an empty host stands alone. -/
def isOpaqueAuthority (cs : List Char) : Bool :=
  let (user, rest) := cutUser cs
  let (host, port) := cutPort false rest
  if host.isEmpty then user.isNone && port.isNone else Uri.isOpaqueHost host && port.all isPort

def isFileRest : List Char → Bool
  | a :: b :: rest =>
    if (a == '/' || a == '\\') && (b == '/' || b == '\\') then
      let host := authority true rest
      let isDrive := match host with
        | [letter, mark] => letter.isAlpha && (mark == ':' || mark == '|')
        | _ => false
      host.isEmpty || isDrive || Uri.isHost host
    else true
  | _ => true

/-- An absolute address. -/
def isWebAddress (cs : List Char) : Bool :=
  match scheme? (significant cs) with
  | none => false
  | some (scheme, rest) =>
    if scheme = "file" then isFileRest rest
    else if hostSchemes.contains scheme then
      isHostAuthority (authority true (rest.dropWhile fun c => c == '/' || c == '\\'))
    else
      match rest with
      | '/' :: '/' :: rest => isOpaqueAuthority (authority false rest)
      | _ => true

end ApiSchema.Format
