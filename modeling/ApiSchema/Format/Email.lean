import ApiSchema.Text.Basic
import ApiSchema.Unicode.Case
import ApiSchema.Unicode.Printable
import ApiSchema.Unicode.Word

/-!
# Mail addresses

An address is a local part, an at sign and a domain. A display name may stand in front, with the
address in angle brackets. Quoted local parts and numeric domains are not taken.
-/

namespace ApiSchema.Format

/-! ### Display names -/

def isNameChar (c : Char) : Bool :=
  Unicode.isWord c || "!#$%&'*+-/=?^_`\x7b|\x7d~".toList.contains c

/-- What stands before the brackets: nothing, words, or a text in quotes, with blanks around. -/
def isDisplayName (cs : List Char) : Bool :=
  let name := Text.strip Unicode.isBlank cs
  name.all (fun c => isNameChar c || Unicode.isBlank c) ||
    (3 ≤ name.length && name.head? == some '"' && name.getLast? == some '"')

/-- Cut a text in front of the first opening bracket behind all quotes. -/
def cutDisplayName (cs : List Char) : List Char × List Char :=
  match cs.reverse.span (· != '"') with
  | (after, quote :: before) =>
    let (gap, rest) := after.reverse.span (· != '<')
    ((quote :: before).reverse ++ gap, rest)
  | (_, []) => cs.span (· != '<')

/-- The address of a text with a display name, or the text itself. -/
def bareAddress (cs : List Char) : List Char :=
  let text := Text.strip Unicode.isBlank cs
  match text.getLast?, cutDisplayName text with
  | some '>', (name, _ :: rest) =>
    let address := rest.dropLast
    if isDisplayName name && !address.isEmpty && !address.contains '\n' then
      Text.strip Unicode.isBlank address
    else text
  | _, _ => text

/-! ### Local parts -/

/-- Characters that an address holds only if they are safe to show. -/
def isSafe (c : Char) : Bool :=
  Unicode.isPrintable c && !Unicode.isBlank c

/-- Marks that combine with the character before. -/
def isCombining (c : Char) : Bool :=
  Unicode.isIdentifierPart c && !Unicode.isIdentifierStart c && !Unicode.isAlphanumeric c &&
    c != '_' && c.toNat != 0xb7

/-- Characters of a local part between dots. -/
def isAtomChar (c : Char) : Bool :=
  c.isAlphanum || "_!#$%&'*+-/=?^`\x7b|\x7d~".toList.contains c || (128 ≤ c.toNat && isSafe c)

/-- Words divided by single dots. -/
def isLocalPart (cs : List Char) : Bool :=
  (cs.splitOn '.').all (fun word => !word.isEmpty && word.all isAtomChar) &&
    !cs.head?.any isCombining

/-! ### Domains -/

/-- Domains that no mail is sent to. -/
def specialDomains : List String :=
  ["arpa", "invalid", "local", "localhost", "onion", "test"]

/-- The dots of other scripts count as dots, and letters as small ones. -/
def foldDomain (cs : List Char) : List Char :=
  cs.map fun c =>
    if c.toNat == 0x3002 || c.toNat == 0xff0e || c.toNat == 0xff61 then '.' else Unicode.toLower c

/-- A label starts and ends with a letter or a digit, has hyphens inside, and no two of them in the
third and fourth place unless it is an encoded one. -/
def isLabel (cs : List Char) : Bool :=
  !cs.isEmpty && cs.length ≤ 63 &&
    cs.all (fun c => Unicode.isAlphanumeric c || c == '-' || isCombining c) &&
    cs.head? != some '-' && cs.getLast? != some '-' && !cs.head?.any isCombining &&
    (match cs with
      | a :: b :: '-' :: '-' :: rest => a == 'x' && b == 'n' && !rest.isEmpty
      | _ => true)

/-- A domain with at least two labels, the last of which ends with a letter, and none of the
special ones. -/
def isMailDomain (cs : List Char) : Bool :=
  let domain := foldDomain cs
  let labels := domain.splitOn '.'
  labels.all isLabel && 2 ≤ labels.length && domain.length ≤ 253 &&
    !domain.getLast?.any Unicode.isDigit &&
    !specialDomains.contains (String.ofList (labels.getLast?.getD []))

/-! ### Addresses -/

/-- The longest text that is looked at, and the longest address. -/
def textLimit : Nat := 2048

def addressLimit : Nat := 254

/-- A mail address, with or without a display name. -/
def isEmail (cs : List Char) : Bool :=
  let address := bareAddress cs
  cs.length ≤ textLimit && (String.ofList address).utf8ByteSize ≤ addressLimit &&
    match address.span (· != '@') with
    | (name, _ :: domain) => isLocalPart name && isMailDomain domain
    | (_, []) => false

end ApiSchema.Format
