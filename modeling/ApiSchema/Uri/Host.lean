import ApiSchema.Text.Percent
import ApiSchema.Unicode.Printable
import ApiSchema.Uri.Address

/-!
# Hosts

The host of an address: a bracketed IPv6 address, an IPv4 address, or a domain.
-/

namespace ApiSchema.Uri

/-! ### IPv4 in any notation -/

/-- A number in decimal, or behind `0x` in hexadecimal, or behind `0` in octal. -/
def ipv4Number? (cs : List Char) : Option Nat :=
  let value (base : Nat) (digits : List Char) : Option Nat :=
    digits.foldl (fun acc c => acc.bind fun n =>
      (Text.hexValue? c).bind fun d => if d < base then some (base * n + d) else none) (some 0)
  match cs with
  | [] => none
  | '0' :: 'x' :: digits => value 16 digits
  | '0' :: 'X' :: digits => value 16 digits
  | '0' :: d :: digits => value 8 (d :: digits)
  | digits => value 10 digits

/-- The parts of a dotted name; one dot at the end does not count. -/
def dottedParts (cs : List Char) : List (List Char) :=
  let parts := cs.splitOn '.'
  if 1 < parts.length ∧ parts.getLast? = some [] then parts.dropLast else parts

/-- A name whose last part is a number has to be an IPv4 address. -/
def endsInNumber (cs : List Char) : Bool :=
  match (dottedParts cs).getLast? with
  | some last => (!last.isEmpty && last.all Char.isDigit) || (ipv4Number? last).isSome
  | none => false

/-- Up to four numbers, the last of which fills the bytes that are left. -/
def isIPv4Notation (cs : List Char) : Bool :=
  match (dottedParts cs).mapM ipv4Number? with
  | some numbers =>
    match numbers.reverse with
    | last :: others =>
      others.length ≤ 3 && others.all (· ≤ 255) && last < Nat.pow 256 (4 - others.length)
    | [] => false
  | none => false

/-! ### Domains -/

/-- Characters that no domain holds: blanks, control characters, signs with a meaning of their own,
and what stands for no character. -/
def isForbiddenInDomain (c : Char) : Bool :=
  c.toNat ≤ 32 || !Unicode.isPrintable c || c.toNat == 0xfffd ||
    "#/:<>?@[\\]^`\x7b|\x7d%".toList.contains c

/-- Characters that no host of an unknown scheme holds. -/
def isForbiddenInHost (c : Char) : Bool :=
  c.toNat == 0 || "\t\n\r #/:<>?@[\\]^|".toList.contains c

def isBracketed (cs : List Char) : Bool :=
  cs.getLast? == some ']' && isIPv6 (cs.drop 1).dropLast

/-- The host of a scheme that is about hosts. -/
def isHost (cs : List Char) : Bool :=
  if cs.head? = some '[' then isBracketed cs
  else
    let domain := Percent.decode cs
    !domain.isEmpty && !domain.any isForbiddenInDomain &&
      (!endsInNumber domain || isIPv4Notation domain)

/-- The host of any other scheme. -/
def isOpaqueHost (cs : List Char) : Bool :=
  if cs.head? = some '[' then isBracketed cs else !cs.any isForbiddenInHost

end ApiSchema.Uri
