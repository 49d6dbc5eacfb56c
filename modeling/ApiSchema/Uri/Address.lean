import ApiSchema.Text.Basic
import ApiSchema.Number.Decimal

/-!
# Network addresses

The written forms of IPv4 and IPv6 addresses.
-/

namespace ApiSchema.Uri

/-- A part of a dotted address: up to 255, without leading zeros. -/
def isOctet (cs : List Char) : Bool :=
  !cs.isEmpty && cs.all Char.isDigit && cs.length ≤ 3 && (cs.length == 1 || cs.head? != some '0') &&
    Double.digitsValue cs ≤ 255

/-- Four octets divided by dots. -/
def isIPv4 (cs : List Char) : Bool :=
  let parts := cs.splitOn '.'
  parts.length == 4 && parts.all isOctet

/-- A group of an IPv6 address: one to four hexadecimal digits. -/
def isGroup (cs : List Char) : Bool :=
  !cs.isEmpty && cs.length ≤ 4 && cs.all Text.isHex

/-- How many groups of sixteen bits the parts make, where a dotted address may stand last; `none`
when a part is malformed. -/
def groupCount? : List (List Char) → Option Nat
  | [] => some 0
  | [last] => if isGroup last then some 1 else if isIPv4 last then some 2 else none
  | part :: rest => if isGroup part then (groupCount? rest).map (· + 1) else none

/-- Cut at the first double colon. -/
def cutDoubleColon : List Char → Option (List Char × List Char)
  | ':' :: ':' :: rest => some ([], rest)
  | c :: rest => (cutDoubleColon rest).map fun (before, after) => (c :: before, after)
  | [] => none

/-- The groups of one side of a double colon; a dotted address stands only at the end of the whole
address. -/
def sideCount? (last : Bool) (cs : List Char) : Option Nat :=
  if cs.isEmpty then some 0
  else
    let parts := cs.splitOn ':'
    if last then groupCount? parts
    else if parts.all isGroup then some parts.length else none

/-- Eight groups, or fewer with one double colon that stands for the zero groups left out. -/
def isIPv6 (cs : List Char) : Bool :=
  match cutDoubleColon cs with
  | none => sideCount? true cs == some 8
  | some (before, after) =>
    match sideCount? false before, sideCount? true after with
    | some m, some n => m + n ≤ 7
    | _, _ => false

end ApiSchema.Uri
