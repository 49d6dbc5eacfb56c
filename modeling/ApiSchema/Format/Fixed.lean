import ApiSchema.Text.Basic

/-!
# Formats of fixed shape

Groups of hexadecimal digits of fixed lengths. One line feed at the end is let through.
-/

namespace ApiSchema.Format

def dropFinalLineFeed (cs : List Char) : List Char :=
  if cs.getLast? = some '\n' then cs.dropLast else cs

/-- Groups of hexadecimal digits of these lengths, divided by hyphens. -/
def isHexGroups (lengths : List Nat) (cs : List Char) : Bool :=
  let groups := (dropFinalLineFeed cs).splitOn '-'
  groups.map List.length == lengths && groups.all fun g => g.all Text.isHex

def isUuid (cs : List Char) : Bool :=
  isHexGroups [8, 4, 4, 4, 12] cs

def isObjectId (cs : List Char) : Bool :=
  isHexGroups [24] cs

def isColorHex (cs : List Char) : Bool :=
  isHexGroups [6] cs

end ApiSchema.Format
