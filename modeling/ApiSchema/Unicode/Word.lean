import ApiSchema.Unicode.Digit
import ApiSchema.Unicode.Identifier

/-!
# Word characters and blanks

Letters and numbers of every script, and the white space characters (Unicode 14).
-/

namespace ApiSchema.Unicode

/-- Characters above ASCII that begin an identifier and are no letters. -/
def otherStarts : List (Nat × Nat) := [(0x1885, 0x1886), (0x2118, 0x2118), (0x212e, 0x212e)]

/-- Letters and numbers above ASCII that are no digits and begin no identifier. -/
def otherAlphanumerics : List (Nat × Nat) := ranges 0 [
  188, 3, 699, 1, 1657, 6, 376, 6, 120, 3, 133, 7, 217, 7, 17, 9, 186, 1, 127, 1, 118, 10, 1086,
  11, 1139, 10, 2390, 16, 41, 1, 735, 11, 9, 11, 9, 11, 79, 10, 9, 1, 640, 1, 9, 1, 9, 1, 1385,
  1, 305, 1, 866, 4, 138, 10, 30, 8, 1, 15, 32, 10, 39, 15, 30064, 6, 21544, 6, 406, 2, 116, 1,
  1, 1, 1, 1, 1, 1, 1, 1, 1, 1, 1, 1, 1, 1, 287, 2, 359, 45, 65, 4, 17, 2, 341, 27, 36, 4, 1332,
  8, 25, 7, 39, 9, 75, 5, 22, 6, 160, 2, 2, 16, 2, 46, 68, 5, 52, 2, 30, 3, 75, 5, 104, 8, 24, 8,
  41, 7, 330, 6, 361, 22, 158, 10, 42, 4, 112, 7, 143, 11, 379, 20, 1349, 2, 430, 9, 871, 19,
  851, 21, 19334, 7, 798, 23, 25673, 20, 108, 25, 5454, 9, 929, 59, 1, 3, 1, 4, 76, 45, 1, 15,
  973, 2]

def isAlphanumeric (c : Char) : Bool :=
  c.isAlphanum || (128 ≤ c.toNat && (isDigit c || inRanges otherAlphanumerics c.toNat ||
    isIdentifierStart c && !inRanges otherStarts c.toNat))

/-- A letter, a number or the underscore. -/
def isWord (c : Char) : Bool :=
  c == '_' || isAlphanumeric c

/-- Blanks above ASCII. -/
def wideBlanks : List (Nat × Nat) := [
  (0x85, 0x85), (0xa0, 0xa0), (0x1680, 0x1680), (0x2000, 0x200a), (0x2028, 0x2029),
  (0x202f, 0x202f), (0x205f, 0x205f), (0x3000, 0x3000)]

/-- White space: tab to carriage return, the four information separators, the space and the blanks
above ASCII. -/
def isBlank (c : Char) : Bool :=
  (9 ≤ c.toNat && c.toNat ≤ 13) || (28 ≤ c.toNat && c.toNat ≤ 32) || inRanges wideBlanks c.toNat

end ApiSchema.Unicode
