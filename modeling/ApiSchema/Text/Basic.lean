/-!
# Operations on text

Cutting, joining and replacing, on lists of characters and on strings.
-/

namespace ApiSchema.Text

/-! ### Lists of characters -/

/-- The part before the first `sep`, and the part after it if there is one. -/
def cutAt (sep : Char) : List Char → List Char × Option (List Char)
  | [] => ([], none)
  | c :: cs =>
    if c = sep then ([], some cs)
    else
      let (before, after) := cutAt sep cs
      (c :: before, after)

/-- Replace every `old` by `new`, reading from the left; `old` is the pair `a`, `b`. -/
def replacePair (a b : Char) (new : List Char) : List Char → List Char
  | [] => []
  | [c] => [c]
  | c :: d :: rest =>
    if c = a ∧ d = b then new ++ replacePair a b new rest
    else c :: replacePair a b new (d :: rest)

def replaceChar (old : Char) (new : List Char) (cs : List Char) : List Char :=
  cs.flatMap fun c => if c = old then new else [c]

/-- Drop blanks, as told by `blank`, at both ends. -/
def strip (blank : Char → Bool) (cs : List Char) : List Char :=
  (((cs.dropWhile blank).reverse).dropWhile blank).reverse

/-- The last of the parts between separators. -/
def lastPart (sep : Char) (cs : List Char) : List Char :=
  (cs.reverse.takeWhile (· != sep)).reverse

/-! ### Strings -/

def split (sep : Char) (s : String) : List String :=
  (s.toList.splitOn sep).map String.ofList

def join (sep : String) (parts : List String) : String :=
  sep.intercalate parts

def hasPrefix (start s : String) : Bool :=
  start.toList.isPrefixOf s.toList

def hasSuffix (ending s : String) : Bool :=
  ending.toList.isSuffixOf s.toList

/-- The order of code points. -/
def le (a b : String) : Bool :=
  !decide (b < a)

def sorted (xs : List String) : List String :=
  xs.mergeSort le

/-- Keep the first of equal elements. -/
def distinct (xs : List String) : List String :=
  xs.foldl (fun seen x => if seen.contains x then seen else seen ++ [x]) []

/-- Lines end with `\n`, `\r\n` or `\r`; write all of them as `\n`. -/
def unifyLineEnds : List Char → List Char
  | [] => []
  | '\r' :: '\n' :: rest => '\n' :: unifyLineEnds rest
  | c :: rest => (if c = '\r' then '\n' else c) :: unifyLineEnds rest

/-! ### Hexadecimal -/

/-- The `width` lowest hexadecimal digits of a number. -/
def hex : Nat → Nat → List Char
  | 0, _ => []
  | width + 1, n => hex width (n / 16) ++ [Nat.digitChar (n % 16)]

def hexValue? (c : Char) : Option Nat :=
  if c.isDigit then some (c.toNat - 48)
  else if 'a' ≤ c ∧ c ≤ 'f' then some (c.toNat - 87)
  else if 'A' ≤ c ∧ c ≤ 'F' then some (c.toNat - 55)
  else none

def isHex (c : Char) : Bool :=
  (hexValue? c).isSome

end ApiSchema.Text
