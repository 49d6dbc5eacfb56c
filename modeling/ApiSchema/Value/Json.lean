import ApiSchema.Value.Basic

/-!
# JSON text

`Json.read?` reads a whole text; a number with a fraction or an exponent is a `Double`, any other is
an integer of any size, and of equal keys the last value is kept in the place of the first.
`Json.write` writes without blanks and in ASCII.
-/

namespace ApiSchema.Json

/-! ### Reading -/

def isBlank (c : Char) : Bool :=
  c == ' ' || c == '\t' || c == '\n' || c == '\r'

def skipBlanks (cs : List Char) : List Char :=
  cs.dropWhile isBlank

/-- Four hexadecimal digits. -/
def readCode? : List Char → Option (Nat × List Char)
  | a :: b :: c :: d :: rest => do
    let a ← Text.hexValue? a
    let b ← Text.hexValue? b
    let c ← Text.hexValue? c
    let d ← Text.hexValue? d
    some (((a * 16 + b) * 16 + c) * 16 + d, rest)
  | _ => none

/-- The character of an escape letter. -/
def escapeChar? : Char → Option Char
  | '"' => some '"'
  | '\\' => some '\\'
  | '/' => some '/'
  | 'b' => some '\x08'
  | 'f' => some '\x0c'
  | 'n' => some '\n'
  | 'r' => some '\r'
  | 't' => some '\t'
  | _ => none

/-- The character of one or two `\u` codes: two halves of a pair make one character, and half a
pair on its own is unreadable. -/
def readUnicode? (cs : List Char) : Option (Char × List Char) := do
  let (code, rest) ← readCode? cs
  if 0xD800 ≤ code ∧ code < 0xDC00 then
    match rest with
    | '\\' :: 'u' :: more =>
      let (low, rest) ← readCode? more
      if 0xDC00 ≤ low ∧ low < 0xE000 then
        some (Char.ofNat (0x10000 + (code - 0xD800) * 0x400 + (low - 0xDC00)), rest)
      else none
    | _ => none
  else if 0xDC00 ≤ code ∧ code < 0xE000 then none
  else some (Char.ofNat code, rest)

/-- The rest of a string after its opening quote; the first argument bounds its length. -/
def readString? : Nat → List Char → Option (List Char × List Char)
  | 0, _ => none
  | _ + 1, [] => none
  | n + 1, c :: rest =>
    if c = '"' then some ([], rest)
    else if c = '\\' then
      match rest with
      | 'u' :: more => do
        let (d, rest) ← readUnicode? more
        let (cs, rest) ← readString? n rest
        some (d :: cs, rest)
      | e :: more => do
        let d ← escapeChar? e
        let (cs, rest) ← readString? n more
        some (d :: cs, rest)
      | [] => none
    else if c.toNat < 32 then none
    else do
      let (cs, rest) ← readString? n rest
      some (c :: cs, rest)

/-- A fraction, if one follows. -/
def readFraction (cs : List Char) : List Char × List Char :=
  match cs with
  | '.' :: more =>
    let digits := more.takeWhile Char.isDigit
    if digits.isEmpty then ([], cs) else (digits, more.dropWhile Char.isDigit)
  | _ => ([], cs)

/-- An exponent, if one follows. -/
def readExponent? (cs : List Char) : Option Int × List Char :=
  match cs with
  | e :: more =>
    if e = 'e' ∨ e = 'E' then
      let (negative, body) := match more with
        | '-' :: body => (true, body)
        | '+' :: body => (false, body)
        | body => (false, body)
      let digits := body.takeWhile Char.isDigit
      if digits.isEmpty then (none, cs)
      else
        let n : Int := Double.digitsValue digits
        (some (if negative then -n else n), body.dropWhile Char.isDigit)
    else (none, cs)
  | [] => (none, cs)

/-- A number without its sign: no leading zero, then maybe a fraction and an exponent. -/
def readUnsigned? (negative : Bool) (cs : List Char) : Option (Value × List Char) :=
  let digits := match cs with
    | '0' :: _ => ['0']
    | _ => cs.takeWhile Char.isDigit
  if digits.isEmpty then none
  else
    let (fraction, rest) := readFraction (cs.drop digits.length)
    let (exponent, rest) := readExponent? rest
    if fraction.isEmpty && exponent.isNone then
      let n : Int := Double.digitsValue digits
      some (.int (if negative then -n else n), rest)
    else
      let all := Double.digitsValue (digits ++ fraction)
      some (.float (Double.ofDecimal negative all (exponent.getD 0 - fraction.length)), rest)

/-- A word without quotes, or a number. -/
def readWord? (cs : List Char) : Option (Value × List Char) :=
  match cs with
  | 'n' :: 'u' :: 'l' :: 'l' :: rest => some (.null, rest)
  | 't' :: 'r' :: 'u' :: 'e' :: rest => some (.bool true, rest)
  | 'f' :: 'a' :: 'l' :: 's' :: 'e' :: rest => some (.bool false, rest)
  | '-' :: rest =>
    if "Infinity".toList.isPrefixOf rest then some (.float (.infinite true), rest.drop 8)
    else readUnsigned? true rest
  | _ =>
    if "Infinity".toList.isPrefixOf cs then some (.float (.infinite false), cs.drop 8)
    else readUnsigned? false cs

mutual

/-- One value at the head of a text; the first argument bounds the work. -/
def readValue? : Nat → List Char → Option (Value × List Char)
  | 0, _ => none
  | n + 1, cs =>
    match skipBlanks cs with
    | '"' :: rest => do
      let (text, rest) ← readString? (rest.length + 1) rest
      some (.str (String.ofList text), rest)
    | '[' :: rest =>
      match skipBlanks rest with
      | ']' :: rest => some (.list [], rest)
      | rest => do
        let (items, rest) ← readItems? n rest
        some (.list items, rest)
    | '\x7b' :: rest =>
      match skipBlanks rest with
      | '\x7d' :: rest => some (.map [], rest)
      | rest => do
        let (members, rest) ← readMembers? n rest
        some (Value.ofEntries members, rest)
    | rest => readWord? rest

def readItems? : Nat → List Char → Option (List Value × List Char)
  | 0, _ => none
  | n + 1, cs => do
    let (item, rest) ← readValue? n cs
    match skipBlanks rest with
    | ']' :: rest => some ([item], rest)
    | ',' :: rest =>
      let (items, rest) ← readItems? n rest
      some (item :: items, rest)
    | _ => none

def readMembers? : Nat → List Char → Option (List (Scalar × Value) × List Char)
  | 0, _ => none
  | n + 1, cs =>
    match skipBlanks cs with
    | '"' :: rest => do
      let (key, rest) ← readString? (rest.length + 1) rest
      match skipBlanks rest with
      | ':' :: rest =>
        let (value, rest) ← readValue? n rest
        match skipBlanks rest with
        | '\x7d' :: rest => some ([(.str (String.ofList key), value)], rest)
        | ',' :: rest =>
          let (members, rest) ← readMembers? n rest
          some ((.str (String.ofList key), value) :: members, rest)
        | _ => none
      | _ => none
    | _ => none

end

def read? (text : String) : Option Value := do
  let cs := text.toList
  let (value, rest) ← readValue? (2 * cs.length + 2) cs
  if (skipBlanks rest).isEmpty then some value else none

/-! ### Writing -/

/-- One character inside quotes; above ASCII by its UTF-16 units. -/
def writeChar (c : Char) : List Char :=
  if c = '"' then ['\\', '"']
  else if c = '\\' then ['\\', '\\']
  else if c = '\n' then ['\\', 'n']
  else if c = '\r' then ['\\', 'r']
  else if c = '\t' then ['\\', 't']
  else if c = '\x08' then ['\\', 'b']
  else if c = '\x0c' then ['\\', 'f']
  else if 32 ≤ c.toNat ∧ c.toNat < 127 then [c]
  else if c.toNat < 0x10000 then '\\' :: 'u' :: Text.hex 4 c.toNat
  else
    let offset := c.toNat - 0x10000
    '\\' :: 'u' :: Text.hex 4 (0xD800 + offset / 0x400) ++
      '\\' :: 'u' :: Text.hex 4 (0xDC00 + offset % 0x400)

def writeString (s : String) : List Char :=
  '"' :: s.toList.flatMap writeChar ++ ['"']

def writeFloat : Double → List Char
  | .infinite negative => (if negative then "-Infinity" else "Infinity").toList
  | x => x.text.toList

def writeScalar : Scalar → List Char
  | .null => "null".toList
  | .bool b => (if b then "true" else "false").toList
  | .int i => (toString i).toList
  | .float x => writeFloat x
  | .str s => writeString s

/-- A key is always written as a string. -/
def writeKey : Scalar → List Char
  | .str s => writeString s
  | s => '"' :: writeScalar s ++ ['"']

mutual

/-- The text of a value in front of another text. -/
def writeBefore (text : List Char) : Value → List Char
  | .scalar s => writeScalar s ++ text
  | .list xs => '[' :: writeItems (']' :: text) xs
  | .tuple xs => '[' :: writeItems (']' :: text) xs
  | .map es => '\x7b' :: writeMembers ('\x7d' :: text) es

def writeItems (text : List Char) : List Value → List Char
  | [] => text
  | [x] => writeBefore text x
  | x :: rest => writeBefore (',' :: writeItems text rest) x

def writeMembers (text : List Char) : List (Scalar × Value) → List Char
  | [] => text
  | [(k, v)] => writeKey k ++ ':' :: writeBefore text v
  | (k, v) :: rest => writeKey k ++ ':' :: writeBefore (',' :: writeMembers text rest) v

end

def writeValue (v : Value) : List Char :=
  writeBefore [] v

def write (v : Value) : String :=
  String.ofList (writeValue v)

mutual

/-- The value with the members of every mapping in the order of their keys. -/
def sortKeys : Value → Value
  | .scalar s => .scalar s
  | .list xs => .list (sortKeysItems xs)
  | .tuple xs => .tuple (sortKeysItems xs)
  | .map es => .map ((sortKeysMembers es).mergeSort fun a b => Text.le a.1.display b.1.display)

def sortKeysItems : List Value → List Value
  | [] => []
  | x :: xs => sortKeys x :: sortKeysItems xs

def sortKeysMembers : List (Scalar × Value) → List (Scalar × Value)
  | [] => []
  | (k, v) :: rest => (k, sortKeys v) :: sortKeysMembers rest

end

end ApiSchema.Json
