import ApiSchema.Yaml.Scalar

/-!
# Tokens of YAML

The tokens of a document made of block and flow collections with plain and quoted scalars. A block
begins where a key or a dash stands further right than the block around it, and ends where a token
stands further left. Whether a scalar or a flow collection is a key shows at the colon behind it, so
the place of the last one that might be a key is kept, for each level of flow collections.

Document markers, directives, anchors, tags, block scalars and the key indicator are refused.
-/

namespace ApiSchema.Yaml

inductive Token where
  | beginList
  | beginMap
  | endBlock
  | openList
  | closeList
  | openMap
  | closeMap
  | dash
  | comma
  | key
  | value
  | scalar (s : Scalar)
deriving DecidableEq

/-! ### Characters -/

/-- Characters that a document may hold. -/
def isReadable (c : Char) : Bool :=
  let n := c.toNat
  n == 0x09 || n == 0x0A || n == 0x0D || (0x20 ≤ n && n ≤ 0x7E) || n == 0x85 ||
    (0xA0 ≤ n && n ≤ 0xD7FF) || (0xE000 ≤ n && n ≤ 0xFFFD) || 0x10000 ≤ n

def isBreak (c : Char) : Bool :=
  c == '\n' || c == '\u2028' || c == '\u2029'

def isBlank (c : Char) : Bool :=
  c == ' ' || c == '\t'

/-- A character, the line and the column it stands in, and its position in the text. -/
structure Glyph where
  char : Char
  line : Nat
  column : Nat
  index : Nat

/-- Find the place of every character. -/
def place (line column index : Nat) : List Char → List Glyph
  | [] => []
  | c :: rest =>
    ⟨c, line, column, index⟩ ::
      if isBreak c then place (line + 1) 0 (index + 1) rest
      else place line (column + 1) (index + 1) rest

/-- Whether a word ends here: at a blank, at a line break or at the end of the text. -/
def atEnd : List Glyph → Bool
  | [] => true
  | g :: _ => isBlank g.char || isBreak g.char

/-- Whether a line begins with a document marker here. -/
def isMarker : List Glyph → Bool
  | a :: b :: c :: rest =>
    a.column == 0 && (a.char == '-' || a.char == '.') && a.char == b.char && b.char == c.char &&
      atEnd rest
  | _ => false

/-! ### Space inside scalars -/

/-- Leave out blanks, and collect line breaks. -/
def breaks (blank : Char → Bool) : List Glyph → List Char × List Glyph
  | [] => ([], [])
  | g :: rest =>
    if blank g.char then breaks blank rest
    else if isBreak g.char then
      let (found, after) := breaks blank rest
      (g.char :: found, after)
    else ([], g :: rest)

/-- The space between two words: blanks as they are, a single line end as a blank, and of more line
ends all but the first; then whether a line ended, and what follows. -/
def gap (blank : Char → Bool) (gs : List Glyph) : List Char × Bool × List Glyph :=
  let blanks := (gs.takeWhile fun g => blank g.char).map Glyph.char
  match gs.dropWhile fun g => blank g.char with
  | [] => (blanks, false, [])
  | g :: rest =>
    if isBreak g.char then
      let (found, after) := breaks blank rest
      if g.char ≠ '\n' then (g.char :: found, true, after)
      else if found.isEmpty then ([' '], true, after)
      else (found, true, after)
    else (blanks, false, g :: rest)

/-! ### Plain scalars -/

/-- Characters with a meaning of their own inside flow collections. -/
def isFlowMark (c : Char) : Bool :=
  c == ',' || c == '[' || c == ']' || c == '\x7b' || c == '\x7d'

/-- Whether a plain scalar ends before this place. -/
def endsPlain (inFlow : Bool) : List Glyph → Bool
  | [] => true
  | g :: rest =>
    atEnd (g :: rest) ||
      (g.char == ':' &&
        (atEnd rest || (inFlow && (rest.head?.map fun h => isFlowMark h.char).getD false))) ||
      (inFlow && (isFlowMark g.char || g.char == '?'))

def plainWord (inFlow : Bool) : List Glyph → List Char × List Glyph
  | [] => ([], [])
  | g :: rest =>
    if endsPlain inFlow (g :: rest) then ([], g :: rest)
    else
      let (word, after) := plainWord inFlow rest
      (g.char :: word, after)

/-- Whether a plain scalar does not go on here: at a comment, or, outside flow collections, left of
the column `indent`. -/
def stopsPlain (inFlow : Bool) (indent : Nat) : List Glyph → Bool
  | [] => true
  | g :: _ => g.char == '#' || (!inFlow && g.column < indent)

/-- A plain scalar, whether a line ended behind it, and what follows; the first number bounds its
words. -/
def plain (inFlow : Bool) (indent : Nat) : Nat → List Glyph → List Char × Bool × List Glyph
  | 0, gs => ([], false, gs)
  | n + 1, gs =>
    let (word, rest) := plainWord inFlow gs
    let (space, crossed, after) := gap (· == ' ') rest
    if space.isEmpty || stopsPlain inFlow indent after then (word, crossed, after)
    else
      let (more, crossedLater, tail) := plain inFlow indent n after
      if more.isEmpty then (word, crossed, after) else (word ++ space ++ more, crossedLater, tail)

def startsPlain (inFlow : Bool) (c : Char) (rest : List Glyph) : Bool :=
  if c == '-' then !atEnd rest
  else if c == '?' || c == ':' then !inFlow && !atEnd rest
  else !(isBlank c || isFlowMark c || "#&*!|>'\"%@`".toList.contains c)

/-! ### Quoted scalars -/

/-- The character that a letter behind a backslash stands for. -/
def escaped? : Char → Option Char
  | '0' => some '\x00'
  | 'a' => some '\x07'
  | 'b' => some '\x08'
  | 't' => some '\t'
  | '\t' => some '\t'
  | 'n' => some '\n'
  | 'v' => some '\x0b'
  | 'f' => some '\x0c'
  | 'r' => some '\r'
  | 'e' => some '\x1b'
  | ' ' => some ' '
  | '"' => some '"'
  | '\\' => some '\\'
  | '/' => some '/'
  | 'N' => some '\x85'
  | '_' => some '\xa0'
  | 'L' => some '\u2028'
  | 'P' => some '\u2029'
  | _ => none

/-- How many hexadecimal digits follow a letter behind a backslash. -/
def codeWidth? : Char → Option Nat
  | 'x' => some 2
  | 'u' => some 4
  | 'U' => some 8
  | _ => none

/-- The number of exactly so many hexadecimal digits. -/
def code? (width : Nat) (gs : List Glyph) : Option (Nat × List Glyph) := do
  let digits ← (gs.take width).mapM fun g => Text.hexValue? g.char
  if digits.length = width then some (digits.foldl (fun n d => 16 * n + d) 0, gs.drop width)
  else none

/-- The character of one code, or of two that are halves of a pair. -/
def codeChar? (width : Nat) (gs : List Glyph) : Option (Char × List Glyph) := do
  let (n, rest) ← code? width gs
  if 0xD800 ≤ n ∧ n < 0xDC00 then
    match rest with
    | a :: b :: more =>
      if a.char = '\\' ∧ b.char = 'u' then
        let (low, rest) ← code? 4 more
        if 0xDC00 ≤ low ∧ low < 0xE000 then
          some (Char.ofNat (0x10000 + (n - 0xD800) * 0x400 + (low - 0xDC00)), rest)
        else none
      else none
    | _ => none
  else if (0xDC00 ≤ n ∧ n < 0xE000) ∨ 0x10FFFF < n then none
  else some (Char.ofNat n, rest)

/-- What follows a backslash; a line end there joins two lines. -/
def escape? : List Glyph → Option (List Char × List Glyph)
  | [] => none
  | g :: rest =>
    match escaped? g.char with
    | some c => some ([c], rest)
    | none =>
      match codeWidth? g.char with
      | some width => do
        let (c, rest) ← codeChar? width rest
        some ([c], rest)
      | none => if isBreak g.char then some (breaks isBlank rest) else none

/-- The rest of a quoted scalar behind its opening quote; the first number bounds its length. -/
def quoted? (quote : Char) : Nat → List Glyph → Option (List Char × List Glyph)
  | 0, _ => none
  | _ + 1, [] => none
  | n + 1, g :: rest =>
    if g.char = quote then
      match rest with
      | h :: more =>
        if quote = '\'' ∧ h.char = '\'' then do
          let (cs, after) ← quoted? quote n more
          some ('\'' :: cs, after)
        else some ([], rest)
      | [] => some ([], [])
    else if isBlank g.char || isBreak g.char then
      let (space, _, more) := gap isBlank (g :: rest)
      do
        let (cs, after) ← quoted? quote n more
        some (space ++ cs, after)
    else if quote = '"' ∧ g.char = '\\' then do
      let (c, more) ← escape? rest
      let (cs, after) ← quoted? quote n more
      some (c ++ cs, after)
    else do
      let (cs, after) ← quoted? quote n rest
      some (g.char :: cs, after)

/-! ### Scanning -/

/-- The place of a node that is a key if a colon follows: the number of tokens before it, and
whether it has to be a key, since it stands where the keys of the block stand. -/
structure Candidate where
  position : Nat
  required : Bool
  start : Glyph

/-- The state of a scan: the text ahead, the tokens found (the last one first), the columns of the
open blocks and the candidate of each open flow level (the innermost first), and whether a key may
begin here. -/
structure Scan where
  rest : List Glyph
  tokens : List Token := []
  indents : List Nat := []
  candidates : List (Option Candidate) := [none]
  keyAllowed : Bool := true

namespace Scan

def inFlow (s : Scan) : Bool :=
  1 < s.candidates.length

def push (t : Token) (s : Scan) : Scan :=
  { s with tokens := t :: s.tokens }

/-- Whether a column lies further right than the innermost block. -/
def isDeeper (s : Scan) (column : Nat) : Bool :=
  match s.indents with
  | [] => true
  | i :: _ => i < column

/-- End the blocks that lie further right than a column. -/
def unwind (column : Nat) (s : Scan) : Scan :=
  let ended := (s.indents.takeWhile (column < ·)).length
  { s with
    indents := s.indents.drop ended
    tokens := List.replicate ended .endBlock ++ s.tokens }

/-- Give up the candidate of the current level, unless it has to be a key. -/
def forget (s : Scan) : Option Scan :=
  match s.candidates with
  | some c :: outer => if c.required then none else some { s with candidates := none :: outer }
  | _ => some s

/-- Give up the candidates that a colon at `g` comes too late for: those in another line or more
than 1024 characters away. -/
def dropStale (g : Glyph) (s : Scan) : Option Scan := do
  let candidates ← s.candidates.mapM fun candidate =>
    match candidate with
    | some c =>
      if c.start.line ≠ g.line ∨ 1024 < g.index - c.start.index then
        if c.required then none else some none
      else some (some c)
    | none => some none
  some { s with candidates := candidates }

/-- Note that a node begins at `g`. -/
def remember (g : Glyph) (s : Scan) : Option Scan := do
  if !s.keyAllowed then return s
  let s ← s.forget
  let required := !s.inFlow && s.indents.head? == some g.column
  return { s with candidates := some ⟨s.tokens.length, required, g⟩ :: s.candidates.tail }

/-- A colon: the candidate is a key, and with it a block may begin. -/
def takeColon (rest : List Glyph) (s : Scan) : Option Scan :=
  match s.candidates with
  | some c :: outer =>
    let begins := !s.inFlow && s.isDeeper c.start.column
    let after := s.tokens.take (s.tokens.length - c.position)
    let before := s.tokens.drop (s.tokens.length - c.position)
    some { s with
      rest := rest
      tokens := .value :: after ++ .key :: (if begins then .beginMap :: before else before)
      indents := if begins then c.start.column :: s.indents else s.indents
      candidates := none :: outer
      keyAllowed := false }
  | _ => none

/-- A dash: an entry of a block list, which may begin here. -/
def takeDash (g : Glyph) (rest : List Glyph) (s : Scan) : Option Scan := do
  if s.inFlow || !s.keyAllowed then none
  let s := if s.isDeeper g.column then
      { s.push .beginList with indents := g.column :: s.indents }
    else s
  let s ← s.forget
  some { s.push .dash with rest := rest, keyAllowed := true }

def openFlow (t : Token) (g : Glyph) (rest : List Glyph) (s : Scan) : Option Scan := do
  let s ← s.remember g
  some { s.push t with rest := rest, candidates := none :: s.candidates, keyAllowed := true }

def closeFlow (t : Token) (rest : List Glyph) (s : Scan) : Option Scan := do
  if !s.inFlow then none
  let s ← s.forget
  some { s.push t with rest := rest, candidates := s.candidates.tail, keyAllowed := false }

def takeComma (rest : List Glyph) (s : Scan) : Option Scan := do
  if !s.inFlow then none
  let s ← s.forget
  some { s.push .comma with rest := rest, keyAllowed := true }

def takeQuoted (g : Glyph) (rest : List Glyph) (s : Scan) : Option Scan := do
  let s ← s.remember g
  let (text, rest) ← quoted? g.char (rest.length + 1) rest
  some { s.push (.scalar (.str (String.ofList text))) with rest := rest, keyAllowed := false }

def takePlain (g : Glyph) (rest : List Glyph) (s : Scan) : Option Scan := do
  let s ← s.remember g
  let indent := match s.indents with
    | [] => 0
    | i :: _ => i + 1
  let (text, crossed, rest) := plain s.inFlow indent (rest.length + 1) (g :: rest)
  some { s.push (.scalar (resolve (String.ofList text))) with rest := rest, keyAllowed := crossed }

/-- The token that begins at `g`. -/
def take (g : Glyph) (rest : List Glyph) (s : Scan) : Option Scan :=
  let c := g.char
  if c = '[' then s.openFlow .openList g rest
  else if c = '\x7b' then s.openFlow .openMap g rest
  else if c = ']' then s.closeFlow .closeList rest
  else if c = '\x7d' then s.closeFlow .closeMap rest
  else if c = ',' then s.takeComma rest
  else if c = '-' ∧ atEnd rest then s.takeDash g rest
  else if c = ':' ∧ (s.inFlow ∨ atEnd rest) then s.takeColon rest
  else if c = '\'' ∨ c = '"' then s.takeQuoted g rest
  else if startsPlain s.inFlow c rest then s.takePlain g rest
  else none

/-- Leave out blanks, comments and line ends; whether a line ended. -/
def skip (inComment : Bool) : List Glyph → Bool × List Glyph
  | [] => (false, [])
  | g :: rest =>
    if isBreak g.char then (true, (skip false rest).2)
    else if inComment || g.char == ' ' then skip inComment rest
    else if g.char == '#' then skip true rest
    else (false, g :: rest)

/-- The tokens from here on; the number bounds the steps. -/
def run : Nat → Scan → Option (List Token)
  | 0, _ => none
  | n + 1, s =>
    let (crossed, rest) := skip false s.rest
    let s := { s with keyAllowed := s.keyAllowed || (crossed && !s.inFlow) }
    match rest with
    | [] => do
      if s.inFlow then none
      let s ← s.forget
      some (List.replicate s.indents.length .endBlock ++ s.tokens).reverse
    | g :: rest => do
      let s ← s.dropStale g
      let s := if s.inFlow then s else s.unwind g.column
      run n (← s.take g rest)

end Scan

/-- Whether a line begins with a document marker. -/
def hasMarker : List Glyph → Bool
  | [] => false
  | g :: rest => isMarker (g :: rest) || hasMarker rest

/-- The characters of a text with all line ends written as one character, and without the mark that
may precede a text. -/
def normalize (cs : List Char) : List Char :=
  let cs := match cs with
    | '\ufeff' :: rest => rest
    | _ => cs
  (Text.unifyLineEnds cs).map fun c => if c = '\x85' then '\n' else c

def tokens? (text : String) : Option (List Token) :=
  if !text.toList.all isReadable then none
  else
    let glyphs := place 0 0 0 (normalize text.toList)
    if hasMarker glyphs then none
    else Scan.run (glyphs.length + 1) { rest := glyphs }

end ApiSchema.Yaml
