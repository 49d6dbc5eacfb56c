import ApiSchema.Pattern.Width
import ApiSchema.Text.Quoted
import ApiSchema.Unicode.Word

/-!
# Reading patterns

A pattern is cut into tokens, each a character or a backslash with the character behind it, and read
from left to right. Errors give a reason and the position it was noticed at.
-/

namespace ApiSchema.Pattern

/-! ### Tokens -/

/-- A character, a character behind a backslash, or a backslash at the end. -/
inductive Token where
  | plain (c : Char)
  | escaped (c : Char)
  | dangling
deriving DecidableEq

namespace Token

def chars : Token → List Char
  | plain c => [c]
  | escaped c => ['\\', c]
  | dangling => ['\\']

def length (t : Token) : Nat :=
  t.chars.length

end Token

/-- The tokens of a text with their positions. -/
def tokenize (position : Nat) : List Char → List (Nat × Token)
  | [] => []
  | '\\' :: c :: rest => (position, .escaped c) :: tokenize (position + 2) rest
  | c :: rest =>
    (position, if c = '\\' then .dangling else .plain c) :: tokenize (position + 1) rest

/-- What is known in the course of reading. -/
structure State where
  /-- The tokens to come. -/
  tokens : List (Nat × Token)
  /-- The length of the pattern. -/
  size : Nat
  /-- Flags switched on for the whole pattern. -/
  flags : Flags := {}
  names : List (String × Nat) := []
  /-- Widths of the groups opened so far, from group 0 on; an open group has none yet. -/
  widths : List (Option Width) := [none]
  /-- Inside a look-behind, the number of groups before it. -/
  behind : Option Nat := none
  /-- Groups that a condition asks for, with the position. -/
  asked : List (Nat × Nat) := []

abbrev Reader := StateT State (Except Problem)

namespace Reader

def peek : Reader (Option Token) := do
  return (← get).tokens.head?.map (·.2)

def position : Reader Nat := do
  let s ← get
  return (s.tokens.head?.map (·.1)).getD s.size

/-- A failure some characters before the next token. -/
def failBack {α : Type} (reason : String) (back : Nat) : Reader α := do
  throw (.malformed reason (some ((← position) - back)))

def fail {α : Type} (reason : String) : Reader α :=
  failBack reason 0

def failAt {α : Type} (reason : String) (position : Nat) : Reader α :=
  throw (.malformed reason (some position))

/-- Go on to these tokens. A backslash at the end is refused as soon as it comes next. -/
def goTo (tokens : List (Nat × Token)) : Reader Unit := do
  match tokens with
  | (_, .dangling) :: _ => failAt "bad escape (end of pattern)" ((← get).size - 1)
  | _ => modify fun s => { s with tokens := tokens }

def next : Reader (Option Token) := do
  let token ← peek
  goTo ((← get).tokens.drop 1)
  return token

/-- Take the next token if it is this character. -/
def accept (c : Char) : Reader Bool := do
  if (← peek) = some (.plain c) then
    let _ ← next
    return true
  else return false

/-- Take characters of a class, at most so many. -/
def takeUpTo (isMember : Char → Bool) : Nat → Reader (List Char)
  | 0 => return []
  | n + 1 => do
    match ← peek with
    | some (.plain c) =>
      if isMember c then
        let _ ← next
        return c :: (← takeUpTo isMember n)
      else return []
    | _ => return []

/-- Take characters of a class. -/
def takeAll (isMember : Char → Bool) : Reader (List Char) := do
  takeUpTo isMember (← get).tokens.length

/-- Take the tokens before a terminator, and the terminator; `taken` holds those taken so far. -/
def takeNameWithin (terminator : Char) (what : String) : Nat → List Char → Reader (List Char)
  | 0, _ => fail ("missing " ++ what)
  | n + 1, taken => do
    match ← next with
    | none =>
      if taken.isEmpty then fail ("missing " ++ what)
      else failBack ("missing " ++ terminator.toString ++ ", unterminated name") taken.length
    | some token =>
      if token = .plain terminator then
        if taken.isEmpty then failBack ("missing " ++ what) 1 else return taken
      else takeNameWithin terminator what n (taken ++ token.chars)

def takeName (terminator : Char) (what : String) : Reader (List Char) := do
  takeNameWithin terminator what ((← get).tokens.length + 1) []

/-! ### Groups -/

/-- The number of groups opened so far, the whole match among them. -/
def groupCount : Reader Nat := do
  return (← get).widths.length

/-- Whether a group has been opened and closed. -/
def isClosed (number : Nat) : Reader Bool := do
  return (((← get).widths[number]?).join).isSome

/-- A look-behind may refer to groups closed before it only. -/
def checkBehind (number : Nat) : Reader Unit := do
  match (← get).behind with
  | none => pure ()
  | some limit =>
    if !(← isClosed number) then fail "cannot refer to an open group"
    if limit ≤ number then
      fail "cannot refer to group defined in the same lookbehind subpattern"

/-- Refuse a name that is no identifier; it ends `back` characters before the next token. -/
def checkName (name : List Char) (back : Nat) : Reader Unit := do
  if !Unicode.isIdentifier name then
    failBack ("bad character in group name " ++ Text.quote (String.ofList name))
      (name.length + back)

/-- Open a group, with a name if it has one. -/
def openGroup (name : Option (List Char)) : Reader Nat := do
  let s ← get
  let number := s.widths.length
  match name with
  | none =>
    set { s with widths := s.widths ++ [none] }
    return number
  | some chars =>
    let text := String.ofList chars
    match s.names.lookup text with
    | some earlier =>
      failBack ("redefinition of group name " ++ Text.quote text ++ " as group " ++
        toString number ++ "; was group " ++ toString earlier) (chars.length + 1)
    | none =>
      set { s with widths := s.widths ++ [none], names := s.names ++ [(text, number)] }
      return number

def closeGroup (number : Nat) (body : List Item) : Reader Unit :=
  modify fun s =>
    { s with widths := s.widths.set number (some (sequenceWidth s.widths body).capped) }

/-! ### Escapes -/

def isOctal (c : Char) : Bool :=
  '0' ≤ c && c ≤ '7'

def isLetter (c : Char) : Bool :=
  ('a' ≤ c && c ≤ 'z') || ('A' ≤ c && c ≤ 'Z')

/-- The value of digits in a base. -/
def valueOf (base : Nat) (digits : List Char) : Nat :=
  digits.foldl (fun n c => base * n + (Text.hexValue? c).getD 0) 0

/-- Characters that letters stand for behind a backslash. -/
def control? : Char → Option Nat
  | 'a' => some 7
  | 'b' => some 8
  | 'f' => some 12
  | 'n' => some 10
  | 'r' => some 13
  | 't' => some 9
  | 'v' => some 11
  | '\\' => some 92
  | _ => none

/-- Classes that letters stand for behind a backslash. -/
def class? : Char → Option SetItem
  | 'd' => some (.category .digit false)
  | 'D' => some (.category .digit true)
  | 's' => some (.category .blank false)
  | 'S' => some (.category .blank true)
  | 'w' => some (.category .word false)
  | 'W' => some (.category .word true)
  | _ => none

/-- Anchors that letters stand for behind a backslash. -/
def anchor? : Char → Option Anchor
  | 'A' => some .textStart
  | 'b' => some .boundary
  | 'B' => some .noBoundary
  | 'Z' => some .textEnd
  | _ => none

def badEscape {α : Type} (escape : List Char) : Reader α :=
  failBack ("bad escape " ++ String.ofList escape) escape.length

/-- A character given by so many hexadecimal digits. -/
def readHex (letter : Char) (count : Nat) : Reader Nat := do
  let digits ← takeUpTo Text.isHex count
  let escape := '\\' :: letter :: digits
  if digits.length ≠ count then
    failBack ("incomplete escape " ++ String.ofList escape) escape.length
  let code := valueOf 16 digits
  if 0x110000 ≤ code then badEscape escape
  return code

/-- A character given by its name. No names are known. -/
def readNamed : Reader Nat := do
  if !(← accept '\x7b') then fail "missing \x7b"
  let name ← takeName '\x7d' "character name"
  failBack ("undefined character name " ++ Text.quote (String.ofList name)) (name.length + 4)

/-- Check an octal escape. -/
def octal (digits : List Char) : Reader Nat := do
  let code := valueOf 8 digits
  if 0o377 < code then
    let escape := '\\' :: digits
    failBack ("octal escape value " ++ String.ofList escape ++ " outside of range 0-0o377")
      escape.length
  return code

/-- A character given by a letter or by itself. -/
def readPlainEscape (c : Char) : Reader Nat := do
  if isLetter c then badEscape ['\\', c]
  return c.toNat

/-- An escape in a set. -/
def readSetEscape (c : Char) : Reader SetItem := do
  match control? c, class? c with
  | some code, _ => return .char code
  | none, some item => return item
  | none, none =>
    if c = 'x' then return .char (← readHex c 2)
    else if c = 'u' then return .char (← readHex c 4)
    else if c = 'U' then return .char (← readHex c 8)
    else if c = 'N' then return .char (← readNamed)
    else if isOctal c then return .char (← octal (c :: (← takeUpTo isOctal 2)))
    else if c.isDigit then badEscape ['\\', c]
    else return .char (← readPlainEscape c)

/-- A reference to a group by number. -/
def readReference (digits : List Char) : Reader Item := do
  let number := valueOf 10 digits
  if (← groupCount) ≤ number then
    failBack ("invalid group reference " ++ toString number) digits.length
  if !(← isClosed number) then failBack "cannot refer to an open group" (digits.length + 1)
  checkBehind number
  return .backreference number

/-- A digit behind a backslash: three octal digits make a character, other digits a reference. -/
def readDigits (c : Char) : Reader Item := do
  let second ← takeUpTo Char.isDigit 1
  match second with
  | [d] =>
    if isOctal c && isOctal d then
      match ← takeUpTo isOctal 1 with
      | [e] => return .literal (← octal [c, d, e])
      | _ => readReference [c, d]
    else readReference [c, d]
  | _ => readReference [c]

/-- An escape outside of sets. -/
def readEscape (c : Char) : Reader Item := do
  match anchor? c, class? c, control? c with
  | some place, _, _ => return .anchor place
  | none, some item, _ => return .set false [item]
  | none, none, some code => return .literal code
  | none, none, none =>
    if c = 'x' then return .literal (← readHex c 2)
    else if c = 'u' then return .literal (← readHex c 4)
    else if c = 'U' then return .literal (← readHex c 8)
    else if c = 'N' then return .literal (← readNamed)
    else if c = '0' then return .literal (valueOf 8 (← takeUpTo isOctal 2))
    else if c.isDigit then readDigits c
    else return .literal (← readPlainEscape c)

/-! ### Sets -/

def readMember (token : Token) : Reader SetItem :=
  match token with
  | .escaped c => readSetEscape c
  | .plain c => return .char c.toNat
  | .dangling => return .char '\\'.toNat

def readRange (low high : Token) (first second : SetItem) : Reader SetItem := do
  let bad : Reader SetItem :=
    failBack ("bad character range " ++ String.ofList (low.chars ++ '-' :: high.chars))
      (low.length + 1 + high.length)
  match first, second with
  | .char a, .char b => if b < a then bad else return .range a b
  | _, _ => bad

/-- The members of a set that was opened at `start`, up to its closing bracket. -/
def readMembers (start : Nat) : Nat → List SetItem → Reader (List SetItem)
  | 0, _ => failAt "unterminated character set" start
  | n + 1, members => do
    match ← next with
    | none => failAt "unterminated character set" start
    | some token =>
      if token = .plain ']' && !members.isEmpty then return members
      let first ← readMember token
      if ← accept '-' then
        match ← next with
        | none => failAt "unterminated character set" start
        | some other =>
          if other = .plain ']' then return members ++ [first, .char '-'.toNat]
          let second ← readMember other
          let range ← readRange token other first second
          readMembers start n (members ++ [range])
      else readMembers start n (members ++ [first])

/-- A set, behind its opening bracket. -/
def readSet : Reader Item := do
  let start := (← position) - 1
  let negated ← accept '^'
  let members ← readMembers start ((← get).tokens.length + 1) []
  match members.eraseDups with
  | [.char code] => return if negated then .notLiteral code else .literal code
  | members => return .set negated members

/-! ### Repetition -/

/-- The most rounds that can be asked for. -/
def roundLimit : Nat := 4294967295

def readRounds (digits : List Char) : Reader (Option Nat) := do
  if digits.isEmpty then return none
  let n := valueOf 10 digits
  if roundLimit ≤ n then throw .tooManyRounds
  return some n

/-- The bounds of a repetition in braces, behind the opening one. Braces that hold no bounds are
characters like any other. -/
def readBraces : Reader (Option (Nat × Option Nat)) := do
  let start ← get
  if (← peek) = some (.plain '\x7d') then return none
  let low ← takeAll Char.isDigit
  let high ← if ← accept ',' then takeAll Char.isDigit else pure low
  if !(← accept '\x7d') then
    set start
    return none
  let least ← readRounds low
  let most ← readRounds high
  match most with
  | some m =>
    if m < least.getD 0 then
      failAt "min repeat greater than max repeat"
        ((start.tokens.head?.map (·.1)).getD start.size)
  | none => pure ()
  return some (least.getD 0, most)

/-- The bounds that a repetition sign stands for, behind it. -/
def readBounds (sign : Char) : Reader (Option (Nat × Option Nat)) :=
  if sign = '?' then return some (0, some 1)
  else if sign = '*' then return some (0, none)
  else if sign = '+' then return some (1, none)
  else readBraces

def Item.isAnchor : Item → Bool
  | .anchor _ => true
  | _ => false

def Item.isIterate : Item → Bool
  | .iterate .. => true
  | _ => false

/-- Repeat the last of the items read so far, which are held in reverse. -/
def repeatLast (position : Nat) (bounds : Nat × Option Nat) : List Item → Reader (List Item)
  | [] => failAt "nothing to repeat" position
  | item :: rest => do
    if Item.isAnchor item then failAt "nothing to repeat" position
    if Item.isIterate item then failAt "multiple repeat" position
    let greed ←
      if ← accept '?' then pure Greed.reluctant
      else if ← accept '+' then pure Greed.possessive
      else pure Greed.greedy
    return .iterate greed bounds.1 bounds.2 [item] :: rest

/-! ### Flags -/

def flagOf? : Option Token → Option Flags
  | some (.plain c) => Flags.ofLetter? c
  | _ => none

/-- Whether a token is a letter, of whatever script. -/
def isAlphabetic : Token → Bool
  | .plain c => Unicode.isAlphanumeric c && !Unicode.isDigit c
  | _ => false

/-- A failure at a token just taken that is no flag. -/
def failFlag {α : Type} (token : Token) (otherwise : String) : Reader α :=
  failBack (if isAlphabetic token then "unknown flag" else otherwise) token.length

/-- Flags switched on, from `token` on, up to one of the signs behind them. -/
def readAdded : Nat → Token → Flags → Reader (Flags × Char)
  | 0, _, _ => fail "missing -, : or )"
  | n + 1, token, flags => do
    if token = .plain 'L' then
      fail "bad inline flags: cannot use 'L' flag with a str pattern"
    let flag := (flagOf? (some token)).getD {}
    let flags := flags.join flag
    if (flag.ascii || flag.unicode) && flags.ascii && flags.unicode then
      fail "bad inline flags: flags 'a', 'u' and 'L' are incompatible"
    match ← next with
    | none => fail "missing -, : or )"
    | some (.plain c) =>
      if c = ')' || c = '-' || c = ':' then return (flags, c)
      if (Flags.ofLetter? c).isSome || c = 'L' then readAdded n (.plain c) flags
      else failFlag (.plain c) "missing -, : or )"
    | some other => failFlag other "missing -, : or )"

/-- Flags switched off, from `token` on, up to the colon behind them. -/
def readRemoved : Nat → Token → Flags → Reader Flags
  | 0, _, _ => fail "missing :"
  | n + 1, token, flags => do
    let flag := (flagOf? (some token)).getD {}
    if flag.ascii || flag.unicode || token = .plain 'L' then
      fail "bad inline flags: cannot turn off flags 'a', 'u' and 'L'"
    let flags := flags.join flag
    match ← next with
    | none => fail "missing :"
    | some (.plain c) =>
      if c = ':' then return flags
      if (Flags.ofLetter? c).isSome || c = 'L' then readRemoved n (.plain c) flags
      else failFlag (.plain c) "missing :"
    | some other => failFlag other "missing :"

/-- Flags from `first` on. Flags for the whole pattern are switched on at once, and nothing is
returned; otherwise the result is what is switched on and off for a group. -/
def readFlags (first : Char) : Reader (Option (Flags × Flags)) := do
  let bound := (← get).tokens.length + 1
  let (add, sign) ←
    if first = '-' then pure ({}, '-') else readAdded bound (.plain first) {}
  if sign = ')' then
    modify fun s => { s with flags := s.flags.join add }
    return none
  if add.fixed then failBack "bad inline flags: cannot turn on global flag" 1
  let del ←
    if sign = '-' then
      match ← next with
      | none => fail "missing flag"
      | some (.plain c) =>
        if (Flags.ofLetter? c).isSome || c = 'L' then readRemoved bound (.plain c) {}
        else failFlag (.plain c) "missing flag"
      | some other => failFlag other "missing flag"
    else pure {}
  if del.fixed then failBack "bad inline flags: cannot turn off global flag" 1
  if add.meet del ≠ {} then failBack "bad inline flags: flag turned on and off" 1
  return some (add, del)

/-! ### Groups and sequences -/

/-- The number that digits, of whatever script, stand for, with blanks around, a sign in front and
single underscores inside allowed. -/
def number? (text : List Char) : Option Int :=
  let (negative, body) : Bool × List Char :=
    match Text.strip Unicode.isBlank text with
    | '-' :: rest => (true, rest)
    | '+' :: rest => (false, rest)
    | rest => (false, rest)
  let groups := body.splitOn '_'
  if groups.any (·.isEmpty) then none
  else
    (groups.flatten.mapM Unicode.decimalValue?).map fun digits =>
      let n : Nat := digits.foldl (fun n d => 10 * n + d) 0
      if negative then -(n : Int) else n

/-- The most groups that can be referred to. -/
def groupLimit : Nat := 1073741823

/-- The group that a condition asks for, behind the opening parenthesis. -/
def readCondition : Reader Nat := do
  let name ← takeName ')' "group name"
  let text := String.ofList name
  if Unicode.isIdentifier name then
    match (← get).names.lookup text with
    | some number => return number
    | none => failBack ("unknown group name " ++ Text.quote text) (name.length + 1)
  match number? name with
  | some (.ofNat number) =>
    if number = 0 then failBack "bad group number" (name.length + 1)
    if groupLimit ≤ number then
      failBack ("invalid group reference " ++ toString number) (name.length + 1)
    let here := (← position) - name.length - 1
    modify fun s =>
      if (s.asked.lookup number).isSome then s
      else { s with asked := s.asked ++ [(number, here)] }
    return number
  | _ => failBack ("bad character in group name " ++ Text.quote text) (name.length + 1)

/-- Skip a comment that was opened at `start`, up to its closing parenthesis. -/
def skipComment (start : Nat) : Nat → Reader Unit
  | 0 => failAt "missing ), unterminated comment" start
  | n + 1 => do
    match ← peek with
    | none => failAt "missing ), unterminated comment" start
    | some _ =>
      if (← next) = some (.plain ')') then return
      skipComment start n

def skipLine : Nat → Reader Unit
  | 0 => return
  | n + 1 => do
    match ← next with
    | none => return
    | some token => if token = .plain '\n' then return else skipLine n

/-- A reference to a group by name, behind the equals sign. -/
def readNamedReference : Reader Item := do
  let name ← takeName ')' "group name"
  checkName name 1
  match (← get).names.lookup (String.ofList name) with
  | none =>
    failBack ("unknown group name " ++ Text.quote (String.ofList name)) (name.length + 1)
  | some number =>
    if !(← isClosed number) then failBack "cannot refer to an open group" (name.length + 1)
    checkBehind number
    return .backreference number

/-- How a group opens, behind its parenthesis. -/
inductive Opening where
  /-- A group whose body follows. -/
  | body (captured : Bool) (name : Option (List Char)) (atomic : Bool) (add del : Flags)
  /-- A look-around whose body follows. -/
  | look (behind negated : Bool)
  /-- A condition whose alternatives follow. -/
  | condition
  /-- A finished item. -/
  | item (item : Item)
  /-- Nothing that matches: a comment. -/
  | comment
  /-- Flags for the whole pattern. -/
  | flags

/-- How a group that was opened at `start` opens. -/
def readOpening (start : Nat) : Reader Opening := do
  if !(← accept '?') then return .body true none false {} {}
  match ← next with
  | none => fail "unexpected end of pattern"
  | some token =>
    match token with
    | .plain 'P' =>
      if ← accept '<' then
        let name ← takeName '>' "group name"
        checkName name 1
        return .body true (some name) false {} {}
      else if ← accept '=' then return .item (← readNamedReference)
      else
        match ← next with
        | none => fail "unexpected end of pattern"
        | some other =>
          failBack ("unknown extension ?P" ++ String.ofList other.chars) (other.length + 2)
    | .plain ':' => return .body false none false {} {}
    | .plain '#' =>
      skipComment start ((← get).tokens.length + 1)
      return .comment
    | .plain '=' => return .look false false
    | .plain '!' => return .look false true
    | .plain '<' =>
      match ← next with
      | none => fail "unexpected end of pattern"
      | some (.plain '=') => return .look true false
      | some (.plain '!') => return .look true true
      | some other =>
        failBack ("unknown extension ?<" ++ String.ofList other.chars) (other.length + 2)
    | .plain '(' => return .condition
    | .plain '>' => return .body false none true {} {}
    | .plain c =>
      if (Flags.ofLetter? c).isSome || c = 'L' || c = '-' then
        match ← readFlags c with
        | none => return .flags
        | some (add, del) => return .body false none false add del
      else failBack ("unknown extension ?" ++ String.ofList [c]) 2
    | other => failBack ("unknown extension ?" ++ String.ofList other.chars) (other.length + 1)

/-- Close a group that was opened at `start`. -/
def closeParenthesis (start : Nat) : Reader Unit := do
  if !(← accept ')') then failAt "missing ), unterminated subpattern" start

/-- Blanks that verbose patterns may hold. -/
def isVerboseBlank (c : Char) : Bool :=
  c == ' ' || ('\t' ≤ c && c ≤ '\r')

mutual

/-- Read alternatives. The outermost ones take the flags of the whole pattern. -/
def readChoice : Nat → Bool → Bool → Reader (List Item)
  | 0, _, _ => fail "unexpected end of pattern"
  | n + 1, verbose, outermost => do
    let first ← readSequence n verbose outermost []
    let others ← readAlternatives n verbose outermost
    return if others.isEmpty then first else [.branch (first :: others)]

/-- Read the alternatives behind the first one. -/
def readAlternatives : Nat → Bool → Bool → Reader (List (List Item))
  | 0, _, _ => fail "unexpected end of pattern"
  | n + 1, verbose, outermost => do
    if !(← accept '|') then return []
    let flags := (← get).flags
    let verbose := if outermost then flags.verbose else verbose
    let items ← readSequence n verbose false []
    let others ← readAlternatives n verbose outermost
    return items :: others

/-- Read a sequence behind the items read so far, which are held in reverse. Flags for the whole
pattern may stand at its start only: `first` tells whether this is the first sequence of all. -/
def readSequence : Nat → Bool → Bool → List Item → Reader (List Item)
  | 0, _, _, _ => fail "unexpected end of pattern"
  | n + 1, verbose, first, items => do
    match ← peek with
    | none => return items.reverse
    | some (.plain c) =>
      if c = '|' || c = ')' then return items.reverse
      let _ ← next
      if verbose && isVerboseBlank c then readSequence n verbose first items
      else if verbose && c = '#' then
        skipLine ((← get).tokens.length + 1)
        readSequence n verbose first items
      else if c = '[' then
        let item ← readSet
        readSequence n verbose first (item :: items)
      else if c = '*' || c = '+' || c = '?' || c = '\x7b' then
        let here := (← position) - 1
        match ← readBounds c with
        | none => readSequence n verbose first (.literal c.toNat :: items)
        | some bounds =>
          let items ← repeatLast here bounds items
          readSequence n verbose first items
      else if c = '.' then readSequence n verbose first (.anyChar :: items)
      else if c = '^' then readSequence n verbose first (.anchor .start :: items)
      else if c = '$' then readSequence n verbose first (.anchor .stop :: items)
      else if c = '(' then
        let start := (← position) - 1
        match ← readOpening start with
        | .comment => readSequence n verbose first items
        | .flags =>
          if !first || !items.isEmpty then
            failAt "global flags not at the start of the expression" start
          let flags := (← get).flags
          readSequence n flags.verbose first items
        | .item item => readSequence n verbose first (item :: items)
        | opening =>
          let item ← readGroup n verbose start opening
          readSequence n verbose first (item :: items)
      else readSequence n verbose first (.literal c.toNat :: items)
    | some (.escaped c) =>
      let _ ← next
      let item ← readEscape c
      readSequence n verbose first (item :: items)
    | some .dangling => fail "bad escape (end of pattern)"

/-- Read the rest of a group that was opened at `start`. -/
def readGroup : Nat → Bool → Nat → Opening → Reader Item
  | 0, _, _, _ => fail "unexpected end of pattern"
  | n + 1, verbose, start, opening => do
    match opening with
    | .look behind negated =>
      let outer := (← get).behind
      if behind && outer.isNone then
        modify fun s => { s with behind := some s.widths.length }
      let body ← readChoice n verbose false
      if behind && outer.isNone then modify fun s => { s with behind := none }
      closeParenthesis start
      let widths := (← get).widths
      return .look (if behind then some (sequenceWidth widths body).capped else none) negated body
    | .condition =>
      let number ← readCondition
      checkBehind number
      let yes ← readSequence n verbose false []
      let no ←
        if ← accept '|' then
          let no ← readSequence n verbose false []
          if (← peek) = some (.plain '|') then
            fail "conditional backref with more than two branches"
          pure (some no)
        else pure none
      closeParenthesis start
      return .conditional number yes no
    | .body captured name atomic add del =>
      let number ← if captured then some <$> openGroup name else pure none
      let body ← readChoice n ((verbose || add.verbose) && !del.verbose) false
      closeParenthesis start
      match number with
      | some number => closeGroup number body
      | none => pure ()
      return if atomic then .atomic body else .group number add del body
    | .item item => return item
    | .comment => return .group none {} {} []
    | .flags => return .group none {} {} []

end

end Reader

/-! ### Checks after reading -/

mutual

/-- The first fault of an item that only shows when the whole pattern is known: a look-behind
without a fixed width, or a repetition where none is allowed. -/
def Item.fault? (flags : Flags) : Item → Option String
  | .branch alternatives => choiceFault? flags alternatives
  | .group _ add del body => sequenceFault? (flags.combine add del) body
  | .atomic body => sequenceFault? flags body
  | .iterate greed _ _ body =>
    if flags.fixed then
      some ("internal: unsupported template operator " ++
        match greed with
        | .greedy => "MAX_REPEAT"
        | .reluctant => "MIN_REPEAT"
        | .possessive => "POSSESSIVE_REPEAT")
    else sequenceFault? flags body
  | .look (some width) _ body =>
    if Reader.roundLimit < width.least then some "looks too much behind"
    else if width.least ≠ width.most then some "look-behind requires fixed-width pattern"
    else sequenceFault? flags body
  | .look none _ body => sequenceFault? flags body
  | .conditional _ yes none => sequenceFault? flags yes
  | .conditional _ yes (some no) =>
    match sequenceFault? flags yes with
    | some fault => some fault
    | none => sequenceFault? flags no
  | _ => none

def sequenceFault? (flags : Flags) : List Item → Option String
  | [] => none
  | item :: rest =>
    match item.fault? flags with
    | some fault => some fault
    | none => sequenceFault? flags rest

def choiceFault? (flags : Flags) :
    List (List Item) → Option String
  | [] => none
  | items :: rest =>
    match sequenceFault? flags items with
    | some fault => some fault
    | none => choiceFault? flags rest

end

def readAll : Reader Regex := do
  let tokens := (← get).tokens
  Reader.goTo tokens
  let items ← Reader.readChoice (4 * tokens.length + 4) false true
  let s ← get
  if s.flags.ascii && s.flags.unicode then throw .clashingFlags
  if !s.tokens.isEmpty then Reader.fail "unbalanced parenthesis"
  match s.asked.find? fun (number, _) => s.widths.length ≤ number with
  | some (number, position) =>
    Reader.failAt ("invalid group reference " ++ toString number) position
  | none => pure ()
  match sequenceFault? s.flags items with
  | some fault => throw (.malformed fault none)
  | none => return ⟨s.widths.length, s.flags, items⟩

def read (pattern : List Char) : Except Problem Regex :=
  readAll.run' { tokens := tokenize 0 pattern, size := pattern.length }

end ApiSchema.Pattern
