/-!
# Patterns

Regular expressions as trees. Characters are code points, so that a pattern may name one that no text
holds.
-/

namespace ApiSchema.Pattern

/-- What can be switched on for a pattern or a part of it. -/
structure Flags where
  ignoreCase : Bool := false
  multiline : Bool := false
  dotAll : Bool := false
  verbose : Bool := false
  /-- Classes and case know ASCII only. -/
  ascii : Bool := false
  /-- Classes and case know all characters; the default. -/
  unicode : Bool := false
  /-- Repetition is refused. -/
  fixed : Bool := false
deriving DecidableEq

namespace Flags

/-- The flags of a part: some switched on, some off. -/
def combine (flags add del : Flags) : Flags :=
  let types := add.ascii || add.unicode
  { ignoreCase := (flags.ignoreCase || add.ignoreCase) && !del.ignoreCase
    multiline := (flags.multiline || add.multiline) && !del.multiline
    dotAll := (flags.dotAll || add.dotAll) && !del.dotAll
    verbose := (flags.verbose || add.verbose) && !del.verbose
    ascii := (if types then add.ascii else flags.ascii) && !del.ascii
    unicode := (if types then add.unicode else flags.unicode) && !del.unicode
    fixed := (flags.fixed || add.fixed) && !del.fixed }

/-- All flags of either. -/
def join (a b : Flags) : Flags where
  ignoreCase := a.ignoreCase || b.ignoreCase
  multiline := a.multiline || b.multiline
  dotAll := a.dotAll || b.dotAll
  verbose := a.verbose || b.verbose
  ascii := a.ascii || b.ascii
  unicode := a.unicode || b.unicode
  fixed := a.fixed || b.fixed

/-- The flags of both. -/
def meet (a b : Flags) : Flags where
  ignoreCase := a.ignoreCase && b.ignoreCase
  multiline := a.multiline && b.multiline
  dotAll := a.dotAll && b.dotAll
  verbose := a.verbose && b.verbose
  ascii := a.ascii && b.ascii
  unicode := a.unicode && b.unicode
  fixed := a.fixed && b.fixed

/-- The flag that a letter stands for. -/
def ofLetter? : Char → Option Flags
  | 'i' => some { ignoreCase := true }
  | 'm' => some { multiline := true }
  | 's' => some { dotAll := true }
  | 'x' => some { verbose := true }
  | 'a' => some { ascii := true }
  | 'u' => some { unicode := true }
  | 't' => some { fixed := true }
  | _ => none

end Flags

inductive CharClass where
  | digit
  | blank
  | word
deriving DecidableEq

/-- A member of a set of characters. -/
inductive SetItem where
  | char (code : Nat)
  | range (low high : Nat)
  | category (kind : CharClass) (negated : Bool)
deriving DecidableEq

/-- A place between characters. -/
inductive Anchor where
  /-- `^` -/
  | start
  /-- `\A` -/
  | textStart
  /-- `$` -/
  | stop
  /-- `\Z` -/
  | textEnd
  /-- `\b` -/
  | boundary
  /-- `\B` -/
  | noBoundary
deriving DecidableEq

/-- How a repetition chooses its number of rounds. -/
inductive Greed where
  /-- As many as possible, fewer if need be. -/
  | greedy
  /-- As few as possible, more if need be. -/
  | reluctant
  /-- As many as possible, and no other number. -/
  | possessive
deriving DecidableEq

/-- The least and the most characters of a match. -/
structure Width where
  least : Nat
  most : Nat
deriving DecidableEq

/-- One item of a sequence. -/
inductive Item where
  | literal (code : Nat)
  | notLiteral (code : Nat)
  | anyChar
  | set (negated : Bool) (members : List SetItem)
  | anchor (place : Anchor)
  | branch (alternatives : List (List Item))
  /-- A group, with its number if it is captured, and the flags switched on and off in it. -/
  | group (number : Option Nat) (add del : Flags) (body : List Item)
  /-- A group that is not entered a second way. -/
  | atomic (body : List Item)
  | iterate (greed : Greed) (least : Nat) (most : Option Nat) (body : List Item)
  /-- A test of what comes next, or, given its width, of what came before. -/
  | look (behind : Option Width) (negated : Bool) (body : List Item)
  | backreference (number : Nat)
  /-- One of two sequences, by whether a group has matched. -/
  | conditional (number : Nat) (yes : List Item) (no : Option (List Item))

/-- A pattern: the number of its groups, its flags and its items. -/
structure Regex where
  groups : Nat
  flags : Flags
  items : List Item

/-- Why a text is no pattern. -/
inductive Problem where
  | malformed (reason : String) (position : Option Nat)
  | tooManyRounds
  | clashingFlags
deriving DecidableEq

/-- The text of a problem: the reason and the position, with line and column if there are several
lines. -/
def Problem.message (pattern : List Char) : Problem → String
  | malformed reason none => reason
  | malformed reason (some position) =>
    let before := pattern.take position
    let line := before.count '\n' + 1
    let column := (before.reverse.takeWhile (· != '\n')).length + 1
    reason ++ " at position " ++ toString position ++
      if pattern.contains '\n' then
        " (line " ++ toString line ++ ", column " ++ toString column ++ ")"
      else ""
  | tooManyRounds => "the repetition number is too large"
  | clashingFlags => "ASCII and UNICODE flags are incompatible"

end ApiSchema.Pattern
