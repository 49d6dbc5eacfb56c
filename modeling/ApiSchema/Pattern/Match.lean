import ApiSchema.Pattern.Syntax
import ApiSchema.Unicode.Case
import ApiSchema.Unicode.Word

/-!
# Matching

A match tries the ways through a pattern in order of preference: earlier alternatives first, longer
repetitions first unless they are reluctant. What is left to match is a function of the place
reached, so that a later failure comes back to the last choice.
-/

namespace ApiSchema.Pattern

/-! ### Single characters -/

def CharClass.holds (ascii : Bool) (c : Char) : CharClass → Bool
  | .digit => if ascii then c.isDigit else Unicode.isDecimal c
  | .blank => if ascii then c == ' ' || ('\t' ≤ c && c ≤ '\r') else Unicode.isBlank c
  | .word => if ascii then c.isAlphanum || c == '_' else Unicode.isWord c

def char? (code : Nat) : Option Char :=
  if code.isValidChar then some (Char.ofNat code) else none

/-- Lower case, as far as the flags know it. -/
def lower (flags : Flags) (c : Char) : Char :=
  if flags.ascii then c.toLower else Unicode.toLower c

def lowerCode (flags : Flags) (code : Nat) : Nat :=
  match char? code with
  | some c => (lower flags c).toNat
  | none => code

/-- Whether a code point has two cases, as far as the flags know it. -/
def isCased (flags : Flags) (code : Nat) : Bool :=
  match char? code with
  | some c => if flags.ascii then c.isAlpha else Unicode.isCased c
  | none => false

/-- Letters in lower case that share a capital with this one. -/
def relatives (flags : Flags) (code : Nat) : List Nat :=
  if flags.ascii then [] else (Unicode.sharedCapitals.lookup code).getD []

/-- Whether a character is the one of the code point, regardless of case if the flags say so. -/
def isLiteral (flags : Flags) (code : Nat) (c : Char) : Bool :=
  if flags.ignoreCase && isCased flags code then
    let low := lowerCode flags code
    (low :: relatives flags low).contains (lower flags c).toNat
  else c.toNat == code

/-- The last code point of the basic plane. -/
def basicLimit : Nat := 0xffff

/-- Membership regardless of case; `c` is in lower case. -/
def SetItem.holdsFolded (flags : Flags) (c : Char) : SetItem → Bool
  | .char code =>
    let low := lowerCode flags code
    if basicLimit < low then c.toNat == code
    else (low :: relatives flags low).contains c.toNat
  | .range first last =>
    let near := (min last basicLimit + 1) - first
    (List.range near).any (fun i =>
      let low := lowerCode flags (first + i)
      (low :: relatives flags low).contains c.toNat) ||
    (basicLimit < last &&
      ((first ≤ c.toNat && c.toNat ≤ last) ||
        (match Unicode.toUpper c with
          | [u] => first ≤ u.toNat && u.toNat ≤ last
          | _ => false)))
  | .category kind negated => kind.holds flags.ascii c != negated

/-- Membership as it stands. -/
def SetItem.holds (flags : Flags) (c : Char) : SetItem → Bool
  | .char code => c.toNat == code
  | .range first last => first ≤ c.toNat && c.toNat ≤ last
  | .category kind negated => kind.holds flags.ascii c != negated

def SetItem.isCased (flags : Flags) : SetItem → Bool
  | .char code => basicLimit < code || Pattern.isCased flags code
  | .range first last =>
    basicLimit < last ||
      (List.range (last + 1 - first)).any fun i => Pattern.isCased flags (first + i)
  | .category _ _ => false

def inSet (flags : Flags) (negated : Bool) (members : List SetItem) (c : Char) : Bool :=
  let found :=
    if flags.ignoreCase && members.any (SetItem.isCased flags) then
      members.any (SetItem.holdsFolded flags (lower flags c))
    else members.any (SetItem.holds flags c)
  found != negated

/-! ### Places -/

/-- A place in a text, with the stretches that groups have matched. -/
structure Place where
  position : Nat
  captures : List (Nat × Nat × Nat) := []

namespace Place

def advance (p : Place) : Place :=
  { p with position := p.position + 1 }

/-- Note that a group has matched from `start` up to here. -/
def capture (number : Option Nat) (start : Nat) (p : Place) : Place :=
  match number with
  | some n => { p with captures := (n, start, p.position) :: p.captures }
  | none => p

def captured? (number : Nat) (p : Place) : Option (Nat × Nat) :=
  p.captures.lookup number

end Place

section

variable (text : Array Char)

/-- Whether a word character stands at a position. -/
def isWordAt (flags : Flags) (position : Nat) : Bool :=
  match text[position]? with
  | some c => CharClass.word.holds flags.ascii c
  | none => false

/-- Whether exactly one side of a position is a word. -/
def isBoundary (flags : Flags) (position : Nat) : Bool :=
  (0 < position && isWordAt text flags (position - 1)) != isWordAt text flags position

def Anchor.holds (flags : Flags) (position : Nat) : Anchor → Bool
  | .start =>
    position == 0 || (flags.multiline && text[position - 1]? == some '\n')
  | .textStart => position == 0
  | .stop =>
    position == text.size || (position + 1 == text.size && text[position]? == some '\n') ||
      (flags.multiline && text[position]? == some '\n')
  | .textEnd => position == text.size
  | .boundary => text.size != 0 && isBoundary text flags position
  | .noBoundary => text.size != 0 && !isBoundary text flags position

/-- Match one character by a test. -/
def matchChar (test : Char → Bool) (p : Place) (rest : Place → Option Place) : Option Place :=
  match text[p.position]? with
  | some c => if test c then rest p.advance else none
  | none => none

/-- The place behind a repetition of the stretch from `start` to `stop`. -/
def matchStretch (flags : Flags) (start stop : Nat) (p : Place) : Option Place :=
  let same (i : Nat) : Bool :=
    match text[start + i]?, text[p.position + i]? with
    | some a, some b => if flags.ignoreCase then lower flags a == lower flags b else a == b
    | _, _ => false
  if (List.range (stop - start)).all same then
    some { p with position := p.position + (stop - start) }
  else none

mutual

/-- Match a sequence, then the rest. -/
def matchItems : Nat → Flags → List Item → Place → (Place → Option Place) → Option Place
  | 0, _, _, _, _ => none
  | _ + 1, _, [], p, rest => rest p
  | n + 1, flags, item :: items, p, rest =>
    matchItem n flags item p fun q => matchItems n flags items q rest

def matchItem : Nat → Flags → Item → Place → (Place → Option Place) → Option Place
  | 0, _, _, _, _ => none
  | n + 1, flags, item, p, rest =>
    match item with
    | .literal code => matchChar text (isLiteral flags code) p rest
    | .notLiteral code => matchChar text (fun c => !isLiteral flags code c) p rest
    | .anyChar => matchChar text (fun c => flags.dotAll || c != '\n') p rest
    | .set negated members => matchChar text (inSet flags negated members) p rest
    | .anchor place => if place.holds text flags p.position then rest p else none
    | .branch alternatives => matchChoice n flags alternatives p rest
    | .group number add del body =>
      matchItems n (flags.combine add del) body p fun q => rest (q.capture number p.position)
    | .atomic body => (matchItems n flags body p some).bind rest
    | .iterate .greedy least most body =>
      matchLoop n flags true least most body 0 none p rest
    | .iterate .reluctant least most body =>
      matchLoop n flags false least most body 0 none p rest
    | .iterate .possessive least most body =>
      (matchRounds n flags least most body 0 p).bind rest
    | .look behind negated body =>
      let back := (behind.map Width.least).getD 0
      let found :=
        if p.position < back then none
        else matchItems n flags body { p with position := p.position - back } some
      match found, negated with
      | some q, false => rest { q with position := p.position }
      | none, true => rest p
      | _, _ => none
    | .backreference number =>
      match p.captured? number with
      | some (start, stop) => (matchStretch text flags start stop p).bind rest
      | none => none
    | .conditional number yes no =>
      matchItems n flags (if (p.captured? number).isSome then yes else no.getD []) p rest

def matchChoice : Nat → Flags → List (List Item) → Place → (Place → Option Place) → Option Place
  | 0, _, _, _, _ => none
  | _ + 1, _, [], _, _ => none
  | n + 1, flags, items :: others, p, rest =>
    matchItems n flags items p rest <|> matchChoice n flags others p rest

/-- Match further rounds of a repetition, `count` of which are done, then the rest. The last optional
round began at `last`; one that would begin there again is not tried. -/
def matchLoop : Nat → Flags → Bool → Nat → Option Nat → List Item → Nat → Option Nat → Place →
    (Place → Option Place) → Option Place
  | 0, _, _, _, _, _, _, _, _, _ => none
  | n + 1, flags, greedy, least, most, body, count, last, p, rest =>
    let again (last : Option Nat) : Option Place :=
      matchItems n flags body p fun q =>
        matchLoop n flags greedy least most body (count + 1) last q rest
    if count < least then again last
    else
      let may := most.all (count < ·) && last != some p.position
      if !may then rest p
      else if greedy then again (some p.position) <|> rest p
      else rest p <|> again (some p.position)

/-- Match as many rounds as there are, each in the first way found. -/
def matchRounds : Nat → Flags → Nat → Option Nat → List Item → Nat → Place → Option Place
  | 0, _, _, _, _, _, _ => none
  | n + 1, flags, least, most, body, count, p =>
    if most.all (count < ·) then
      match matchItems n flags body p some with
      | some q =>
        if least ≤ count + 1 && q.position == p.position then some q
        else matchRounds n flags least most body (count + 1) q
      | none => if count < least then none else some p
    else some p

end

end

/-! ### Searching -/

mutual

/-- A bound on the steps that lead into and along an item, for a text of `size` characters: a
repetition has no more optional rounds than there are places. -/
def Item.bound (size : Nat) : Item → Nat
  | .branch alternatives => choiceBound size alternatives + 1
  | .group _ _ _ body => sequenceBound size body + 1
  | .atomic body => sequenceBound size body + 1
  | .iterate _ least _ body => sequenceBound size body + least + size + 3
  | .look _ _ body => sequenceBound size body + 1
  | .conditional _ yes none => sequenceBound size yes + 1
  | .conditional _ yes (some no) => sequenceBound size yes + sequenceBound size no + 1
  | _ => 1

def sequenceBound (size : Nat) : List Item → Nat
  | [] => 1
  | item :: rest => item.bound size + sequenceBound size rest + 1

def choiceBound (size : Nat) : List (List Item) → Nat
  | [] => 1
  | items :: rest => sequenceBound size items + choiceBound size rest + 1

end

/-- Whether a pattern matches somewhere in a text. -/
def Regex.isFoundIn (regex : Regex) (text : List Char) : Bool :=
  let chars := text.toArray
  let bound := sequenceBound chars.size regex.items + 1
  (List.range (chars.size + 1)).any fun start =>
    (matchItems chars bound regex.flags regex.items ⟨start, []⟩ some).isSome

end ApiSchema.Pattern
