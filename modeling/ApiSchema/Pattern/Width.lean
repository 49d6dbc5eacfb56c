import ApiSchema.Pattern.Syntax

/-!
# Widths of patterns

How many characters a match of a pattern may have, at least and at most.
-/

namespace ApiSchema.Pattern

/-- Widths are counted up to this number. -/
def widthLimit : Nat := Nat.pow 2 64

namespace Width

def add (a b : Width) : Width :=
  ⟨a.least + b.least, a.most + b.most⟩

/-- Either of two. -/
def either (a b : Width) : Width :=
  ⟨min a.least b.least, max a.most b.most⟩

def capped (a : Width) : Width :=
  ⟨min a.least widthLimit, min a.most widthLimit⟩

/-- Between so many and so many rounds. -/
def rounds (a : Width) (least : Nat) : Option Nat → Width
  | some most => ⟨a.least * least, a.most * most⟩
  | none => ⟨a.least * least, if a.most = 0 then 0 else widthLimit⟩

end Width

mutual

/-- The width of an item, given the widths of the groups. -/
def Item.width (groups : List (Option Width)) : Item → Width
  | .literal _ => ⟨1, 1⟩
  | .notLiteral _ => ⟨1, 1⟩
  | .anyChar => ⟨1, 1⟩
  | .set _ _ => ⟨1, 1⟩
  | .anchor _ => ⟨0, 0⟩
  | .branch alternatives => choiceWidth groups alternatives
  | .group _ _ _ body => (sequenceWidth groups body).capped
  | .atomic body => (sequenceWidth groups body).capped
  | .iterate _ least most body => (sequenceWidth groups body).capped.rounds least most
  | .look _ _ _ => ⟨0, 0⟩
  | .backreference number => ((groups[number]?).join).getD ⟨0, 0⟩
  | .conditional _ yes none => { (sequenceWidth groups yes).capped with least := 0 }
  | .conditional _ yes (some no) =>
    (sequenceWidth groups yes).capped.either (sequenceWidth groups no).capped

def sequenceWidth (groups : List (Option Width)) : List Item → Width
  | [] => ⟨0, 0⟩
  | item :: rest => (item.width groups).add (sequenceWidth groups rest)

def choiceWidth (groups : List (Option Width)) : List (List Item) → Width
  | [] => ⟨widthLimit, 0⟩
  | items :: rest => (sequenceWidth groups items).capped.either (choiceWidth groups rest)

end

end ApiSchema.Pattern
