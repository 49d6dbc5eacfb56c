import ApiSchema.Number.Decimal
import ApiSchema.Text.Basic

/-!
# Dates and times

Dates of the Gregorian calendar from year 1 to year 9999, and times of day with an offset.
-/

namespace ApiSchema.Format

/-- So many decimal digits, and what follows. -/
def digits? (count : Nat) (cs : List Char) : Option (Nat × List Char) :=
  let digits := cs.take count
  if digits.length = count ∧ digits.all Char.isDigit then
    some (Double.digitsValue digits, cs.drop count)
  else none

/-- A given character, and what follows. -/
def char? (isMember : Char → Bool) : List Char → Option (List Char)
  | c :: rest => if isMember c then some rest else none
  | [] => none

def isLeapYear (year : Nat) : Bool :=
  year % 4 == 0 && (year % 100 != 0 || year % 400 == 0)

def daysInMonth (year month : Nat) : Nat :=
  if month = 2 then if isLeapYear year then 29 else 28
  else if month = 4 ∨ month = 6 ∨ month = 9 ∨ month = 11 then 30
  else 31

/-- A date of the calendar, and what follows. -/
def date? (cs : List Char) : Option (List Char) := do
  let (year, cs) ← digits? 4 cs
  let cs ← char? (· == '-') cs
  let (month, cs) ← digits? 2 cs
  let cs ← char? (· == '-') cs
  let (day, cs) ← digits? 2 cs
  if 1 ≤ year ∧ 1 ≤ month ∧ month ≤ 12 ∧ 1 ≤ day ∧ day ≤ daysInMonth year month then some cs
  else none

/-- A time of day, and what follows. -/
def time? (cs : List Char) : Option (List Char) := do
  let (hour, cs) ← digits? 2 cs
  let cs ← char? (· == ':') cs
  let (minute, cs) ← digits? 2 cs
  let cs ← char? (· == ':') cs
  let (second, cs) ← digits? 2 cs
  if hour ≤ 23 ∧ minute ≤ 59 ∧ second ≤ 59 then some cs else none

/-- A fraction of a second if there is one, and what follows. -/
def fraction? : List Char → Option (List Char)
  | '.' :: rest =>
    if (rest.takeWhile Char.isDigit).isEmpty then none else some (rest.dropWhile Char.isDigit)
  | cs => some cs

/-- An offset of less than a day, up to the end. -/
def isOffset : List Char → Bool
  | ['Z'] => true
  | ['z'] => true
  | sign :: rest =>
    (sign == '+' || sign == '-') &&
      (match (do
          let (hours, cs) ← digits? 2 rest
          let cs ← char? (· == ':') cs
          let (minutes, cs) ← digits? 2 cs
          return (hours, minutes, cs)) with
        | some (hours, minutes, []) => hours ≤ 23 && minutes ≤ 59
        | _ => false)
  | [] => false

def isDate (cs : List Char) : Bool :=
  date? cs == some []

def isDateTime (cs : List Char) : Bool :=
  match (do
      let cs ← date? cs
      let cs ← char? (fun c => c == 'T' || c == 't' || c == ' ') cs
      let cs ← time? cs
      fraction? cs) with
  | some rest => isOffset rest
  | none => false

end ApiSchema.Format
