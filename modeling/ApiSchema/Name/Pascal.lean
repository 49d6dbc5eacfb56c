import ApiSchema.Text.Basic

/-!
# Pascal case

A text is cut into words at everything but ASCII letters and digits, and between a lower case
letter or digit and a capital; each word is then capitalized and the words are run together.
-/

namespace ApiSchema.Name

/-- Put an underscore between a lower case letter or digit and a capital. -/
def markHumps : List Char → List Char
  | a :: b :: rest =>
    if (a.isLower || a.isDigit) && b.isUpper then a :: '_' :: markHumps (b :: rest)
    else a :: markHumps (b :: rest)
  | cs => cs

def words (cs : List Char) : List (List Char) :=
  ((markHumps cs).splitOnP fun c => !c.isAlphanum).filter fun w => !w.isEmpty

/-- An ASCII word with a capital first and the rest in lower case. -/
def capitalizeWord : List Char → List Char
  | [] => []
  | c :: rest => c.toUpper :: rest.map Char.toLower

/-- The words of a text, capitalized and run together. -/
def pascal (s : String) : String :=
  String.ofList ((words s.toList).flatMap capitalizeWord)

end ApiSchema.Name
