import ApiSchema.Text.Percent

/-!
# Paths

A path is kept as its parts, without the empty ones and without `.`; a part `..` stays until the
path is made absolute.
-/

namespace ApiSchema

/-- A path as written: what it starts at, which is empty for a relative path, and its parts. -/
structure Path where
  root : String
  parts : List String
deriving DecidableEq

namespace Path

/-- The path that a text denotes. Two slashes at the start are kept apart from one, or from more. -/
def ofString (s : String) : Path where
  root := match (s.toList.takeWhile (· == '/')).length with
    | 0 => ""
    | 2 => "//"
    | _ => "/"
  parts := (Text.split '/' s).filter fun part => !part.isEmpty && part != "."

def absolute (parts : List String) : Path :=
  ⟨"/", parts⟩

/-- The text of a path; a path without parts is `.` or its root. -/
def text (p : Path) : String :=
  if p.root.isEmpty && p.parts.isEmpty then "." else p.root ++ Text.join "/" p.parts

def parent (p : Path) : Path :=
  { p with parts := p.parts.dropLast }

/-- Work off the parts `..`; `done` is what precedes, the last part first. -/
def removeUps (done : List String) : List String → List String
  | [] => done.reverse
  | part :: rest => if part = ".." then removeUps done.tail rest else removeUps (part :: done) rest

/-- The parts of a path seen from a directory, made absolute. -/
def resolve (current : List String) (p : Path) : List String :=
  removeUps [] (if p.root.isEmpty then current ++ p.parts else p.parts)

/-- What follows the last point of the name, with the point; a name that starts or ends with its
only point has no suffix. -/
def suffix (p : Path) : String :=
  let name := (p.parts.getLast?.getD "").toList
  let ending := Text.lastPart '.' name
  let stem := name.take (name.length - ending.length - 1)
  if name.contains '.' && !ending.isEmpty && !stem.isEmpty then String.ofList ('.' :: ending) else ""

/-- Whether a path can be asked for at all. -/
def isWellFormed (p : Path) : Bool :=
  !p.parts.any fun part => part.toList.contains '\x00'

def fileUri (parts : List String) : String :=
  "file://" ++ String.ofList (Percent.encode (absolute parts).text.toList)

end Path

end ApiSchema
