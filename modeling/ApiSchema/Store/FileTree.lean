import ApiSchema.Fault
import ApiSchema.Store.Path

/-!
# Trees of files

A file tree holds files and directories under their absolute paths, and a directory that relative
paths start from. Finding a path goes part by part through existing directories, so a path through
`..` needs what it leaves to be there.
-/

namespace ApiSchema

/-- The time a file was last written and its size in bytes. -/
structure Stamp where
  modified : Int
  size : Nat
deriving DecidableEq

/-- What is found under a path. -/
inductive FileNode where
  | file (text : String) (modified : Int)
  | directory
deriving DecidableEq

/-- Files and directories by the parts of their absolute paths. The root is a directory. -/
structure FileTree where
  current : List String := []
  entries : List (List String × FileNode) := []

namespace FileTree

/-! ### Finding -/

def node? (t : FileTree) (place : List String) : Option FileNode :=
  if place.isEmpty then some .directory else t.entries.lookup place

/-- Go on from an existing directory. The place reached need not hold anything, but all directories
on the way exist. -/
def walk (t : FileTree) (here : List String) : List String → Except FileFault (List String)
  | [] => .ok here
  | part :: rest =>
    let next := if part = ".." then here.dropLast else here ++ [part]
    match t.node? next, rest with
    | some .directory, rest => walk t next rest
    | _, [] => .ok next
    | some (.file _ _), _ :: _ => .error .notDirectory
    | none, _ :: _ => .error .missing

def locate (t : FileTree) (p : Path) : Except FileFault (List String) :=
  t.walk (if p.root.isEmpty then t.current else []) p.parts

def find (t : FileTree) (p : Path) : Except FileFault FileNode := do
  let place ← t.locate p
  match t.node? place with
  | some node => .ok node
  | none => .error .missing

def isDirectory (t : FileTree) (p : Path) : Bool :=
  match t.find p with
  | .ok .directory => true
  | _ => false

/-! ### Reading -/

/-- The stamp of a file; a directory has none. -/
def stamp (t : FileTree) (p : Path) : Except FileFault (Option Stamp) := do
  match ← t.find p with
  | .file text modified => return some ⟨modified, (Utf8.encode text.toList).length⟩
  | .directory => return none

/-- The text of a file, with every line end read as `\n`. -/
def read (t : FileTree) (p : Path) : Except FileFault String := do
  match ← t.find p with
  | .file text _ => return String.ofList (Text.unifyLineEnds text.toList)
  | .directory => throw .isDirectory

/-! ### Writing -/

/-- Put something under an absolute path, in the place of what is there. -/
def put (t : FileTree) (place : List String) (node : FileNode) : FileTree :=
  { t with entries := (place, node) :: t.entries.filter fun e => e.1 != place }

def erase (t : FileTree) (place : List String) : FileTree :=
  { t with entries := t.entries.filter fun e => e.1 != place }

/-- Write a file in an existing directory. -/
def write (t : FileTree) (p : Path) (text : String) (modified : Int) :
    Except FileFault FileTree := do
  let place ← t.locate p
  match t.node? place with
  | some .directory => throw .isDirectory
  | _ => return t.put place (.file text modified)

/-- Make one directory in an existing one. -/
def makeDirectory (t : FileTree) (p : Path) : Except FileFault FileTree := do
  let place ← t.locate p
  match t.node? place with
  | some _ => throw .exists
  | none => return t.put place .directory

/-- Make one directory, unless it is there. -/
def ensureOne (t : FileTree) (p : Path) : Except FileFault FileTree :=
  match t.makeDirectory p with
  | .ok t => .ok t
  | .error fault => if fault ≠ .missing ∧ t.isDirectory p then .ok t else .error fault

/-- Make a directory and those around it, unless they are there; the number is how many of them may
be missing. -/
def ensureWithin : Nat → FileTree → Path → Except FileFault FileTree
  | 0, t, p => t.ensureOne p
  | n + 1, t, p =>
    match t.ensureOne p with
    | .error .missing => do (← ensureWithin n t p.parent).ensureOne p
    | result => result

/-- Make a directory and those around it, unless they are there. -/
def ensureDirectory (t : FileTree) (p : Path) : Except FileFault FileTree :=
  ensureWithin p.parts.length t p

/-- The tree with a file added, together with the directories around it. -/
def addFile (t : FileTree) (p : Path) (text : String) (modified : Int) :
    Except FileFault FileTree := do
  (← t.ensureDirectory p.parent).write p text modified

end FileTree

end ApiSchema
