import ApiSchema.Command.Run

/-!
# The program

Runs are computed on trees of files held in memory. The program reads from the disk what a run asks
for, until it asks for nothing new, and writes back what the run has changed.
-/

namespace ApiSchema.Command

/-- What is on the disk under an absolute path. -/
def diskNode? (place : List String) : IO (Option FileNode) := do
  let path := (← IO.currentDir) / (Path.absolute place).text
  if ← path.isDir then return some .directory
  try
    return some (.file (← IO.FS.readFile path) 0)
  catch _ => return none

/-- Take the given paths, and those of the directories around them, from the disk into the tree. -/
def loadPlaces (files : FileTree) (places : List (List String)) : IO FileTree :=
  let ways := places.flatMap fun place => (List.range place.length).map fun n => place.take (n + 1)
  ways.foldlM (fun t place => do
    match ← diskNode? place with
    | some node => return t.put place node
    | none => return t) files

/-- Load what a run asks for, until it asks for nothing new. -/
partial def gather (known : List (List String)) (w : Source.World) (args : List String) :
    IO Source.World := do
  let fresh := (demands w args).filter fun place => !known.contains place
  if fresh.isEmpty then return w
  let files ← loadPlaces w.files fresh
  gather (fresh ++ known) { w with files := files } args

/-- Write to the disk what differs between two trees. -/
def saveChanges (before after : FileTree) : IO Unit :=
  after.entries.reverse.forM fun (place, node) => do
    if before.node? place = some node then return
    let path := (Path.absolute place).text
    match node with
    | .directory => IO.FS.createDirAll path
    | .file text _ => IO.FS.writeFile path text

def runOnDisk (args : List String) : IO UInt32 := do
  let current := (Path.ofString (← IO.currentDir).toString).parts
  let files ← loadPlaces { current := current } [current]
  let w ← gather [] { files := files } args
  let (outcome, after) := run w args
  saveChanges w.files after
  match outcome with
  | .ok report =>
    IO.print report.out
    IO.eprint report.err
    return report.status.toUInt32
  | .error fault =>
    IO.eprintln fault.message
    return 1

end ApiSchema.Command

def main (args : List String) : IO UInt32 :=
  ApiSchema.Command.runOnDisk args
