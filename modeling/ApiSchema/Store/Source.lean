import ApiSchema.Generate
import ApiSchema.Store.Cache

/-!
# Sources

A source tells where a document is: a path, a reference to a file, or an address of the web.
References in a document are resolved against its source.
-/

namespace ApiSchema.Source

/-- Where documents come from. -/
structure World where
  files : FileTree := {}
  web : Web := []

/-! ### Places -/

def isRemote (source : String) : Bool :=
  Text.hasPrefix "http://" source || Text.hasPrefix "https://" source

def isFileUri (source : String) : Bool :=
  Text.hasPrefix "file://" source

/-- The path that a reference to a file denotes. -/
def filePath (source : String) : Except Fault Path :=
  match Uri.split source "" with
  | .ok u => .ok (Path.ofString (u.authority ++ String.ofList (Percent.decode u.path.toList)))
  | .error problem => .error (.malformedUri problem)

/-- The path of a source that is no address of the web. -/
def path (source : String) : Except Fault Path :=
  if isFileUri source then filePath source else .ok (Path.ofString source)

def document (w : World) (source : String) : Caching Value := do
  if isRemote source then Cache.remoteDocument w.web source
  else match path source with
    | .ok p => Cache.document w.files p
    | .error fault => throw fault

/-- The document of a source, with nothing in the cache. -/
def load (w : World) (source : String) : Except Fault Value :=
  ((document w source).run {}).1

/-! ### References -/

/-- The absolute reference to a source. -/
def baseUri (files : FileTree) (source : String) : Except Fault String :=
  if isRemote source || isFileUri source then .ok source
  else
    let p := Path.ofString source
    if p.isWellFormed then .ok (Path.fileUri (p.resolve files.current)) else .error .malformedPath

/-- The source that a reference denotes in a document with this base. -/
def target (base ref : String) : Except Fault String :=
  match Uri.join base ref >>= Uri.defragment with
  | .ok uri => .ok uri
  | .error problem => .error (.malformedUri problem)

/-- The document that a reference in `source` leads to. -/
def referred (w : World) (source ref : String) : Caching Value := do
  match baseUri w.files source >>= (target · ref) with
  | .ok found => document w found
  | .error fault => throw fault

/-! ### Generating -/

/-- How many references may lead on from one another. Documents are loaded as they are met, so their
number is not known before. -/
def depthLimit : Nat := 1000

/-- The library of a document and all sources. -/
def library (w : World) (base : String) (root : Value) : Library where
  base := base
  root := root
  fetch uri := target base uri >>= load w
  limit := depthLimit

/-- Say for every document that was opened where it was found, and note when one is fetched for the
first time. -/
def noteFetches (base : String) (fetched : List String) : List Event → List Event
  | [] => []
  | .opened uri :: rest =>
    match target base uri with
    | .error _ => noteFetches base fetched rest
    | .ok found =>
      if isRemote found && !fetched.contains found then
        .opened found :: .fetched found :: noteFetches base (found :: fetched) rest
      else .opened found :: noteFetches base fetched rest
  | event :: rest => event :: noteFetches base fetched rest

def generate (w : World) (source : String) (config : Config) : Run String := do
  let fetched := if isRemote source then [source] else []
  fetched.forM fun url => Traced.note (.fetched url)
  let root ← Traced.ofExcept (load w source)
  let base ← Traced.ofExcept (baseUri w.files source)
  let run := ApiSchema.generate (library w base root) config
  ⟨noteFetches base fetched run.trace, run.outcome⟩

end ApiSchema.Source
