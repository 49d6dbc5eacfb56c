import ApiSchema.Config
import ApiSchema.Store.Path
import ApiSchema.Unicode.Digit

/-!
# Options of the command line

How the arguments of a command are read. A long option may be shortened as long as it stays
unambiguous, and may carry its value behind an equals sign; options of one letter may be written
together. An argument that looks like an option is no value, unless it is a negative number or
holds a blank; behind `--` nothing is an option.
-/

namespace ApiSchema.Command

inductive Switch where
  | help
  | spec
  | output
  | namePrefix
  | noRoutes
  | imports
  | formats
  | check
  | verbose
deriving DecidableEq

/-- Why a command ends before it has begun. -/
inductive Halt where
  | help
  /-- The arguments make no sense. -/
  | misuse (problem : String)
  /-- The arguments ask for something that is refused. -/
  | refused (fault : Fault)

namespace Switch

/-- How the options are written. -/
def spellings : List (String × Switch) :=
  [("-h", .help), ("--help", .help), ("--spec", .spec), ("--output", .output),
    ("--name-prefix", .namePrefix), ("--no-routes", .noRoutes), ("--import", .imports),
    ("--format", .formats), ("--check", .check), ("--verbose", .verbose), ("-v", .verbose)]

def ofSpelling? (text : String) : Option Switch :=
  spellings.lookup text

/-- All spellings of an option, as messages name it. -/
def names (s : Switch) : String :=
  Text.join "/" ((spellings.filter fun e => e.2 == s).map Prod.fst)

def takesValue : Switch → Bool
  | spec | output | namePrefix | imports | formats => true
  | help | noRoutes | check | verbose => false

/-- A problem with the use of an option. -/
def misuse (s : Switch) (problem : String) : Halt :=
  .misuse ("argument " ++ s.names ++ ": " ++ problem)

/-- A value for an option that takes none. -/
def ignores (s : Switch) (value : String) : Halt :=
  s.misuse ("ignored explicit argument " ++ Text.quote value)

end Switch

/-! ### Words -/

/-- What an argument is taken for. -/
inductive Word where
  | plain
  /-- An option that does not exist, or the mark after which there are no options. -/
  | strange
  /-- An option, and the value behind an equals sign. -/
  | long (s : Switch) (value : Option String)
  /-- An option of one letter, and what is written behind the letter. -/
  | short (s : Switch) (more : List Char)
deriving DecidableEq

/-- A minus sign and a number. -/
def isNegative (cs : List Char) : Bool :=
  let body := cs.drop 1
  let body := if body.getLast? == some '\n' then body.dropLast else body
  match Text.cutAt '.' body with
  | (whole, none) => !whole.isEmpty && whole.all Unicode.isDecimal
  | (whole, some rest) => whole.all Unicode.isDecimal && !rest.isEmpty && rest.all Unicode.isDecimal

/-- The options that a text is the beginning of, with their spellings. -/
def completions (start : String) : List (String × Switch) :=
  Switch.spellings.filter fun e => Text.hasPrefix start e.1

/-- What an argument is taken for that is no option as it stands. -/
def classifyRest (arg : String) : Except Halt Word :=
  let cs := arg.toList
  let fallback : Word := if isNegative cs || cs.contains ' ' then .plain else .strange
  match cs with
  | '-' :: '-' :: _ =>
    let (start, value) := Text.cutAt '=' cs
    match completions (String.ofList start) with
    | [] => .ok fallback
    | [(_, s)] => .ok (.long s (value.map String.ofList))
    | matching => .error (.misuse ("ambiguous option: " ++ arg ++ " could match " ++
        Text.join ", " (matching.map Prod.fst)))
  | '-' :: letter :: more =>
    match Switch.ofSpelling? (String.ofList ['-', letter]) with
    | some s => .ok (.short s more)
    | none => .ok fallback
  | _ => .ok .plain

/-- What an argument is taken for. -/
def classify (arg : String) : Except Halt Word :=
  match arg.toList with
  | '-' :: _ :: _ =>
    match Switch.ofSpelling? arg with
    | some s => .ok (.long s none)
    | none =>
      match Text.cutAt '=' arg.toList with
      | (start, some value) =>
        match Switch.ofSpelling? (String.ofList start) with
        | some s => .ok (.long s (some (String.ofList value)))
        | none => classifyRest arg
      | _ => classifyRest arg
  | _ => .ok .plain

def words : List String → Except Halt (List (String × Word))
  | [] => .ok []
  | arg :: rest =>
    if arg = "--" then .ok ((arg, .strange) :: rest.map fun later => (later, .plain))
    else do
      let word ← classify arg
      return (arg, word) :: (← words rest)

/-! ### Options -/

/-- What a command is asked to do. -/
structure Options where
  /-- The source of the document. -/
  spec : String := "schemas/api/openapi.yaml"
  /-- Where the module is written. -/
  output : Path := Path.ofString "generated/validators.py"
  namePrefix : String := ""
  includeRoutes : Bool := true
  imports : List String := []
  /-- Formats with validators of their own, as written. -/
  formats : List String := []
  /-- Whether the module is compared with what is there, and not written. -/
  check : Bool := false
  verbose : Bool := false

namespace Options

def assign (s : Switch) (value : String) (o : Options) : Options :=
  match s with
  | .spec => { o with spec := value }
  | .output => { o with output := Path.ofString value }
  | .namePrefix => { o with namePrefix := value }
  | .imports => { o with imports := o.imports ++ [value] }
  | .formats => { o with formats := o.formats ++ [value] }
  | _ => o

/-- Turn on an option that has no value. -/
def turnOn (s : Switch) (o : Options) : Except Halt Options :=
  match s with
  | .help => .error .help
  | .noRoutes => .ok { o with includeRoutes := false }
  | .check => .ok { o with check := true }
  | .verbose => .ok { o with verbose := true }
  | _ => .ok o

/-- Options of one letter written together: the options, and the letters that are none. -/
def cluster (s : Switch) : List Char → Except Halt (List Switch × List String)
  | [] => .ok ([s], [])
  | '=' :: value => .error (s.ignores (String.ofList value))
  | c :: more =>
    if c = '-' then .error (s.ignores (String.ofList (c :: more)))
    else
      match Switch.ofSpelling? (String.ofList ['-', c]) with
      | some t => do
        let (later, unknown) ← cluster t more
        return (s :: later, unknown)
      | none => .ok ([s], [String.ofList ('-' :: c :: more)])

/-- Take in words from the left; `unknown` holds those that found no use. -/
def consume (o : Options) (unknown : List String) :
    List (String × Word) → Except Halt (Options × List String)
  | [] => .ok (o, unknown)
  | (arg, .plain) :: rest => consume o (unknown ++ [arg]) rest
  | (arg, .strange) :: rest => consume o (unknown ++ [arg]) rest
  | (_, .long s (some value)) :: rest =>
    if s.takesValue then consume (o.assign s value) unknown rest else .error (s.ignores value)
  | (_, .long s none) :: rest =>
    if s.takesValue then
      match rest with
      | (value, .plain) :: rest => consume (o.assign s value) unknown rest
      | _ => .error (s.misuse "expected one argument")
    else do consume (← o.turnOn s) unknown rest
  | (_, .short s more) :: rest => do
    let (switches, strange) ← cluster s more
    let o ← switches.foldlM (fun o s => o.turnOn s) o
    consume o (unknown ++ strange) rest

def read (args : List String) : Except Halt Options := do
  let (o, unknown) ← consume {} [] (← words args)
  if unknown.isEmpty then return o
  else throw (.misuse ("unrecognized arguments: " ++ Text.join " " unknown))

/-- Register a format with its validator, written with an equals sign between them. -/
def addFormat (r : Format.Registry) (text : String) : Except Halt Format.Registry :=
  match Text.cutAt '=' text.toList with
  | (format, some name) =>
    let name := String.ofList name
    if format.isEmpty || !Name.isIdentifier name then
      .error (.misuse ("--format expects FORMAT=NAME, got " ++ Text.quote text))
    else (r.register name [String.ofList format]).mapError .refused
  | _ => .error (.misuse ("--format expects FORMAT=NAME, got " ++ Text.quote text))

def config (o : Options) : Except Halt Config := do
  let formats ← o.formats.foldlM addFormat {}
  let config : Config :=
    { includeRoutes := o.includeRoutes
      namePrefix := o.namePrefix
      extraImports := o.imports
      formats := formats }
  config.check.mapError .refused

end Options

end ApiSchema.Command
