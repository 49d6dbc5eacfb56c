import ApiSchema.Command.Log
import ApiSchema.Command.Options
import ApiSchema.Store.Source

/-!
# The commands

`generate` writes the module of a document, and `check` compares it with what was written before.
A run starts from a tree of files and ends with a report and the tree as it is then. Faults of the
input are reported; other faults end the run without a report.
-/

namespace ApiSchema.Command

/-- What a run shows: its status, and the texts for the user. -/
structure Report where
  status : Nat
  out : String := ""
  err : String := ""
deriving DecidableEq

/-! ### Texts -/

def lines (texts : List String) : String :=
  String.join (texts.map (· ++ "\n"))

/-- What is shown without a command. -/
def overview : String :=
  lines [
    "",
    "Unified CLI for the OpenAPI validator generator.",
    "",
    "Usage:",
    "    python -m openapi_codegen <command> [options]",
    "",
    "Commands:",
    "    generate    Generate the validator module from an OpenAPI document",
    "    check       Verify the generated validator module is up to date",
    "",
    "Examples:",
    "    python -m openapi_codegen generate --spec api/openapi.yaml --output app/validators.py",
    "    python -m openapi_codegen check --spec api/openapi.yaml --output app/validators.py",
    "    python -m openapi_codegen generate --format phone=PhoneNumber --import " ++
      "\"from app.types import PhoneNumber\"",
    "",
    "Available commands:",
    "  generate     Generate the validator module from an OpenAPI document",
    "  check        Verify the generated validator module is up to date",
    "",
    "Use '<command> --help' for command-specific options."]

def usage : String :=
  lines [
    "usage: openapi-codegen [-h] [--spec SPEC] [--output OUTPUT]",
    "                       [--name-prefix NAME_PREFIX] [--no-routes]",
    "                       [--import LINE] [--format FORMAT=NAME] [--check]",
    "                       [--verbose]"]

/-- What the options of a command do. -/
def help : String :=
  usage ++ lines [
    "",
    "Validator Code Generator - Generates pydantic validators from OpenAPI specs.",
    "",
    "The generated module contains one declaration per named schema, in",
    "dependency order, followed by ``Request`` and ``Response`` lookup tables",
    "indexed by path, method and parameter kind or status code.",
    "",
    "options:",
    "  -h, --help            show this help message and exit",
    "  --spec SPEC           Path or URL of the OpenAPI specification (JSON or",
    "                        YAML)",
    "  --output OUTPUT       Output path for the generated module",
    "  --name-prefix NAME_PREFIX",
    "                        Prefix applied to every generated identifier",
    "  --no-routes           Skip route declarations and the Request/Response",
    "                        tables",
    "  --import LINE         Extra import line for the generated module",
    "                        (repeatable)",
    "  --format FORMAT=NAME  Validate a string format with a custom validator",
    "                        (repeatable)",
    "  --check               Exit with status 1 if the output file is not up to",
    "                        date",
    "  --verbose, -v         Enable debug logging"]

/-! ### Runs -/

/-- Faults of what the user gave, which are reported. -/
def isReported : Fault → Bool
  | .schema _ => true
  | .invalidPrefix _ => true
  | .alreadyDeclared _ => true
  | .fingerprintTaken _ _ => true
  | .nameTaken _ => true
  | .noNumber _ => true
  | .malformedUri _ => true
  | .refused _ => true
  | .clashingFlags => true
  | .malformedPath => true
  | _ => false

/-- The report of a fault, or the fault itself; `log` is shown before. -/
def reportFault (log : String) (fault : Fault) : Except Fault Report :=
  if isReported fault then .ok { status := 1, err := log ++ "error: " ++ fault.message ++ "\n" }
  else .error fault

/-- The report of a command that ends before it has begun. -/
def reportHalt : Halt → Except Fault Report
  | .help => .ok { status := 0, out := help }
  | .misuse problem =>
    .ok { status := 2, err := usage ++ "openapi-codegen: error: " ++ problem ++ "\n" }
  | .refused fault => reportFault "" fault

/-- The text in the output file, if there is one. -/
def currentText (files : FileTree) (output : Path) : Except Fault (Option String) :=
  match files.read output with
  | .ok text => .ok (some text)
  | .error .isDirectory => .error (.file .isDirectory output.text)
  | .error _ => .ok none

def compare (files : FileTree) (output : Path) (log code : String) : Except Fault Report := do
  if (← currentText files output) = some code then
    return { status := 0, out := "Validators are up to date -> " ++ output.text ++ "\n", err := log }
  else
    return { status := 1, err := log ++ "Validators are out of date -> " ++ output.text ++ "\n" }

def writeOutput (files : FileTree) (output : Path) (log code : String) :
    Except Fault Report × FileTree :=
  if !output.isWellFormed then (.error .malformedPath, files)
  else
    match files.ensureDirectory output.parent with
    | .error fault => (.error (.file fault output.parent.text), files)
    | .ok files =>
      match files.write output code 0 with
      | .error fault => (.error (.file fault output.text), files)
      | .ok files =>
        (.ok { status := 0, out := "Generated validators -> " ++ output.text ++ "\n", err := log },
          files)

/-- Generate the module that the options ask for, and write or compare it. -/
def perform (w : Source.World) (o : Options) (config : Config) : Except Fault Report × FileTree :=
  let run := Source.generate w o.spec config
  let log := if o.verbose then String.join (run.trace.map Event.line) else ""
  match run.outcome with
  | .error fault => (reportFault log fault, w.files)
  | .ok code =>
    if o.check then (compare w.files o.output log code, w.files)
    else writeOutput w.files o.output log code

def runGenerate (w : Source.World) (args : List String) : Except Fault Report × FileTree :=
  match Options.read args with
  | .error halt => (reportHalt halt, w.files)
  | .ok o =>
    match o.config with
    | .error halt => (reportHalt halt, w.files)
    | .ok config => perform w o config

/-- The arguments of `check` as arguments of `generate`. -/
def checkArguments (args : List String) : List String :=
  if args.contains "--check" then args else args ++ ["--check"]

/-- Run the program with its arguments. -/
def run (w : Source.World) : List String → Except Fault Report × FileTree
  | [] => (.ok { status := 0, out := overview }, w.files)
  | command :: args =>
    if command = "-h" ∨ command = "--help" then (.ok { status := 0, out := overview }, w.files)
    else if command = "generate" then runGenerate w args
    else if command = "check" then runGenerate w (checkArguments args)
    else
      (.ok {
        status := 1
        out := lines ["Unknown command: " ++ command, "Available commands: generate, check"] },
        w.files)

/-! ### Demands -/

/-- The absolute paths that a run has to know about: those of the documents it asks for, as far as
they are known by now, and that of the output file. -/
def demands (w : Source.World) (args : List String) : List (List String) :=
  match Options.read (args.drop 1) with
  | .error _ => []
  | .ok o =>
    let events := match o.config with
      | .ok config => (Source.generate w o.spec config).trace
      | .error _ => []
    let opened := events.filterMap fun event =>
      match event with
      | .opened uri => some uri
      | _ => none
    let sources := (o.spec :: opened).filter fun source => !Source.isRemote source
    let paths := o.output :: sources.filterMap fun source => (Source.path source).toOption
    paths.map (·.resolve w.files.current)

end ApiSchema.Command
