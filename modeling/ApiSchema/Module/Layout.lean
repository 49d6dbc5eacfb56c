import ApiSchema.Config
import ApiSchema.Module.Block
import ApiSchema.Module.Lookup

/-!
# Generated modules

A module is a description, import lines, the blocks of all declarations in order, the lookup tables
and the list of exported names.
-/

namespace ApiSchema

structure Module where
  title : String
  extraImports : List String
  blocks : List Module.Block
  lookup : Option Module.Lookup
  exports : List String

namespace Module

/-! ### From declarations -/

def blocksOf (names : List String) : List Declaration → Except Fault (List Block)
  | [] => .ok []
  | d :: rest => do
    let block ← Block.ofDeclaration names d
    let blocks ← blocksOf names rest
    return block :: blocks

/-- The block that completes the models of a cycle, if there are any. -/
def completion (component : List Declaration) : List Block :=
  match component.filter fun d => d.cyclic && d.validator.isModel with
  | [] => []
  | models => [.complete (models.map (·.name))]

def blocksOfComponents (names : List String) :
    List (List Declaration) → Except Fault (List Block)
  | [] => .ok []
  | component :: rest => do
    let blocks ← blocksOf names component
    let others ← blocksOfComponents names rest
    return blocks ++ completion component ++ others

/-- The module of declarations in order. -/
def ofComponents (components : List (List Declaration)) (lookup : Option Lookup)
    (config : Config) : Except Fault Module := do
  let names := components.flatten.map (·.name)
  let blocks ← blocksOfComponents names components
  return {
    title := config.title
    extraImports := config.extraImports
    blocks := blocks
    lookup := lookup
    exports := names ++ if lookup.isSome then ["Request", "Response"] else [] }

/-! ### Text -/

def symbols (m : Module) : List Symbol :=
  m.blocks.flatMap Block.symbols

/-- Lines behind an empty one, or nothing if there are none. -/
def paragraph (lines : List String) : List String :=
  if lines.isEmpty then [] else "" :: lines

/-- The lines of one method in a table. -/
def rowLines (row : String × List (String × String)) : List String :=
  let key := "        " ++ Text.quote row.1
  if row.2.isEmpty then [key ++ ": \x7b\x7d,"]
  else
    [key ++ ": \x7b"] ++
      row.2.map (fun (k, name) => "            " ++ Text.quote k ++ ": " ++ name ++ ",") ++
      ["        \x7d,"]

def tableLines (name : String) (table : Table) : List String :=
  [name ++ " = \x7b"] ++
    table.flatMap (fun (path, rows) =>
      ["    " ++ Text.quote path ++ ": \x7b"] ++ rows.flatMap rowLines ++ ["    \x7d,"]) ++
    ["\x7d"]

def lookupLines : Option Lookup → List String
  | none => []
  | some l =>
    ["", ""] ++ tableLines "Request" l.request ++ [""] ++ tableLines "Response" l.response

def lines (m : Module) : List String :=
  ["\"\"\"", m.title, "", "Auto-generated by openapi_codegen. Do not edit manually.", "\"\"\"", "",
    "from __future__ import annotations"] ++
    paragraph (importLines m.symbols) ++
    paragraph m.extraImports ++
    m.blocks.flatMap (fun b => ["", "", b.text]) ++
    lookupLines m.lookup ++
    ["", "", "__all__ = ["] ++
    m.exports.map (fun name => "    " ++ Text.quote name ++ ",") ++
    ["]"]

/-- The text of a module: every line ends with a line feed. -/
def text (m : Module) : String :=
  String.join (m.lines.map (· ++ "\n"))

end Module

end ApiSchema
