import ApiSchema.Declaration.OfDocument
import ApiSchema.Declaration.Order
import ApiSchema.Module.Layout
import ApiSchema.Validator.Canonical

/-!
# From a document to a module

The whole way: resolve the document, make its validators, declare them, order the declarations, and
write the module. What happens on the way is noted as events.
-/

namespace ApiSchema

/-- Something worth a line in a log. -/
inductive Event where
  /-- An external document was asked for. -/
  | opened (uri : String)
  /-- A document was asked for on the web. -/
  | fetched (url : String)
  | resolved (definitions routes cyclic : Nat)
  | ignored (format : UnknownFormat)
  | built (declarations : Nat)
  | cyclicGroup (names : List String)
  | rendering (blocks : Nat)
  | generated (declarations : Nat)

abbrev Run := Traced Event Fault

namespace Config

/-- The names that no declaration may take. -/
def reservedNames (config : Config) : List String :=
  Module.Symbol.names ++ ["Request", "Response"] ++ config.formats.validators

/-- The registry that a run starts with. -/
def registry (config : Config) : Name.Registry where
  start := config.namePrefix
  used := Text.distinct config.reservedNames

end Config

namespace Generate

def resolved (lib : Library) : Run Resolved := do
  let doc ← (Schema.resolve lib).mapTrace .opened
  Traced.note (.resolved doc.names.length doc.routes.length doc.cyclic.length)
  return doc

def validators (doc : Resolved) (config : Config) (includeRoutes : Bool) : Run Validators :=
  (Validator.ofDocument ⟨doc, config.formats⟩ includeRoutes).mapTrace .ignored

def declarations (lib : Library) (config : Config) : Run Declarations := do
  let doc ← resolved lib
  let t ← validators doc config config.includeRoutes
  let d ← Traced.ofExcept
    (Declarations.ofValidators doc t Validator.fingerprint config.registry)
  Traced.note (.built d.entries.length)
  return d

def ordered (d : Declarations) : Run (List (List Declaration)) :=
  d.order.mapTrace .cyclicGroup

def module (d : Declarations) (config : Config) : Run Module := do
  let components ← ordered d
  let lookup ←
    if config.includeRoutes then do
      let tables ← Traced.ofExcept (Module.Lookup.ofDeclarations d)
      pure (some tables)
    else pure none
  let m ← Traced.ofExcept (Module.ofComponents components lookup config)
  Traced.note (.rendering m.blocks.length)
  return m

end Generate

/-- The text of the module of a document. -/
def generate (lib : Library) (config : Config) : Run String := do
  let d ← Generate.declarations lib config
  let m ← Generate.module d config
  Traced.note (.generated d.entries.length)
  return m.text

end ApiSchema
