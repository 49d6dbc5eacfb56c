import ApiSchema.Format.Registry
import ApiSchema.Name.Identifier

/-!
# Configuration
-/

namespace ApiSchema

/-- What can be chosen about a generated module. -/
structure Config where
  /-- Whether routes are declared and looked up. -/
  includeRoutes : Bool := true
  /-- What every declared name starts with. -/
  namePrefix : String := ""
  /-- Lines of import copied as they are. -/
  extraImports : List String := []
  /-- String formats with a validator of their own. -/
  formats : Format.Registry := {}
  /-- The first line of the module's description. -/
  title : String := "Validators generated from an OpenAPI document."

namespace Config

/-- Refuse a prefix that is no identifier. -/
def check (config : Config) : Except Fault Config :=
  if config.namePrefix.isEmpty || Name.isIdentifier config.namePrefix then .ok config
  else .error (.invalidPrefix config.namePrefix)

end Config

end ApiSchema
