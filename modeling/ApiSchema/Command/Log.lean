import ApiSchema.Generate

/-!
# Log lines

What is shown of the events of a run.
-/

namespace ApiSchema.Event

/-- The part of the program that an event belongs to. -/
def logger : Event → String
  | opened _ => "openapi_codegen.shared.schema_loader"
  | fetched _ => "openapi_codegen.shared.schema_loader"
  | resolved _ _ _ => "openapi_codegen.validator_codegen.resolver"
  | ignored _ => "openapi_codegen.validator_codegen.translator"
  | built _ => "openapi_codegen.validator_codegen.declarations"
  | cyclicGroup _ => "openapi_codegen.validator_codegen.ordering"
  | rendering _ => "openapi_codegen.validator_codegen.renderer"
  | generated _ => "openapi_codegen.validator_codegen.main"

def text : Event → String
  | opened uri => "Loading external document " ++ uri
  | fetched url => "Fetching " ++ url
  | resolved definitions routes cyclic =>
    "Resolved " ++ toString definitions ++ " definitions, " ++ toString routes ++ " routes, " ++
      toString cyclic ++ " cyclic targets"
  | ignored unknown =>
    "Ignoring unknown string format " ++ unknown.format.literal ++ " at " ++ unknown.pointer
  | built declarations => "Built " ++ toString declarations ++ " declarations"
  | cyclicGroup names => "Cyclic group: " ++ Text.join ", " names
  | rendering blocks => "Rendering " ++ toString blocks ++ " blocks"
  | generated declarations => "Generated " ++ toString declarations ++ " declarations"

def line (e : Event) : String :=
  "DEBUG " ++ e.logger ++ ": " ++ e.text ++ "\n"

end ApiSchema.Event
