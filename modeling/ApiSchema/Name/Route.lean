import ApiSchema.Name.Pascal
import ApiSchema.Unicode.Case

/-!
# Names made from routes

A schema that belongs to a route takes its name from the method, the path and its role there.
-/

namespace ApiSchema.Name

/-- Drop every stretch from an opening brace to the next closing one. -/
def dropParameters : List Char → List Char
  | [] => []
  | c :: rest =>
    if c = '\x7b' ∧ rest.contains '\x7d' then dropInside rest
    else c :: dropParameters rest
where
  /-- Go on behind the next closing brace. -/
  dropInside : List Char → List Char
    | [] => []
    | c :: rest => if c = '\x7d' then dropParameters rest else dropInside rest

/-- The segments of a path that are not parameters, in Pascal case. -/
def pathStem (path : String) : String :=
  let segments := (Text.split '/' path).map fun s => String.ofList (dropParameters s.toList)
  Text.join "" ((segments.filter fun s => !s.isEmpty).map pascal)

/-- The stem of a route's schema: method, path and role. -/
def routeStem (path method suffix : String) : String :=
  String.ofList (Unicode.capitalize method.toList) ++ pathStem path ++ suffix

/-- The role of a response by its status. -/
def statusSuffix (status : String) : String :=
  if status = "default" then "DefaultResponse"
  else
    let name := pascal status
    let label := if name.isEmpty then status else name
    if Text.hasPrefix "2" status then label ++ "Response" else label ++ "ErrorResponse"

end ApiSchema.Name
