import ApiSchema.Declaration.Basic
import ApiSchema.Unicode.Case

/-!
# Lookup tables

A generated module ends with two tables that give, for every path and method, the declarations of
request data by kind and of responses by status.
-/

namespace ApiSchema.Module

/-- A table: paths, methods, and the names under each. -/
abbrev Table := List (String × List (String × List (String × String)))

/-- The tables for requests and responses. -/
structure Lookup where
  request : Table
  response : Table

namespace Lookup

/-- The kinds of request data in order. -/
def kinds : List String :=
  ["params", "query", "headers", "body"]

/-- Add a row under its path. -/
def addRow (path : String) (row : String × List (String × String)) : Table → Table
  | [] => [(path, [row])]
  | (p, rows) :: rest =>
    if p = path then (p, rows ++ [row]) :: rest else (p, rows) :: addRow path row rest

def methodName (method : String) : String :=
  String.ofList (Unicode.upperWord method.toList)

/-- The name of each kind of request data, in the order of kinds; of several, the last. -/
def byKind (request : List (String × String)) : List (String × String) :=
  kinds.filterMap fun kind => (request.reverse.lookup kind).map (kind, ·)

/-- Refuse a route with a name that is not declared. -/
def checkRoute (d : Declarations) (route : Route String) : Except Fault Unit :=
  match (route.request ++ route.responses).find? fun (_, name) => !d.contains name with
  | some (_, name) => .error (.unknownDeclaration (methodName route.method) route.path name)
  | none => .ok ()

def ofDeclarations (d : Declarations) : Except Fault Lookup := do
  d.routes.forM (checkRoute d)
  return {
    request := d.routes.foldl (fun t r => addRow r.path (methodName r.method, byKind r.request) t) []
    response := d.routes.foldl (fun t r => addRow r.path (methodName r.method, r.responses) t) [] }

end Lookup

end ApiSchema.Module
