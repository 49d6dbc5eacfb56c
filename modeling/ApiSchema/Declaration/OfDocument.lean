import ApiSchema.Declaration.Basic
import ApiSchema.Name.Identifier
import ApiSchema.Name.Registry
import ApiSchema.Name.Route
import ApiSchema.Validator.OfNode

/-!
# Declarations of a document

Every definition and every schema of a route gets a declaration, and so do objects and repeated
composites inside of them. Validators with one fingerprint share one declaration.
-/

namespace ApiSchema

/-- The validators of a document: of its definitions, by target, and of its routes. -/
structure Validators where
  definitions : List (String × Validator)
  routes : List (Route Validator)

namespace Validator

def ofPairs (ctx : Context) : List (String × Node) → Making (List (String × Validator))
  | [] => pure []
  | (key, node) :: rest => do
    let v ← ofNode ctx node
    let vs ← ofPairs ctx rest
    return (key, v) :: vs

def ofRoutes (ctx : Context) : List (Route Node) → Making (List (Route Validator))
  | [] => pure []
  | r :: rest => do
    let request ← ofPairs ctx r.request
    let responses ← ofPairs ctx r.responses
    let routes ← ofRoutes ctx rest
    return { path := r.path, method := r.method, pointer := r.pointer, request, responses } :: routes

/-- The validators of a document, with those of its routes or without. -/
def ofDocument (ctx : Context) (includeRoutes : Bool) : Making Validators := do
  let definitions ← ofPairs ctx ctx.doc.definitions
  let routes ← ofRoutes ctx (if includeRoutes then ctx.doc.routes else [])
  return ⟨definitions, routes⟩

/-! ### Repetition -/

mutual

/-- Every composite in a tree. -/
def composites : Validator → List Validator
  | v@(array items _ _) => v :: composites items
  | v@(record values _) => v :: composites values
  | v@(object fields _ extra _) => v :: (compositesFields fields ++ compositesExtra extra)
  | v@(union branches) => v :: compositesAll branches
  | v@(intersection branches) => v :: compositesAll branches
  | v@(literal _) => [v]
  | nullable inner => composites inner
  | _ => []

def compositesAll : List Validator → List Validator
  | [] => []
  | v :: vs => composites v ++ compositesAll vs

def compositesFields : List (FieldOf Validator) → List Validator
  | [] => []
  | ⟨_, v, _⟩ :: fs => composites v ++ compositesFields fs

def compositesExtra : Option Validator → List Validator
  | none => []
  | some v => composites v

end

end Validator

namespace Validators

def roots (t : Validators) : List Validator :=
  t.definitions.map (·.2) ++
    t.routes.flatMap fun r => r.request.map (·.2) ++ r.responses.map (·.2)

/-- The fingerprints that more than one composite has. -/
def repeated (t : Validators) (fingerprint : Validator → String) : List String :=
  let prints := (Validator.compositesAll t.roots).map fingerprint
  Text.distinct (prints.filter fun p => 1 < prints.count p)

end Validators

namespace Declarations

/-! ### Building -/

/-- What a build depends on: the fingerprint of validators, the fingerprints that are repeated, and
the names of definitions by target. -/
structure Plan where
  fingerprint : Validator → String
  repeated : List String
  names : List (String × String)

/-- What a build has made so far. -/
structure Draft where
  registry : Name.Registry
  declared : Declarations := {}

abbrev Build := StateT Draft (Except Fault)

def targetName (plan : Plan) (target : String) : Build String :=
  match plan.names.lookup target with
  | some name => return name
  | none => throw (.unknownName target)

def assign (base : String) : Build String := do
  let draft ← get
  let (name, registry) := draft.registry.assign base
  set { draft with registry }
  return name

def bind (fingerprint name : String) : Build Unit := do
  let draft ← get
  let registry ← draft.registry.bind fingerprint name
  set { draft with registry }

def declare (name : String) (v : Validator) (pointer : String) : Build Unit := do
  let draft ← get
  let declared ← draft.declared.add (.of name v pointer)
  set { draft with declared }

/-- The ending of every name handed out. -/
def schemaSuffix : String := "Schema"

/-- Declare a validator under a name made from `stem`, unless one with its fingerprint is declared
already; `lifted` is what the declaration holds. The result is the name. -/
def share (plan : Plan) (v : Validator) (stem pointer : String) (lifted : Build Validator) :
    Build String := do
  let print := plan.fingerprint v
  match (← get).registry.lookup print with
  | some name => return name
  | none =>
    let name ← assign (stem ++ schemaSuffix)
    bind print name
    let w ← lifted
    declare name w pointer
    return name

/-- Whether a validator inside another one gets a declaration of its own. -/
def isShared (plan : Plan) (v : Validator) : Bool :=
  v.isModel || plan.repeated.contains (plan.fingerprint v)

/-- A composite inside another validator: a reference to its declaration if it gets one, itself
with its parts lifted otherwise. The outermost validator of a declaration is not declared again. -/
def promote (plan : Plan) (root : Bool) (v : Validator) (stem : String)
    (lifted : Build Validator) : Build Validator := do
  if !root && isShared plan v then
    let name ← share plan v stem "" lifted
    return .named name
  else lifted

/-- The part of a name that a property adds. -/
def fieldPart (key : String) : String :=
  let part := Name.pascal key
  if part.isEmpty then "Field" else part

mutual

/-- Replace references and validators with declarations of their own by names. -/
def lift (plan : Plan) (root : Bool) (stem : String) : Validator → Build Validator
  | .ref target => .named <$> targetName plan target
  | v@(.array items length unique) =>
    promote plan root v stem do
      let items ← lift plan false (stem ++ "Item") items
      return .array items length unique
  | v@(.record values count) =>
    promote plan root v stem do
      let values ← lift plan false (stem ++ "Value") values
      return .record values count
  | v@(.object fields forbidExtra extra count) =>
    promote plan root v stem do
      let fields ← liftFields plan stem fields
      let extra ← liftExtra plan stem extra
      return .object fields forbidExtra extra count
  | v@(.union branches) =>
    promote plan root v stem do
      let branches ← liftBranches plan (stem ++ "Option") 1 branches
      return .union branches
  | v@(.intersection branches) =>
    promote plan root v stem do
      let branches ← liftBranches plan (stem ++ "Part") 1 branches
      return .intersection branches
  | v@(.literal _) => promote plan root v stem (return v)
  | .nullable inner => do
    let inner ← lift plan false (if root then stem ++ "Value" else stem) inner
    return .nullable inner
  | v => return v

def liftFields (plan : Plan) (stem : String) :
    List (FieldOf Validator) → Build (List (FieldOf Validator))
  | [] => return []
  | ⟨key, v, required⟩ :: rest => do
    let w ← lift plan false (stem ++ fieldPart key) v
    let fields ← liftFields plan stem rest
    return ⟨key, w, required⟩ :: fields

def liftExtra (plan : Plan) (stem : String) : Option Validator → Build (Option Validator)
  | none => return none
  | some v => do
    let w ← lift plan false (stem ++ "Extra") v
    return some w

def liftBranches (plan : Plan) (stem : String) (i : Nat) :
    List Validator → Build (List Validator)
  | [] => return []
  | v :: rest => do
    let w ← lift plan false (stem ++ toString i) v
    let branches ← liftBranches plan stem (i + 1) rest
    return w :: branches

end

/-- Declare the definition of a target under its name: as an alias, if it is a reference or the same
as an earlier one. -/
def define (plan : Plan) (name stem pointer : String) (v : Validator) : Build Unit := do
  match v with
  | .ref target =>
    let other ← targetName plan target
    declare name (.named other) pointer
  | v =>
    let print := plan.fingerprint v
    match (← get).registry.lookup print with
    | some existing => declare name (.named existing) pointer
    | none =>
      bind print name
      let w ← lift plan true stem v
      declare name w pointer

def routeName (plan : Plan) (v : Validator) (stem pointer : String) : Build String :=
  match v with
  | .ref target => targetName plan target
  | v => share plan v stem pointer (lift plan true stem v)

/-- The role of request data in names. -/
def kindSuffix (kind : String) : String :=
  if kind = "params" then "Params"
  else if kind = "query" then "Query"
  else if kind = "headers" then "Headers"
  else "Body"

/-- The names for the schemas of a route, each with the role that `suffix` gives it. -/
def routeNames (plan : Plan) (route : Route Validator) (suffix : String → String) :
    List (String × Validator) → Build (List (String × String))
  | [] => return []
  | (key, v) :: rest => do
    let stem := Name.routeStem route.path route.method (suffix key)
    let name ← routeName plan v stem route.pointer
    let names ← routeNames plan route suffix rest
    return (key, name) :: names

def addRoute (plan : Plan) (route : Route Validator) : Build Unit := do
  let request ← routeNames plan route kindSuffix route.request
  let responses ← routeNames plan route Name.statusSuffix route.responses
  let named : Route String :=
    { path := route.path, method := route.method, pointer := route.pointer, request, responses }
  modify fun draft =>
    { draft with declared := { draft.declared with routes := draft.declared.routes ++ [named] } }

def stemOf (doc : Resolved) (target : String) : String :=
  Name.identifier ((doc.names.lookup target).getD target)

def pointerOf (doc : Resolved) (target : String) : String :=
  match doc.definitions.lookup target with
  | some node => if node.pointer.isEmpty then target else node.pointer
  | none => target

/-- Hand out a name for every definition, in order. -/
def assignAll (doc : Resolved) : List (String × Validator) → Build (List (String × String))
  | [] => return []
  | (target, _) :: rest => do
    let name ← assign (stemOf doc target ++ schemaSuffix)
    let names ← assignAll doc rest
    return (target, name) :: names

def build (doc : Resolved) (t : Validators) (fingerprint : Validator → String) : Build Unit := do
  let names ← assignAll doc t.definitions
  let plan : Plan := ⟨fingerprint, t.repeated fingerprint, names⟩
  t.definitions.forM fun (target, v) => do
    let name ← targetName plan target
    define plan name (stemOf doc target) (pointerOf doc target) v
  t.routes.forM (addRoute plan)

def ofValidators (doc : Resolved) (t : Validators) (fingerprint : Validator → String)
    (registry : Name.Registry) : Except Fault Declarations :=
  (fun result => result.2.declared) <$> (build doc t fingerprint).run { registry }

end Declarations

end ApiSchema
