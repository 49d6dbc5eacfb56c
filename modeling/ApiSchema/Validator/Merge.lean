import ApiSchema.Schema.Resolve
import ApiSchema.Validator.Basic

/-!
# Merging objects

A conjunction whose branches are all objects is itself an object: its properties are those of all
branches. Branches may be references and conjunctions in turn; they are flattened first.
-/

namespace ApiSchema

/-- An object schema without its place. -/
structure Shape where
  properties : List (String × Node)
  required : List String
  additional : Additional Node
  rules : CountRules

namespace Shape

/-! ### Flattening -/

/-- The cycle that is closed by meeting a target again, by the names of its members. -/
def cycleNames (doc : Resolved) (stack : List String) (target : String) : List String :=
  (stack.dropWhile (· != target) ++ [target]).map fun t => (doc.names.lookup t).getD t

section

-- `follow` flattens the branches of a definition; its first argument holds the targets on the way.
variable (doc : Resolved) (follow : List String → List Node → Except Fault (Option (List Shape)))

/-- The shapes behind a reference. -/
def ofTarget (stack : List String) (pointer target : String) :
    Except Fault (Option (List Shape)) :=
  if stack.contains target then
    .error (.schema (.unbreakable (cycleNames doc stack target) (some pointer)))
  else
    match doc.definitions.lookup target with
    | some (.object site properties required additional rules) =>
      .ok (if site.nullable then none else some [⟨properties, required, additional, rules⟩])
    | some (.allOf site branches) =>
      if site.nullable then .ok none else follow (stack ++ [target]) branches
    | _ => .ok none

mutual

/-- The shapes of one branch, if it is an object or a conjunction of objects. -/
def ofBranch (stack : List String) : Node → Except Fault (Option (List Shape))
  | .object site properties required additional rules =>
    .ok (if site.nullable then none else some [⟨properties, required, additional, rules⟩])
  | .allOf site branches => if site.nullable then .ok none else ofBranches stack branches
  | .reference site target =>
    if site.nullable then .ok none else ofTarget doc follow stack site.pointer target
  | _ => .ok none

def ofBranches (stack : List String) : List Node → Except Fault (Option (List Shape))
  | [] => .ok (some [])
  | branch :: rest =>
    match ofBranch stack branch with
    | .error fault => .error fault
    | .ok none => .ok none
    | .ok (some shapes) =>
      match ofBranches stack rest with
      | .error fault => .error fault
      | .ok others => .ok (others.map (shapes ++ ·))

end

end

/-- The shapes of branches, through at most `n` definitions. -/
def flattenWithin (doc : Resolved) :
    Nat → List String → List Node → Except Fault (Option (List Shape))
  | 0, _, _ => .error .endless
  | n + 1, stack, branches => ofBranches doc (flattenWithin doc n) stack branches

/-- The shapes of the branches of a conjunction. No definition is entered twice on the way, so their
number bounds it. -/
def flatten (doc : Resolved) (branches : List Node) : Except Fault (Option (List Shape)) :=
  flattenWithin doc (doc.definitions.length + 1) [] branches

/-! ### Merging -/

/-- What several shapes say together: for every property the schemas it has to satisfy. -/
structure Merged where
  declared : List (String × List Node) := []
  required : List String := []
  forbidden : Bool := false
  extras : List Node := []
  count : Extent := {}

/-- Add a schema unless it is there already. -/
def addSchema (schema : Node) (schemas : List Node) : List Node :=
  if schemas.any schema.same then schemas else schemas ++ [schema]

/-- Add a schema for a property. -/
def declare (name : String) (schema : Node) :
    List (String × List Node) → List (String × List Node)
  | [] => [(name, [schema])]
  | (k, schemas) :: rest =>
    if k = name then (k, addSchema schema schemas) :: rest
    else (k, schemas) :: declare name schema rest

/-- The sharper of two bounds, by which of them precedes. -/
def sharper (precedes? : Value → Value → Option Bool) (known new : Option Value) :
    Except Fault (Option Value) :=
  match known, new with
  | known, none => .ok known
  | none, some b => .ok (some b)
  | some a, some b =>
    match precedes? a b with
    | some true => .ok (some b)
    | some false => .ok (some a)
    | none => .error .incomparable

/-- Add one shape to what others say. -/
def addTo (merged : Merged) (shape : Shape) : Except Fault Merged := do
  let least ← sharper Value.precedes? merged.count.min shape.rules.minProperties
  let most ← sharper (fun a b => Value.precedes? b a) merged.count.max shape.rules.maxProperties
  return {
    declared := shape.properties.foldl (fun ps (name, schema) => declare name schema ps)
      merged.declared
    required := merged.required ++ shape.required
    forbidden := merged.forbidden || (match shape.additional with
      | .forbidden => true
      | _ => false)
    extras := match shape.additional with
      | .typed schema => addSchema schema merged.extras
      | _ => merged.extras
    count := ⟨least, most⟩ }

def merge (shapes : List Shape) : Except Fault Merged :=
  shapes.foldlM addTo {}

end Shape

end ApiSchema
