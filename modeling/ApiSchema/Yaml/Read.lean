import ApiSchema.Yaml.Token

/-!
# YAML text

`Yaml.read?` reads the value of a whole text. An absent value is null; of equal keys the last value
is kept in the place of the first; a key that is a collection is refused.
-/

namespace ApiSchema.Yaml

/-- Whether no node begins with this token, so that an absent one is null. -/
def isAbsent : List Token → Bool
  | .dash :: _ => true
  | .key :: _ => true
  | .value :: _ => true
  | .endBlock :: _ => true
  | .comma :: _ => true
  | .closeList :: _ => true
  | .closeMap :: _ => true
  | _ => false

mutual

/-- One node; `loose` tells whether a list may begin without being indented. The first number bounds
the work. -/
def node? : Nat → Bool → List Token → Option (Value × List Token)
  | 0, _, _ => none
  | n + 1, loose, tokens =>
    match tokens with
    | .scalar s :: rest => some (.scalar s, rest)
    | .openList :: rest => do
      let (items, rest) ← flowItems? n true rest
      some (.list items, rest)
    | .openMap :: rest => do
      let (entries, rest) ← flowEntries? n true rest
      some (Value.ofEntries entries, rest)
    | .beginList :: rest => do
      let (items, rest) ← blockItems? n rest
      match rest with
      | .endBlock :: rest => some (.list items, rest)
      | _ => none
    | .beginMap :: rest => do
      let (entries, rest) ← blockEntries? n rest
      some (Value.ofEntries entries, rest)
    | .dash :: _ =>
      if loose then do
        let (items, rest) ← blockItems? n tokens
        some (.list items, rest)
      else none
    | _ => none

/-- A node that may be absent: inside a flow collection before a comma or an end, inside a block
before the next entry. -/
def optional? : Nat → Bool → List Token → Option (Value × List Token)
  | 0, _, _ => none
  | n + 1, loose, tokens =>
    match loose, tokens with
    | true, .dash :: _ => node? n true tokens
    | _, _ => if isAbsent tokens then some (.null, tokens) else node? n loose tokens

def blockItems? : Nat → List Token → Option (List Value × List Token)
  | 0, _ => none
  | n + 1, tokens =>
    match tokens with
    | .dash :: rest => do
      let (item, rest) ← optional? n false rest
      let (items, rest) ← blockItems? n rest
      some (item :: items, rest)
    | _ => some ([], tokens)

/-- A key, behind its token, and the value that follows it. -/
def entry? : Nat → Bool → List Token → Option ((Scalar × Value) × List Token)
  | 0, _, _ => none
  | n + 1, loose, tokens => do
    let (key, rest) ← node? n loose tokens
    let (value, rest) ← match rest with
      | .value :: rest => optional? n loose rest
      | _ => some (.null, rest)
    match key with
    | .scalar k => some ((k, value), rest)
    | _ => none

/-- The entries of a block mapping, up to its end. -/
def blockEntries? : Nat → List Token → Option (List (Scalar × Value) × List Token)
  | 0, _ => none
  | n + 1, tokens =>
    match tokens with
    | .endBlock :: rest => some ([], rest)
    | .key :: rest => do
      let (entry, rest) ← entry? n true rest
      let (entries, rest) ← blockEntries? n rest
      some (entry :: entries, rest)
    | _ => none

/-- The items of a flow list, up to its end. A key there makes a mapping of one entry. -/
def flowItems? : Nat → Bool → List Token → Option (List Value × List Token)
  | 0, _, _ => none
  | n + 1, first, tokens =>
    match first, tokens with
    | _, .closeList :: rest => some ([], rest)
    | false, .comma :: rest => flowItems? n true rest
    | false, _ => none
    | true, .key :: rest => do
      let (entry, rest) ← entry? n false rest
      let (items, rest) ← flowItems? n false rest
      some (.map [entry] :: items, rest)
    | true, _ => do
      let (item, rest) ← node? n false tokens
      let (items, rest) ← flowItems? n false rest
      some (item :: items, rest)

/-- The entries of a flow mapping, up to its end. A node that is no key is a key without a value. -/
def flowEntries? : Nat → Bool → List Token → Option (List (Scalar × Value) × List Token)
  | 0, _, _ => none
  | n + 1, first, tokens =>
    match first, tokens with
    | _, .closeMap :: rest => some ([], rest)
    | false, .comma :: rest => flowEntries? n true rest
    | false, _ => none
    | true, .key :: rest => do
      let (entry, rest) ← entry? n false rest
      let (entries, rest) ← flowEntries? n false rest
      some (entry :: entries, rest)
    | true, _ => do
      let (key, rest) ← node? n false tokens
      match key with
      | .scalar k => do
        let (entries, rest) ← flowEntries? n false rest
        some ((k, .null) :: entries, rest)
      | _ => none

end

def read? (text : String) : Option Value := do
  let tokens ← tokens? text
  match tokens with
  | [] => some .null
  | _ =>
    let (value, rest) ← node? (4 * tokens.length + 4) false tokens
    if rest.isEmpty then some value else none

end ApiSchema.Yaml
