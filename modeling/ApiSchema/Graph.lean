import ApiSchema.Text.Basic

/-!
# Graphs of names

Names that lead to other names: what can be reached, in which order a depth-first search leaves
names, which names reach each other, and a cycle if there is one.
-/

namespace ApiSchema

/-- A finite graph. Names that are no nodes are not followed. -/
structure Graph where
  nodes : List String
  links : String → List String

namespace Graph

def next (g : Graph) (x : String) : List String :=
  (g.links x).filter g.nodes.contains

/-! ### Reachability -/

/-- Everything reachable from a frontier and not seen before, through at most `n` steps of search. -/
def reachWithin (g : Graph) : Nat → List String → List String → List String
  | 0, _, seen => seen
  | _ + 1, [], seen => seen
  | n + 1, x :: front, seen =>
    if seen.contains x then reachWithin g n front seen
    else reachWithin g n (g.next x ++ front) (x :: seen)

def linkCount (g : Graph) : Nat :=
  (g.nodes.flatMap g.next).length

/-- The nodes reachable along one or more links, where `count` is the number of links. Every link is
put on the frontier at most once, beside those of the start. -/
def reachUpTo (g : Graph) (count : Nat) (x : String) : List String :=
  reachWithin g (count + (g.next x).length + 1) (g.next x) []

/-- The nodes reachable along one or more links. -/
def reach (g : Graph) (x : String) : List String :=
  g.reachUpTo g.linkCount x

/-- Every node with all that it reaches. -/
def closure (g : Graph) : List (String × List String) :=
  let count := g.linkCount
  g.nodes.map fun x => (x, g.reachUpTo count x)

/-! ### Depth-first search -/

/-- The names a search has entered, and those it has left, in order. -/
structure Search where
  seen : List String := []
  finished : List String := []

/-- Search from a node, entering at most `n` nodes in a row. -/
def visitWithin (g : Graph) : Nat → Search → String → Search
  | 0, s, _ => s
  | n + 1, s, x =>
    if s.seen.contains x then s
    else
      let s := (g.next x).foldl (visitWithin g n) { s with seen := x :: s.seen }
      { s with finished := s.finished ++ [x] }

/-- The nodes in the order a depth-first search leaves them. -/
def postorder (g : Graph) : List String :=
  (g.nodes.foldl (visitWithin g (g.nodes.length + 1)) {}).finished

/-! ### Components -/

/-- Whether a closure holds a way from one node to another. -/
def reaches (closure : List (String × List String)) (x y : String) : Bool :=
  ((closure.lookup x).getD []).contains y

/-- Whether two nodes are one, or reach each other. -/
def isMutual (closure : List (String × List String)) (x y : String) : Bool :=
  x == y || (reaches closure x y && reaches closure y x)

/-- One representative of every component: of the names of the component, the last in the list. -/
def representatives (closure : List (String × List String)) : List String → List String
  | [] => []
  | x :: rest =>
    if rest.any (isMutual closure x) then representatives closure rest
    else x :: representatives closure rest

/-- The components: sets of nodes that reach each other, each after all that it leads to. -/
def components (g : Graph) : List (List String) :=
  let closure := g.closure
  (representatives closure g.postorder).map fun x => g.nodes.filter (isMutual closure x)

/-! ### Cycles -/

/-- Search for a cycle from a node. The names on the way are `path`, those already searched `done`;
the result is either a cycle, its first name repeated at the end, or the names searched by now. -/
def cycleWithin (g : Graph) : Nat → List String → List String → String →
    Except (List String) (List String)
  | 0, _, done, _ => .ok done
  | n + 1, path, done, x =>
    if path.contains x then .error (path.dropWhile (· != x) ++ [x])
    else if done.contains x then .ok done
    else
      match (g.next x).foldlM (cycleWithin g n (path ++ [x])) done with
      | .error cycle => .error cycle
      | .ok done => .ok (x :: done)

def cycle? (g : Graph) : Option (List String) :=
  match g.nodes.foldlM (cycleWithin g (g.nodes.length + 2) []) [] with
  | .error cycle => some cycle
  | .ok _ => none

end Graph

end ApiSchema
