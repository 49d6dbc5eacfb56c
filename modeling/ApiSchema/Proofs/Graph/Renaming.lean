import ApiSchema.Graph
import ApiSchema.Proofs.Text.Distinct

/-!
# Renamed graphs

An injective map renames the nodes of a graph and the names that its links lead to. Every search in
graphs commutes with it. Main statements: so do the components of a graph, with their order, and the
cycle that is found.
-/

namespace ApiSchema

open List

/-! ### Lists of names -/

section

variable (τ : String ↪ String)

@[simp] lemma contains_map (xs : List String) (x : String) :
    (xs.map τ).contains (τ x) = xs.contains x := by
  rw [Bool.eq_iff_iff, contains_iff_mem, contains_iff_mem]
  exact mem_map_of_injective τ.injective

lemma beq_map (x y : String) : (τ x == τ y) = (x == y) := by
  rw [Bool.eq_iff_iff, beq_iff_eq, beq_iff_eq]
  exact τ.injective.eq_iff

lemma Text.distinct_map (xs : List String) : distinct (xs.map τ) = (distinct xs).map τ := by
  have hfold (seen xs : List String) :
      (xs.map τ).foldl (fun seen x => if seen.contains x then seen else seen ++ [x]) (seen.map τ) =
        (xs.foldl (fun seen x => if seen.contains x then seen else seen ++ [x]) seen).map τ := by
    induction xs generalizing seen with
    | nil => rfl
    | cons x xs ih =>
      rw [map_cons, foldl_cons, foldl_cons, contains_map, ← ih]
      split <;> simp
  exact hfold [] xs

end

namespace Graph

/-- The second graph is the first one with other names. -/
structure Renames (τ : String ↪ String) (g g' : Graph) : Prop where
  nodes : g'.nodes = g.nodes.map τ
  links : ∀ x, g'.links (τ x) = (g.links x).map τ

namespace Renames

variable {τ : String ↪ String} {g g' : Graph} (h : g.Renames τ g')

include h

lemma next (x : String) : g'.next (τ x) = (g.next x).map τ := by
  rw [Graph.next, Graph.next, h.links, h.nodes, filter_map]
  congr 1
  exact filter_congr fun y _ => contains_map τ g.nodes y

/-! ### Reachability -/

lemma reachWithin (n : Nat) (front seen : List String) :
    g'.reachWithin n (front.map τ) (seen.map τ) = (g.reachWithin n front seen).map τ := by
  induction n generalizing front seen with
  | zero => rfl
  | succ n ih =>
    cases front with
    | nil => rfl
    | cons x front =>
      simp only [map_cons, Graph.reachWithin, contains_map]
      split
      · exact ih front seen
      · rw [h.next, ← map_append]
        exact ih (g.next x ++ front) (x :: seen)

lemma linkCount : g'.linkCount = g.linkCount := by
  rw [Graph.linkCount, Graph.linkCount, h.nodes, length_flatMap, length_flatMap,
    map_map]
  congr 1
  exact map_congr_left fun x _ => by simp [h.next]

lemma closure : g'.closure = g.closure.map (Prod.map τ (List.map τ)) := by
  have hreach (x : String) :
      g'.reachUpTo g'.linkCount (τ x) = (g.reachUpTo g.linkCount x).map τ := by
    rw [reachUpTo, h.next, h.linkCount, length_map]
    exact h.reachWithin _ _ []
  simp only [Graph.closure, h.nodes, map_map]
  exact map_congr_left fun x _ => by simp [hreach]

/-! ### Depth-first search -/

/-- A search among the new names. -/
def search (τ : String ↪ String) (s : Search) : Search where
  seen := s.seen.map τ
  finished := s.finished.map τ

lemma visitWithin (n : Nat) (s : Search) (x : String) :
    g'.visitWithin n (search τ s) (τ x) = search τ (g.visitWithin n s x) := by
  induction n generalizing s x with
  | zero => rfl
  | succ n ih =>
    have hseen : (search τ s).seen.contains (τ x) = s.seen.contains x := contains_map τ s.seen x
    have henter : ({ search τ s with seen := τ x :: (search τ s).seen } : Search) =
        search τ { s with seen := x :: s.seen } := rfl
    simp only [Graph.visitWithin]
    rw [hseen, h.next, henter, foldl_map, foldl_hom (search τ) ih]
    split
    · rfl
    · simp [search]

lemma postorder : g'.postorder = g.postorder.map τ := by
  have hstart : ({} : Search) = search τ {} := rfl
  rw [Graph.postorder, h.nodes, length_map, hstart, foldl_map,
    foldl_hom (search τ) (h.visitWithin _)]
  rfl

/-! ### Components -/

omit h in
lemma isMutual (closure : List (String × List String)) (x y : String) :
    Graph.isMutual (closure.map (Prod.map τ (List.map τ))) (τ x) (τ y) =
      Graph.isMutual closure x y := by
  have hreaches (x y : String) :
      Graph.reaches (closure.map (Prod.map τ (List.map τ))) (τ x) (τ y) =
        Graph.reaches closure x y := by
    have hlookup : (closure.map (Prod.map τ (List.map τ))).lookup (τ x) =
        (closure.lookup x).map (List.map τ) := by
      induction closure with
      | nil => rfl
      | cons p closure ih =>
        rw [map_cons, lookup_cons, lookup_cons, Prod.map_fst, beq_map, ih]
        cases x == p.1 <;> rfl
    rw [Graph.reaches, Graph.reaches, hlookup]
    cases closure.lookup x with
    | none => rfl
    | some ys => exact contains_map τ ys y
  rw [Graph.isMutual, Graph.isMutual, hreaches, hreaches, beq_map]

omit h in
lemma representatives (closure : List (String × List String)) (xs : List String) :
    Graph.representatives (closure.map (Prod.map τ (List.map τ))) (xs.map τ) =
      (Graph.representatives closure xs).map τ := by
  induction xs with
  | nil => rfl
  | cons x xs ih =>
    have hany : (xs.map τ).any (Graph.isMutual (closure.map (Prod.map τ (List.map τ))) (τ x)) =
        xs.any (Graph.isMutual closure x) := by
      rw [any_map]
      congr 1
      funext y
      exact isMutual closure x y
    rw [map_cons, Graph.representatives, Graph.representatives, hany, ih]
    split <;> rfl

/-- The components are renamed, and keep their order. -/
theorem components : g'.components = g.components.map (List.map τ) := by
  simp only [Graph.components, h.closure, h.postorder, representatives, map_map]
  refine map_congr_left fun x _ => ?_
  rw [Function.comp_apply, Function.comp_apply, h.nodes, filter_map]
  congr 1
  exact filter_congr fun y _ => isMutual g.closure x y

/-! ### Cycles -/

/-- The end of a search for a cycle among the new names. -/
def cycleEnd (τ : String ↪ String) :
    Except (List String) (List String) → Except (List String) (List String)
  | .error cycle => .error (cycle.map τ)
  | .ok done => .ok (done.map τ)

omit h in
lemma foldlM_cycleEnd {f f' : List String → String → Except (List String) (List String)}
    (hf : ∀ done x, f' (done.map τ) (τ x) = cycleEnd τ (f done x)) (xs done : List String) :
    (xs.map τ).foldlM f' (done.map τ) = cycleEnd τ (xs.foldlM f done) := by
  induction xs generalizing done with
  | nil => rfl
  | cons x xs ih =>
    rw [map_cons, foldlM_cons, foldlM_cons, hf]
    cases f done x with
    | error cycle => rfl
    | ok done => exact ih done

lemma cycleWithin (n : Nat) (path done : List String) (x : String) :
    g'.cycleWithin n (path.map τ) (done.map τ) (τ x) = cycleEnd τ (g.cycleWithin n path done x) := by
  induction n generalizing path done x with
  | zero => rfl
  | succ n ih =>
    simp only [Graph.cycleWithin, contains_map]
    split
    · have hdrop : (path.map τ).dropWhile (· != τ x) = (path.dropWhile (· != x)).map τ := by
        rw [dropWhile_map]
        congr 2
        funext y
        exact congrArg not (beq_map τ y x)
      simp [cycleEnd, hdrop]
    · split
      · rfl
      · have hpath : path.map τ ++ [τ x] = (path ++ [x]).map τ := by simp
        rw [h.next, hpath, foldlM_cycleEnd (ih (path ++ [x]))]
        cases (g.next x).foldlM (g.cycleWithin n (path ++ [x])) done <;> rfl

/-- The cycle that is found is renamed. -/
theorem cycle? : g'.cycle? = g.cycle?.map (List.map τ) := by
  have hsearch := foldlM_cycleEnd (h.cycleWithin (g.nodes.length + 2) []) g.nodes []
  rw [Graph.cycle?, Graph.cycle?, h.nodes, length_map]
  rw [map_nil] at hsearch
  rw [hsearch]
  cases g.nodes.foldlM (g.cycleWithin (g.nodes.length + 2) []) [] <;> rfl

end Renames

end Graph

end ApiSchema
