import ApiSchema.Proofs.Graph.Reach

/-!
# Cycles

The search `Graph.cycle?` finds a cycle exactly if the graph has one. The names that it has been
through on the way are cleared: links from them stay among them, and none of them reaches itself.
-/

namespace ApiSchema.Graph

open List Relation

variable {g : Graph}

variable {r : String → String → Prop} {x y : String} {path done : List String}

/-- A closed walk along links, with its first name repeated at the end. -/
def IsCycle (g : Graph) (names : List String) : Prop :=
  ∃ x rest, names = x :: (rest ++ [x]) ∧ names.IsChain g.Link

lemma transGen_of_isChain {xs : List String} (h : (x :: (xs ++ [y])).IsChain r) :
    TransGen r x y := by
  induction xs generalizing x with
  | nil => exact TransGen.single (by simpa using h)
  | cons z xs ih =>
    rw [cons_append, isChain_cons_cons] at h
    exact TransGen.head h.1 (ih h.2)

lemma IsCycle.exists_reachesOn {names : List String} (h : g.IsCycle names) :
    ∃ x, g.ReachesOn x x := by
  obtain ⟨x, rest, rfl, hchain⟩ := h
  exact ⟨x, transGen_of_isChain hchain⟩

/-- A way that comes by a name twice holds a cycle. -/
lemma exists_cycle_of_mem (hx : x ∈ path) (hchain : (path ++ [x]).IsChain r) :
    ∃ y rest, path.dropWhile (· != x) ++ [x] = y :: (rest ++ [y]) ∧
      (path.dropWhile (· != x) ++ [x]).IsChain r := by
  induction path with
  | nil => simp at hx
  | cons y path ih =>
    by_cases hxy : y = x
    · subst hxy
      refine ⟨y, path, by simp, ?_⟩
      simpa using hchain
    · rw [dropWhile_cons, if_pos (by simpa using hxy)]
      exact ih ((mem_cons.mp hx).resolve_left (Ne.symm hxy))
        (hchain.suffix (suffix_cons y _))

/-! ### Cleared names -/

/-- Links from these names stay among them, and none of them lies on a cycle. -/
structure Cleared (g : Graph) (done : List String) : Prop where
  closed : ∀ x ∈ done, ∀ y, g.Link x y → y ∈ done
  acyclic : ∀ x ∈ done, ¬ g.ReachesOn x x

lemma Cleared.mem_of_reaches (h : g.Cleared done) (hx : x ∈ done) (hxy : g.Reaches x y) :
    y ∈ done := by
  induction hxy with
  | refl => exact hx
  | tail _ hzy ih => exact h.closed _ ih _ hzy

/-- A name all of whose links lead to cleared names is clear as well. -/
lemma Cleared.cons (h : g.Cleared done) (hlinks : ∀ y, g.Link x y → y ∈ done) :
    g.Cleared (x :: done) := by
  refine ⟨forall_mem_cons.mpr ⟨?_, ?_⟩, forall_mem_cons.mpr ⟨?_, h.acyclic⟩⟩
  · intro y hxy
    exact mem_cons_of_mem x (hlinks y hxy)
  · intro y hy z hyz
    exact mem_cons_of_mem x (h.closed y hy z hyz)
  · intro hxx
    obtain ⟨y, hxy, hyx⟩ := TransGen.head'_iff.mp hxx
    exact h.acyclic x (h.mem_of_reaches (hlinks y hxy) hyx) hxx

/-! ### The search -/

/-- What a search that is sent to some names comes to: a cycle, or a larger list of cleared names
that holds all of them. -/
def Searched (g : Graph) (done xs : List String) : Except (List String) (List String) → Prop
  | .error cycle => g.IsCycle cycle
  | .ok done' => g.Cleared done' ∧ done ⊆ done' ∧ xs ⊆ done'

/-- Searches in a row. -/
lemma searched_foldlM (search : List String → String → Except (List String) (List String))
    (xs : List String)
    (hsearch : ∀ done, g.Cleared done → ∀ x ∈ xs, g.Searched done [x] (search done x))
    (hdone : g.Cleared done) : g.Searched done xs (xs.foldlM search done) := by
  induction xs generalizing done with
  | nil => exact ⟨hdone, List.Subset.refl _, nil_subset _⟩
  | cons x xs ih =>
    have hfirst := hsearch done hdone x mem_cons_self
    rw [foldlM_cons]
    cases hx : search done x with
    | error cycle =>
      rw [hx] at hfirst
      exact hfirst
    | ok done₁ =>
      rw [hx] at hfirst
      obtain ⟨hcleared, hsub, hmem⟩ := hfirst
      have hrest := ih (fun d hd y hy => hsearch d hd y (mem_cons_of_mem x hy)) hcleared
      change g.Searched done (x :: xs) (xs.foldlM search done₁)
      cases hxs : xs.foldlM search done₁ with
      | error cycle =>
        rw [hxs] at hrest
        exact hrest
      | ok done₂ =>
        rw [hxs] at hrest
        obtain ⟨hcleared', hsub', hmem'⟩ := hrest
        refine ⟨hcleared', List.Subset.trans hsub hsub', cons_subset.mpr ⟨?_, hmem'⟩⟩
        exact hsub' (hmem mem_cons_self)

/-- A search from a node does its work whenever its bound exceeds the number of nodes not on the
way, which is a walk along links without repetition. -/
lemma searched_cycleWithin {n : Nat} (hdone : g.Cleared done) (hx : x ∈ g.nodes)
    (hnodup : path.Nodup) (hnodes : ∀ a ∈ path, a ∈ g.nodes) (hchain : (path ++ [x]).IsChain g.Link)
    (hn : g.nodes.length < n + path.length) :
    g.Searched done [x] (g.cycleWithin n path done x) := by
  induction n generalizing path done x with
  | zero =>
    have hle := (hnodup.subperm hnodes).length_le
    omega
  | succ n ih =>
    rw [cycleWithin]
    split_ifs with hpath hseen
    · rw [contains_iff_mem] at hpath
      exact exists_cycle_of_mem hpath hchain
    · rw [contains_iff_mem] at hseen
      exact ⟨hdone, List.Subset.refl _, by simpa using hseen⟩
    · rw [contains_iff_mem] at hpath
      have hnodup' : (path ++ [x]).Nodup :=
        nodup_append.mpr ⟨hnodup, nodup_singleton x, by grind⟩
      have hnodes' : ∀ a ∈ path ++ [x], a ∈ g.nodes := by
        simpa [or_imp, forall_and] using ⟨hnodes, hx⟩
      have hinner := searched_foldlM (g.cycleWithin n (path ++ [x])) (g.next x)
        (fun d hd y (hy : g.Link x y) => ih hd hy.mem_nodes hnodup' hnodes'
          (isChain_append.mpr ⟨hchain, isChain_singleton y, by simpa using hy⟩)
          (by simp; omega))
        hdone
      split
      next cycle hcycle =>
        rw [hcycle] at hinner
        exact hinner
      next done' hok =>
        rw [hok] at hinner
        obtain ⟨hcleared, hsub, hlinks⟩ := hinner
        refine ⟨hcleared.cons fun y hxy => hlinks hxy, ?_, by simp⟩
        exact subset_cons_of_subset x hsub

/-! ### The whole graph -/

lemma searched_nodes (g : Graph) :
    g.Searched [] g.nodes (g.nodes.foldlM (g.cycleWithin (g.nodes.length + 2) []) []) := by
  refine searched_foldlM _ _ (fun done hdone x hx => ?_) ⟨by simp, by simp⟩
  exact searched_cycleWithin hdone hx nodup_nil (by simp) (isChain_singleton x) (by simp)

/-- What is found is a cycle. -/
theorem isCycle_of_cycle? {cycle : List String} (h : g.cycle? = some cycle) : g.IsCycle cycle := by
  have hsearched := searched_nodes g
  rw [cycle?] at h
  split at h
  next found hfound =>
    rw [hfound] at hsearched
    cases h
    exact hsearched
  next => cases h

/-- Nothing is found exactly if no node reaches itself. -/
theorem cycle?_eq_none_iff : g.cycle? = none ↔ ∀ x, ¬ g.ReachesOn x x := by
  constructor
  · intro h x hxx
    have hsearched := searched_nodes g
    rw [cycle?] at h
    split at h
    next => cases h
    next done hdone =>
      rw [hdone] at hsearched
      exact hsearched.1.acyclic x (hsearched.2.2 hxx.mem_nodes) hxx
  · intro hacyclic
    rw [Option.eq_none_iff_forall_ne_some]
    intro cycle hcycle
    obtain ⟨x, hxx⟩ := (isCycle_of_cycle? hcycle).exists_reachesOn
    exact hacyclic x hxx

end ApiSchema.Graph
