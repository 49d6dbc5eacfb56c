import Mathlib
import ApiSchema.Graph

/-!
# Reachability

The search `Graph.reach` finds exactly the nodes that lie one or more links away. Its bound on steps
suffices: every step takes a name off the frontier, and only the links of a node seen for the first
time are put on it.
-/

namespace ApiSchema.Graph

open List Relation

variable {g : Graph}

variable {x y : String}

/-- A link between nodes. -/
def Link (g : Graph) (x y : String) : Prop :=
  y ∈ g.next x

/-- Reachability along any number of links. -/
def Reaches (g : Graph) : String → String → Prop :=
  ReflTransGen g.Link

/-- Reachability along one or more links. -/
def ReachesOn (g : Graph) : String → String → Prop :=
  TransGen g.Link

lemma Link.mem_nodes (h : g.Link x y) : y ∈ g.nodes := by
  simp only [Link, next, mem_filter, contains_iff_mem] at h
  exact h.2

lemma ReachesOn.mem_nodes (h : g.ReachesOn x y) : y ∈ g.nodes := by
  cases h with
  | single hxy => exact hxy.mem_nodes
  | tail _ hzy => exact hzy.mem_nodes

lemma Reaches.mem_nodes (h : g.Reaches x y) (hx : x ∈ g.nodes) : y ∈ g.nodes := by
  rcases reflTransGen_iff_eq_or_transGen.mp h with rfl | h
  · exact hx
  · exact ReachesOn.mem_nodes h

/-! ### What a search finds -/

/-- A property that links hand on, and that holds of the frontier, holds of all that is found. -/
lemma of_mem_reachWithin {P : String → Prop} (hP : ∀ x y, P x → g.Link x y → P y) {n : Nat}
    {front seen : List String} (hfront : ∀ x ∈ front, P x) (hseen : ∀ x ∈ seen, P x) :
    ∀ x ∈ g.reachWithin n front seen, P x := by
  induction n generalizing front seen with
  | zero => exact hseen
  | succ n ih =>
    cases front with
    | nil => exact hseen
    | cons x front =>
      obtain ⟨hx, hfront⟩ := forall_mem_cons.mp hfront
      rw [reachWithin]
      split_ifs with hmem
      · exact ih hfront hseen
      · refine ih ?_ (forall_mem_cons.mpr ⟨hx, hseen⟩)
        intro y hy
        rcases mem_append.mp hy with hy | hy
        · exact hP x y hx hy
        · exact hfront y hy

/-! ### The bound on steps -/

/-- The number of links that start at the names of a list. -/
def linksFrom (g : Graph) (xs : List String) : Nat :=
  (xs.map fun x => (g.next x).length).sum

lemma linksFrom_cons (x : String) (xs : List String) :
    g.linksFrom (x :: xs) = (g.next x).length + g.linksFrom xs := rfl

/-- Distinct nodes have no more links than all nodes. -/
lemma linksFrom_le_linkCount {xs : List String} (hxs : xs.Nodup) (hsub : xs ⊆ g.nodes) :
    g.linksFrom xs ≤ g.linkCount := by
  obtain ⟨ys, hperm, hsublist⟩ := hxs.subperm hsub
  calc g.linksFrom xs = g.linksFrom ys := (hperm.symm.map _).sum_eq
    _ ≤ g.linksFrom g.nodes := (hsublist.map _).sum_le_sum fun _ _ => Nat.zero_le _
    _ = g.linkCount := length_flatMap.symm

/-- A search whose bound covers the frontier and all links not yet followed ends with a set of names
that holds the frontier and that no link leads out of. -/
lemma reachWithin_closed (n : Nat) (front seen : List String) (hnodup : seen.Nodup)
    (hnodes : ∀ x ∈ seen, x ∈ g.nodes) (hfront : ∀ x ∈ front, x ∈ g.nodes)
    (hclosed : ∀ x ∈ seen, ∀ y, g.Link x y → y ∈ seen ∨ y ∈ front)
    (hn : front.length + g.linkCount ≤ n + g.linksFrom seen) :
    (∀ x ∈ seen ++ front, x ∈ g.reachWithin n front seen) ∧
      ∀ x ∈ g.reachWithin n front seen, ∀ y, g.Link x y → y ∈ g.reachWithin n front seen := by
  induction n generalizing front seen with
  | zero =>
    have hle := linksFrom_le_linkCount hnodup hnodes
    have hnil : front = [] := eq_nil_of_length_eq_zero (by omega)
    subst hnil
    simpa [reachWithin] using hclosed
  | succ n ih =>
    cases front with
    | nil => simpa [reachWithin] using hclosed
    | cons x front =>
      obtain ⟨hx, hfront⟩ := forall_mem_cons.mp hfront
      rw [reachWithin]
      split_ifs with hmem
      · rw [contains_iff_mem] at hmem
        have hclosed' : ∀ z ∈ seen, ∀ y, g.Link z y → y ∈ seen ∨ y ∈ front := by
          intro z hz y hzy
          rcases hclosed z hz y hzy with hy | hy
          · exact .inl hy
          · rcases mem_cons.mp hy with rfl | hy
            · exact .inl hmem
            · exact .inr hy
        obtain ⟨hall, hout⟩ := ih front seen hnodup hnodes hfront hclosed' (by simp at hn; omega)
        refine ⟨?_, hout⟩
        intro y hy
        apply hall
        simp only [mem_append, mem_cons] at hy ⊢
        rcases hy with hy | rfl | hy
        · exact .inl hy
        · exact .inl hmem
        · exact .inr hy
      · rw [contains_iff_mem] at hmem
        have hclosed' : ∀ z ∈ x :: seen, ∀ y, g.Link z y → y ∈ x :: seen ∨ y ∈ g.next x ++ front := by
          intro z hz y hzy
          rcases mem_cons.mp hz with rfl | hz
          · exact .inr (mem_append_left _ hzy)
          · rcases hclosed z hz y hzy with hy | hy
            · exact .inl (mem_cons_of_mem _ hy)
            · rcases mem_cons.mp hy with rfl | hy
              · exact .inl mem_cons_self
              · exact .inr (mem_append_right _ hy)
        have hfront' : ∀ y ∈ g.next x ++ front, y ∈ g.nodes := by
          intro y hy
          rcases mem_append.mp hy with hy | hy
          · exact Link.mem_nodes hy
          · exact hfront y hy
        obtain ⟨hall, hout⟩ := ih (g.next x ++ front) (x :: seen)
          (nodup_cons.mpr ⟨hmem, hnodup⟩) (forall_mem_cons.mpr ⟨hx, hnodes⟩) hfront'
          hclosed' (by rw [linksFrom_cons]; simp at hn ⊢; omega)
        refine ⟨?_, hout⟩
        intro y hy
        apply hall
        simp only [mem_append, mem_cons] at hy ⊢
        tauto

/-! ### The search from a node -/

/-- The search from a node finds what is one or more links away, and nothing else. -/
theorem mem_reach_iff : y ∈ g.reach x ↔ g.ReachesOn x y := by
  have hclosed := reachWithin_closed (g.linkCount + (g.next x).length + 1) (g.next x) []
    nodup_nil (by simp) (fun z hz => Link.mem_nodes hz) (by simp)
    (by simp [linksFrom]; omega)
  constructor
  · intro hy
    exact of_mem_reachWithin (P := g.ReachesOn x) (fun _ _ hz hzw => hz.tail hzw)
      (fun z hz => TransGen.single hz) (by simp) y hy
  · intro hxy
    induction hxy with
    | single hxy => exact hclosed.1 _ (mem_append_right _ hxy)
    | tail _ hzy ih => exact hclosed.2 _ ih _ hzy

end ApiSchema.Graph
