import ApiSchema.Proofs.Graph.Reach

/-!
# Postorder

A depth-first search leaves every node once. When it leaves a node, whatever the node reaches has
been left before, unless the way there leads back to a node that the search has not left yet; such a
node reaches the present one as well.
-/

namespace ApiSchema.Graph

open List Relation

variable {g : Graph}

/-- From a set that links leave only into `Q`, every way either stays inside or meets `Q`. -/
lemma Reaches.stays_or_meets {P Q : String → Prop} (h : ∀ z, P z → ∀ y, g.Link z y → P y ∨ Q y)
    {x w : String} (hx : P x) (hxw : g.Reaches x w) : P w ∨ ∃ a, g.Reaches x a ∧ Q a := by
  induction hxw with
  | refl => exact .inl hx
  | tail hxz hzw ih =>
    rcases ih with hz | ha
    · rcases h _ hz _ hzw with hw | hw
      · exact .inl hw
      · exact .inr ⟨_, hxz.tail hzw, hw⟩
    · exact .inr ha

/-- In a list of nodes every node comes after all that it reaches, but for what it reaches through a
later node that reaches it in turn. -/
def Settled (g : Graph) (order : List String) : Prop :=
  ∀ before x after, order = before ++ x :: after → ∀ w, g.Reaches x w →
    w ∈ before ++ [x] ∨ ∃ a, g.Reaches x a ∧ g.Reaches a x ∧ a ∉ before ++ [x]

lemma Settled.concat {order : List String} (h : g.Settled order) {x : String}
    (hx : ∀ w, g.Reaches x w →
      w ∈ order ++ [x] ∨ ∃ a, g.Reaches x a ∧ g.Reaches a x ∧ a ∉ order ++ [x]) :
    g.Settled (order ++ [x]) := by
  intro before y after heq
  rcases eq_nil_or_concat after with rfl | ⟨after, z, rfl⟩
  · obtain ⟨rfl, hy⟩ := append_inj' heq rfl
    obtain rfl : x = y := singleton_inj.mp hy
    exact hx
  · have heq' : order ++ [x] = (before ++ y :: after) ++ [z] := by simpa using heq
    obtain ⟨rfl, -⟩ := append_inj' heq' rfl
    exact h before y after rfl

/-! ### The invariant of a search -/

/-- What holds of a search that has entered, and not yet left, the names `onWay`. -/
structure Search.Sound (g : Graph) (onWay : List String) (s : Search) : Prop where
  nodup : s.finished.Nodup
  mem_nodes : ∀ x ∈ s.finished, x ∈ g.nodes
  mem_seen_iff : ∀ x, x ∈ s.seen ↔ x ∈ s.finished ∨ x ∈ onWay
  not_finished : ∀ x ∈ onWay, x ∉ s.finished
  closed : ∀ x ∈ s.finished, ∀ y, g.Link x y → y ∈ s.seen
  settled : g.Settled s.finished

namespace Search.Sound

variable {onWay : List String} {s : Search} {x : String}

/-- A search may enter a node that it has not seen. -/
lemma enter (hs : Search.Sound g onWay s) (hx : x ∉ s.seen) :
    Search.Sound g (x :: onWay) { s with seen := x :: s.seen } where
  nodup := hs.nodup
  mem_nodes := hs.mem_nodes
  mem_seen_iff y := by
    rw [mem_cons, mem_cons, hs.mem_seen_iff y]
    tauto
  not_finished := by
    refine forall_mem_cons.mpr ⟨?_, hs.not_finished⟩
    intro hfin
    exact hx ((hs.mem_seen_iff x).mpr (.inl hfin))
  closed y hy z hyz := mem_cons_of_mem _ (hs.closed y hy z hyz)
  settled := hs.settled

/-- A search may leave the node it entered last once all its links have been followed. -/
lemma leave (hs : Search.Sound g (x :: onWay) s) (hx : x ∈ g.nodes) (hway : x ∉ onWay)
    (hreach : ∀ a ∈ onWay, g.Reaches a x) (hlinks : ∀ y, g.Link x y → y ∈ s.seen) :
    Search.Sound g onWay { s with finished := s.finished ++ [x] } := by
  have hxfin : x ∉ s.finished := hs.not_finished x mem_cons_self
  have hnot : ∀ a ∈ onWay, a ∉ s.finished ++ [x] := by
    intro a ha hfin
    rcases mem_append.mp hfin with hfin | hfin
    · exact hs.not_finished a (mem_cons_of_mem _ ha) hfin
    · rw [mem_singleton] at hfin
      exact hway (hfin ▸ ha)
  have hseen : ∀ y, y ∈ s.seen ↔ y ∈ s.finished ++ [x] ∨ y ∈ onWay := by
    intro y
    rw [hs.mem_seen_iff y, mem_append, mem_singleton, mem_cons]
    tauto
  have hclosed : ∀ z ∈ s.finished ++ [x], ∀ y, g.Link z y → y ∈ s.seen := by
    intro z hz y hzy
    rcases mem_append.mp hz with hz | hz
    · exact hs.closed z hz y hzy
    · rw [mem_singleton] at hz
      exact hlinks y (hz ▸ hzy)
  refine ⟨?_, ?_, hseen, hnot, hclosed, hs.settled.concat ?_⟩
  · simpa using hs.nodup.concat hxfin
  · intro y hy
    rcases mem_append.mp hy with hy | hy
    · exact hs.mem_nodes y hy
    · rw [mem_singleton] at hy
      exact hy ▸ hx
  · intro w hxw
    have hescape := Reaches.stays_or_meets (P := (· ∈ s.finished ++ [x])) (Q := (· ∈ onWay))
      (fun z hz y hzy => (hseen y).mp (hclosed z hz y hzy))
      (mem_append_right _ mem_cons_self) hxw
    rcases hescape with hw | ⟨a, hxa, ha⟩
    · exact .inl hw
    · exact .inr ⟨a, hxa, hreach a ha, hnot a ha⟩

end Search.Sound

/-! ### One visit, and several -/

/-- What a visit does to a search: it stays sound, sees what it is sent to, and forgets nothing. -/
structure Visited (g : Graph) (onWay : List String) (s : Search) (xs : List String) (t : Search) :
    Prop where
  sound : Search.Sound g onWay t
  mem_seen : ∀ x ∈ xs, x ∈ t.seen
  seen_subset : s.seen ⊆ t.seen

lemma Visited.trans {onWay xs ys : List String} {t u : Search} (h : Visited g onWay s xs t)
    (h' : Visited g onWay t ys u) : Visited g onWay s (xs ++ ys) u where
  sound := h'.sound
  mem_seen x hx := by
    rcases mem_append.mp hx with hx | hx
    · exact h'.seen_subset (h.mem_seen x hx)
    · exact h'.mem_seen x hx
  seen_subset := List.Subset.trans h.seen_subset h'.seen_subset

/-- Visits in a row. -/
lemma visited_foldl (visit : Search → String → Search) (xs : List String) {onWay : List String}
    (hvisit : ∀ s, Search.Sound g onWay s → ∀ x ∈ xs, Visited g onWay s [x] (visit s x))
    (hs : Search.Sound g onWay s) : Visited g onWay s xs (xs.foldl visit s) := by
  induction xs generalizing s with
  | nil => exact ⟨hs, by simp, List.Subset.refl _⟩
  | cons x xs ih =>
    have hfirst := hvisit s hs x mem_cons_self
    exact hfirst.trans (ih (fun t ht y hy => hvisit t ht y (mem_cons_of_mem _ hy)) hfirst.sound)

/-- A visit does its work whenever its bound exceeds the number of nodes not on the way: no node is
entered twice on one way. -/
lemma visited_visitWithin {n : Nat} {onWay : List String} {x : String} (hs : Search.Sound g onWay s)
    (hx : x ∈ g.nodes) (hnodup : onWay.Nodup) (hnodes : ∀ a ∈ onWay, a ∈ g.nodes)
    (hreach : ∀ a ∈ onWay, g.Reaches a x) (hn : g.nodes.length < n + onWay.length) :
    Visited g onWay s [x] (g.visitWithin n s x) := by
  induction n generalizing onWay s x with
  | zero =>
    have hle := (hnodup.subperm hnodes).length_le
    omega
  | succ n ih =>
    rw [visitWithin]
    split_ifs with hmem
    · rw [contains_iff_mem] at hmem
      exact ⟨hs, by simpa using hmem, List.Subset.refl _⟩
    · rw [contains_iff_mem] at hmem
      have hway : x ∉ onWay := fun hway => hmem ((hs.mem_seen_iff x).mpr (.inr hway))
      have hinner := visited_foldl (g.visitWithin n) (g.next x)
        (fun t ht y hy => ih ht (Link.mem_nodes hy) (nodup_cons.mpr ⟨hway, hnodup⟩)
          (forall_mem_cons.mpr ⟨hx, hnodes⟩)
          (forall_mem_cons.mpr ⟨ReflTransGen.single hy, fun a ha => (hreach a ha).tail hy⟩)
          (by simp; omega))
        (hs.enter hmem)
      refine ⟨hinner.sound.leave hx hway hreach hinner.mem_seen, ?_, ?_⟩
      · have hxseen := hinner.seen_subset (mem_cons_self (a := x) (l := s.seen))
        simpa using hxseen
      · exact List.Subset.trans (subset_cons_self _ _) hinner.seen_subset

/-! ### The whole search -/

lemma visited_nodes (g : Graph) :
    Visited g [] {} g.nodes (g.nodes.foldl (g.visitWithin (g.nodes.length + 1)) {}) := by
  refine visited_foldl _ _ (fun s hs x hx => ?_) ?_
  · exact visited_visitWithin hs hx nodup_nil (by simp) (by simp) (by simp)
  · exact ⟨nodup_nil, by simp, by simp, by simp, by simp, by simp [Settled]⟩

lemma nodup_postorder (g : Graph) : g.postorder.Nodup :=
  (visited_nodes g).sound.nodup

lemma settled_postorder (g : Graph) : g.Settled g.postorder :=
  (visited_nodes g).sound.settled

@[simp] lemma mem_postorder_iff {x : String} : x ∈ g.postorder ↔ x ∈ g.nodes := by
  have h := visited_nodes g
  refine ⟨h.sound.mem_nodes x, fun hx => ?_⟩
  have hfin := (h.sound.mem_seen_iff x).mp (h.mem_seen x hx)
  simpa [postorder] using hfin

end ApiSchema.Graph
