import ApiSchema.Declaration.Basic
import ApiSchema.Proofs.Text.Distinct
import ApiSchema.Proofs.Validator.Parts

/-!
# References

The references of a validator stand at the ends of paths, and a walk from left to right comes by
them in the order of their paths. Main statement: what is listed for a validator is each name that
is referred to, once, in the order of the first references, and as eager the ones with a reference
that no container lies above.
-/

namespace ApiSchema.Validator

open List

variable {v c : Validator} {name : String} {eager : Bool} {i : Nat} {path : List Nat}

/-- Arrays, records and objects pass on what a value holds, not the value itself. -/
def isContainer : Validator → Bool
  | array .. => true
  | record .. => true
  | object .. => true
  | _ => false

/-! ### References of children -/

lemma occurrencesAll_eq (eager : Bool) (vs : List Validator) :
    occurrencesAll eager vs = vs.flatMap (occurrences eager) := by
  induction vs with
  | nil => rfl
  | cons v vs ih => rw [occurrencesAll, ih, flatMap_cons]

lemma occurrencesFields_eq (fields : List (FieldOf Validator)) :
    occurrencesFields fields = (fields.map (·.validator)).flatMap (occurrences false) := by
  induction fields with
  | nil => rfl
  | cons f fields ih => rw [occurrencesFields, ih, map_cons, flatMap_cons]

lemma occurrencesExtra_eq (extra : Option Validator) :
    occurrencesExtra extra = extra.toList.flatMap (occurrences false) := by
  cases extra with
  | none => rfl
  | some v => simp [occurrencesExtra]

/-- Other than by name, a validator refers to what its children refer to. -/
lemma occurrences_of_children (hv : ∀ name, v ≠ .named name) (eager : Bool) :
    v.occurrences eager = v.children.flatMap (occurrences (eager && !v.isContainer)) := by
  cases v with
  | named name => exact absurd rfl (hv name)
  | _ =>
    simp [occurrences, children, isContainer, occurrencesAll_eq, occurrencesFields_eq,
      occurrencesExtra_eq]

/-! ### Names inside of containers -/

/-- A name occurs in a validator; `contained` tells whether a container lies in between. -/
inductive Mentions (name : String) : Validator → Bool → Prop
  | here : Mentions name (.named name) false
  | child {v c : Validator} {contained : Bool} (hc : c ∈ v.children)
    (h : Mentions name c contained) : Mentions name v (v.isContainer || contained)

/-- What a name found in a validator says on it. -/
def Finds (eager : Bool) (v : Validator) (p : String × Bool) : Prop :=
  ∃ contained, Mentions p.1 v contained ∧ p.2 = (eager && !contained)

lemma finds_iff_child {p : String × Bool} (hv : ∀ name, v ≠ .named name) :
    Finds eager v p ↔ ∃ c ∈ v.children, Finds (eager && !v.isContainer) c p := by
  constructor
  · rintro ⟨contained, hmentions, hp⟩
    cases hmentions with
    | here => exact absurd rfl (hv _)
    | child hc h => exact ⟨_, hc, _, h, by rw [hp]; cases v.isContainer <;> simp⟩
  · rintro ⟨c, hc, contained, h, hp⟩
    exact ⟨_, .child hc h, by rw [hp]; cases v.isContainer <;> simp⟩

/-- The references listed for a validator are the names that occur in it. -/
lemma mem_occurrences_iff (v : Validator) (eager : Bool) (p : String × Bool) :
    p ∈ v.occurrences eager ↔ Finds eager v p := by
  induction v using children_induction generalizing eager with
  | step v ih =>
    by_cases hv : ∀ name, v ≠ .named name
    · rw [occurrences_of_children hv, finds_iff_child hv, mem_flatMap]
      exact exists_congr fun c => and_congr_right fun hc => ih c hc _
    · obtain ⟨name, rfl⟩ := not_forall_not.1 hv
      rw [occurrences, mem_singleton]
      constructor
      · rintro rfl
        exact ⟨false, .here, by simp⟩
      · rintro ⟨contained, h, hp⟩
        cases h with
        | here => exact Prod.ext rfl (by simpa using hp)
        | child hc _ => cases hc

lemma mem_references_iff : name ∈ v.references ↔ ∃ contained, Mentions name v contained := by
  rw [references, Text.mem_distinct, mem_map]
  constructor
  · rintro ⟨p, hp, rfl⟩
    obtain ⟨contained, h, -⟩ := (mem_occurrences_iff v true p).1 hp
    exact ⟨contained, h⟩
  · rintro ⟨contained, h⟩
    exact ⟨(name, true && !contained), (mem_occurrences_iff v true _).2 ⟨contained, h, rfl⟩, rfl⟩

/-- A name is referred to at once exactly if it occurs outside of all containers. -/
lemma mem_eagerReferences_iff : name ∈ v.eagerReferences ↔ Mentions name v false := by
  rw [eagerReferences, mem_filter, contains_iff_mem, mem_occurrences_iff,
    mem_references_iff]
  constructor
  · rintro ⟨-, contained, h, hp⟩
    obtain rfl : contained = false := by simpa using hp.symm
    exact h
  · intro h
    exact ⟨⟨false, h⟩, false, h, rfl⟩

/-! ### Places of references -/

/-- No container lies above the end of a path. -/
def IsOpen (v : Validator) (path : List Nat) : Prop :=
  ∀ above below u, path = above ++ below → below ≠ [] → v.at? above = some u →
    u.isContainer = false

lemma isOpen_cons_iff (hc : v.children[i]? = some c) :
    v.IsOpen (i :: path) ↔ v.isContainer = false ∧ c.IsOpen path := by
  constructor
  · intro h
    refine ⟨h [] _ v rfl (cons_ne_nil i path) rfl, fun above below u hpath hbelow hu => ?_⟩
    exact h (i :: above) below u (congrArg _ hpath) hbelow (at?_cons_eq_some_iff.2 ⟨c, hc, hu⟩)
  · rintro ⟨hv, hopen⟩ above below u hpath hbelow hu
    cases above with
    | nil =>
      cases hu
      exact hv
    | cons j above =>
      obtain ⟨rfl, hbelow'⟩ := cons_eq_cons.1 hpath
      obtain ⟨c', hc', hu⟩ := at?_cons_eq_some_iff.1 hu
      cases hc.symm.trans hc'
      exact hopen above below u hbelow' hbelow hu

lemma mentions_false_iff :
    Mentions name v false ↔ ∃ path, v.at? path = some (.named name) ∧ v.IsOpen path := by
  constructor
  · generalize hfalse : false = contained
    intro h
    induction h with
    | here =>
      exact ⟨[], rfl, fun _ _ _ hpath hbelow => absurd (append_eq_nil_iff.1 hpath.symm).2 hbelow⟩
    | child hc h ih =>
      obtain ⟨hv, hcontained⟩ := Bool.or_eq_false_iff.1 hfalse.symm
      obtain ⟨path, hpath, hopen⟩ := ih hcontained.symm
      obtain ⟨i, hi⟩ := mem_iff_getElem?.1 hc
      exact ⟨i :: path, at?_cons_eq_some_iff.2 ⟨_, hi, hpath⟩, (isOpen_cons_iff hi).2 ⟨hv, hopen⟩⟩
  · rintro ⟨path, hpath, hopen⟩
    induction path generalizing v with
    | nil =>
      cases hpath
      exact .here
    | cons i path ih =>
      obtain ⟨c, hc, hpath⟩ := at?_cons_eq_some_iff.1 hpath
      obtain ⟨hv, hopen⟩ := (isOpen_cons_iff hc).1 hopen
      simpa [hv] using Mentions.child (mem_of_getElem? hc) (ih hpath hopen)

/-- The references of a validator with their paths, as a walk from left to right comes by them. -/
structure Walks (v : Validator) (places : List (List Nat × String)) : Prop where
  ordered : places.Pairwise fun p q => p.1 < q.1
  mem_iff : ∀ path name, (path, name) ∈ places ↔ v.at? path = some (.named name)

lemma walks_named (name : String) : (named name).Walks [([], name)] where
  ordered := pairwise_singleton ..
  mem_iff path name' := by
    cases path with
    | nil => simp [at?, eq_comm]
    | cons i path => simp [at?, children]

/-- Walks along some children, the first of which is the one at index `k`. -/
lemma exists_places_of_children {vs : List Validator}
    (h : ∀ v ∈ vs, ∃ places, v.Walks places ∧
      places.map (·.2) = (v.occurrences eager).map (·.1)) (k : Nat) :
    ∃ places : List (List Nat × String), (places.Pairwise fun p q => p.1 < q.1) ∧
      (∀ path name, (path, name) ∈ places ↔ ∃ i rest v, path = (k + i) :: rest ∧
        vs[i]? = some v ∧ v.at? rest = some (.named name)) ∧
      places.map (·.2) = (vs.flatMap (occurrences eager)).map (·.1) := by
  induction vs generalizing k with
  | nil => exact ⟨[], .nil, by simp, rfl⟩
  | cons v vs ih =>
    obtain ⟨here, hhere, hnames⟩ := h v mem_cons_self
    obtain ⟨further, hordered, hmem, hnames'⟩ := ih (fun w hw => h w (mem_cons_of_mem v hw)) (k + 1)
    refine ⟨here.map (fun p => (k :: p.1, p.2)) ++ further, pairwise_append.2 ⟨?_, hordered, ?_⟩,
      fun path name => ?_, ?_⟩
    · rw [pairwise_map]
      exact hhere.ordered.imp cons_lt_cons_self.2
    · rintro p hp ⟨path, name⟩ hq
      obtain ⟨q, -, rfl⟩ := mem_map.1 hp
      obtain ⟨i, rest, -, rfl, -⟩ := (hmem path name).1 hq
      exact cons_lt_cons_iff.2 (.inl (by omega))
    · rw [mem_append, hmem]
      constructor
      · rintro (hp | ⟨i, rest, w, rfl, hw, hname⟩)
        · obtain ⟨⟨rest, _⟩, hrest, heq⟩ := mem_map.1 hp
          cases heq
          exact ⟨0, rest, v, rfl, rfl, (hhere.mem_iff rest _).1 hrest⟩
        · exact ⟨i + 1, rest, w, by rw [Nat.add_right_comm, Nat.add_assoc], hw, hname⟩
      · rintro ⟨_ | i, rest, w, rfl, hw, hname⟩
        · cases hw
          exact .inl (mem_map.2 ⟨(rest, name), (hhere.mem_iff rest name).2 hname, rfl⟩)
        · exact .inr ⟨i, rest, w, by rw [Nat.add_right_comm, Nat.add_assoc], hw, hname⟩
    · rw [map_append, map_map, flatMap_cons, map_append, hnames', ← hnames]
      rfl

/-- A walk comes by the references in the order in which they are found. -/
lemma exists_walks (v : Validator) (eager : Bool) :
    ∃ places, v.Walks places ∧ places.map (·.2) = (v.occurrences eager).map (·.1) := by
  induction v using children_induction generalizing eager with
  | step v ih =>
    by_cases hv : ∀ name, v ≠ .named name
    · obtain ⟨places, hordered, hmem, hnames⟩ := exists_places_of_children (fun c hc => ih c hc _) 0
      refine ⟨places, ⟨hordered, fun path name => (hmem path name).trans ?_⟩,
        hnames.trans (by rw [occurrences_of_children hv])⟩
      cases path with
      | nil => simp [at?, hv name]
      | cons i path => simp [at?_cons_eq_some_iff]
    · obtain ⟨name, rfl⟩ := not_forall_not.1 hv
      exact ⟨_, walks_named name, rfl⟩

/-! ### Lists of references -/

/-- The lists are those of the names that a validator refers to, and refers to at once. -/
structure ListsReferences (v : Validator) (names eager : List String) : Prop where
  nodup : names.Nodup
  mem_iff : ∀ name, name ∈ names ↔ ∃ path, v.at? path = some (.named name)
  /-- Some reference to the earlier name stands before all references to the later one. -/
  ordered : names.Pairwise fun name name' => ∃ path, v.at? path = some (.named name) ∧
    ∀ path', v.at? path' = some (.named name') → path < path'
  eager_sublist : eager.Sublist names
  mem_eager_iff : ∀ name, name ∈ eager ↔
    ∃ path, v.at? path = some (.named name) ∧ v.IsOpen path

/-- The references of a validator are listed, each name once and in the order of a walk. -/
theorem listsReferences (v : Validator) : v.ListsReferences v.references v.eagerReferences := by
  obtain ⟨places, hwalks, hnames⟩ := exists_walks v true
  refine ⟨Text.nodup_distinct _, fun name => ?_, ?_, filter_sublist, fun name => ?_⟩
  · rw [references, ← hnames, Text.mem_distinct, mem_map]
    simp [hwalks.mem_iff]
  · rw [references, ← hnames]
    refine (Text.pairwise_distinct hwalks.ordered).imp fun ⟨path, hpath, hfirst⟩ => ?_
    exact ⟨path, (hwalks.mem_iff _ _).1 hpath, fun path' h => hfirst path' ((hwalks.mem_iff _ _).2 h)⟩
  · rw [mem_eagerReferences_iff, mentions_false_iff]

example : (union [array (named "Pet") {} false, named "Food", nullable (named "Pet")]).references =
    ["Pet", "Food"] := by decide +kernel

end ApiSchema.Validator
