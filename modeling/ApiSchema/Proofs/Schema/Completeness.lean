import ApiSchema.Proofs.Schema.Demand

/-!
# Complete resolution

Resolving a document visits its components and then its routes, and follows every reference when its
target is met for the first time. Main statement: a resolved document has a definition for every
target that it refers to, in the order of that visit behind the components.
-/

namespace ApiSchema

open List Text

/-! ### Visits -/

/-- Visit targets one after the other, given those visited before: a target met again adds nothing,
and one met for the first time is followed by all that its schema refers to. -/
inductive Visits (schema : String → Option Node) : List String → List String → List String → Prop
  | done {visited : List String} : Visits schema visited [] visited
  | again {visited visited' : List String} {target : String} {rest : List String}
    (hmem : target ∈ visited) (hrest : Visits schema visited rest visited') :
    Visits schema visited (target :: rest) visited'
  | first {visited inner visited' : List String} {target : String} {rest : List String}
    {node : Node} (hnew : target ∉ visited) (hnode : schema target = some node)
    (hinner : Visits schema (visited ++ [target]) node.targets inner)
    (hrest : Visits schema inner rest visited') :
    Visits schema visited (target :: rest) visited'

namespace Visits

variable {schema : String → Option Node} {visited visited' targets : List String}

lemma mono {schema' : String → Option Node} (h : Visits schema visited targets visited')
    (hschema : ∀ target node, schema target = some node → schema' target = some node) :
    Visits schema' visited targets visited' := by
  induction h with
  | done => exact .done
  | again hmem _ ih => exact .again hmem ih
  | first hnew hnode _ _ ihinner ihrest => exact .first hnew (hschema _ _ hnode) ihinner ihrest

lemma subset (h : Visits schema visited targets visited') : visited ⊆ visited' := by
  induction h with
  | done => exact List.Subset.refl _
  | again _ _ ih => exact ih
  | first _ _ _ _ ihinner ihrest =>
    exact List.Subset.trans (List.Subset.trans (subset_append_left _ _) ihinner) ihrest

lemma targets_subset (h : Visits schema visited targets visited') : targets ⊆ visited' := by
  induction h with
  | done => exact nil_subset _
  | again hmem hrest ih => exact cons_subset.2 ⟨hrest.subset hmem, ih⟩
  | first _ _ hinner hrest _ ih =>
    exact cons_subset.2 ⟨hrest.subset (hinner.subset (by simp)), ih⟩

lemma nodup (h : Visits schema visited targets visited') (hvisited : visited.Nodup) :
    visited'.Nodup := by
  induction h with
  | done => exact hvisited
  | again _ _ ih => exact ih hvisited
  | first hnew _ _ _ ihinner ihrest =>
    exact ihrest (ihinner (nodup_append.2 ⟨hvisited, by simp, by grind⟩))

/-- What was visited has a schema, and all that it refers to was visited as well. -/
lemma closed (h : Visits schema visited targets visited') {target : String}
    (htarget : target ∈ visited') :
    target ∈ visited ∨ ∃ node, schema target = some node ∧ node.targets ⊆ visited' := by
  induction h with
  | done => exact .inl htarget
  | again _ _ ih => exact ih htarget
  | first _ hnode hinner hrest ihinner ihrest =>
    rcases ihrest htarget with htarget | htarget
    · rcases ihinner htarget with htarget | ⟨node, hschema, hsub⟩
      · rcases mem_append.1 htarget with htarget | htarget
        · exact .inl htarget
        · obtain rfl := mem_singleton.1 htarget
          exact .inr ⟨_, hnode, List.Subset.trans hinner.targets_subset hrest.subset⟩
      · exact .inr ⟨node, hschema, List.Subset.trans hsub hrest.subset⟩
    · exact .inr htarget

lemma unique {other : List String} (h : Visits schema visited targets visited')
    (h' : Visits schema visited targets other) : other = visited' := by
  induction h generalizing other with
  | done =>
    cases h'
    rfl
  | again hmem _ ih =>
    cases h' with
    | again _ hrest => exact ih hrest
    | first hnew => exact absurd hmem hnew
  | first hnew hnode _ _ ihinner ihrest =>
    cases h' with
    | again hmem => exact absurd hmem hnew
    | first _ hnode' hinner hrest =>
      obtain rfl := Option.some.inj (hnode.symm.trans hnode')
      obtain rfl := ihinner hinner
      exact ihrest hrest

end Visits

/-! ### Depth-first search -/

/-- A target met for the first time, with its schema and the targets being read then. -/
structure Met where
  stack : List String
  target : String
  node : Node

/-- From the outermost target being read to the one that is met. -/
def Met.trail (m : Met) : List String :=
  m.stack ++ [m.target]

/-- A reference to `back`, met while `stack` is being read, goes round a cycle through `target`. -/
def GoesRound (stack : List String) (back target : String) : Prop :=
  target ∈ stack.dropWhile (· != back)

lemma not_goesRound_of_notMem {stack : List String} {back target : String} (h : back ∉ stack) :
    ¬ GoesRound stack back target := by
  have hempty : stack.dropWhile (· != back) = [] := by
    rw [dropWhile_eq_nil_iff]
    intro other hother
    simpa using ne_of_mem_of_not_mem hother h
  simp [GoesRound, hempty]

/-- A visit that tells for every target met for the first time which targets were being read. -/
inductive Explores (schema : String → Option Node) :
    List String → List String → List String → List Met → Prop
  | done {stack visited : List String} : Explores schema stack visited [] []
  | again {stack visited rest : List String} {target : String} {found : List Met}
    (hmem : target ∈ visited) (hrest : Explores schema stack visited rest found) :
    Explores schema stack visited (target :: rest) found
  | first {stack visited rest : List String} {target : String} {node : Node}
    {inner found : List Met} (hnew : target ∉ visited) (hnode : schema target = some node)
    (hinner : Explores schema (stack ++ [target]) (visited ++ [target]) node.targets inner)
    (hrest : Explores schema stack (visited ++ [target] ++ inner.map (·.target)) rest found) :
    Explores schema stack visited (target :: rest) (⟨stack, target, node⟩ :: inner ++ found)

namespace Explores

variable {schema : String → Option Node} {stack visited targets : List String} {found : List Met}

lemma mono {schema' : String → Option Node} (h : Explores schema stack visited targets found)
    (hschema : ∀ target node, schema target = some node → schema' target = some node) :
    Explores schema' stack visited targets found := by
  induction h with
  | done => exact .done
  | again hmem _ ih => exact .again hmem ih
  | first hnew hnode _ _ ihinner ihrest => exact .first hnew (hschema _ _ hnode) ihinner ihrest

lemma append {targets' : List String} {found' : List Met}
    (h : Explores schema stack visited targets found)
    (h' : Explores schema stack (visited ++ found.map (·.target)) targets' found') :
    Explores schema stack visited (targets ++ targets') (found ++ found') := by
  induction h with
  | done => simpa using h'
  | again hmem _ ih => exact .again hmem (ih h')
  | first hnew hnode hinner _ _ ih =>
    rw [cons_append, append_assoc]
    refine .first hnew hnode hinner (ih ?_)
    simpa using h'

lemma visits (h : Explores schema stack visited targets found) :
    Visits schema visited targets (visited ++ found.map (·.target)) := by
  induction h with
  | done => simpa using Visits.done
  | again hmem _ ih => exact .again hmem ih
  | first hnew hnode _ _ ihinner ihrest =>
    refine .first hnew hnode ihinner ?_
    simpa using ihrest

end Explores

namespace Schema

variable {w : Walk} {target : String} {lib : Library} {routes : List (Route Node)}

/-! ### Steps of a resolution -/

section

variable {α β : Type}

lemma run_bind_eq_ok_iff {x : Resolving α} {f : α → Resolving β} {b : β} {w w'' : Walk} :
    (x >>= f).run w = (.ok b, w'') ↔
      ∃ a w', x.run w = (.ok a, w') ∧ (f a).run w' = (.ok b, w'') := by
  rcases hrun : x.run w with ⟨fault | a, w'⟩
  · rw [run_bind_of_error hrun]
    exact ⟨fun h => (by cases h), fun ⟨_, _, h, _⟩ => by cases h⟩
  · rw [run_bind_of_ok hrun]
    refine ⟨fun h => ⟨a, w', rfl, h⟩, ?_⟩
    rintro ⟨_, _, h, h'⟩
    cases h
    exact h'

/-- One demand of a reading is met. -/
def meetDemand (define : Link → Resolving Unit) : Demand → Resolving Unit
  | .document uri => modify (Walk.openDocument uri)
  | .schema link => define link

/-- A reading whose demands are met ends as it does without them. -/
lemma demands_and_outcome_of_meet {define : Link → Resolving Unit} {reading : Reading α} {a : α}
    {w w' : Walk} (h : (meet define reading).run w = (.ok a, w')) :
    (reading.trace.forM (meetDemand define)).run w = (.ok (), w') ∧ reading.outcome = .ok a := by
  obtain ⟨_, w₁, hdemands, hend⟩ := run_bind_eq_ok_iff.1 h
  cases houtcome : reading.outcome with
  | error fault =>
    rw [houtcome] at hend
    cases hend
  | ok a₀ =>
    rw [houtcome] at hend
    cases hend
    exact ⟨hdemands, rfl⟩

end

/-- The schema that is defined for a target. -/
def Walk.schema? (w : Walk) (target : String) : Option Node :=
  w.definitions.lookup target

/-- What is defined stays defined. -/
def Walk.Extends (w w' : Walk) : Prop :=
  ∀ target node, w.schema? target = some node → w'.schema? target = some node

lemma Walk.isDefined_iff : w.isDefined target ↔ ∃ node, w.schema? target = some node :=
  Option.isSome_iff_exists

lemma Walk.schema?_record {node : Node} (h : ¬ w.isDefined target) (other : String) :
    (w.record target node).schema? other =
      if other = target then some node else w.schema? other := by
  have hnone : w.definitions.lookup target = none := Option.not_isSome_iff_eq_none.1 h
  rw [Walk.schema?, Walk.record, lookup_append]
  split
  next heq => simp [heq, hnone]
  next hne => simp [Walk.schema?, List.lookup, beq_eq_false_iff_ne.2 hne]

section

-- The targets of components are introduced first; `stack` holds the targets being read.
variable (components stack : List String)

variable {targets : α → List String} {visited : List String} {w : Walk}
  {define : Link → Resolving Unit} {reading : Reading α} {target : String}

/-- The walk knows what was visited: each target is defined or being read, and its name was
introduced behind those of components. -/
structure Tracks (visited : List String) (w : Walk) : Prop where
  mem_iff : ∀ target, target ∈ visited ↔ w.isDefined target ∨ target ∈ stack
  apart : ∀ target ∈ stack, ¬ w.isDefined target
  names : w.names.map (·.1) = components ++ visited.filter (· ∉ components)

/-- A step that succeeds explores the targets that `targets` tells of its result, and marks those on
the cycles that it goes round. -/
def Follows {α : Type} (targets : α → List String) (x : Resolving α) : Prop :=
  ∀ w a w' visited, x.run w = (.ok a, w') → Tracks components stack visited w →
    ∃ found : List Met, Tracks components stack (visited ++ found.map (·.target)) w' ∧
      w.Extends w' ∧ Explores w'.schema? stack visited (targets a) found ∧
      ∀ t, t ∈ w'.cyclic ↔ t ∈ w.cyclic ∨ (∃ back ∈ targets a, GoesRound stack back t) ∨
        ∃ m ∈ found, ∃ back ∈ m.node.targets, GoesRound m.trail back t

variable {components stack} {α β : Type}

lemma follows_pure (a : α) : Follows components stack (fun _ => []) (pure a) := by
  intro w b w' visited hrun htracks
  cases hrun
  exact ⟨[], by simpa using htracks, fun _ _ h => h, .done, by simp⟩

lemma follows_throw {fault : Fault} : Follows components stack targets (throw fault) := by
  intro w b w' visited hrun
  cases hrun

lemma Tracks.congr {w' : Walk} (h : Tracks components stack visited w)
    (hdefinitions : w'.definitions = w.definitions) (hnames : w'.names = w.names) :
    Tracks components stack visited w' := by
  have hdefined (target : String) : w'.isDefined target = w.isDefined target := by
    rw [Walk.isDefined, Walk.isDefined, hdefinitions]
  refine ⟨fun target => ?_, fun target htarget => ?_, ?_⟩
  · rw [hdefined, h.mem_iff]
  · rw [hdefined]
    exact h.apart target htarget
  · rw [hnames, h.names]

/-- A step that only notes which documents were opened. -/
lemma follows_modify {f : Walk → Walk} (hf : ∀ w, ∃ opened, f w = { w with opened := opened }) :
    Follows components stack (fun _ => []) (modify f : Resolving Unit) := by
  intro w b w' visited hrun htracks
  cases hrun
  obtain ⟨opened, hopened⟩ := hf w
  rw [hopened]
  have htracks' : Tracks components stack visited { w with opened := opened } :=
    htracks.congr rfl rfl
  exact ⟨[], by simpa using htracks', fun _ _ h => h, .done, by simp⟩

lemma Follows.bind {x : Resolving α} {f : α → Resolving β} {targets : List String}
    {targets' : β → List String} (hx : Follows components stack (fun _ => targets) x)
    (hf : ∀ a, Follows components stack targets' (f a)) :
    Follows components stack (fun b => targets ++ targets' b) (x >>= f) := by
  intro w b w'' visited hrun htracks
  obtain ⟨a, w', hrunx, hrunf⟩ := run_bind_eq_ok_iff.1 hrun
  obtain ⟨found, htracks', hextends, hexplores, hcyclic⟩ := hx w a w' visited hrunx htracks
  obtain ⟨found', htracks'', hextends', hexplores', hcyclic'⟩ := hf a w' b w'' _ hrunf htracks'
  refine ⟨found ++ found', by simpa using htracks'',
    fun target node h => hextends' _ _ (hextends _ _ h),
    (hexplores.mono hextends').append hexplores', fun t => ?_⟩
  rw [hcyclic', hcyclic]
  simp only [mem_append, or_and_right, exists_or, or_assoc, or_left_comm]

lemma follows_forM {f : α → Resolving Unit} {g : α → List String} {xs : List α}
    (hf : ∀ x ∈ xs, Follows components stack (fun _ => g x) (f x)) :
    Follows components stack (fun _ => xs.flatMap g) (xs.forM f) := by
  induction xs with
  | nil => exact follows_pure ()
  | cons x xs ih =>
    rw [flatMap_cons]
    exact (hf x mem_cons_self).bind fun _ =>
      ih fun y hy => hf y (mem_cons_of_mem x hy)

/-- Meeting demands visits what the links among them lead to, as told by `g`. -/
lemma follows_demands {g : Link → List String}
    (hdefine : ∀ link, Follows components stack (fun _ => g link) (define link))
    (htargets : ∀ a, reading.outcome = .ok a → targets a = reading.trace.flatMap fun demand =>
      match demand with
      | .document _ => []
      | .schema link => g link) : Follows components stack targets (meet define reading) := by
  intro w a w' visited hrun htracks
  obtain ⟨hdemands, houtcome⟩ := demands_and_outcome_of_meet hrun
  rw [htargets a houtcome]
  refine follows_forM (fun demand _ => ?_) w () w' visited hdemands htracks
  cases demand with
  | document uri =>
    refine follows_modify fun w => ?_
    rw [Walk.openDocument]
    split <;> exact ⟨_, rfl⟩
  | schema link => exact hdefine link

/-- Meeting the demands of a reading visits its targets. -/
lemma follows_meet
    (hdefine : ∀ link, Follows components stack (fun _ => [link.target]) (define link))
    (hreading : Asks targets reading) : Follows components stack targets (meet define reading) := by
  refine follows_demands hdefine fun a houtcome => ?_
  rw [hreading a houtcome, demanded, linksIn, map_filterMap, filterMap_eq_flatMap_toList]
  refine flatMap_congr fun demand _ => ?_
  cases demand <;> rfl

/-- Opening documents visits nothing. -/
lemma follows_open (reading : Reading α) :
    Follows components stack (fun _ => []) (meet (fun _ => pure ()) reading) := by
  refine follows_demands (fun _ => follows_pure ()) fun a _ => ?_
  refine (flatMap_eq_nil_iff.2 fun demand _ => ?_).symm
  cases demand <;> rfl

/-! ### Defining targets -/

/-- A target met for the first time is being read from then on. -/
lemma Tracks.introduce (h : Tracks components stack visited w) (hnew : target ∉ visited)
    (name : String) :
    Tracks components (stack ++ [target]) (visited ++ [target]) (w.introduce target name) := by
  have hdefined (t : String) : (w.introduce target name).isDefined t = w.isDefined t := by
    rw [Walk.introduce]
    split <;> rfl
  have hundefined : ¬ w.isDefined target := fun hdefined =>
    hnew ((h.mem_iff target).2 (.inl hdefined))
  have hintroduced : (w.names.lookup target).isSome ↔ target ∈ components := by
    rw [isSome_lookup_iff, h.names, mem_append, mem_filter]
    exact or_iff_left fun hmem => hnew hmem.1
  refine ⟨fun t => ?_, fun t ht => ?_, ?_⟩
  · rw [hdefined, mem_append, mem_append, h.mem_iff, or_assoc]
  · rw [hdefined]
    rcases mem_append.1 ht with ht | ht
    · exact h.apart t ht
    · rwa [mem_singleton.1 ht]
  · rw [Walk.introduce, filter_append, ← append_assoc, ← h.names]
    by_cases hcomponent : target ∈ components
    · rw [if_pos (hintroduced.2 hcomponent)]
      simp [hcomponent]
    · rw [if_neg (hintroduced.not.2 hcomponent)]
      simp [hcomponent]

/-- A target that was being read is defined from then on. -/
lemma Tracks.record (h : Tracks components (stack ++ [target]) visited w) (htarget : target ∉ stack)
    (node : Node) : Tracks components stack visited (w.record target node) := by
  have hundefined : ¬ w.isDefined target := h.apart target (by simp)
  have hdefined (t : String) : (w.record target node).isDefined t ↔ w.isDefined t ∨ t = target := by
    rw [Walk.isDefined_iff, Walk.isDefined_iff]
    simp only [Walk.schema?_record hundefined]
    by_cases ht : t = target
    · simp [ht]
    · simp [ht]
  refine ⟨fun t => ?_, fun t ht => ?_, h.names⟩
  · rw [hdefined, h.mem_iff, mem_append, mem_singleton]
    tauto
  · rw [hdefined]
    rintro (hold | rfl)
    · exact h.apart t (mem_append_left _ ht) hold
    · exact htarget ht

/-- Following a link explores its target. -/
lemma follows_defineWithin (lib : Library) (n : Nat) (stack : List String) (link : Link) :
    Follows components stack (fun _ => [link.target]) (defineWithin lib n stack link) := by
  induction n generalizing stack link with
  | zero => exact follows_throw
  | succ n ih =>
    intro w u w' visited hrun htracks
    obtain ⟨_, _, hget, hrun⟩ := run_bind_eq_ok_iff.1 hrun
    cases hget
    split at hrun
    next hdefined =>
      cases hrun
      have hmem := (htracks.mem_iff link.target).2 (.inl hdefined)
      have hstack : link.target ∉ stack := fun h => htracks.apart _ h hdefined
      refine ⟨[], by simpa using htracks, fun _ _ h => h, .again hmem .done, fun t => ?_⟩
      simp [not_goesRound_of_notMem hstack]
    next hundefined =>
    split at hrun
    next hstack =>
      obtain ⟨_, w₁, hmark, hrun⟩ := run_bind_eq_ok_iff.1 hrun
      cases hmark
      cases hrun
      have hmem := (htracks.mem_iff link.target).2 (.inr (contains_iff_mem.1 hstack))
      have htracks' : Tracks components stack visited
          (w.markCyclic (stack.dropWhile (· != link.target))) := htracks.congr rfl rfl
      refine ⟨[], by simpa using htracks', fun _ _ h => h, .again hmem .done, fun t => ?_⟩
      simp [Walk.markCyclic, mem_distinct, GoesRound]
    next hstack =>
    obtain ⟨place, w₁, hplace, hrun⟩ := run_bind_eq_ok_iff.1 hrun
    obtain ⟨raw, w₂, hraw, hrun⟩ := run_bind_eq_ok_iff.1 hrun
    obtain ⟨_, w₃, hintroduce, hrun⟩ := run_bind_eq_ok_iff.1 hrun
    obtain ⟨node, w₄, hread, hrecord⟩ := run_bind_eq_ok_iff.1 hrun
    obtain ⟨_, htracks₁, hextends₁, hexplores₁, hcyclic₁⟩ :=
      follows_open _ w place w₁ visited hplace htracks
    cases hexplores₁
    obtain ⟨_, htracks₂, hextends₂, hexplores₂, hcyclic₂⟩ :=
      follows_open _ w₁ raw w₂ _ hraw htracks₁
    cases hexplores₂
    rw [map_nil, append_nil, append_nil] at htracks₂
    cases hintroduce
    cases hrecord
    have hstack : link.target ∉ stack := fun h => hstack (contains_iff_mem.2 h)
    have hnew : link.target ∉ visited := by
      rw [htracks.mem_iff]
      rintro (h | h)
      · exact hundefined h
      · exact hstack h
    have hreading := asks_read lib place.uri raw link.target
    obtain ⟨inner, htracks₄, hextends₄, hexplores₄, hcyclic₄⟩ := follows_meet
      (fun link => ih _ link) hreading _ node w₄ _ hread
      (htracks₂.introduce hnew (targetName place))
    have hundefined₄ : ¬ w₄.isDefined link.target := htracks₄.apart _ (by simp)
    have hextends₅ : w₄.Extends (w₄.record link.target node) := by
      intro target other hother
      have hne : target ≠ link.target := by
        rintro rfl
        exact hundefined₄ (Walk.isDefined_iff.2 ⟨other, hother⟩)
      rw [Walk.schema?_record hundefined₄, if_neg hne, hother]
    have hextends₃ : w₂.Extends (w₂.introduce link.target (targetName place)) := by
      intro target other hother
      rw [Walk.introduce]
      split <;> exact hother
    have hcyclic₃ : (w₂.introduce link.target (targetName place)).cyclic = w₂.cyclic := by
      rw [Walk.introduce]
      split <;> rfl
    have hnode : (w₄.record link.target node).schema? link.target = some node := by
      rw [Walk.schema?_record hundefined₄, if_pos rfl]
    refine ⟨⟨stack, link.target, node⟩ :: inner ++ [], ?_, ?_,
      .first hnew hnode (hexplores₄.mono hextends₅) .done, fun t => ?_⟩
    · simpa using htracks₄.record hstack node
    · intro target other hother
      exact hextends₅ _ _ (hextends₄ _ _ (hextends₃ _ _ (hextends₂ _ _ (hextends₁ _ _ hother))))
    · rw [Walk.record, hcyclic₄, hcyclic₃, hcyclic₂, hcyclic₁]
      simp [not_goesRound_of_notMem hstack, Met.trail]

end

/-! ### The whole document -/

/-- Introducing components puts each of them in once, in order. -/
lemma run_forM_introduce {names : List String} {u : Unit} {w' : Walk}
    (h : (names.forM fun name => modify (Walk.introduce (componentTarget name) name) :
      Resolving Unit).run w = (.ok u, w')) :
    w'.definitions = w.definitions ∧ w'.cyclic = w.cyclic ∧
      w'.names.map (·.1) = (names.map componentTarget).foldl
        (fun seen x => if seen.contains x then seen else seen ++ [x]) (w.names.map (·.1)) := by
  induction names generalizing w with
  | nil =>
    cases h
    exact ⟨rfl, rfl, rfl⟩
  | cons name names ih =>
    obtain ⟨_, w₁, hname, h⟩ := run_bind_eq_ok_iff.1 h
    cases hname
    obtain ⟨hdefinitions, hcyclic, hnames⟩ := ih h
    have hfirst : (w.introduce (componentTarget name) name).definitions = w.definitions ∧
        (w.introduce (componentTarget name) name).cyclic = w.cyclic ∧
        (w.introduce (componentTarget name) name).names.map (·.1) =
          if (w.names.map (·.1)).contains (componentTarget name) then w.names.map (·.1)
          else w.names.map (·.1) ++ [componentTarget name] := by
      have hiff : (w.names.lookup (componentTarget name)).isSome ↔
          (w.names.map (·.1)).contains (componentTarget name) = true := by
        rw [isSome_lookup_iff, contains_iff_mem]
      rw [Walk.introduce]
      by_cases hknown : (w.names.lookup (componentTarget name)).isSome
      · rw [if_pos hknown, if_pos (hiff.1 hknown)]
        exact ⟨rfl, rfl, rfl⟩
      · rw [if_neg hknown, if_neg (hiff.not.1 hknown)]
        simp
    refine ⟨hdefinitions.trans hfirst.1, hcyclic.trans hfirst.2.1, ?_⟩
    rw [hnames, hfirst.2.2, map_cons, foldl_cons]

/-- The targets of components in document order. -/
def componentTargets (entries : List (Scalar × Value)) : List String :=
  entries.map fun entry => componentTarget entry.1.display

/-- A resolution that succeeds has explored all components and then the routes, and has marked the
targets on the cycles that it went round. -/
lemma explores_of_resolveAll (h : (resolveAll lib).run {} = (.ok routes, w)) :
    ∃ entries, ∃ found : List Met, Schema.components lib.root = .ok entries ∧
      Tracks (Text.distinct (componentTargets entries)) [] (found.map (·.target)) w ∧
      Explores w.schema? [] [] (componentTargets entries ++ routes.flatMap Route.targets) found ∧
      ∀ t, t ∈ w.cyclic ↔ ∃ m ∈ found, ∃ back ∈ m.node.targets, GoesRound m.trail back t := by
  unfold resolveAll at h
  extract_lets next at h
  have hnext : (next ()).run {} = (.ok routes, w) := by
    split at h
    · cases h
    · exact h
  obtain ⟨entries, w₁, hentries, hbehind⟩ := run_bind_eq_ok_iff.1 hnext
  obtain ⟨_, w₂, hintroduced, hrun⟩ := run_bind_eq_ok_iff.1 hbehind
  obtain ⟨hstart, hcomponents⟩ := demands_and_outcome_of_meet hentries
  cases hstart
  obtain ⟨hdefinitions, hcyclic, hnames⟩ := run_forM_introduce hintroduced
  rw [map_map] at hnames
  have htracks : Tracks (Text.distinct (componentTargets entries)) [] [] w₂ := by
    refine ⟨fun target => ?_, by simp, ?_⟩
    · simp [Walk.isDefined, hdefinitions]
    · rw [hnames, filter_nil, append_nil]
      rfl
  have hdefine : Follows (Text.distinct (componentTargets entries)) []
      (fun routes => componentTargets entries ++ routes.flatMap Route.targets) (do
        (entries.map fun entry => entry.1.display).forM fun name =>
          define lib ⟨componentTarget name, lib.base, componentTarget name, ""⟩
        meet (define lib) (readRoutes lib)) := by
    have hnames : componentTargets entries =
        (entries.map fun entry => entry.1.display).flatMap fun name => [componentTarget name] := by
      rw [← map_eq_flatMap, map_map]
      rfl
    rw [hnames]
    refine (follows_forM fun name _ => follows_defineWithin lib _ _ _).bind fun _ => ?_
    exact follows_meet (fun link => follows_defineWithin lib _ _ link) (asks_readRoutes lib)
  obtain ⟨found, htracks', -, hexplores, hcyclic'⟩ := hdefine w₂ routes w [] hrun htracks
  refine ⟨entries, found, hcomponents, htracks', hexplores, fun t => ?_⟩
  rw [hcyclic', hcyclic]
  simp [GoesRound]

/-- A resolution that succeeds has visited all components and then the routes. -/
lemma visits_of_resolveAll (h : (resolveAll lib).run {} = (.ok routes, w)) :
    ∃ entries visited, Schema.components lib.root = .ok entries ∧
      Tracks (Text.distinct (componentTargets entries)) [] visited w ∧
      Visits w.schema? [] (componentTargets entries ++ routes.flatMap Route.targets) visited := by
  obtain ⟨entries, found, hentries, htracks, hexplores, -⟩ := explores_of_resolveAll h
  exact ⟨entries, _, hentries, htracks, hexplores.visits⟩

end Schema

namespace Resolved

/-- The schema of a target. -/
def schema? (doc : Resolved) (target : String) : Option Node :=
  doc.definitions.lookup target

/-- The keys of definitions. -/
def keys (doc : Resolved) : List String :=
  doc.definitions.map (·.1)

/-- A document has all that it refers to, in order. -/
structure IsComplete (lib : Library) (doc : Resolved) : Prop where
  /-- Every reference leads to a definition. -/
  reference : ∀ {site : Site} {target : String}, doc.Contains (.reference site target) →
    target ∈ doc.keys
  /-- Definitions and names have the same keys. -/
  names : doc.names.map (·.1) = doc.keys
  nodup : doc.keys.Nodup
  /-- Components come first, and then the other targets in the order they are visited in. -/
  order : ∃ entries visited, Schema.components lib.root = .ok entries ∧
    (∀ other, Visits doc.schema? []
      (Schema.componentTargets entries ++ doc.routes.flatMap Route.targets) other ↔
        other = visited) ∧
    doc.keys = Text.distinct (Schema.componentTargets entries) ++
      visited.filter (· ∉ Schema.componentTargets entries)

/-- What definitions and routes refer to is all that a document refers to. -/
lemma targets_subset_of_contains {doc : Resolved} {targets : List String}
    (hdefinitions : ∀ d ∈ doc.definitions, d.2.targets ⊆ targets)
    (hroutes : doc.routes.flatMap Route.targets ⊆ targets) {node : Node}
    (h : doc.Contains node) : node.targets ⊆ targets := by
  have hroute {r : Route Node} (hr : r ∈ doc.routes) {p : String × Node}
      (hp : p ∈ r.request ++ r.responses) : p.2.targets ⊆ targets := by
    intro target htarget
    exact hroutes (mem_flatMap.2 ⟨r, hr, mem_flatMap.2 ⟨p, hp, htarget⟩⟩)
  induction h with
  | definition h => exact hdefinitions _ h
  | request hr h => exact hroute hr (mem_append_left _ h)
  | response hr h => exact hroute hr (mem_append_right _ h)
  | child _ hc ih => exact List.Subset.trans (Node.targets_subset_of_mem_children hc) ih

end Resolved

namespace Schema

variable {w : Walk}

/-- Schemas in order have the keys that names have, if all of them are defined. -/
lemma Walk.map_fst_inOrder (h : ∀ p ∈ w.names, w.isDefined p.1) :
    w.inOrder.map (·.1) = w.names.map (·.1) := by
  unfold Walk.inOrder
  generalize w.names = names at h
  induction names with
  | nil => rfl
  | cons p names ih =>
    obtain ⟨target, name⟩ := p
    obtain ⟨node, hnode⟩ := Walk.isDefined_iff.1 (h (target, name) mem_cons_self)
    rw [Walk.schema?] at hnode
    simp [hnode, ih fun q hq => h q (mem_cons_of_mem _ hq)]

lemma Walk.keys_sublist_names (w : Walk) :
    (w.inOrder.map (·.1)).Sublist (w.names.map (·.1)) := by
  unfold Walk.inOrder
  induction w.names with
  | nil => exact .slnil
  | cons p names ih =>
    cases hnode : w.definitions.lookup p.1 with
    | none => simpa [hnode] using ih.cons p.1
    | some node => simpa [hnode] using ih

lemma Walk.lookup_inOrder {target : String} {node : Node} (hnode : w.schema? target = some node)
    (hname : target ∈ w.names.map (·.1)) : w.inOrder.lookup target = some node := by
  unfold Walk.inOrder
  generalize w.names = names at hname
  rw [Walk.schema?] at hnode
  induction names with
  | nil => cases hname
  | cons p names ih =>
    obtain ⟨other, name⟩ := p
    rw [map_cons, mem_cons] at hname
    by_cases heq : target = other
    · simp [← heq, hnode]
    · have ih := ih (hname.resolve_left heq)
      cases hother : w.definitions.lookup other with
      | none => simpa [hother] using ih
      | some node' => simpa [hother, lookup_cons, beq_eq_false_iff_ne.2 heq] using ih

/-- No target is defined twice. -/
lemma nodup_keys_of_resolve {lib : Library} {doc : Resolved}
    (h : (resolve lib).outcome = .ok doc) : doc.keys.Nodup := by
  unfold resolve at h
  cases hrun : (resolveAll lib).run {} with
  | mk outcome w =>
  rw [hrun] at h
  obtain ⟨routes, rfl, rfl⟩ := Except.map_eq_ok_iff.1 h
  obtain ⟨entries, visited, -, htracks, hvisits⟩ := visits_of_resolveAll hrun
  have hnames : (w.names.map (·.1)).Nodup := by
    rw [htracks.names]
    refine nodup_append.2 ⟨nodup_distinct _, (hvisits.nodup nodup_nil).filter _, ?_⟩
    rintro target hcomponent _ hother rfl
    simpa [hcomponent] using (mem_filter.1 hother).2
  exact hnames.sublist w.keys_sublist_names

end Schema

/-- Resolving gives a complete document. -/
theorem Resolved.isComplete_of_resolve {lib : Library} {doc : Resolved}
    (h : (Schema.resolve lib).outcome = .ok doc) : doc.IsComplete lib := by
  unfold Schema.resolve at h
  cases hrun : (Schema.resolveAll lib).run {} with
  | mk outcome w =>
  rw [hrun] at h
  obtain ⟨routes, rfl, rfl⟩ := Except.map_eq_ok_iff.1 h
  obtain ⟨entries, visited, hcomponents, htracks, hvisits⟩ := Schema.visits_of_resolveAll hrun
  have hsub : Schema.componentTargets entries ++ routes.flatMap Route.targets ⊆ visited :=
    hvisits.targets_subset
  have hnames : w.names.map (·.1) = Text.distinct (Schema.componentTargets entries) ++
      visited.filter (· ∉ Schema.componentTargets entries) := by
    simpa only [mem_distinct] using htracks.names
  -- The keys are what was visited, so all of them are defined.
  have hmem (target : String) : target ∈ w.names.map (·.1) ↔ target ∈ visited := by
    rw [hnames, mem_append, mem_distinct, mem_filter]
    by_cases hcomponent : target ∈ Schema.componentTargets entries
    · simp [hcomponent, hsub (mem_append_left _ hcomponent)]
    · simp [hcomponent]
  have hdefined (target : String) : target ∈ visited ↔ w.isDefined target := by
    simp [htracks.mem_iff]
  have hkeys : w.inOrder.map (·.1) = w.names.map (·.1) := Schema.Walk.map_fst_inOrder fun p hp =>
    (hdefined p.1).1 ((hmem p.1).1 (mem_map_of_mem hp))
  have hvisits' : Visits (Resolved.schema? ⟨w.inOrder, w.names, routes, w.cyclic⟩) []
      (Schema.componentTargets entries ++ routes.flatMap Route.targets) visited := by
    refine hvisits.mono fun target node hnode => Schema.Walk.lookup_inOrder hnode ?_
    exact (hmem target).2 ((hdefined target).2 (Schema.Walk.isDefined_iff.2 ⟨node, hnode⟩))
  refine ⟨fun {site target} hcontains => ?_, hkeys.symm, ?_, entries, visited, hcomponents, ?_, ?_⟩
  · have hdefinitions : ∀ d ∈ w.inOrder, d.2.targets ⊆ visited := by
      intro d hd
      obtain ⟨⟨t, name⟩, ht, hd⟩ := mem_filterMap.1 hd
      obtain ⟨node, hnode, rfl⟩ := Option.map_eq_some_iff.1 hd
      have ht : t ∈ visited := (hmem t).1 (mem_map_of_mem ht)
      obtain ⟨node', hnode', hclosed⟩ := (hvisits.closed ht).resolve_left not_mem_nil
      obtain rfl := Option.some.inj (hnode.symm.trans hnode')
      exact hclosed
    have htarget : target ∈ visited := targets_subset_of_contains hdefinitions
      (append_subset.1 hsub).2 hcontains (by simp [Node.targets])
    rw [Resolved.keys, hkeys]
    exact (hmem target).2 htarget
  · rw [Resolved.keys, hkeys, hnames]
    refine nodup_append.2 ⟨?_, (hvisits.nodup nodup_nil).filter _, ?_⟩
    · exact nodup_distinct _
    · intro a ha b hb hab
      subst hab
      rw [mem_distinct] at ha
      simpa [ha] using (mem_filter.1 hb).2
  · intro other
    constructor
    · intro hother
      exact hvisits'.unique hother
    · rintro rfl
      exact hvisits'
  · rw [Resolved.keys, hkeys, hnames]

/-- Two components. The first refers to a leaf, which refers to a bud, and to a branch, which refers
back to the second component. -/
def treeRoot : Value :=
  let ref (target : String) : Value := .object [("$ref", .str target)]
  .object [
    ("components", .object [("schemas", .object [
      ("Tree", .object [("properties", .object [
        ("leaf", ref "#/parts/leaf"), ("branch", ref "#/parts/branch")])]),
      ("Root", ref "#/parts/bud")])]),
    ("parts", .object [
      ("leaf", .object [("items", ref "#/parts/bud")]),
      ("bud", .object [("type", .str "null")]),
      ("branch", .object [("items", ref "#/components/schemas/Root")])])]

def treeLibrary : Library :=
  .ofTable "" treeRoot []

theorem Resolved.tree_isComplete : ∃ doc, (Schema.resolve treeLibrary).outcome = .ok doc ∧
    doc.keys = ["#/components/schemas/Tree", "#/components/schemas/Root", "#/parts/leaf",
      "#/parts/bud", "#/parts/branch"] ∧ doc.IsComplete treeLibrary := by
  have hkeys : (Schema.resolve treeLibrary).outcome.toOption.map keys =
      some ["#/components/schemas/Tree", "#/components/schemas/Root", "#/parts/leaf",
        "#/parts/bud", "#/parts/branch"] := by decide +kernel
  obtain ⟨doc, hdoc, hkeys⟩ := Except.map_toOption_eq_some_iff.1 hkeys
  exact ⟨doc, hdoc, hkeys, isComplete_of_resolve hdoc⟩

end ApiSchema
