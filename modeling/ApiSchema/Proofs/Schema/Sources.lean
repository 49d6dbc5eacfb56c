import ApiSchema.Proofs.Schema.Pointer
import ApiSchema.Proofs.Schema.Termination

/-!
# Where definitions come from

A resolution meets targets in some order, with some of them being read and others done, and reads
each target where it was met first. Main statements: where no target is met in two documents, a
resolution that succeeds has a schema and a name for exactly the targets that are met, each as read
from its document; and a resolution fails only if something that is met cannot be read.
-/

namespace ApiSchema

open List Traced

namespace Schema

lemma componentTarget_injective : Function.Injective componentTarget := by
  intro s t h
  exact Pointer.escape_injective (String.append_right_inj _ |>.1 h)

/-! ### Reading a target -/

/-- Read the schema of a target from the document it was met in. -/
def readAt (lib : Library) (target uri : String) : Reading Node := do
  let place ← Traced.ofExcept (lib.locate target uri "")
  let raw ← lib.lookup target place.uri place.fragment ""
  read lib place.uri raw target

variable {lib : Library} {target uri : String}

lemma outcome_readAt_iff {node : Node} : (readAt lib target uri).outcome = .ok node ↔
    ∃ place raw, lib.Finds target uri place raw ∧
      (read lib place.uri raw target).outcome = .ok node := by
  constructor
  · intro h
    obtain ⟨place, hplace, h⟩ := outcome_bind_eq_ok_iff.1 h
    obtain ⟨raw, hraw, h⟩ := outcome_bind_eq_ok_iff.1 h
    exact ⟨place, raw, ⟨hplace, hraw⟩, h⟩
  · rintro ⟨place, raw, hraw, h⟩
    refine outcome_bind_eq_ok_iff.2 ⟨place, hraw.located, ?_⟩
    exact outcome_bind_eq_ok_iff.2 ⟨raw, hraw.held, h⟩

lemma trace_bind_of_ok {w e α β : Type} {x : Traced w e α} {f : α → Traced w e β} {a : α}
    (h : x.outcome = .ok a) : (x >>= f).trace = x.trace ++ (f a).trace := by
  obtain ⟨trace, outcome⟩ := x
  cases h
  rfl

lemma mem_trace_readAt {place : Location} {raw : Value} {demand : Demand}
    (hplace : lib.locate target uri "" = .ok place)
    (hraw : (lib.lookup target place.uri place.fragment "").outcome = .ok raw)
    (h : demand ∈ (read lib place.uri raw target).trace) :
    demand ∈ (readAt lib target uri).trace := by
  have hplace : (Traced.ofExcept (lib.locate target uri "") : Reading Location).outcome =
      .ok place := hplace
  rw [readAt, trace_bind_of_ok hplace, trace_bind_of_ok hraw]
  exact mem_append_right _ (mem_append_right _ h)

lemma Reader.reads_readAt (r : Reader) (target uri : String) :
    r.Reads r.made (readAt r.lib target uri) := by
  refine (readsAlone_ofExcept (failsOnly_locate r.reasons _ _ _) fun _ _ => trivial).then
    fun place (_ : True) => ?_
  exact (r.reads_lookup _ _ _ _).then fun raw hraw => r.reads_read hraw target

/-- Reading a target asks for what its schema refers to. -/
lemma asks_readAt (lib : Library) (target uri : String) : Asks Node.targets (readAt lib target uri) :=
  ((Reader.free lib (forms_noted _)).reads_readAt target uri).ended

end Schema

/-! ### Targets that are met -/

namespace Library

open Schema

/-- The names of components. -/
def componentNames (lib : Library) : List String :=
  match components lib.root with
  | .ok entries => entries.map (·.1.display)
  | .error _ => []

/-- The targets that resolving the documents of a library comes by, each with the document it is met
in: those of components and routes, and those that the schema of another one refers to. -/
inductive Meets (lib : Library) : String → String → Prop
  | component {name : String} (hname : name ∈ lib.componentNames) :
      Meets lib (componentTarget name) lib.base
  | route {link : Link} (hlink : .schema link ∈ (readRoutes lib).trace) :
      Meets lib link.target link.uri
  | inner {target uri : String} {link : Link} (h : Meets lib target uri)
      (hlink : .schema link ∈ (readAt lib target uri).trace) : Meets lib link.target link.uri

/-- No two documents share a target. -/
def IsUnambiguous (lib : Library) : Prop :=
  ∀ target uri uri', lib.Meets target uri → lib.Meets target uri' → uri' = uri

/-- The name of a target: that of the component, or the end of its pointer. -/
def IsNameOf (lib : Library) (target uri name : String) : Prop :=
  (name ∈ lib.componentNames ∧ target = componentTarget name) ∨
    ((∀ other ∈ lib.componentNames, target ≠ componentTarget other) ∧
      ∃ place, lib.locate target uri "" = .ok place ∧ name = targetName place)

lemma IsNameOf.unique {lib : Library} {target uri name name' : String}
    (h : lib.IsNameOf target uri name) (h' : lib.IsNameOf target uri name') : name' = name := by
  obtain ⟨hname, htarget⟩ | ⟨hother, place, hplace, hend⟩ := h
  · obtain ⟨-, htarget'⟩ | ⟨hother, -⟩ := h'
    · exact componentTarget_injective (htarget'.symm.trans htarget)
    · exact absurd htarget (hother name hname)
  · obtain ⟨hname', htarget'⟩ | ⟨-, place', hplace', hend'⟩ := h'
    · exact absurd htarget' (hother name' hname')
    · have hplaces : place' = place := Except.ok.inj (hplace'.symm.trans hplace)
      rw [hend', hplaces, hend]

end Library

namespace Schema

/-- What a walk knows is right: each schema is that of its target, and each name as well. -/
structure Walk.IsTrue (lib : Library) (w : Walk) : Prop where
  schema : ∀ target node, w.schema? target = some node →
    ∃ uri, lib.Meets target uri ∧ (readAt lib target uri).outcome = .ok node
  component : ∀ name ∈ lib.componentNames, componentTarget name ∈ w.names.map (·.1)
  name : ∀ entry ∈ w.names, ∃ uri, lib.Meets entry.1 uri ∧ lib.IsNameOf entry.1 uri entry.2

namespace Walk.IsTrue

variable {lib : Library} {w : Walk} (h : w.IsTrue lib)

variable {target uri : String}

include h

lemma openDocument (uri : String) : (w.openDocument uri).IsTrue lib := by
  rw [Walk.openDocument]
  split
  · exact h
  · exact ⟨h.schema, h.component, h.name⟩

lemma markCyclic (targets : List String) : (w.markCyclic targets).IsTrue lib :=
  ⟨h.schema, h.component, h.name⟩

lemma introduce {place : Location} (hmeets : lib.Meets target uri)
    (hplace : lib.locate target uri "" = .ok place) :
    (w.introduce target (targetName place)).IsTrue lib := by
  rw [Walk.introduce]
  split
  next => exact h
  next hnew =>
    have hnew : target ∉ w.names.map (·.1) := fun hmem => hnew (isSome_lookup_iff.2 hmem)
    refine ⟨h.schema, fun name hname => ?_, fun entry hentry => ?_⟩
    · rw [map_append]
      exact mem_append_left _ (h.component name hname)
    · obtain hentry | hentry := mem_append.1 hentry
      · exact h.name entry hentry
      · obtain rfl := mem_singleton.1 hentry
        have hother (other : String) (hother : other ∈ lib.componentNames) :
            target ≠ componentTarget other := by
          rintro rfl
          exact hnew (h.component other hother)
        dsimp only
        exact ⟨uri, hmeets, .inr ⟨hother, place, hplace, rfl⟩⟩

lemma record {node : Node} (hmeets : lib.Meets target uri)
    (hnode : (readAt lib target uri).outcome = .ok node) : (w.record target node).IsTrue lib := by
  refine ⟨fun other node' hother => ?_, h.component, h.name⟩
  rw [Walk.schema?, Walk.record, lookup_append, Option.or_eq_some_iff] at hother
  obtain hother | ⟨-, hother⟩ := hother
  · exact h.schema other node' hother
  · rw [lookup_cons] at hother
    split at hother
    next heq =>
      obtain rfl := eq_of_beq heq
      obtain rfl := Option.some.inj hother
      exact ⟨uri, hmeets, hnode⟩
    next => cases hother

end Walk.IsTrue

/-! ### Walks know what is right -/

/-- Links that are met keep a walk right. Where all that is met can be read, none of them fails. -/
lemma guides_isTrue {lib : Library} {E : Fault → Prop}
    (hread : (∀ target uri, lib.Meets target uri →
      ∃ node, (readAt lib target uri).outcome = .ok node) ∨ ∀ fault, E fault) :
    Guides lib (Walk.IsTrue lib) E (fun link => lib.Meets link.target link.uri) := by
  have hok {target uri : String} (h : lib.Meets target uri) :
      (∃ place raw node, lib.Finds target uri place raw ∧
        (read lib place.uri raw target).outcome = .ok node) ∨ ∀ fault, E fault := by
    refine hread.imp_left fun hread => ?_
    obtain ⟨node, hnode⟩ := hread _ _ h
    obtain ⟨place, raw, h⟩ := outcome_readAt_iff.1 hnode
    exact ⟨place, raw, node, h⟩
  refine ⟨fun uri _ hw => hw.openDocument uri, fun targets _ hw => hw.markCyclic targets,
    fun hlink hplace _ hw => hw.introduce hlink hplace, fun {link place raw node} hlink hraw hnode _
    hw => hw.record hlink (outcome_readAt_iff.2 ⟨place, raw, hraw, hnode⟩),
    fun {link place raw link'} hlink hraw hlink' => .inner hlink (mem_trace_readAt hraw.located
    hraw.held hlink'), fun {link} hlink fault hfault => ?_, fun {link place} hlink hplace ref fault
    hfault => ?_, fun {link place raw} hlink hraw fault hfault => ?_⟩
  all_goals obtain ⟨place', raw', node, hraw', hnode⟩ | hE := hok hlink
  all_goals try exact hE fault
  · rw [Library.locate_referrer hraw'.located] at hfault
    cases hfault
  · cases hplace.symm.trans hraw'.located
    rw [lookup_referrer hraw'.held] at hfault
    cases hfault
  · cases hraw.located.symm.trans hraw'.located
    cases hraw.held.symm.trans hraw'.held
    rw [hnode] at hfault
    cases hfault

/-! ### The whole document -/

/-- Introducing names gives each target of a component its own name. -/
lemma exists_run_introduce (names : List String) (w : Walk) :
    ∃ w', (names.forM fun name => modify (Walk.introduce (componentTarget name) name) :
      Resolving Unit).run w = (.ok (), w') ∧
      ∀ entry ∈ w'.names, entry ∈ w.names ∨ ∃ name ∈ names, entry = (componentTarget name, name) := by
  induction names generalizing w with
  | nil => exact ⟨w, rfl, fun entry hentry => .inl hentry⟩
  | cons name names ih =>
    obtain ⟨w', hrun, hnames⟩ := ih (w.introduce (componentTarget name) name)
    refine ⟨w', ?_, fun entry hentry => ?_⟩
    · exact (run_bind_of_ok rfl).trans hrun
    · obtain h | ⟨other, hother, h⟩ := hnames entry hentry
      · rw [Walk.introduce] at h
        split at h
        · exact .inl h
        · obtain h | h := mem_append.1 h
          · exact .inl h
          · exact .inr ⟨name, mem_cons_self, mem_singleton.1 h⟩
      · exact .inr ⟨other, mem_cons_of_mem _ hother, h⟩

variable {lib : Library} {entries : List (Scalar × Value)}

lemma run_resolveAll (hmap : lib.root.isMap) (hentries : components lib.root = .ok entries) :
    (resolveAll lib).run {} = (do
      lib.componentNames.forM fun name => modify (Walk.introduce (componentTarget name) name)
      lib.componentNames.forM fun name =>
        define lib ⟨componentTarget name, lib.base, componentTarget name, ""⟩
      meet (define lib) (readRoutes lib) : Resolving (List (Route Node))).run {} := by
  have hstart : (meet (fun _ => pure ()) (Traced.ofExcept (components lib.root)) :
      Resolving (List (Scalar × Value))).run {} = (.ok entries, {}) := by
    rw [hentries]
    rfl
  have hnames : lib.componentNames = entries.map fun entry => entry.1.display := by
    rw [Library.componentNames, hentries]
  rw [hnames]
  unfold resolveAll
  rw [hmap]
  exact run_bind_of_ok hstart

/-- A resolution starts from the names of components. -/
lemma exists_run_resolveAll (hmap : lib.root.isMap) (hentries : components lib.root = .ok entries) :
    ∃ w, w.IsTrue lib ∧ (resolveAll lib).run {} = (do
      lib.componentNames.forM fun name =>
        define lib ⟨componentTarget name, lib.base, componentTarget name, ""⟩
      meet (define lib) (readRoutes lib) : Resolving (List (Route Node))).run w := by
  obtain ⟨w, hrun, hshape⟩ := exists_run_introduce lib.componentNames {}
  obtain ⟨hdefinitions, -, hkeys⟩ := run_forM_introduce hrun
  refine ⟨w, ⟨fun target node hnode => ?_, fun name hname => ?_, fun entry hentry => ?_⟩, ?_⟩
  · rw [Walk.schema?, hdefinitions] at hnode
    cases hnode
  · have hmem : componentTarget name ∈ Text.distinct (lib.componentNames.map componentTarget) :=
      Text.mem_distinct.2 (mem_map_of_mem hname)
    rw [hkeys]
    exact hmem
  · obtain hentry | ⟨name, hname, rfl⟩ := hshape entry hentry
    · cases hentry
    · exact ⟨lib.base, .component hname, .inl ⟨hname, rfl⟩⟩
  · exact (run_resolveAll hmap hentries).trans (run_bind_of_ok hrun)

end Schema

/-- A document has exactly what is met, each target as it is read and named. -/
structure Resolved.IsSourced (lib : Library) (doc : Resolved) : Prop where
  routes : (Schema.readRoutes lib).outcome = .ok doc.routes
  met : ∀ target uri, lib.Meets target uri →
    ∃ node, (Schema.readAt lib target uri).outcome = .ok node
  schema_iff : ∀ target node, doc.schema? target = some node ↔
    ∃ uri, lib.Meets target uri ∧ (Schema.readAt lib target uri).outcome = .ok node
  name_iff : ∀ target name, doc.names.lookup target = some name ↔
    ∃ uri, lib.Meets target uri ∧ lib.IsNameOf target uri name

namespace Schema

variable {lib : Library} {doc : Resolved}

variable {entries : List (Scalar × Value)} {routes : List (Route Node)}

lemma isMap_of_resolve (h : (resolve lib).outcome = .ok doc) : lib.root.isMap := by
  by_contra hmap
  rw [Bool.not_eq_true] at hmap
  have hrun : ((resolveAll lib).run {}).1 =
      .error (.general "Document root must be a mapping" none) := by
    unfold resolveAll
    rw [hmap]
    rfl
  rw [outcome_resolve_eq_error_iff.2 hrun] at h
  cases h

lemma exists_components_of_resolve (h : (resolve lib).outcome = .ok doc) :
    ∃ entries, components lib.root = .ok entries := by
  unfold resolve at h
  cases hrun : (resolveAll lib).run {} with
  | mk outcome w =>
  rw [hrun] at h
  obtain ⟨routes, rfl, -⟩ := Except.map_eq_ok_iff.1 h
  obtain ⟨entries, -, hentries, -⟩ := visits_of_resolveAll hrun
  exact ⟨entries, hentries⟩

/-- What is met was visited: a walk is closed under the references of its definitions. -/
lemma mem_visited_of_meets (hunique : lib.IsUnambiguous) {visited : List String} {w : Walk}
    (hw : w.IsTrue lib) (hentries : components lib.root = .ok entries)
    (hroutes : (readRoutes lib).outcome = .ok routes)
    (hvisits : Visits w.schema? [] (componentTargets entries ++ routes.flatMap Route.targets) visited)
    {target uri : String} (hmeets : lib.Meets target uri) : target ∈ visited := by
  have hsub := hvisits.targets_subset
  induction hmeets with
  | @component name hname =>
    rw [Library.componentNames, hentries] at hname
    obtain ⟨entry, hentry, rfl⟩ := mem_map.1 hname
    exact hsub (mem_append_left _ (mem_map.2 ⟨entry, hentry, rfl⟩))
  | route hlink =>
    refine hsub (mem_append_right _ ?_)
    rw [show routes.flatMap Route.targets = _ from asks_readRoutes lib routes hroutes]
    exact mem_demanded hlink
  | @inner target uri link hmeets hlink ih =>
    obtain ⟨node, hnode, hclosed⟩ := (hvisits.closed ih).resolve_left not_mem_nil
    obtain ⟨uri', hmeets', hread⟩ := hw.schema target node hnode
    obtain rfl := hunique target uri uri' hmeets hmeets'
    refine hclosed ?_
    rw [asks_readAt lib target uri' node hread]
    exact mem_demanded hlink

/-- A resolution that succeeds gives what is met, if no target is met in two documents. -/
theorem isSourced_of_resolve (hunique : lib.IsUnambiguous) (h : (resolve lib).outcome = .ok doc) :
    doc.IsSourced lib := by
  have hmap := isMap_of_resolve h
  unfold resolve at h
  cases hrun : (resolveAll lib).run {} with
  | mk outcome w =>
  rw [hrun] at h
  obtain ⟨routes, rfl, rfl⟩ := Except.map_eq_ok_iff.1 h
  obtain ⟨entries, visited, hentries, htracks, hvisits⟩ := visits_of_resolveAll hrun
  obtain ⟨w₀, htrue₀, hrun₀⟩ := exists_run_resolveAll hmap hentries
  have hguides : Guides lib (Walk.IsTrue lib) (fun _ => True) fun link =>
    lib.Meets link.target link.uri := guides_isTrue (.inr fun _ => trivial)
  obtain ⟨htrue, -, hroutes⟩ := hguides.steers_components (.inl trivial)
    (fun _ => .component) (fun _ _ => trivial) (fun _ => .route) w₀ htrue₀
  rw [← hrun₀, hrun] at htrue hroutes
  have hroutes := hroutes routes rfl
  have hdefined {target uri : String} (hmeets : lib.Meets target uri) :
      ∃ node, w.schema? target = some node ∧ (readAt lib target uri).outcome = .ok node := by
    have hvisited := mem_visited_of_meets hunique htrue hentries hroutes hvisits hmeets
    obtain ⟨node, hnode, -⟩ := (hvisits.closed hvisited).resolve_left not_mem_nil
    obtain ⟨uri', hmeets', hread⟩ := htrue.schema target node hnode
    obtain rfl := hunique target uri uri' hmeets hmeets'
    exact ⟨node, hnode, hread⟩
  have hnamed {target uri : String} (hmeets : lib.Meets target uri) :
      target ∈ w.names.map (·.1) := by
    have hvisited := mem_visited_of_meets hunique htrue hentries hroutes hvisits hmeets
    rw [htracks.names, mem_append, mem_filter]
    by_cases hcomponent : target ∈ Text.distinct (componentTargets entries)
    · exact .inl hcomponent
    · exact .inr ⟨hvisited, decide_eq_true hcomponent⟩
  refine ⟨hroutes, fun target uri hmeets => ?_, fun target node => ⟨fun hnode => ?_, ?_⟩,
    fun target name => ⟨fun hname => ?_, ?_⟩⟩
  · obtain ⟨node, -, hread⟩ := hdefined hmeets
    exact ⟨node, hread⟩
  · have hmem := mem_of_lookup hnode
    obtain ⟨⟨t, name⟩, -, hfound⟩ := mem_filterMap.1 hmem
    obtain ⟨node', hnode', heq⟩ := Option.map_eq_some_iff.1 hfound
    cases heq
    exact htrue.schema target node hnode'
  · rintro ⟨uri, hmeets, hread⟩
    obtain ⟨node', hnode', hread'⟩ := hdefined hmeets
    obtain rfl := Except.ok.inj (hread'.symm.trans hread)
    exact Walk.lookup_inOrder hnode' (hnamed hmeets)
  · exact htrue.name _ (mem_of_lookup hname)
  · rintro ⟨uri, hmeets, hname⟩
    obtain ⟨other, hother⟩ := Option.isSome_iff_exists.1 (isSome_lookup_iff.2 (hnamed hmeets))
    obtain ⟨uri', hmeets', hname'⟩ := htrue.name _ (mem_of_lookup hother)
    obtain rfl := hunique target uri uri' hmeets hmeets'
    have heq : name = other := hname'.unique hname
    rw [heq]
    exact hother

/-- A resolution succeeds if all that is met can be read and there is room for it. -/
theorem exists_resolve_of_met (hmap : lib.root.isMap) (hentries : components lib.root = .ok entries)
    (hroutes : (readRoutes lib).outcome = .ok routes)
    (hmet : ∀ target uri, lib.Meets target uri → ∃ node, (readAt lib target uri).outcome = .ok node)
    {targets : List String} (htargets : ∀ target uri, lib.Meets target uri → target ∈ targets)
    (hroom : targets.length ≤ lib.limit) : ∃ doc, (resolve lib).outcome = .ok doc := by
  obtain ⟨w₀, htrue₀, hrun₀⟩ := exists_run_resolveAll hmap hentries
  have hnever (fault : Fault) (hfault : (readRoutes lib).outcome = .error fault) : False := by
    rw [hroutes] at hfault
    cases hfault
  obtain ⟨-, hfails, -⟩ := (guides_isTrue (.inl hmet)).steers_components
    (.inr ⟨targets, fun _ => htargets _ _, hroom⟩) (fun _ => .component) hnever (fun _ => .route)
    w₀ htrue₀
  cases houtcome : (resolve lib).outcome with
  | ok doc => exact ⟨doc, rfl⟩
  | error fault =>
    rw [← hrun₀] at hfails
    exact (hfails fault (outcome_resolve_eq_error_iff.1 houtcome)).elim

end Schema

end ApiSchema
