import ApiSchema.Proofs.Pointwise
import ApiSchema.Proofs.Schema.Reading
import ApiSchema.Schema.Resolve

/-!
# Steps of a resolution

A resolution follows links, and what it knows changes in a few ways only. Main statement: a property
of walks that these ways keep is kept by a resolution, also when it fails. The targets being read are
pairwise different, so that there is fuel left for one more, where there are no more targets than the
limit of the library.
-/

namespace ApiSchema

open List Traced

-- The reference as written and its place matter for faults only.
lemma Library.locate_referrer {lib : Library} {ref doc referrer : String} {place : Location}
    (h : lib.locate ref doc referrer = .ok place) (other : String) :
    lib.locate ref doc other = .ok place := by
  unfold locate at h ⊢
  generalize Text.cutAt '#' ref.toList = cut at h ⊢
  obtain ⟨before, after⟩ := cut
  dsimp only at h ⊢
  split at h
  next => cases h
  next heq =>
    split at h
    next => cases h
    next hplain =>
      rw [if_neg hplain]
      exact h

namespace Schema

variable {lib : Library}

lemma lookup_referrer {ref uri fragment referrer : String} {raw : Value}
    (h : (lib.lookup ref uri fragment referrer).outcome = .ok raw) (ref' referrer' : String) :
    (lib.lookup ref' uri fragment referrer').outcome = .ok raw := by
  obtain ⟨doc, hdoc, hraw⟩ := outcome_bind_eq_ok_iff.1 h
  refine outcome_bind_eq_ok_iff.2 ⟨doc, ?_, ?_⟩
  · unfold Library.document at hdoc ⊢
    split at hdoc
    next hbase =>
      rw [if_pos hbase]
      exact hdoc
    next hbase =>
      rw [if_neg hbase]
      obtain ⟨_, hnote, hdoc⟩ := outcome_bind_eq_ok_iff.1 hdoc
      refine outcome_bind_eq_ok_iff.2 ⟨_, hnote, ?_⟩
      split at hdoc
      · exact hdoc
      · cases hdoc
      · cases hdoc
  · split at hraw
    next hempty =>
      rw [if_pos hempty]
      exact hraw
    next hempty =>
      rw [if_neg hempty]
      split at hraw
      · exact hraw
      · cases hraw
      · cases hraw

lemma outcome_resolve_eq_error_iff {fault : Fault} :
    (resolve lib).outcome = .error fault ↔ ((resolveAll lib).run {}).1 = .error fault := by
  rw [resolve]
  generalize (resolveAll lib).run {} = result
  obtain ⟨outcome, w⟩ := result
  cases outcome with
  | error fault' => simp [Except.map]
  | ok routes => simp [Except.map]

/-! ### Steps -/

/-- Steps keep an invariant of the walk, also when they fail; a failure has the property `E`, and a
result `P`. -/
def Steers {α : Type} (I : Walk → Prop) (E : Fault → Prop) (P : α → Prop) (x : Resolving α) :
    Prop :=
  ∀ w, I w → I (x.run w).2 ∧ (∀ fault, (x.run w).1 = .error fault → E fault) ∧
    ∀ a, (x.run w).1 = .ok a → P a

variable {I : Walk → Prop} {E : Fault → Prop}

section

variable {α β : Type} {P : α → Prop} {Q : β → Prop}

lemma steers_pure {a : α} (h : P a) : Steers I E P (pure a) := by
  intro w hw
  refine ⟨hw, fun fault hf => ?_, fun b hb => ?_⟩
  · cases hf
  · cases hb
    exact h

lemma steers_throw {fault : Fault} (h : E fault) : Steers I E P (throw fault) := by
  intro w hw
  refine ⟨hw, fun fault' hf => ?_, fun b hb => ?_⟩
  · cases hf
    exact h
  · cases hb

lemma steers_get : Steers I E (fun _ => True) (get : Resolving Walk) :=
  fun _ hw => ⟨hw, fun _ h => (nomatch h), fun _ _ => trivial⟩

lemma steers_modify {f : Walk → Walk} (h : ∀ w, I w → I (f w)) :
    Steers I E (fun _ => True) (modify f : Resolving Unit) := by
  intro w hw
  refine ⟨h w hw, fun fault hf => ?_, fun _ _ => trivial⟩
  cases hf

lemma Steers.bind {x : Resolving α} {f : α → Resolving β} (hx : Steers I E P x)
    (hf : ∀ a, P a → Steers I E Q (f a)) : Steers I E Q (x >>= f) := by
  intro w hw
  have hrun : (x >>= f).run w = ExceptT.bindCont f (x.run w).1 (x.run w).2 := rfl
  rw [hrun]
  obtain ⟨hkeeps, hfails, hends⟩ := hx w hw
  generalize x.run w = result at *
  obtain ⟨outcome, w'⟩ := result
  cases outcome with
  | error fault => exact steers_throw (hfails fault rfl) w' hkeeps
  | ok a => exact hf a (hends a rfl) w' hkeeps

lemma steers_forM {f : β → Resolving Unit} {xs : List β}
    (hf : ∀ x ∈ xs, Steers I E (fun _ => True) (f x)) :
    Steers I E (fun _ => True) (xs.forM f) := by
  induction xs with
  | nil => exact steers_pure trivial
  | cons x xs ih =>
    refine (hf x mem_cons_self).bind fun _ _ => ?_
    exact ih fun y hy => hf y (mem_cons_of_mem x hy)

/-- Meeting the demands of a reading, given how each of its links is followed. -/
lemma steers_meet {define : Link → Resolving Unit} {reading : Reading α}
    (hopen : ∀ uri w, I w → I (w.openDocument uri))
    (hdefine : ∀ link, .schema link ∈ reading.trace → Steers I E (fun _ => True) (define link))
    (hfailed : ∀ fault, reading.outcome = .error fault → E fault)
    (hended : ∀ a, reading.outcome = .ok a → P a) : Steers I E P (meet define reading) := by
  refine Steers.bind (P := fun _ => True) (steers_forM fun demand hdemand => ?_) fun _ _ => ?_
  · cases demand with
    | document uri => exact steers_modify (hopen uri)
    | schema link => exact hdefine link hdemand
  · split
    next a ha => exact steers_pure (hended a ha)
    next fault hfault => exact steers_throw (hfailed fault hfault)

end

/-! ### Following links -/

end Schema

/-- The place of a target and the raw schema there. -/
structure Library.Finds (lib : Library) (target uri : String) (place : Location) (raw : Value) :
    Prop where
  located : lib.locate target uri "" = .ok place
  held : (lib.lookup target place.uri place.fragment "").outcome = .ok raw

namespace Schema

variable {I : Walk → Prop} {E : Fault → Prop}

variable {stack : List String}

/-- What all ways keep in which links `L` change a walk: an invariant of walks, and that links are
followed to other links of that kind, or fail for reasons in `E`. -/
structure Guides (lib : Library) (I : Walk → Prop) (E : Fault → Prop) (L : Link → Prop) : Prop where
  opens : ∀ uri w, I w → I (w.openDocument uri)
  marks : ∀ targets w, I w → I (w.markCyclic targets)
  introduces : ∀ {link place}, L link → lib.locate link.target link.uri "" = .ok place →
    ∀ w, I w → I (w.introduce link.target (targetName place))
  records : ∀ {link place raw node}, L link → lib.Finds link.target link.uri place raw →
    (read lib place.uri raw link.target).outcome = .ok node →
    ∀ w, I w → I (w.record link.target node)
  follows : ∀ {link place raw link'}, L link → lib.Finds link.target link.uri place raw →
    .schema link' ∈ (read lib place.uri raw link.target).trace → L link'
  locates : ∀ {link}, L link → Except.FailsOnly E (lib.locate link.target link.uri link.referrer)
  looksUp : ∀ {link place}, L link → lib.locate link.target link.uri "" = .ok place → ∀ ref,
    Except.FailsOnly E (lib.lookup ref place.uri place.fragment link.referrer).outcome
  reads : ∀ {link place raw}, L link → lib.Finds link.target link.uri place raw →
    Except.FailsOnly E (read lib place.uri raw link.target).outcome

/-- With `n` layers left there is room for every target that is not being read, or having no end is
a reason. -/
def Fuelled (E : Fault → Prop) (L : Link → Prop) (n : Nat) (stack : List String) : Prop :=
  E .endless ∨ ∃ targets : List String, (∀ link, L link → link.target ∈ targets) ∧
    stack.Nodup ∧ stack ⊆ targets ∧ targets.length < n + stack.length

lemma Fuelled.endless {L : Link → Prop} (h : Fuelled E L 0 stack) : E .endless := by
  obtain h | ⟨targets, -, hnodup, hsub, hlength⟩ := h
  · exact h
  · have := (hnodup.subperm hsub).length_le
    omega

lemma Fuelled.push {L : Link → Prop} {n : Nat} {link : Link} (h : Fuelled E L (n + 1) stack)
    (hlink : L link) (hnew : link.target ∉ stack) : Fuelled E L n (stack ++ [link.target]) := by
  refine h.imp_right ?_
  rintro ⟨targets, htargets, hnodup, hsub, hlength⟩
  refine ⟨targets, htargets, ?_, ?_, ?_⟩
  · exact nodup_append.2 ⟨hnodup, nodup_singleton _, by grind⟩
  · exact append_subset.2 ⟨hsub, cons_subset.2 ⟨htargets link hlink, nil_subset _⟩⟩
  · rw [length_append, length_singleton]
    omega

section

variable {lib : Library} {L : Link → Prop} (h : Guides lib I E L)

variable {link : Link}

include h

/-- Following a link. -/
lemma Guides.steers_defineWithin (n : Nat) {stack : List String} (hfuel : Fuelled E L n stack)
    (hlink : L link) : Steers I E (fun _ => True) (defineWithin lib n stack link) := by
  induction n generalizing stack link with
  | zero => exact steers_throw hfuel.endless
  | succ n ih =>
    unfold defineWithin
    refine steers_get.bind fun w _ => ?_
    split
    · exact steers_pure trivial
    split
    · exact (steers_modify (h.marks _)).bind fun _ _ => steers_pure trivial
    next hnew =>
    have hnothing (reading : List Demand) (link : Link) (_ : .schema link ∈ reading) :
        Steers I E (fun _ => True) (pure () : Resolving Unit) := steers_pure trivial
    refine Steers.bind (steers_meet h.opens (hnothing _) (h.locates hlink)
      fun place hplace => Library.locate_referrer hplace "") fun place hplace => ?_
    refine Steers.bind (steers_meet h.opens (hnothing _) (h.looksUp hlink hplace _)
      fun raw hraw => (⟨hplace, lookup_referrer hraw _ _⟩ : lib.Finds link.target link.uri place raw))
      fun raw hraw => ?_
    refine (steers_modify (h.introduces hlink hplace)).bind fun _ _ => ?_
    refine Steers.bind (steers_meet h.opens (fun link' hlink' => ?_) (h.reads hlink hraw)
      fun node hnode => hnode) fun node hnode => steers_modify (h.records hlink hraw hnode)
    exact ih (hfuel.push hlink fun hmem => hnew (contains_iff_mem.2 hmem))
      (h.follows hlink hraw hlink')

variable (hfuel : E .endless ∨ ∃ targets : List String,
  (∀ link, L link → link.target ∈ targets) ∧ targets.length ≤ lib.limit)

include hfuel

lemma Guides.steers_define (hlink : L link) : Steers I E (fun _ => True) (define lib link) := by
  refine h.steers_defineWithin _ (hfuel.imp_right ?_) hlink
  rintro ⟨targets, htargets, hlength⟩
  exact ⟨targets, htargets, nodup_nil, nil_subset _, Nat.lt_succ_of_le hlength⟩

/-- From the names of components on, a resolution keeps what following links keeps. -/
lemma Guides.steers_components {names : List String}
    (hnames : ∀ name ∈ names, L ⟨componentTarget name, lib.base, componentTarget name, ""⟩)
    (hroutes : Except.FailsOnly E (readRoutes lib).outcome)
    (hlinks : ∀ link, .schema link ∈ (readRoutes lib).trace → L link) :
    Steers I E (fun routes => (readRoutes lib).outcome = .ok routes) (do
      names.forM fun name => define lib ⟨componentTarget name, lib.base, componentTarget name, ""⟩
      meet (define lib) (readRoutes lib)) := by
  refine (steers_forM fun name hname => ?_).bind fun _ _ => ?_
  · exact h.steers_define hfuel (hnames name hname)
  · exact steers_meet h.opens (fun link hlink => h.steers_define hfuel (hlinks link hlink))
      hroutes fun _ => id

/-- A resolution keeps what following links keeps, if names of components may be introduced. -/
lemma Guides.steers_resolveAll (hroot : ∀ fault, E (.schema fault))
    (hcomponents : ∀ entries, components lib.root = .ok entries → ∀ entry ∈ entries,
      L ⟨componentTarget entry.1.display, lib.base, componentTarget entry.1.display, ""⟩ ∧
        ∀ w, I w → I (w.introduce (componentTarget entry.1.display) entry.1.display))
    (hroutes : Except.FailsOnly E (readRoutes lib).outcome)
    (hlinks : ∀ link, .schema link ∈ (readRoutes lib).trace → L link) :
    Steers I E (fun routes => (readRoutes lib).outcome = .ok routes) (resolveAll lib) := by
  unfold resolveAll
  extract_lets next
  have hnext (_ : Unit) : Steers I E (fun routes => (readRoutes lib).outcome = .ok routes)
      (next ()) := by
    refine Steers.bind (steers_meet h.opens (fun _ _ => steers_pure trivial) (fun fault hfault => ?_)
      hcomponents) fun entries hentries => ?_
    · change components lib.root = .error fault at hfault
      unfold components mappingAt at hfault
      repeat' split at hfault
      all_goals cases hfault
      exact hroot _
    extract_lets names
    have hnames (name : String) (hname : name ∈ names) :
        L ⟨componentTarget name, lib.base, componentTarget name, ""⟩ ∧
          ∀ w, I w → I (w.introduce (componentTarget name) name) := by
      obtain ⟨entry, hentry, rfl⟩ := mem_map.1 hname
      exact hentries entry hentry
    refine (steers_forM fun name hname => steers_modify (hnames name hname).2).bind fun _ _ => ?_
    exact h.steers_components hfuel (fun name hname => (hnames name hname).1) hroutes hlinks
  split
  · exact Steers.bind (P := fun _ => True) (steers_throw (hroot _)) fun _ _ => hnext ()
  · exact hnext ()

end

/-- An invariant of walks that links to known targets keep, given what their schemas are. -/
structure Reader.Keeps (r : Reader) (I : Walk → Prop) : Prop where
  opens : ∀ uri w, I w → I (w.openDocument uri)
  marks : ∀ targets w, I w → I (w.markCyclic targets)
  introduces : ∀ {target}, r.target target → ∀ name w, I w → I (w.introduce target name)
  records : ∀ target {links node}, r.made links node → ∀ w, I w → I (w.record target node)

namespace Reader.Keeps

variable {r : Reader} (h : r.Keeps I)

include h

lemma guides : Guides r.lib I r.reason (fun link => r.target link.target) := by
  have hknown {link : Link} {place : Location} {raw : Value} (hraw : r.lib.Finds link.target link.uri place raw) :
      r.known place.uri raw := ((r.reads_lookup _ _ _ _).ended raw hraw.held).2
  refine ⟨h.opens, h.marks, fun hlink _ => h.introduces hlink _, fun {link place raw node} _ hraw
    hnode => ?_, fun {link place raw link'} _ hraw hlink' => ?_, fun _ => ?_, fun _ _ _ => ?_,
    fun {link place raw} _ hraw => ?_⟩
  · exact h.records _ ((r.reads_read (hknown hraw) _).ended node hnode)
  · exact ((r.reads_read (hknown hraw) _).noted link' hlink').1
  · exact failsOnly_locate r.reasons _ _ _
  · exact (r.reads_lookup _ _ _ _).failed
  · exact (r.reads_read (hknown hraw) _).failed

/-- A resolution meets known targets only, and fails for the reasons that readings have. -/
lemma steers_resolveAll (hcomponents : ∀ entries, components r.lib.root = .ok entries →
      ∀ entry ∈ entries, r.target (componentTarget entry.1.display)) :
    Steers I r.reason (fun routes => (readRoutes r.lib).outcome = .ok routes)
      (resolveAll r.lib) := by
  have hfuel := r.enough.imp_right fun ⟨targets, htargets, hlength⟩ =>
    (⟨targets, fun link => htargets link.target, hlength⟩ : ∃ targets : List String,
      (∀ link : Link, r.target link.target → link.target ∈ targets) ∧ targets.length ≤ r.lib.limit)
  refine h.guides.steers_resolveAll hfuel r.reasons.schema (fun entries hentries entry hentry => ?_)
    r.reads_readRoutes.failed fun link hlink => (r.reads_readRoutes.noted link hlink).1
  have htarget := hcomponents entries hentries entry hentry
  exact ⟨htarget, h.introduces htarget _⟩

end Reader.Keeps

/-- What every way of reading keeps holds of all schemas of a resolved document. -/
lemma Reader.made_of_resolve {r : Reader} {doc : Resolved}
    (hcomponents : ∀ entries, components r.lib.root = .ok entries →
      ∀ entry ∈ entries, r.target (componentTarget entry.1.display))
    (h : (resolve r.lib).outcome = .ok doc) :
    (∀ d ∈ doc.definitions, ∃ links, r.made links d.2) ∧
      ∃ links, Pieces r.made links (doc.routes.flatMap Route.nodes) := by
  have hkeeps : r.Keeps fun w => ∀ d ∈ w.definitions, ∃ links, r.made links d.2 := by
    refine ⟨fun uri w hw => ?_, fun _ _ hw => hw, fun _ name w hw => ?_,
      fun target links node hnode w hw d hd => ?_⟩
    · unfold Walk.openDocument
      split <;> exact hw
    · unfold Walk.introduce
      split <;> exact hw
    · rcases mem_append.1 hd with hd | hd
      · exact hw d hd
      · rw [mem_singleton.1 hd]
        exact ⟨links, hnode⟩
  obtain ⟨hdefs, -, hroutes⟩ := hkeeps.steers_resolveAll hcomponents {} nofun
  unfold resolve at h
  generalize (resolveAll r.lib).run {} = result at h hdefs hroutes
  obtain ⟨outcome, w⟩ := result
  obtain ⟨routes, hok, rfl⟩ := Except.map_eq_ok_iff.1 h
  refine ⟨fun d hd => ?_, _, r.reads_readRoutes.ended routes (hroutes routes hok)⟩
  obtain ⟨⟨target, name⟩, -, hd⟩ := mem_filterMap.1 hd
  obtain ⟨node, hnode, rfl⟩ := Option.map_eq_some_iff.1 hd
  exact hdefs (target, node) (mem_of_lookup hnode)

end Schema

end ApiSchema
