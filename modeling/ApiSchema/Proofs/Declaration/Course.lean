import ApiSchema.Proofs.Declaration.Growth

/-!
# The course of a build

A build hands out the names of definitions, declares the definitions under them, and declares the
schemas of routes. Main statements: what it has come to at the end, with the fate of every definition
and of every schema of a route, and with what every name was made from; and that each of its steps
succeeds if references lead to definitions.
-/

namespace ApiSchema

open List

namespace Declarations

open Validator

/-! ### Definitions -/

/-- What has become of a definition under its name: an alias of the definition it refers to, an alias
of what was declared before for its fingerprint, or a declaration that is bound to its fingerprint. -/
inductive IsDefined (plan : Plan) (s : Draft) : Validator → String → Prop
  | reference {target name other pointer : String} (hother : plan.names.lookup target = some other)
    (hentry : Declaration.of name (.named other) pointer ∈ s.declared.entries) :
    IsDefined plan s (.ref target) name
  | again {v : Validator} {name other pointer : String} (hproper : ¬ v.isReference)
    (hother : (plan.fingerprint v, other) ∈ s.registry.bound)
    (hentry : Declaration.of name (.named other) pointer ∈ s.declared.entries) :
    IsDefined plan s v name
  | first {v w : Validator} {name pointer : String}
    (hbound : (plan.fingerprint v, name) ∈ s.registry.bound)
    (hopened : Opened plan s.registry.bound v w)
    (hentry : Declaration.of name w pointer ∈ s.declared.entries) : IsDefined plan s v name

/-- A name that was handed out and is still neither bound nor declared. -/
structure Draft.IsPending (s : Draft) (name : String) : Prop where
  used : name ∈ s.registry.used
  unbound : name ∉ s.boundNames
  undeclared : name ∉ s.declared.names

section

variable {plan : Plan} {P : String → Prop} {V : Validator → Prop} {G : Prop} {own : List String}
  {s s' : Draft} {v : Validator} {name stem pointer : String} {u : Unit}

lemma IsDefined.after (hv : IsDefined plan s v name) (h : Stretch plan P V own s s') :
    IsDefined plan s' v name := by
  cases hv with
  | reference hother hentry => exact .reference hother (h.entries hentry)
  | again hproper hother hentry => exact .again hproper (h.bound hother) (h.entries hentry)
  | first hbound hopened hentry =>
    exact .first (h.bound hbound) (hopened.mono h.bound) (h.entries hentry)

lemma Draft.IsPending.after (hname : s.IsPending name) (h : Stretch plan P V own s s')
    (hown : name ∉ own) : s'.IsPending name :=
  ⟨h.used hname.used, h.unbound hname.used hown hname.unbound,
    h.undeclared hname.used hown hname.undeclared⟩

/-- What a build asks of the validator of a definition or a route. -/
structure Buildable (plan : Plan) (V : Validator → Prop) (v : Validator) : Prop
    extends Growable plan V v where
  root : ¬ v.isReference → V v

lemma Buildable.eq_ref (hv : Buildable plan V v) (h : v.isReference) :
    ∃ target, v = .ref target := by
  cases v with
  | ref target => exact ⟨target, rfl⟩
  | named name => exact absurd .refl (hv.unnamed name)
  | _ => cases h

lemma Buildable.liftable (hv : Buildable plan V v) (href : G → Grounded plan v) :
    Liftable plan V G v :=
  ⟨hv.toGrowable, href⟩

lemma run_define_of_bound (hproper : ¬ v.isReference) {other : String}
    (hlookup : s.registry.lookup (plan.fingerprint v) = some other) :
    (define plan name stem pointer v).run s = (declare name (.named other) pointer).run s := by
  unfold define
  split
  · exact absurd rfl hproper
  · simp only [StateT.run_bind, StateT.run_get, pure_bind, hlookup]

lemma run_define_iff (hproper : ¬ v.isReference)
    (hfree : s.registry.lookup (plan.fingerprint v) = none) :
    (define plan name stem pointer v).run s = .ok (u, s') ↔
      name ∉ s.boundNames ∧ ∃ w s₁,
        (lift plan true stem v).run (s.bindName (plan.fingerprint v) name) = .ok (w, s₁) ∧
          name ∉ s₁.declared.names ∧ s' = s₁.addEntry name w pointer := by
  rw [← run_bindAndDeclare_iff (u := u) hfree]
  unfold define
  split
  · exact absurd rfl hproper
  · simp only [StateT.run_bind, StateT.run_get, pure_bind, hfree]

/-- What lifting gives for a declaration. -/
lemma builds_lift_root (hP : Extensible P) (hv : Liftable plan V G v) (hproper : ¬ v.isReference)
    (hstem : P stem) :
    Builds plan P V G (lift plan true stem v) fun bound => Opened plan bound v :=
  (builds_lift hP v hv true hstem).mono fun _ _ hw => hw.opened hproper

lemma mem_names_of_lookup {target other : String} (h : plan.names.lookup target = some other) :
    other ∈ plan.names.map (·.2) :=
  mem_map.2 ⟨_, mem_of_lookup h, rfl⟩

lemma stretch_define (hP : Extensible P) (hv : Buildable plan V v) (hstem : P stem)
    (h : (define plan name stem pointer v).run s = .ok (u, s')) :
    Stretch plan P V [name] s s' ∧ IsDefined plan s' v name ∧
      s'.declared.routes = s.declared.routes ∧ s.Binds s' := by
  have hlast (s : Draft) (w : Validator) :
      Declaration.of name w pointer ∈ (s.addEntry name w pointer).declared.entries :=
    mem_append_right _ (mem_singleton_self _)
  by_cases hproper : v.isReference
  · obtain ⟨target, rfl⟩ := hv.eq_ref hproper
    obtain ⟨other, _, htarget, hdeclare⟩ := StateT.run_bind_eq_ok_iff.1 h
    obtain ⟨hother, rfl⟩ := run_targetName_iff.1 htarget
    obtain ⟨hname, rfl⟩ := run_declare_iff.1 hdeclare
    exact ⟨stretch_addEntry_named hname (mem_append_left _ (mem_names_of_lookup hother)) _,
      .reference hother (hlast _ _), rfl, fun _ => .inl⟩
  cases hlookup : s.registry.lookup (plan.fingerprint v) with
  | some other =>
    rw [run_define_of_bound hproper hlookup, run_declare_iff] at h
    obtain ⟨hname, rfl⟩ := h
    have hother := mem_of_lookup hlookup
    exact ⟨stretch_addEntry_named hname (mem_append_right _ (mem_map_of_mem hother)) _,
      .again hproper hother (hlast _ _), rfl, fun _ => .inl⟩
  | none =>
    obtain ⟨hunbound, w, s₁, hlift, hname, rfl⟩ := (run_define_iff hproper hlookup).1 h
    have hlifts := builds_lift_root hP (hv.liftable False.elim) hproper hstem
    have hstretch := hlifts.stretch hlift
    have hopened := hlifts.result hlift _ (List.Subset.refl _)
    have hroutes := hlifts.routes hlift
    exact ⟨hstretch.addEntry (hv.root hproper) hlookup hunbound hopened hname pointer,
      .first (hstretch.bound (mem_append_right _ (mem_singleton_self _))) hopened
        (hlast _ _), hroutes, fun n hn => hlifts.binds hlift n hn⟩

lemma exists_run_define (hP : Extensible P) (hv : Buildable plan V v) (href : Grounded plan v)
    (hs : s.IsOrderly) (hname : s.IsPending name) (hstem : P stem) (pointer : String) :
    ∃ s', (define plan name stem pointer v).run s = .ok ((), s') := by
  by_cases hproper : v.isReference
  · obtain ⟨target, rfl⟩ := hv.eq_ref hproper
    obtain ⟨other, hother⟩ := href target .refl
    exact ⟨_, StateT.run_bind_eq_ok_iff.2 ⟨other, s, run_targetName_iff.2 ⟨hother, rfl⟩,
      run_declare_iff.2 ⟨hname.undeclared, rfl⟩⟩⟩
  cases hlookup : s.registry.lookup (plan.fingerprint v) with
  | some other =>
    refine ⟨s.addEntry name (.named other) pointer, ?_⟩
    rw [run_define_of_bound hproper hlookup, run_declare_iff]
    exact ⟨hname.undeclared, rfl⟩
  | none =>
    have hlifts := builds_lift_root hP (hv.liftable fun _ : True => href) hproper hstem
    obtain ⟨w, s₁, hlift⟩ := hlifts.succeeds trivial (hs.bindName hlookup hname.used hname.unbound)
    refine ⟨_, (run_define_iff hproper hlookup).2 ⟨hname.unbound, w, s₁, hlift, ?_, rfl⟩⟩
    exact (hlifts.stretch hlift).undeclared hname.used not_mem_nil hname.undeclared

/-- Declare definitions one after the other. -/
def defineAll (doc : Resolved) (plan : Plan) (definitions : List (String × Validator)) :
    Build Unit :=
  definitions.forM fun d => do
    let name ← targetName plan d.1
    define plan name (stemOf doc d.1) (pointerOf doc d.1) d.2

variable {doc : Resolved} {definitions : List (String × Validator)}

lemma stretch_defineAll (hP : Extensible P)
    (hdefinitions : ∀ d ∈ definitions, Buildable plan V d.2 ∧ P (stemOf doc d.1))
    (h : (defineAll doc plan definitions).run s = .ok (u, s')) :
    Stretch plan P V (plan.names.map (·.2)) s s' ∧
      (∀ d ∈ definitions, ∃ name, plan.names.lookup d.1 = some name ∧ IsDefined plan s' d.2 name) ∧
      s'.declared.routes = s.declared.routes ∧ s.Binds s' := by
  induction definitions generalizing s with
  | nil =>
    cases h
    exact ⟨.refl _, nofun, rfl, .refl _⟩
  | cons d definitions ih =>
    obtain ⟨hv, hstem⟩ := hdefinitions d mem_cons_self
    obtain ⟨_, s₁, hd, hrest⟩ := StateT.run_bind_eq_ok_iff.1 h
    obtain ⟨name, _, htarget, hdefine⟩ := StateT.run_bind_eq_ok_iff.1 hd
    obtain ⟨hname, rfl⟩ := run_targetName_iff.1 htarget
    obtain ⟨hstretch, hdefined, hroutes, hbinds⟩ := stretch_define hP hv hstem hdefine
    obtain ⟨hstretch', hdefined', hroutes', hbinds'⟩ :=
      ih (fun e he => hdefinitions e (mem_cons_of_mem _ he)) hrest
    have hown : [name] ⊆ plan.names.map (·.2) :=
      cons_subset.2 ⟨mem_names_of_lookup hname, nil_subset _⟩
    exact ⟨(hstretch.mono hown).trans hstretch',
      forall_mem_cons.2 ⟨⟨name, hname, hdefined.after hstretch'⟩, hdefined'⟩,
      hroutes'.trans hroutes, hbinds.trans hbinds' hstretch'.bound⟩

/-- All definitions can be declared if their names are pending. -/
lemma exists_run_defineAll (hP : Extensible P) (hkeys : (definitions.map (·.1)).Nodup)
    (hnodup : (plan.names.map (·.2)).Nodup)
    (hdefinitions : ∀ d ∈ definitions, Buildable plan V d.2 ∧ P (stemOf doc d.1))
    (hrefs : ∀ d ∈ definitions, Grounded plan d.2)
    (hnames : ∀ d ∈ definitions, ∃ name, plan.names.lookup d.1 = some name ∧ s.IsPending name)
    (hs : s.IsOrderly) : ∃ s', (defineAll doc plan definitions).run s = .ok ((), s') := by
  induction definitions generalizing s with
  | nil => exact ⟨s, rfl⟩
  | cons d definitions ih =>
    obtain ⟨hnot, hkeys⟩ := nodup_cons.1 hkeys
    obtain ⟨hv, hstem⟩ := hdefinitions d mem_cons_self
    obtain ⟨name, hname, hpending⟩ := hnames d mem_cons_self
    obtain ⟨s₁, hrun⟩ := exists_run_define hP hv (hrefs d mem_cons_self) hs hpending hstem
      (pointerOf doc d.1)
    obtain ⟨hstretch, -, -⟩ := stretch_define hP hv hstem hrun
    -- No other definition has the name that was declared.
    have hothers (e : String × Validator) (he : e ∈ definitions) :
        ∃ name, plan.names.lookup e.1 = some name ∧ s₁.IsPending name := by
      obtain ⟨other, hother, hpending'⟩ := hnames e (mem_cons_of_mem _ he)
      refine ⟨other, hother, hpending'.after hstretch fun hmem => hnot ?_⟩
      rw [mem_singleton.1 hmem] at hother
      have hsame := inj_on_of_nodup_map hnodup (mem_of_lookup hname) (mem_of_lookup hother) rfl
      exact mem_map.2 ⟨e, he, (congrArg Prod.fst hsame).symm⟩
    have hs₁ : s₁.IsOrderly :=
      hstretch.orderly (cons_subset.2 ⟨hpending.used, nil_subset _⟩) hs
    obtain ⟨s₂, hrest⟩ := ih hkeys (fun e he => hdefinitions e (mem_cons_of_mem _ he))
      (fun e he => hrefs e (mem_cons_of_mem _ he)) hothers hs₁
    refine ⟨s₂, StateT.run_bind_eq_ok_iff.2 ⟨(), s₁, ?_, hrest⟩⟩
    exact StateT.run_bind_eq_ok_iff.2 ⟨name, s, run_targetName_iff.2 ⟨hname, rfl⟩, hrun⟩

/-! ### Routes -/

/-- The name for a schema: that of the definition it refers to, or the one bound to its
fingerprint. -/
inductive IsNamed (plan : Plan) (bound : List (String × String)) : Validator → String → Prop
  | target {target name : String} (h : plan.names.lookup target = some name) :
    IsNamed plan bound (.ref target) name
  | bound {v : Validator} {name : String} (hproper : ¬ v.isReference)
    (h : (plan.fingerprint v, name) ∈ bound) : IsNamed plan bound v name

lemma IsNamed.mono {bound bound' : List (String × String)} {v : Validator} {name : String}
    (h : IsNamed plan bound v name) (hsub : bound ⊆ bound') : IsNamed plan bound' v name := by
  cases h with
  | target h => exact .target h
  | bound hproper h => exact .bound hproper (hsub h)

lemma builds_routeName (hP : Extensible P) (hv : Buildable plan V v) (href : G → Grounded plan v)
    (hstem : P stem) (pointer : String) :
    Builds plan P V G (routeName plan v stem pointer) fun bound => IsNamed plan bound v := by
  unfold routeName
  split
  next target =>
    exact (builds_targetName fun hG => href hG target .refl).mono fun _ _ h => .target h
  next hnot =>
    have hproper : ¬ v.isReference := fun h => by
      obtain ⟨target, rfl⟩ := hv.eq_ref h
      exact hnot target rfl
    have hlifted := builds_lift_root hP (hv.liftable href) hproper hstem
    exact (builds_share (hv.root hproper) hlifted hstem pointer).mono fun _ _ h => .bound hproper h

lemma builds_routeNames (hP : Extensible P) (route : Route Validator) (suffix : String → String)
    (ps : List (String × Validator))
    (hps : ∀ p ∈ ps, Buildable plan V p.2 ∧
      P (Name.routeStem route.path route.method (suffix p.1)))
    (href : G → ∀ p ∈ ps, Grounded plan p.2) :
    Builds plan P V G (routeNames plan route suffix ps) fun bound names =>
      Forall₂ (fun p q => q.1 = p.1 ∧ IsNamed plan bound p.2 q.2) ps names := by
  induction ps with
  | nil => exact builds_pure fun _ => .nil
  | cons p ps ih =>
    obtain ⟨hv, hstem⟩ := hps p mem_cons_self
    refine (builds_routeName hP hv (fun hG => href hG p mem_cons_self) hstem _).bind
      fun name => ?_
    refine (ih (fun q hq => hps q (mem_cons_of_mem _ hq))
      fun hG q hq => href hG q (mem_cons_of_mem _ hq)).bind fun names => builds_pure ?_
    exact fun bound hnames hname => .cons ⟨rfl, hname⟩ hnames

/-- What a build asks of a route. -/
structure BuildableRoute (plan : Plan) (P : String → Prop) (V : Validator → Prop)
    (route : Route Validator) : Prop where
  request : ∀ p ∈ route.request, Buildable plan V p.2 ∧
    P (Name.routeStem route.path route.method (kindSuffix p.1))
  responses : ∀ p ∈ route.responses, Buildable plan V p.2 ∧
    P (Name.routeStem route.path route.method (Name.statusSuffix p.1))

/-- References in a route lead to definitions. -/
def GroundedRoute (plan : Plan) (route : Route Validator) : Prop :=
  ∀ p, p ∈ route.request ∨ p ∈ route.responses → Grounded plan p.2

/-- The names for all schemas of a route. -/
def namesOf (plan : Plan) (route : Route Validator) : Build (Route String) := do
  let request ← routeNames plan route kindSuffix route.request
  let responses ← routeNames plan route Name.statusSuffix route.responses
  return ⟨route.path, route.method, route.pointer, request, responses⟩

variable {route : Route Validator} {routes : List (Route Validator)}

lemma builds_namesOf (hP : Extensible P) (hroute : BuildableRoute plan P V route)
    (href : G → GroundedRoute plan route) :
    Builds plan P V G (namesOf plan route) fun bound => route.InStep (IsNamed plan bound) := by
  refine (builds_routeNames hP route _ _ hroute.request
    fun hG p hp => href hG p (.inl hp)).bind fun request => ?_
  refine (builds_routeNames hP route _ _ hroute.responses
    fun hG p hp => href hG p (.inr hp)).bind fun responses => builds_pure ?_
  exact fun bound hresponses hrequest => ⟨rfl, rfl, hrequest, hresponses⟩

/-- Add a route. -/
def Draft.appendRoute (s : Draft) (named : Route String) : Draft :=
  { s with declared := { s.declared with routes := s.declared.routes ++ [named] } }

lemma run_addRoute_iff : (addRoute plan route).run s = .ok (u, s') ↔
    ∃ named s₁, (namesOf plan route).run s = .ok (named, s₁) ∧ s' = s₁.appendRoute named := by
  have hadd : addRoute plan route =
      (namesOf plan route >>= fun named => modify fun s => s.appendRoute named) := by
    simp only [addRoute, namesOf, Draft.appendRoute, bind_assoc, pure_bind]
  rw [hadd, StateT.run_bind_eq_ok_iff]
  constructor
  · rintro ⟨named, s₁, hrun, ⟨⟩⟩
    exact ⟨named, s₁, hrun, rfl⟩
  · rintro ⟨named, s₁, hrun, rfl⟩
    exact ⟨named, s₁, hrun, rfl⟩

lemma stretch_addRoute (hP : Extensible P) (hroute : BuildableRoute plan P V route)
    (h : (addRoute plan route).run s = .ok (u, s')) :
    Stretch plan P V [] s s' ∧ s.Binds s' ∧ ∃ named, s'.declared.routes = s.declared.routes ++ [named] ∧
      route.InStep (IsNamed plan s'.registry.bound) named := by
  obtain ⟨named, s₁, hrun, rfl⟩ := run_addRoute_iff.1 h
  have hnames := builds_namesOf hP hroute False.elim
  have hstretch := hnames.stretch hrun
  refine ⟨⟨hstretch.used, hstretch.start, hstretch.bound, hstretch.entries, hstretch.nodup,
    fun hown hs => ?_, hstretch.new_used, hstretch.new_bound, hstretch.new_entry⟩,
    fun n hn => hnames.binds hrun n hn, named, ?_, hnames.result hrun _ (List.Subset.refl _)⟩
  · obtain ⟨hbound, hdeclared, hprints, hnames⟩ := hstretch.orderly hown hs
    exact ⟨hbound, hdeclared, hprints, hnames⟩
  · rw [← hnames.routes hrun, Draft.appendRoute]

lemma stretch_forM_addRoute (hP : Extensible P) (hroutes : ∀ r ∈ routes, BuildableRoute plan P V r)
    (h : (routes.forM (addRoute plan)).run s = .ok (u, s')) :
    Stretch plan P V [] s s' ∧ s.Binds s' ∧ ∃ named, s'.declared.routes = s.declared.routes ++ named ∧
      Forall₂ (Route.InStep (IsNamed plan s'.registry.bound)) routes named := by
  induction routes generalizing s with
  | nil =>
    cases h
    exact ⟨.refl _, .refl _, [], by simp, .nil⟩
  | cons r routes ih =>
    obtain ⟨_, s₁, hr, h⟩ := StateT.run_bind_eq_ok_iff.1 h
    obtain ⟨hstretch, hbinds, named, hnamed, hstep⟩ :=
      stretch_addRoute hP (hroutes r mem_cons_self) hr
    obtain ⟨hstretch', hbinds', rest, hrest, hsteps⟩ :=
      ih (fun q hq => hroutes q (mem_cons_of_mem _ hq)) h
    refine ⟨hstretch.trans hstretch', hbinds.trans hbinds' hstretch'.bound, named :: rest, ?_,
      .cons (hstep.mono fun _ _ hname => hname.mono hstretch'.bound) hsteps⟩
    rw [hrest, hnamed, append_assoc, singleton_append]

lemma exists_run_forM_addRoute (hP : Extensible P)
    (hroutes : ∀ r ∈ routes, BuildableRoute plan P V r)
    (hrefs : ∀ r ∈ routes, GroundedRoute plan r) (hs : s.IsOrderly) :
    ∃ s', (routes.forM (addRoute plan)).run s = .ok ((), s') := by
  induction routes generalizing s with
  | nil => exact ⟨s, rfl⟩
  | cons r routes ih =>
    have hr := hroutes r mem_cons_self
    have hnames := builds_namesOf hP hr fun _ : True => hrefs r mem_cons_self
    obtain ⟨named, s₁, hrun⟩ := hnames.succeeds trivial hs
    have hadd : (addRoute plan r).run s = .ok ((), s₁.appendRoute named) :=
      run_addRoute_iff.2 ⟨named, s₁, hrun, rfl⟩
    have hs₁ := (stretch_addRoute hP hr hadd).1.orderly (nil_subset _) hs
    obtain ⟨s', hrest⟩ := ih (fun q hq => hroutes q (mem_cons_of_mem _ hq))
      (fun q hq => hrefs q (mem_cons_of_mem _ hq)) hs₁
    exact ⟨s', StateT.run_bind_eq_ok_iff.2 ⟨(), _, hadd, hrest⟩⟩

/-! ### The whole build -/

lemma mem_roots_of_mem_definitions {t : Validators} {d : String × Validator}
    (h : d ∈ t.definitions) : d.2 ∈ t.roots :=
  mem_append_left _ (mem_map_of_mem h)

lemma mem_roots_of_mem_routes {t : Validators} {r : Route Validator} (hr : r ∈ t.routes)
    {p : String × Validator} (hp : p ∈ r.request ∨ p ∈ r.responses) : p.2 ∈ t.roots := by
  refine mem_append_right _ (mem_flatMap.2 ⟨r, hr, ?_⟩)
  rw [← map_append]
  exact mem_map_of_mem (mem_append.2 hp)

/-- Names are handed out for all definitions, each of them new. -/
lemma exists_run_assignAll (doc : Resolved) (definitions : List (String × Validator)) (s : Draft) :
    ∃ names r, (assignAll doc definitions).run s = .ok (names, { s with registry := r }) ∧
      Forall₂ (fun d n => n.1 = d.1) definitions names ∧ (names.map (·.2)).Nodup ∧
      (∀ n ∈ names.map (·.2), n ∉ s.registry.used) ∧ r.bound = s.registry.bound ∧
      r.used = s.registry.used ++ names.map (·.2) := by
  induction definitions generalizing s with
  | nil => exact ⟨[], s.registry, rfl, .nil, nodup_nil, by simp, rfl, by simp⟩
  | cons d definitions ih =>
    set base := stemOf doc d.1 ++ schemaSuffix
    set name := (s.registry.assign base).1 with hname
    have hnew : name ∉ s.registry.used := Name.Registry.assign_not_mem _ _
    obtain ⟨names, r, hrun, hkeys, hnodup, hfree, hbound, hused⟩ :=
      ih { s with registry := (s.registry.assign base).2 }
    simp only [Name.Registry.used_assign, Name.Registry.bound_assign, mem_append,
      mem_singleton, not_or, ← hname] at hfree hbound hused
    refine ⟨(d.1, name) :: names, r, ?_, .cons rfl hkeys, ?_, ?_, hbound, by simp [hused]⟩
    · refine StateT.run_bind_eq_ok_iff.2 ⟨name, _, rfl, ?_⟩
      exact StateT.run_bind_eq_ok_iff.2 ⟨names, _, hrun, rfl⟩
    · exact nodup_cons.2 ⟨fun hmem => (hfree name hmem).2 rfl, hnodup⟩
    · exact forall_mem_cons.2 ⟨hnew, fun n hn => (hfree n hn).1⟩

lemma stretch_assignAll {names : List (String × String)}
    (hstems : ∀ d ∈ definitions, P (stemOf doc d.1))
    (h : (assignAll doc definitions).run s = .ok (names, s')) : Stretch plan P V [] s s' := by
  induction definitions generalizing s names with
  | nil =>
    cases h
    exact .refl _
  | cons d definitions ih =>
    obtain ⟨_, s₁, hassign, hall⟩ := StateT.run_bind_eq_ok_iff.1 h
    obtain ⟨rest, s₂, hrest, hpure⟩ := StateT.run_bind_eq_ok_iff.1 hall
    cases hassign
    cases hpure
    exact (stretch_handOut (hstems d mem_cons_self) s).trans
      (ih (fun e he => hstems e (mem_cons_of_mem _ he)) hrest)

/-- The course of a build from a registry: in `s` all names are handed out, in `z` it is over. -/
structure Course (t : Validators) (plan : Plan) (P : String → Prop) (V : Validator → Prop)
    (registry : Name.Registry) (s z : Draft) : Prop where
  assigning : Stretch plan P V [] { registry } s
  keys : List.Forall₂ (fun d n => n.1 = d.1) t.definitions plan.names
  nodup : (plan.names.map (·.2)).Nodup
  fresh : ∀ n ∈ plan.names.map (·.2), n ∉ registry.used
  used : s.registry.used = registry.used ++ plan.names.map (·.2)
  bound : s.registry.bound = registry.bound
  declared : s.declared = {}
  building : Stretch plan P V (plan.names.map (·.2)) s z
  binds : s.Binds z
  definitions : ∀ d ∈ t.definitions, ∃ name, plan.names.lookup d.1 = some name ∧
    IsDefined plan z d.2 name
  routes : List.Forall₂ (Route.InStep (IsNamed plan z.registry.bound)) t.routes z.declared.routes

/-- What a build asks of the validators of a document. -/
structure BuildableAll (doc : Resolved) (t : Validators) (plan : Plan) (P : String → Prop)
    (V : Validator → Prop) : Prop where
  definitions : ∀ d ∈ t.definitions, Buildable plan V d.2 ∧ P (stemOf doc d.1)
  routes : ∀ r ∈ t.routes, BuildableRoute plan P V r

variable {t : Validators} {fingerprint : Validator → String} {registry : Name.Registry} {z : Draft}

lemma exists_course (hP : Extensible P)
    (ht : ∀ names, BuildableAll doc t ⟨fingerprint, t.repeated fingerprint, names⟩ P V)
    (h : (build doc t fingerprint).run { registry } = .ok (u, z)) :
    ∃ names s, (assignAll doc t.definitions).run' { registry } = .ok names ∧
      Course t ⟨fingerprint, t.repeated fingerprint, names⟩ P V registry s z := by
  obtain ⟨names, r, hassign, hkeys, hnodup, hfree, hbound, hused⟩ :=
    exists_run_assignAll doc t.definitions { registry }
  obtain ⟨_, s₁, hassigned, h⟩ := StateT.run_bind_eq_ok_iff.1 h
  cases hassign.symm.trans hassigned
  obtain ⟨_, s₂, hdefine, hadd⟩ := StateT.run_bind_eq_ok_iff.1 h
  obtain ⟨hdefining, hdefined, hunrouted, hbinds⟩ :=
    stretch_defineAll hP (ht names).definitions hdefine
  obtain ⟨hrouting, hbinds', named, hnamed, hsteps⟩ := stretch_forM_addRoute hP (ht names).routes hadd
  refine ⟨names, _, by rw [StateT.run'_eq, hassign]; rfl, ?_, hkeys, hnodup, hfree, hused, hbound, rfl,
    hdefining.trans (hrouting.mono (nil_subset _)), hbinds.trans hbinds' hrouting.bound,
    fun d hd => ?_, ?_⟩
  · exact stretch_assignAll (fun d hd => ((ht names).definitions d hd).2) hassign
  · obtain ⟨name, hname, hd⟩ := hdefined d hd
    exact ⟨name, hname, hd.after hrouting⟩
  · rw [hnamed, hunrouted]
    exact hsteps

/-- A build succeeds, from any registry that has bound nothing yet, if references lead to
definitions. -/
theorem exists_run_build (hP : Extensible P) (hfresh : registry.bound = [])
    (hkeys : (t.definitions.map (·.1)).Nodup)
    (ht : ∀ names, BuildableAll doc t ⟨fingerprint, t.repeated fingerprint, names⟩ P V)
    (hrefs : ∀ v ∈ t.roots, ∀ target, v.Part (.ref target) → target ∈ t.definitions.map (·.1)) :
    ∃ z, (build doc t fingerprint).run { registry } = .ok ((), z) := by
  obtain ⟨names, r, hassign, hstep, hnodup, hfree, hbound, hused⟩ :=
    exists_run_assignAll doc t.definitions { registry }
  set plan : Plan := ⟨fingerprint, t.repeated fingerprint, names⟩ with hplan
  have hnames : names.map (·.1) = t.definitions.map (·.1) := map_eq_map_of_forall₂ hstep id
  have hlookup (target : String) (htarget : target ∈ t.definitions.map (·.1)) :
      ∃ name, plan.names.lookup target = some name := by
    rw [← Option.isSome_iff_exists, isSome_lookup_iff, hplan, hnames]
    exact htarget
  have hgrounded (v : Validator) (hv : v ∈ t.roots) : Grounded plan v :=
    fun target hpart => hlookup target (hrefs v hv target hpart)
  have hstart : Draft.IsOrderly { registry := r } := by
    refine ⟨?_, nil_subset _, ?_, ?_⟩ <;> simp [Draft.boundNames, hbound, hfresh]
  have hpending (d : String × Validator) (hd : d ∈ t.definitions) :
      ∃ name, plan.names.lookup d.1 = some name ∧ Draft.IsPending { registry := r } name := by
    obtain ⟨name, hname⟩ := hlookup d.1 (mem_map_of_mem hd)
    refine ⟨name, hname, ?_, by simp [Draft.boundNames, hbound, hfresh], not_mem_nil⟩
    rw [hused]
    exact mem_append_right _ (mem_names_of_lookup hname)
  obtain ⟨s₂, hdefine⟩ := exists_run_defineAll hP hkeys hnodup (ht names).definitions
    (fun d hd => hgrounded d.2 (mem_roots_of_mem_definitions hd)) hpending hstart
  have hs₂ : s₂.IsOrderly := by
    refine (stretch_defineAll hP (ht names).definitions hdefine).1.orderly ?_ hstart
    rw [hused]
    exact subset_append_right _ _
  obtain ⟨z, hroutes⟩ := exists_run_forM_addRoute hP (ht names).routes
    (fun r hr p hp => hgrounded p.2 (mem_roots_of_mem_routes hr hp)) hs₂
  exact ⟨z, StateT.run_bind_eq_ok_iff.2 ⟨names, _, hassign,
    StateT.run_bind_eq_ok_iff.2 ⟨(), s₂, hdefine, hroutes⟩⟩⟩

/-- What a build has come to at its end. -/
structure Built (t : Validators) (plan : Plan) (P : String → Prop) (V : Validator → Prop)
    (registry : Name.Registry) (z : Draft) : Prop where
  orderly : z.IsOrderly
  bound : ∀ b ∈ z.registry.bound, MadeFor plan V z b
  /-- No declaration takes a name that was in use. -/
  unused : ∀ e ∈ z.declared.entries, e.name ∉ registry.used
  made : ∀ e ∈ z.declared.entries, ∃ stem, P stem ∧
    Name.Registry.IsMadeFrom (registry.start ++ (stem ++ schemaSuffix)) e.name
  /-- It is numbered only if it has to be. -/
  beside : ∀ e ∈ z.declared.entries, ∃ stem,
    Name.Registry.IsMadeBeside z.registry.used (registry.start ++ (stem ++ schemaSuffix)) e.name
  /-- No name is handed out in vain. -/
  used : ∀ n ∈ z.registry.used, n ∈ registry.used ∨ n ∈ plan.names.map (·.2) ∨ n ∈ z.boundNames
  /-- A declaration whose name is not bound is an alias. -/
  unbound : ∀ e ∈ z.declared.entries, e.name ∉ z.boundNames → ∃ other, e.validator = .named other
  definitions : List.Forall₂ (fun d n => n.1 = d.1 ∧ IsDefined plan z d.2 n.2) t.definitions plan.names
  nodup : (plan.names.map (·.2)).Nodup
  routes : List.Forall₂ (Route.InStep (IsNamed plan z.registry.bound)) t.routes z.declared.routes

lemma Course.built {s : Draft} (h : Course t plan P V registry s z) (hfresh : registry.bound = [])
    (hkeys : (t.definitions.map (·.1)).Nodup) : Built t plan P V registry z := by
  have hstart : Draft.IsOrderly { registry } := by
    refine ⟨?_, nil_subset _, ?_, ?_⟩ <;> simp [Draft.boundNames, hfresh]
  have horderly : z.IsOrderly :=
    h.building.orderly (h.used ▸ subset_append_right _ _) (h.assigning.orderly (nil_subset _) hstart)
  -- Nothing is bound or declared before the definitions are.
  have hnew (e : Declaration) (he : e ∈ z.declared.entries) :=
    (h.building.new_entry e he).resolve_left (by simp [h.declared])
  have hunused (e : Declaration) (he : e ∈ z.declared.entries) : e.name ∉ registry.used := by
    intro hmem
    exact h.fresh _ ((hnew e he).1 (h.assigning.used hmem)) hmem
  have hmade (e : Declaration) (he : e ∈ z.declared.entries) : ∃ stem, P stem ∧
      Name.Registry.IsMadeBeside z.registry.used (registry.start ++ (stem ++ schemaSuffix)) e.name := by
    have hmem : e.name ∈ z.registry.used := horderly.declared (mem_map_of_mem he)
    obtain hmem | hmade := h.building.new_used _ hmem
    · obtain ⟨stem, hstem, hmade⟩ := (h.assigning.new_used _ hmem).resolve_left (hunused e he)
      exact ⟨stem, hstem, hmade.mono h.building.used⟩
    · exact h.assigning.start ▸ hmade
  refine ⟨horderly, fun b hb => ?_, hunused, fun e he => ?_, fun e he => ?_, fun n hn => ?_,
    fun e he hnot => ?_, ?_, h.nodup, h.routes⟩
  · exact ((h.building.new_bound b hb).resolve_left (by simp [h.bound, hfresh])).2
  · obtain ⟨stem, hstem, hmade⟩ := hmade e he
    exact ⟨stem, hstem, hmade.isMadeFrom⟩
  · obtain ⟨stem, -, hmade⟩ := hmade e he
    exact ⟨stem, hmade⟩
  · rw [← or_assoc, ← mem_append, ← h.used]
    exact h.binds n hn
  · obtain ⟨other, -, hother⟩ := (hnew e he).2.2.resolve_left hnot
    exact ⟨other, hother⟩
  · have hnodup : (plan.names.map (·.1)).Nodup := by
      rw [map_eq_map_of_forall₂ h.keys id]
      exact hkeys
    refine forall₂_imp_of_mem_of_mem h.keys fun d hd n hn hdn => ⟨hdn, ?_⟩
    obtain ⟨name, hname, hdefined⟩ := h.definitions d hd
    cases hname.symm.trans (hdn ▸ lookup_of_mem hnodup hn)
    exact hdefined

theorem built_of_build (hP : Extensible P) (hfresh : registry.bound = [])
    (hkeys : (t.definitions.map (·.1)).Nodup)
    (hdefinitions : ∀ plan : Plan, plan.fingerprint = fingerprint →
      plan.repeated = t.repeated fingerprint → ∀ d ∈ t.definitions,
        Buildable plan V d.2 ∧ P (stemOf doc d.1))
    (hroutes : ∀ plan : Plan, plan.fingerprint = fingerprint →
      plan.repeated = t.repeated fingerprint → ∀ r ∈ t.routes, BuildableRoute plan P V r)
    (h : (build doc t fingerprint).run { registry } = .ok (u, z)) :
    ∃ names, (assignAll doc t.definitions).run' { registry } = .ok names ∧
      Built t ⟨fingerprint, t.repeated fingerprint, names⟩ P V registry z := by
  obtain ⟨names, s, hassign, hcourse⟩ := exists_course hP
    (fun names => ⟨hdefinitions _ rfl rfl, hroutes _ rfl rfl⟩) h
  exact ⟨names, hassign, hcourse.built hfresh hkeys⟩

end

/-! ### What names stand for -/

/-- The draft has a declaration of that name whose validator has the property. -/
def Holds (z : Draft) (name : String) (P : Validator → Prop) : Prop :=
  ∃ e ∈ z.declared.entries, e.name = name ∧ P e.validator

/-- A name stands for a reference as the name of its target, and for any other validator by its
fingerprint; `fingerprinted` tells which validators fingerprints are taken of. -/
inductive Stands (plan : Plan) (fingerprinted : Validator → Prop) (z : Draft) :
    Validator → String → Prop
  | target {target name : String} (h : plan.names.lookup target = some name) :
    Stands plan fingerprinted z (.ref target) name
  | bound {v : Validator} {name : String} (hv : fingerprinted v) (hproper : ¬ v.isReference)
    (h : (plan.fingerprint v, name) ∈ z.registry.bound) : Stands plan fingerprinted z v name

/-- What a finished build has come to, from a registry that may hold names already. -/
structure Finished (t : Validators) (plan : Plan) (registry : Name.Registry) (z : Draft) :
    Prop where
  nodup : z.declared.names.Nodup
  made : ∀ e ∈ z.declared.entries, e = .of e.name e.validator e.pointer
  keys : List.Forall₂ (fun d n => n.1 = d.1) t.definitions plan.names
  /-- What is bound is settled: the name has a declaration for a validator with the fingerprint. -/
  settles : ∀ b ∈ z.registry.bound, b ∈ registry.bound ∨ ∃ v ∈ fingerprinted t,
    plan.fingerprint v = b.1 ∧ Holds z b.2 (Rebuilt (Stands plan (· ∈ fingerprinted t) z) v)
  definitions : ∀ d ∈ t.definitions, ∃ name, plan.names.lookup d.1 = some name ∧
    Holds z name (Lifts (Stands plan (· ∈ fingerprinted t) z) d.2)
  routes : List.Forall₂ (Route.InStep (Stands plan (· ∈ fingerprinted t) z)) t.routes
    z.declared.routes

section

variable {t : Validators} {plan : Plan} {P : String → Prop} {registry : Name.Registry}
  {s z : Draft} {v w : Validator} {name : String}

variable {doc : Resolved}

lemma IsPromoted.mem_fingerprinted (h : IsPromoted plan v) (hv : ∃ root ∈ t.roots, root.Part v) :
    v ∈ fingerprinted t :=
  mem_fingerprinted_of_isComposite h.1 hv

lemma Inlined.lifts (h : Inlined plan z.registry.bound v w) (hv : ∃ root ∈ t.roots, root.Part v) :
    Lifts (Stands plan (· ∈ fingerprinted t) z) v w := by
  induction v using children_induction generalizing w with
  | step v ih =>
    cases h with
    | target h => exact .named (.target h)
    | shared hpromoted h =>
      exact .named (.bound (hpromoted.mem_fingerprinted hv) hpromoted.not_isReference h)
    | kept hproper _ hresembles hchildren =>
      obtain ⟨root, hroot, hpart⟩ := hv
      exact .rebuilt hproper hresembles (forall₂_imp_of_mem hchildren fun c hc d hcd =>
        ih c hc hcd ⟨root, hroot, hpart.trans (.of_child .refl hc)⟩)

lemma Opened.rebuilt (h : Opened plan z.registry.bound v w)
    (hv : ∃ root ∈ t.roots, root.Part v) :
    Rebuilt (Stands plan (· ∈ fingerprinted t) z) v w := by
  obtain ⟨root, hroot, hpart⟩ := hv
  exact ⟨h.proper, h.resembles, forall₂_imp_of_mem h.children fun c hc d hcd =>
    hcd.lifts ⟨root, hroot, hpart.trans (.of_child .refl hc)⟩⟩

lemma IsDefined.holds (h : IsDefined plan z v name) (hv : v ∈ t.roots) :
    Holds z name (Lifts (Stands plan (· ∈ fingerprinted t) z) v) := by
  cases h with
  | reference hother hentry => exact ⟨_, hentry, rfl, .named (.target hother)⟩
  | again hproper hother hentry =>
    exact ⟨_, hentry, rfl,
      .named (.bound (mem_fingerprinted_of_mem_roots hv hproper) hproper hother)⟩
  | first _ hopened hentry => exact ⟨_, hentry, rfl, (hopened.rebuilt ⟨v, hv, .refl⟩).lifts⟩

lemma IsNamed.stands (h : IsNamed plan z.registry.bound v name) (hv : v ∈ t.roots) :
    Stands plan (· ∈ fingerprinted t) z v name := by
  cases h with
  | target h => exact .target h
  | bound hproper h => exact .bound (mem_fingerprinted_of_mem_roots hv hproper) hproper h

lemma Course.finished (h : Course t plan P (· ∈ fingerprinted t) registry s z) :
    Finished t plan registry z where
  nodup := h.building.nodup (by rw [h.declared]; exact nodup_nil)
  made e he := ((h.building.new_entry e he).resolve_left (by simp [h.declared])).2.1
  keys := h.keys
  settles b hb := by
    rw [← h.bound]
    refine (h.building.new_bound b hb).imp_right ?_
    rintro ⟨-, v, w, pointer, hv, hprint, hopened, hentry⟩
    exact ⟨v, hv, hprint, _, hentry, rfl, hopened.rebuilt (exists_root_of_mem_fingerprinted hv)⟩
  definitions d hd := by
    obtain ⟨name, hname, hdefined⟩ := h.definitions d hd
    exact ⟨name, hname, hdefined.holds (mem_roots_of_mem_definitions hd)⟩
  routes := forall₂_imp_of_mem h.routes fun r hr named hstep =>
    { path := hstep.path
      method := hstep.method
      request := forall₂_imp_of_mem hstep.request fun p hp q hpq =>
        ⟨hpq.1, hpq.2.stands (mem_roots_of_mem_routes hr (.inl hp))⟩
      responses := forall₂_imp_of_mem hstep.responses fun p hp q hpq =>
        ⟨hpq.1, hpq.2.stands (mem_roots_of_mem_routes hr (.inr hp))⟩ }

lemma extensible_true : Extensible fun _ : String => True := by
  constructor <;> intros <;> trivial

lemma buildableAll_of_unnamed (hunnamed : ∀ v ∈ t.roots, ∀ name, ¬ v.Part (.named name))
    (plan : Plan) : BuildableAll doc t plan (fun _ => True) (· ∈ fingerprinted t) := by
  have hroots (v : Validator) (hv : v ∈ t.roots) :
      Buildable plan (· ∈ fingerprinted t) v ∧ True :=
    ⟨⟨⟨fun u hu hpromoted => hpromoted.mem_fingerprinted ⟨v, hv, hu⟩, hunnamed v hv⟩,
      mem_fingerprinted_of_mem_roots hv⟩, trivial⟩
  exact ⟨fun d hd => hroots d.2 (mem_roots_of_mem_definitions hd),
    fun r hr => ⟨fun p hp => hroots p.2 (mem_roots_of_mem_routes hr (.inl hp)),
      fun p hp => hroots p.2 (mem_roots_of_mem_routes hr (.inr hp))⟩⟩

theorem finished_of_build {fingerprint : Validator → String} {u : Unit}
    (hunnamed : ∀ v ∈ t.roots, ∀ name, ¬ v.Part (.named name))
    (h : (build doc t fingerprint).run { registry } = .ok (u, z)) :
    ∃ names, (assignAll doc t.definitions).run' { registry } = .ok names ∧
      Finished t ⟨fingerprint, t.repeated fingerprint, names⟩ registry z := by
  obtain ⟨names, s, hassign, hcourse⟩ := exists_course extensible_true
    (fun names => buildableAll_of_unnamed hunnamed _) h
  exact ⟨names, hassign, hcourse.finished⟩

end

end Declarations

end ApiSchema
