import ApiSchema.Proofs.Declaration.Equivalence
import ApiSchema.Proofs.Declaration.Occurrence

/-!
# Sharing

Occurrences of one validator share one declaration. Main statement: declarations refer to them by one
name, no validator has two declarations that are not aliases, and a name stands for validators that
are alike. The texts that are digested may not collide.
-/

namespace ApiSchema

open List

namespace Declarations

open Validator

/-! ### References to occurrences -/

/-- Following a path in a validator, and in the declarations of the names on the way, ends at a
name. -/
inductive Refers (d : Declarations) : Validator → List Nat → String → Prop
  | here (name : String) : Refers d (.named name) [] name
  | through {name other : String} {e : Declaration} {i : Nat} {path : List Nat}
    (he : d.get? name = some e) (h : Refers d e.validator (i :: path) other) :
    Refers d (.named name) (i :: path) other
  | child {w c : Validator} {i : Nat} {path : List Nat} {name : String}
    (hc : w.children[i]? = some c) (h : Refers d c path name) : Refers d w (i :: path) name

/-- The names of definitions, and after them the names in routes. -/
def rootNames (d : Declarations) (names : List String) : List String :=
  names ++ d.routes.flatMap fun r => r.request.map (·.2) ++ r.responses.map (·.2)

/-- The name by which declarations refer to what is at a place of the document. -/
def RefersAt (d : Declarations) (names : List String) (place : Nat × List Nat) (name : String) :
    Prop :=
  ∃ start, (d.rootNames names)[place.1]? = some start ∧ d.Refers (.named start) place.2 name

/-- A name stands for the validators that occur where declarations refer to it, and for what its
aliases stand for. -/
inductive StandsFor (d : Declarations) (t : Validators) (names : List String) :
    String → Validator → Prop
  | occurrence {place : Nat × List Nat} {u : Validator} {name : String} (hu : t.at? place = some u)
    (hproper : ¬ u.isReference) (h : d.RefersAt names place name) : StandsFor d t names name u
  | viaAlias {name other : String} {u : Validator} {e : Declaration} (h : StandsFor d t names name u)
    (he : d.get? name = some e) (hother : e.validator = .named other) : StandsFor d t names other u

/-- Declarations share what occurs more than once, where `names` are the names of definitions. -/
structure Shares (d : Declarations) (t : Validators) (names : List String) : Prop where
  /-- Occurrences of a validator have one name, and so have definitions, but for aliases. -/
  shared : ∃ nameOf : Validator → String,
    (∀ place u, t.Shareable place u → ∀ name, d.RefersAt names place name ↔ name = nameOf u) ∧
    ∀ (k : Nat) p name, t.definitions[k]? = some p → ¬ p.2.isReference → names[k]? = some name →
      name = nameOf p.2 ∨ ∃ e, d.get? name = some e ∧ e.validator = .named (nameOf p.2)
  /-- Whatever is not an alias was made from a validator of the document. -/
  made : ∀ e ∈ d.entries, (∀ other, e.validator ≠ .named other) →
    ∃ u, d.StandsFor t names e.name u ∧ Resembles u e.validator
  /-- No validator has two declarations that are not aliases. -/
  once : ∀ e ∈ d.entries, ∀ e' ∈ d.entries, (∀ other, e.validator ≠ .named other) →
    (∀ other, e'.validator ≠ .named other) → ∀ u, d.StandsFor t names e.name u →
      d.StandsFor t names e'.name u → e = e'
  /-- Validators with one name are alike. -/
  alike : ∀ name u u', d.StandsFor t names name u → d.StandsFor t names name u' → Alike u u'

section

variable {d : Declarations}

variable {start name : String} {i : Nat} {path : List Nat}

lemma refers_named_nil : d.Refers (.named start) [] name ↔ name = start := by
  constructor
  · rintro ⟨⟩
    rfl
  · rintro rfl
    exact .here name

lemma refers_named_cons {e : Declaration} (he : d.get? start = some e) :
    d.Refers (.named start) (i :: path) name ↔ d.Refers e.validator (i :: path) name := by
  constructor
  · intro h
    cases h with
    | through he' h =>
      cases he.symm.trans he'
      exact h
    | child hc _ => cases hc
  · exact .through he

lemma refers_cons {w c : Validator} (hc : w.children[i]? = some c) :
    d.Refers w (i :: path) name ↔ d.Refers c path name := by
  constructor
  · intro h
    cases h with
    | through _ _ => cases hc
    | child hc' h =>
      cases hc.symm.trans hc'
      exact h
  · exact .child hc

end

/-! ### What names are bound to -/

/-- A validator that a build makes a declaration from. -/
def IsChosen (t : Validators) (plan : Plan) (v : Validator) : Prop :=
  (v ∈ t.roots ∧ ¬ v.isReference) ∨ (∃ root ∈ t.roots, root.Part v) ∧ IsPromoted plan v

/-- The name bound to a validator. -/
def Draft.boundName (z : Draft) (plan : Plan) (v : Validator) : String :=
  (z.registry.bound.lookup (plan.fingerprint v)).getD ""

/-- What names tell of the validators they were bound to. -/
structure Faithful (t : Validators) (plan : Plan) (z : Draft) : Prop where
  declared : z.declared.names.Nodup
  prints : (z.registry.bound.map (·.1)).Nodup
  names : z.boundNames.Nodup
  made : ∀ b ∈ z.registry.bound, MadeFor plan (IsChosen t plan) z b
  binary : ∀ root ∈ t.roots, root.IsBinary64
  same : ∀ v ∈ fingerprinted t, ∀ w ∈ fingerprinted t, plan.fingerprint v = plan.fingerprint w →
    SameText v w
  print : ∀ v w, SameText v w → plan.fingerprint v = plan.fingerprint w

section

variable {t : Validators} {plan : Plan} {z : Draft} {u v w : Validator}

lemma IsChosen.exists_root (h : IsChosen t plan v) : ∃ root ∈ t.roots, root.Part v := by
  rcases h with h | h
  · exact ⟨v, h.1, .refl⟩
  · exact h.1

lemma IsChosen.mem_fingerprinted (h : IsChosen t plan v) : v ∈ fingerprinted t := by
  rcases h with h | h
  · exact mem_fingerprinted_of_mem_roots h.1 h.2
  · exact h.2.mem_fingerprinted h.1

lemma isPromoted_iff_of_sameHead (h : SameHead v w) (hprint : plan.fingerprint v = plan.fingerprint w) :
    IsPromoted plan v ↔ IsPromoted plan w := by
  have hkind : v.isComposite = w.isComposite ∧ v.isModel = w.isModel := by
    cases h <;> exact ⟨rfl, rfl⟩
  rw [IsPromoted, IsPromoted, isShared, isShared, hkind.1, hkind.2, hprint]

namespace Faithful

variable {print name : String}

lemma isBinary64 (h : Faithful t plan z) (hv : ∃ root ∈ t.roots, root.Part v) : v.IsBinary64 := by
  obtain ⟨root, hroot, hpart⟩ := hv
  exact (h.binary root hroot).part hpart

lemma lookup_eq (h : Faithful t plan z) (hname : (print, name) ∈ z.registry.bound) :
    z.registry.bound.lookup print = some name :=
  lookup_of_mem h.prints hname

lemma name_eq (h : Faithful t plan z) {name' : String} (hname : (print, name) ∈ z.registry.bound)
    (hname' : (print, name') ∈ z.registry.bound) : name = name' :=
  Option.some.inj ((h.lookup_eq hname).symm.trans (h.lookup_eq hname'))

lemma boundName_eq (h : Faithful t plan z) (hname : (plan.fingerprint u, name) ∈ z.registry.bound) :
    z.boundName plan u = name := by
  rw [Draft.boundName, h.lookup_eq hname, Option.getD_some]

lemma print_eq (h : Faithful t plan z) {print' : String} (hprint : (print, name) ∈ z.registry.bound)
    (hprint' : (print', name) ∈ z.registry.bound) : print = print' :=
  congrArg Prod.fst (inj_on_of_nodup_map h.names hprint hprint' rfl)

end Faithful

/-- Following a path ends at the name that is bound to what is at its end, if that has a declaration
of its own. -/
structure Points (plan : Plan) (z : Draft) (w : Validator) (path : List Nat) (u : Validator) :
    Prop where
  bound : IsPromoted plan u → ∃ name, (plan.fingerprint u, name) ∈ z.registry.bound
  refers_iff : ∀ name, z.declared.Refers w path name ↔
    IsPromoted plan u ∧ (plan.fingerprint u, name) ∈ z.registry.bound

namespace Faithful

variable {path : List Nat}

/-- One name further: the declaration was made from a validator with the same text, which has
validators with the same texts along each path. -/
lemma points_bound (h : Faithful t plan z) {i : Nat} {name : String}
    (ih : ∀ {v w u : Validator}, (∃ root ∈ t.roots, root.Part v) →
      Inlined plan z.registry.bound v w → v.at? path = some u → ¬ u.isReference →
      Points plan z w path u) (hv : v ∈ fingerprinted t)
    (hname : (plan.fingerprint v, name) ∈ z.registry.bound) (hu : v.at? (i :: path) = some u)
    (hproper : ¬ u.isReference) : Points plan z (.named name) (i :: path) u := by
  obtain ⟨v', w', pointer, hchosen, hprint, hopened, hentry⟩ := h.made _ hname
  have htext := h.same v hv v' hchosen.mem_fingerprinted hprint.symm
  have hv₁ := h.isBinary64 (exists_root_of_mem_fingerprinted hv)
  have hv₂ := h.isBinary64 hchosen.exists_root
  obtain ⟨u', hu', huu'⟩ := htext.at? hv₁ hv₂ hu
  have hhead := (huu'.sameHead_and_children (hv₁.part (part_of_at? hu))
    (hv₂.part (part_of_at? hu'))).1
  have hproper' : ¬ u'.isReference := by
    cases hhead <;> simp_all [isReference]
  obtain ⟨c, hc, hu'⟩ := at?_cons_eq_some_iff.1 hu'
  obtain ⟨c', hc', hinlined⟩ := getElem?_of_forall₂ hopened.children hc
  obtain ⟨root, hroot, hpart⟩ := hchosen.exists_root
  have hpoints := ih ⟨root, hroot, .child hpart (mem_of_getElem? hc)⟩ hinlined hu' hproper'
  have hpromoted := isPromoted_iff_of_sameHead hhead (h.print _ _ huu')
  have hget : z.declared.get? name = some (.of name w' pointer) := get?_name h.declared hentry
  refine ⟨fun hu => ?_, fun other => ?_⟩
  · rw [h.print _ _ huu']
    exact hpoints.bound (hpromoted.1 hu)
  · rw [refers_named_cons hget, h.print _ _ huu', hpromoted]
    exact (refers_cons hc').trans (hpoints.refers_iff other)

lemma points_of_inlined (h : Faithful t plan z) (hv : ∃ root ∈ t.roots, root.Part v)
    (hinlined : Inlined plan z.registry.bound v w) (hu : v.at? path = some u)
    (hproper : ¬ u.isReference) : Points plan z w path u := by
  induction path generalizing u v w with
  | nil =>
    cases hu
    cases hinlined with
    | target _ => exact absurd rfl hproper
    | @shared _ name hpromoted hname =>
      refine ⟨fun _ => ⟨name, hname⟩, fun other => refers_named_nil.trans ⟨?_, ?_⟩⟩
      · rintro rfl
        exact ⟨hpromoted, hname⟩
      · exact fun hother => h.name_eq hother.2 hname
    | kept _ hnot hresembles _ =>
      refine ⟨fun hpromoted => absurd hpromoted hnot, fun other => ⟨fun hrefers => ?_, ?_⟩⟩
      · cases hrefers
        cases hresembles
        exact absurd rfl hproper
      · exact fun hother => absurd hother.1 hnot
  | cons i path ih =>
    cases hinlined with
    | target _ =>
      obtain ⟨c, hc, -⟩ := at?_cons_eq_some_iff.1 hu
      cases hc
    | shared hpromoted hname =>
      exact h.points_bound ih (hpromoted.mem_fingerprinted hv) hname hu hproper
    | kept _ _ _ hchildren =>
      obtain ⟨c, hc, hu⟩ := at?_cons_eq_some_iff.1 hu
      obtain ⟨c', hc', hinlined⟩ := getElem?_of_forall₂ hchildren hc
      obtain ⟨root, hroot, hpart⟩ := hv
      obtain ⟨hbound, hrefers⟩ := ih ⟨root, hroot, .child hpart (mem_of_getElem? hc)⟩ hinlined
        hu hproper
      exact ⟨hbound, fun other => (refers_cons hc').trans (hrefers other)⟩

end Faithful

/-! ### Definitions and schemas of routes -/

/-- From the name of a validator one gets to the name bound to it, at once or by way of an alias. -/
def LeadsTo (plan : Plan) (z : Draft) (v : Validator) (start : String) : Prop :=
  ∃ name, (plan.fingerprint v, name) ∈ z.registry.bound ∧
    (start = name ∨ ∃ e, z.declared.get? start = some e ∧ e.validator = .named name)

/-- What has become of a definition or a schema of a route. -/
def IsRoot (t : Validators) (plan : Plan) (z : Draft) (k : Nat) (v : Validator) (start : String) :
    Prop :=
  (k < t.definitions.length ∧ (∃ target, (target, v) ∈ t.definitions ∧
    (target, start) ∈ plan.names) ∧ IsDefined plan z v start) ∨
  (t.definitions.length ≤ k ∧ IsNamed plan z.registry.bound v start)

/-- The name of each definition and each schema of a route stands in its place. -/
lemma Built.exists_isRoot {P : String → Prop} {V : Validator → Prop} {registry : Name.Registry}
    (h : Built t plan P V registry z) {k : Nat} (hv : t.roots[k]? = some v) :
    ∃ start, (z.declared.rootNames (plan.names.map (·.2)))[k]? = some start ∧
      IsRoot t plan z k v start := by
  have hlength : t.definitions.length = plan.names.length := h.definitions.length_eq
  by_cases hk : k < t.definitions.length
  · rw [Validators.roots, List.getElem?_append_left (by simpa using hk), List.getElem?_map] at hv
    obtain ⟨⟨target, _⟩, hd, rfl⟩ := Option.map_eq_some_iff.1 hv
    obtain ⟨⟨_, start⟩, hn, rfl, hdefined⟩ := getElem?_of_forall₂ h.definitions hd
    refine ⟨start, ?_, .inl ⟨hk, ⟨_, mem_of_getElem? hd, mem_of_getElem? hn⟩, hdefined⟩⟩
    rw [rootNames, List.getElem?_append_left (by simpa [← hlength] using hk), List.getElem?_map, hn]
    rfl
  · rw [not_lt] at hk
    have hroutes : Forall₂ (IsNamed plan z.registry.bound)
        (t.routes.flatMap fun r => r.request.map (·.2) ++ r.responses.map (·.2))
        (z.declared.routes.flatMap fun r => r.request.map (·.2) ++ r.responses.map (·.2)) := by
      have hmap {ps : List (String × Validator)} {qs : List (String × String)}
          (hps : Forall₂ (fun p q => q.1 = p.1 ∧ IsNamed plan z.registry.bound p.2 q.2) ps qs) :
          Forall₂ (IsNamed plan z.registry.bound) (ps.map (·.2)) (qs.map (·.2)) := by
        rw [forall₂_map_left_iff, forall₂_map_right_iff]
        exact hps.imp fun _ _ hpq => hpq.2
      exact rel_flatMap h.routes fun a b hab =>
        rel_append (hmap hab.request) (hmap hab.responses)
    rw [Validators.roots, List.getElem?_append_right (by simpa using hk), length_map] at hv
    obtain ⟨start, hstart, hnamed⟩ := getElem?_of_forall₂ hroutes hv
    refine ⟨start, ?_, .inr ⟨hk, hnamed⟩⟩
    rwa [rootNames, List.getElem?_append_right (by simpa [← hlength] using hk), length_map,
      ← hlength]

namespace Faithful

variable {start : String}

lemma leadsTo_of_isRoot (h : Faithful t plan z) {k : Nat} (hroot : IsRoot t plan z k v start)
    (hproper : ¬ v.isReference) : LeadsTo plan z v start := by
  rcases hroot with ⟨-, -, hdefined⟩ | ⟨-, hnamed⟩
  · cases hdefined with
    | reference _ _ => exact absurd rfl hproper
    | again _ hother hentry =>
      have hget := get?_name h.declared hentry
      exact ⟨_, hother, .inr ⟨_, hget, rfl⟩⟩
    | first hbound _ _ => exact ⟨_, hbound, .inl rfl⟩
  · cases hnamed with
    | target _ => exact absurd rfl hproper
    | bound _ hbound => exact ⟨_, hbound, .inl rfl⟩

lemma points_of_leadsTo (h : Faithful t plan z) (hv : v ∈ fingerprinted t)
    (hstart : LeadsTo plan z v start) {i : Nat} {path : List Nat} (hu : v.at? (i :: path) = some u)
    (hproper : ¬ u.isReference) : Points plan z (.named start) (i :: path) u := by
  obtain ⟨name, hname, hstart⟩ := hstart
  have hpoints := h.points_bound h.points_of_inlined hv hname hu hproper
  rcases hstart with rfl | ⟨e, he, hvalidator⟩
  · exact hpoints
  · refine ⟨hpoints.bound, fun other => ?_⟩
    rw [refers_named_cons he, hvalidator, hpoints.refers_iff]

end Faithful

end

/-! ### Shared declarations -/

section

variable {t : Validators} {plan : Plan} {P : String → Prop} {V : Validator → Prop}
  {registry : Name.Registry} {z : Draft} {u v : Validator} {k : Nat} {name : String}

/-- An alias declared for a definition. -/
structure IsAlias (t : Validators) (plan : Plan) (z : Draft) (u : Validator) (name : String) :
    Prop where
  definition : ∃ target, (target, u) ∈ t.definitions ∧ (target, name) ∈ plan.names
  unbound : name ∉ z.boundNames
  other : ∃ e other, z.declared.get? name = some e ∧ e.validator = .named other ∧
    (plan.fingerprint u, other) ∈ z.registry.bound

namespace Faithful

variable {i : Nat} {path : List Nat} {place : Nat × List Nat} {e : Declaration}

lemma refersAt_nil (hbuilt : Built t plan P V registry z) (hv : t.roots[k]? = some v) :
    ∃ start, IsRoot t plan z k v start ∧
      ∀ name, z.declared.RefersAt (plan.names.map (·.2)) (k, []) name ↔ name = start := by
  obtain ⟨start, hstart, hroot⟩ := hbuilt.exists_isRoot hv
  refine ⟨start, hroot, fun name => ⟨?_, ?_⟩⟩
  · rintro ⟨start', hstart', hrefers⟩
    cases hstart.symm.trans hstart'
    exact refers_named_nil.1 hrefers
  · rintro rfl
    exact ⟨name, hstart, .here name⟩

lemma refersAt_cons (h : Faithful t plan z) (hbuilt : Built t plan P V registry z)
    (hu : t.at? (k, i :: path) = some u) (hproper : ¬ u.isReference) :
    (IsPromoted plan u → ∃ name, (plan.fingerprint u, name) ∈ z.registry.bound) ∧
      ∀ name, z.declared.RefersAt (plan.names.map (·.2)) (k, i :: path) name ↔
        IsPromoted plan u ∧ (plan.fingerprint u, name) ∈ z.registry.bound := by
  obtain ⟨root, hroot, hu⟩ := Validators.at?_eq_some_iff.1 hu
  obtain ⟨start, hstart, hisRoot⟩ := hbuilt.exists_isRoot hroot
  have hroot' : ¬ root.isReference := by
    obtain ⟨c, hc, -⟩ := at?_cons_eq_some_iff.1 hu
    cases root <;> simp_all [isReference, children]
  obtain ⟨hbound, hrefers⟩ := h.points_of_leadsTo
    (mem_fingerprinted_of_mem_roots (mem_of_getElem? hroot) hroot')
    (h.leadsTo_of_isRoot hisRoot hroot') hu hproper
  refine ⟨hbound, fun name => ?_⟩
  rw [← hrefers]
  constructor
  · rintro ⟨start', hstart', hrefers⟩
    cases hstart.symm.trans hstart'
    exact hrefers
  · exact fun hrefers => ⟨start, hstart, hrefers⟩

lemma exists_root_of_at? (hu : t.at? place = some u) : ∃ root ∈ t.roots, root.Part u := by
  obtain ⟨root, hroot, hu⟩ := Validators.at?_eq_some_iff.1 hu
  exact ⟨root, mem_of_getElem? hroot, part_of_at? hu⟩

/-- A declaration whose name is bound is no alias. -/
lemma not_alias_of_mem_bound (h : Faithful t plan z) {print : String}
    (hname : (print, name) ∈ z.registry.bound) (he : z.declared.get? name = some e) (other : String) :
    e.validator ≠ .named other := by
  obtain ⟨v, w, pointer, -, -, hopened, hentry⟩ := h.made _ hname
  have hget : z.declared.get? name = some (.of name w pointer) := get?_name h.declared hentry
  cases he.symm.trans hget
  rintro rfl
  cases hopened.resembles
  exact hopened.proper rfl

/-- A name stands for what it is bound to, unless it is an alias declared for a definition. -/
lemma standsFor_cases (h : Faithful t plan z) (hbuilt : Built t plan P V registry z)
    (hu : z.declared.StandsFor t (plan.names.map (·.2)) name u) :
    u ∈ fingerprinted t ∧
      ((plan.fingerprint u, name) ∈ z.registry.bound ∨ IsAlias t plan z u name) := by
  induction hu with
  | @occurrence place u name hu hproper hrefers =>
    obtain ⟨k, _ | ⟨i, path⟩⟩ := place
    · obtain ⟨root, hroot, hu⟩ := Validators.at?_eq_some_iff.1 hu
      cases hu
      refine ⟨mem_fingerprinted_of_mem_roots (mem_of_getElem? hroot) hproper, ?_⟩
      obtain ⟨start, hisRoot, hiff⟩ := refersAt_nil hbuilt hroot
      obtain rfl := (hiff _).1 hrefers
      rcases hisRoot with ⟨-, hdefinition, hdefined⟩ | ⟨-, hnamed⟩
      · cases hdefined with
        | reference _ _ => exact absurd rfl hproper
        | first hbound _ _ => exact .inl hbound
        | again _ hother hentry =>
          have hget := get?_name h.declared hentry
          refine .inr ⟨hdefinition, fun hmem => ?_, _, _, hget, rfl, hother⟩
          obtain ⟨b, hb, rfl⟩ := mem_map.1 hmem
          exact h.not_alias_of_mem_bound hb hget _ rfl
      · cases hnamed with
        | target _ => exact absurd rfl hproper
        | bound _ hbound => exact .inl hbound
    · obtain ⟨hpromoted, hname⟩ := ((h.refersAt_cons hbuilt hu hproper).2 name).1 hrefers
      exact ⟨hpromoted.mem_fingerprinted (exists_root_of_at? hu), .inl hname⟩
  | @viaAlias name other u e _ he hother ih =>
    obtain ⟨hmem, hname | halias⟩ := ih
    · exact absurd hother (h.not_alias_of_mem_bound hname he other)
    · obtain ⟨e', other', he', hother', hbound⟩ := halias.other
      cases he.symm.trans he'
      cases hother.symm.trans hother'
      exact ⟨hmem, .inl hbound⟩

/-- The name bound to a validator stands for it. -/
lemma standsFor_of_isChosen (h : Faithful t plan z) (hbuilt : Built t plan P V registry z)
    (hv : IsChosen t plan v) (hname : (plan.fingerprint v, name) ∈ z.registry.bound) :
    z.declared.StandsFor t (plan.names.map (·.2)) name v := by
  have hroots (hmem : v ∈ t.roots) (hproper : ¬ v.isReference) :
      z.declared.StandsFor t (plan.names.map (·.2)) name v := by
    obtain ⟨k, hk⟩ := mem_iff_getElem?.1 hmem
    obtain ⟨start, hisRoot, hiff⟩ := refersAt_nil hbuilt hk
    have hstart : z.declared.StandsFor t (plan.names.map (·.2)) start v :=
      .occurrence (Validators.at?_eq_some_iff.2 ⟨v, hk, rfl⟩) hproper ((hiff start).2 rfl)
    obtain ⟨name', hname', hleads⟩ := h.leadsTo_of_isRoot hisRoot hproper
    obtain rfl := h.name_eq hname hname'
    rcases hleads with rfl | ⟨e, he, hvalidator⟩
    · exact hstart
    · exact .viaAlias hstart he hvalidator
  rcases hv with ⟨hmem, hproper⟩ | ⟨⟨root, hroot, hpart⟩, hpromoted⟩
  · exact hroots hmem hproper
  · obtain ⟨k, hk⟩ := mem_iff_getElem?.1 hroot
    obtain ⟨path, hpath⟩ := exists_at?_of_part hpart
    have hplace : t.at? (k, path) = some v := Validators.at?_eq_some_iff.2 ⟨root, hk, hpath⟩
    cases path with
    | nil =>
      cases hpath
      exact hroots hroot hpromoted.not_isReference
    | cons i path =>
      have hproper := hpromoted.not_isReference
      exact .occurrence hplace hproper
        (((h.refersAt_cons hbuilt hplace hproper).2 name).2 ⟨hpromoted, hname⟩)

lemma isPromoted_of_shareable (hplan : plan.repeated = t.repeated plan.fingerprint)
    (h : t.Shareable (k, i :: path) u) : IsPromoted plan u := by
  cases h with
  | object _ hmodel =>
    refine ⟨?_, by simp [isShared, hmodel]⟩
    cases u <;> simp_all [isModel, isComposite]
  | repeated _ hcomposite hrepeated =>
    refine ⟨hcomposite, ?_⟩
    simp [isShared, hplan, Validators.mem_repeated hcomposite hrepeated]

/-- A declaration that is no alias is the one bound to the validators it stands for. -/
lemma mem_bound_of_standsFor (h : Faithful t plan z) (hbuilt : Built t plan P V registry z)
    (he : e ∈ z.declared.entries) (halias : ∀ other, e.validator ≠ .named other)
    (hu : z.declared.StandsFor t (plan.names.map (·.2)) e.name u) :
    (plan.fingerprint u, e.name) ∈ z.registry.bound := by
  refine (h.standsFor_cases hbuilt hu).2.resolve_right fun hisAlias => ?_
  obtain ⟨e', other, he', hother, -⟩ := hisAlias.other
  cases (get?_name h.declared he).symm.trans he'
  exact halias other hother

lemma shared (h : Faithful t plan z) (hbuilt : Built t plan P V registry z)
    (hplan : plan.repeated = t.repeated plan.fingerprint) (hu : t.Shareable place u) :
    ∃ start, (plan.fingerprint u, start) ∈ z.registry.bound ∧
      ∀ name, z.declared.RefersAt (plan.names.map (·.2)) place name ↔ name = start := by
  obtain ⟨k, _ | ⟨i, path⟩⟩ := place
  · cases hu with
    | route hk hu hproper =>
      obtain ⟨root, hroot, hu⟩ := Validators.at?_eq_some_iff.1 hu
      cases hu
      obtain ⟨start, hisRoot, hiff⟩ := refersAt_nil hbuilt hroot
      rcases hisRoot with ⟨hlt, -⟩ | ⟨-, hnamed⟩
      · omega
      · cases hnamed with
        | target _ => exact absurd rfl hproper
        | bound _ hbound => exact ⟨start, hbound, hiff⟩
  · have hpromoted := isPromoted_of_shareable hplan hu
    obtain ⟨hbound, hiff⟩ := h.refersAt_cons hbuilt hu.at?_eq hpromoted.not_isReference
    obtain ⟨start, hstart⟩ := hbound hpromoted
    refine ⟨start, hstart, fun name => (hiff name).trans ⟨fun hname => ?_, ?_⟩⟩
    · exact h.name_eq hname.2 hstart
    · rintro rfl
      exact ⟨hpromoted, hstart⟩

lemma definition_leadsTo (h : Faithful t plan z) (hbuilt : Built t plan P V registry z)
    {p : String × Validator} (hp : t.definitions[k]? = some p) (hproper : ¬ p.2.isReference)
    (hname : (plan.names.map (·.2))[k]? = some name) : LeadsTo plan z p.2 name := by
  have hlength : k < t.definitions.length := (List.getElem?_eq_some_iff.1 hp).1
  have hroot : t.roots[k]? = some p.2 := by
    rw [Validators.roots, List.getElem?_append_left (by simpa using hlength), List.getElem?_map, hp]
    rfl
  obtain ⟨start, hstart, hisRoot⟩ := hbuilt.exists_isRoot hroot
  rw [rootNames, List.getElem?_append_left (List.getElem?_eq_some_iff.1 hname).1, hname] at hstart
  cases hstart
  exact h.leadsTo_of_isRoot hisRoot hproper

lemma made_of_mem_entries (h : Faithful t plan z) (hbuilt : Built t plan P V registry z)
    (he : e ∈ z.declared.entries) (halias : ∀ other, e.validator ≠ .named other) :
    ∃ u, z.declared.StandsFor t (plan.names.map (·.2)) e.name u ∧ Resembles u e.validator := by
  have hbound : e.name ∈ z.boundNames := by
    by_contra hnot
    obtain ⟨other, hother⟩ := hbuilt.unbound e he hnot
    exact halias other hother
  obtain ⟨⟨print, name⟩, hb, hname⟩ := mem_map.1 hbound
  obtain ⟨v, w, pointer, hchosen, rfl, hopened, hentry⟩ := h.made _ hb
  obtain rfl := eq_of_name_eq h.declared hentry he hname
  exact ⟨v, h.standsFor_of_isChosen hbuilt hchosen hb, hopened.resembles⟩

lemma alike_of_standsFor (h : Faithful t plan z) (hbuilt : Built t plan P V registry z)
    (hkeys : (t.definitions.map (·.1)).Nodup) {u' : Validator}
    (hu : z.declared.StandsFor t (plan.names.map (·.2)) name u)
    (hu' : z.declared.StandsFor t (plan.names.map (·.2)) name u') : Alike u u' := by
  obtain ⟨hmem, hu⟩ := h.standsFor_cases hbuilt hu
  obtain ⟨hmem', hu'⟩ := h.standsFor_cases hbuilt hu'
  have hbinary := h.isBinary64 (exists_root_of_mem_fingerprinted hmem)
  have hbinary' := h.isBinary64 (exists_root_of_mem_fingerprinted hmem')
  rcases hu with hbound | halias
  · rcases hu' with hbound' | halias'
    · exact (h.same u hmem u' hmem' (h.print_eq hbound hbound')).alike hbinary hbinary'
    · exact absurd (mem_map_of_mem hbound) halias'.unbound
  · rcases hu' with hbound' | halias'
    · exact absurd (mem_map_of_mem hbound') halias.unbound
    · -- The name is that of one definition only.
      obtain ⟨target, htarget, hname⟩ := halias.definition
      obtain ⟨target', htarget', hname'⟩ := halias'.definition
      cases inj_on_of_nodup_map hbuilt.nodup hname hname' rfl
      cases inj_on_of_nodup_map hkeys htarget htarget' rfl
      exact SameText.alike rfl hbinary hbinary'

theorem shares (h : Faithful t plan z) (hbuilt : Built t plan P V registry z)
    (hplan : plan.repeated = t.repeated plan.fingerprint)
    (hkeys : (t.definitions.map (·.1)).Nodup) :
    z.declared.Shares t (plan.names.map (·.2)) where
  shared := by
    refine ⟨z.boundName plan, ?_, ?_⟩
    · intro place u hu name
      obtain ⟨start, hstart, hiff⟩ := h.shared hbuilt hplan hu
      rw [hiff, h.boundName_eq hstart]
    · intro k p name hp hproper hname
      obtain ⟨start, hstart, hleads⟩ := h.definition_leadsTo hbuilt hp hproper hname
      rwa [h.boundName_eq hstart]
  made e he halias := h.made_of_mem_entries hbuilt he halias
  once e he e' he' halias halias' u hu hu' := by
    have hname := h.name_eq (h.mem_bound_of_standsFor hbuilt he halias hu)
      (h.mem_bound_of_standsFor hbuilt he' halias' hu')
    exact eq_of_name_eq h.declared he he' hname
  alike name u u' hu hu' := h.alike_of_standsFor hbuilt hkeys hu hu'

end Faithful

end

lemma isBinary64_of_mem_roots {ctx : Context} {includeRoutes : Bool} {t : Validators}
    (ht : (ofDocument ctx includeRoutes).outcome = .ok t)
    (hbinary : ∀ node, ctx.doc.Contains node → ∀ x ∈ node.floats, x.IsBinary64)
    {v : Validator} (hv : v ∈ t.roots) : v.IsBinary64 := by
  intro u hu x hx
  obtain ⟨node, hnode, hof⟩ := exists_node_of_mem_roots ht hv
  obtain ⟨a, ha, hx⟩ := (stemsFrom_of_ofNodeWithin _ node v hof u hu).floats hx
  exact hbinary a (ha.mem ctx.doc.isClosed_contains hnode) x hx

/-- The declarations of a document share what occurs more than once in it, where the targets of its
definitions are distinct, as those of a resolved document are. -/
theorem shares_of_ofValidators {ctx : Context} {includeRoutes : Bool} {t : Validators}
    {registry : Name.Registry} {d : Declarations}
    (hkeys : (ctx.doc.definitions.map (·.1)).Nodup)
    (ht : (ofDocument ctx includeRoutes).outcome = .ok t)
    (hd : ofValidators ctx.doc t fingerprint registry = .ok d) (hfresh : registry.bound = [])
    (hbinary : ∀ node, ctx.doc.Contains node → ∀ x ∈ node.floats, x.IsBinary64)
    (hdigest : Set.InjOn Sha256.hexDigest (digested t)) :
    ∃ names, (assignAll ctx.doc t.definitions).run' { registry } = .ok names ∧
      names.map (·.1) = t.definitions.map (·.1) ∧ d.Shares t (names.map (·.2)) := by
  rw [← keys_of_ofDocument ht] at hkeys
  have hdeclared : d.names.Nodup := by
    obtain ⟨_, z, rfl, -, hfinished⟩ := finished_of_ofValidators ht hd
    exact hfinished.isMade.nodup
  obtain ⟨⟨u, z⟩, hbuild, rfl⟩ := Except.map_eq_ok_iff.1 hd
  set chosen := IsChosen t ⟨fingerprint, t.repeated fingerprint, []⟩ with hchosen
  have hbuildable (plan : Plan) (hprint : plan.fingerprint = fingerprint)
      (hrepeated : plan.repeated = t.repeated fingerprint) (v : Validator) (hv : v ∈ t.roots) :
      Buildable plan chosen v := by
    refine ⟨⟨fun u hu hpromoted => .inr ⟨⟨v, hv, hu⟩, ?_⟩, not_part_named_of_mem_roots ht hv⟩,
      fun hproper => .inl ⟨hv, hproper⟩⟩
    rw [IsPromoted, isShared, hprint, hrepeated] at hpromoted
    exact hpromoted
  have hall : Extensible fun _ => True := by constructor <;> intros <;> trivial
  obtain ⟨names, hnames, hbuilt⟩ := built_of_build hall hfresh hkeys
    (fun plan hprint hrepeated p hp =>
      ⟨hbuildable plan hprint hrepeated p.2 (mem_roots_of_mem_definitions hp), trivial⟩)
    (fun plan hprint hrepeated r hr =>
      ⟨fun p hp => ⟨hbuildable plan hprint hrepeated p.2 (mem_roots_of_mem_routes hr (.inl hp)),
        trivial⟩,
      fun p hp => ⟨hbuildable plan hprint hrepeated p.2 (mem_roots_of_mem_routes hr (.inr hp)),
        trivial⟩⟩) hbuild
  have hfaithful : Faithful t ⟨fingerprint, t.repeated fingerprint, names⟩ z :=
    { declared := hdeclared
      prints := hbuilt.orderly.prints
      names := hbuilt.orderly.names
      made := hbuilt.bound
      binary := fun root hroot => isBinary64_of_mem_roots ht hbinary hroot
      same := fun v hv w hw hprint => hdigest ⟨v, hv, rfl⟩ ⟨w, hw, rfl⟩ hprint
      print := fun v w htext => congrArg Sha256.hexDigest htext }
  refine ⟨names, hnames, map_eq_map_of_forall₂ hbuilt.definitions And.left, ?_⟩
  exact hfaithful.shares hbuilt rfl hkeys

theorem twins_share :
    (ofDocument ⟨twinDocument, {}⟩ true).outcome = .ok twinValidators ∧
      ofValidators twinDocument twinValidators fingerprint {} = .ok twinDeclarations ∧
      twinDeclarations.Shares twinValidators ["FirstSchema", "SecondSchema"] := by
  have hdigest : Set.InjOn Sha256.hexDigest (digested twinValidators) := by
    rintro _ ⟨v, hv, rfl⟩ _ ⟨w, hw, rfl⟩ -
    rw [eq_of_mem_fingerprinted_twins hv, eq_of_mem_fingerprinted_twins hw]
  have hkeys : (twinDocument.definitions.map (·.1)).Nodup := by decide +kernel
  have hd := ofValidators_twins fingerprint
  obtain ⟨names, hnames, -, hshares⟩ := @shares_of_ofValidators ⟨twinDocument, {}⟩ true
    twinValidators {} twinDeclarations hkeys ofDocument_twins hd rfl (fun _ => isBinary64_twins)
    hdigest
  have hassigned : (assignAll twinDocument twinValidators.definitions).run' { registry := {} } =
      .ok [(twinTarget, "FirstSchema"), (otherTarget, "SecondSchema")] := by decide +kernel
  cases hnames.symm.trans hassigned
  exact ⟨ofDocument_twins, hd, hshares⟩

/-! ### Keys of different kinds -/

/-- A string whose least length is a mapping with one key. -/
def keyed (key : Scalar) : Validator :=
  .string { min := some (.map [(key, .int 2)]) } none none

def keyedNode (key : Scalar) : Node :=
  .string ⟨"", false⟩ { minLength := some (.map [(key, .int 2)]) }

/-- A route with two responses that differ in the kind of a key. -/
def keyedDocument : Resolved where
  definitions := []
  names := []
  routes := [⟨"/a", "GET", "#/paths/~1a/get", [],
    [("200", keyedNode (.int 1)), ("404", keyedNode (.str "1"))]⟩]
  cyclic := []

def keyedValidators : Validators where
  definitions := []
  routes := [⟨"/a", "GET", "#/paths/~1a/get", [],
    [("200", keyed (.int 1)), ("404", keyed (.str "1"))]⟩]

def keyedDeclarations : Declarations where
  entries := [.of "GetA200ResponseSchema" (keyed (.int 1)) "#/paths/~1a/get"]
  routes := [⟨"/a", "GET", "#/paths/~1a/get", [],
    [("200", "GetA200ResponseSchema"), ("404", "GetA200ResponseSchema")]⟩]

lemma sortKeys_keyed (key : Scalar) : Json.sortKeys (keyed key).canonical = .object [
    ("@", .str "StringValidator"), ("format", .null), ("max_length", .null),
    ("min_length", .object [("#", .str "dict"), ("v", .map [(key, .int 2)])]),
    ("pattern", .null)] := by
  have hmarked : Text.le "#" "v" = true := by decide +kernel
  have hkind : Text.le "@" "min_length" = true ∧ Text.le "@" "max_length" = true ∧
      Text.le "@" "format" = true := by decide +kernel
  have hbounds : Text.le "min_length" "max_length" = false ∧ Text.le "min_length" "format" = false ∧
      Text.le "max_length" "format" = false := by decide +kernel
  have hpattern : Text.le "pattern" "format" = false ∧ Text.le "max_length" "pattern" = true ∧
      Text.le "min_length" "pattern" = true := by decide +kernel
  simp [keyed, canonical, tagged, Json.sortKeys_object, canonicalRule, canonicalValue,
    Validator.marked, Json.sortKeys, Json.sortKeysMembers, canonicalText, List.mergeSort,
    List.MergeSort.Internal.splitInTwo, Value.null, Value.str, Value.int, hmarked, hkind, hbounds,
    hpattern]

/-- Text does not tell a number from the text of it, where it is a key. -/
lemma canonicalString_keyed :
    canonicalString (keyed (.str "1")).canonical = canonicalString (keyed (.int 1)).canonical := by
  rw [canonicalString, canonicalString, sortKeys_keyed, sortKeys_keyed]
  decide +kernel

lemma ofValidators_keyed {fingerprint : Validator → String}
    (h : fingerprint (keyed (.str "1")) = fingerprint (keyed (.int 1))) :
    ofValidators keyedDocument keyedValidators fingerprint {} = .ok keyedDeclarations := by
  have hok {α β : Type} (a : α) (f : α → Except Fault β) : Except.ok a >>= f = f a := rfl
  have hpure {α : Type} (a : α) : (pure a : Except Fault α) = .ok a := rfl
  have hstem : Name.routeStem "/a" "GET" (Name.statusSuffix "200") = "GetA200Response" := by
    decide +kernel
  simp only [keyed] at h
  simp [ofValidators, build, keyedValidators, assignAll, assign, Name.Registry.assign, hstem,
    schemaSuffix, Name.Registry.lookup, Name.Registry.bind, Name.Registry.fingerprintOf,
    Declarations.bind, lift, keyed, declare, Declarations.add, contains, names, addRoute,
    routeNames, routeName, share, keyedDeclarations, hok, hpure, h]

lemma eq_of_mem_fingerprinted_keyed {v : Validator} (hv : v ∈ fingerprinted keyedValidators) :
    v = keyed (.int 1) ∨ v = keyed (.str "1") := by
  have hroots : keyedValidators.roots = [keyed (.int 1), keyed (.str "1")] := rfl
  simpa [fingerprinted, hroots, keyed, isReference, compositesAll, composites] using hv

/-- One name stands for validators that differ, though digests do not collide. -/
theorem keyed_standsFor_both :
    (ofDocument ⟨keyedDocument, {}⟩ true).outcome = .ok keyedValidators ∧
      ofValidators keyedDocument keyedValidators fingerprint {} = .ok keyedDeclarations ∧
      Set.InjOn Sha256.hexDigest (digested keyedValidators) ∧
      keyedDeclarations.StandsFor keyedValidators [] "GetA200ResponseSchema" (keyed (.int 1)) ∧
      keyedDeclarations.StandsFor keyedValidators [] "GetA200ResponseSchema" (keyed (.str "1")) ∧
      keyed (.int 1) ≠ keyed (.str "1") := by
  refine ⟨rfl, ofValidators_keyed (congrArg Sha256.hexDigest canonicalString_keyed), ?_, ?_, ?_, ?_⟩
  · rintro _ ⟨v, hv, rfl⟩ _ ⟨w, hw, rfl⟩ -
    obtain rfl | rfl := eq_of_mem_fingerprinted_keyed hv <;>
      obtain rfl | rfl := eq_of_mem_fingerprinted_keyed hw <;> simp [canonicalString_keyed]
  · have hplace : keyedValidators.at? (0, []) = some (keyed (.int 1)) := rfl
    exact .occurrence hplace (by decide) ⟨_, rfl, .here _⟩
  · have hplace : keyedValidators.at? (1, []) = some (keyed (.str "1")) := rfl
    exact .occurrence hplace (by decide) ⟨_, rfl, .here _⟩
  · simp [keyed]

end Declarations

end ApiSchema
