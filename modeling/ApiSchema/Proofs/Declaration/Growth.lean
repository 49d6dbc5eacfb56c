import ApiSchema.Proofs.Declaration.Lifting
import ApiSchema.Proofs.Name.Registry

/-!
# How drafts grow

Lifting a validator declares parts of it on the way: a fresh name is bound to the fingerprint of a
part, the part is lifted, and the name is declared. Main statement: lifting does nothing else to a
draft, replaces exactly the references and the parts that get declarations of their own, and cannot
fail where references lead to definitions.

The invariant is that of an orderly draft: whatever is bound or declared was handed out before. A
stretch of a build takes no name that was in use when it began, but for those it was given, so a name
that was handed out is still free when its turn comes.
-/

namespace ApiSchema

open List

namespace Declarations

open Validator

/-! ### What lifting replaces -/

/-- A validator that gets a declaration of its own wherever it stands inside of another one. -/
def IsPromoted (plan : Plan) (v : Validator) : Prop :=
  v.isComposite ∧ isShared plan v

/-- A validator with its references and the parts with declarations of their own replaced by names,
where `bound` holds the names by fingerprint. -/
inductive Inlined (plan : Plan) (bound : List (String × String)) : Validator → Validator → Prop
  | target {target name : String} (h : plan.names.lookup target = some name) :
    Inlined plan bound (.ref target) (.named name)
  | shared {v : Validator} {name : String} (hv : IsPromoted plan v)
    (h : (plan.fingerprint v, name) ∈ bound) : Inlined plan bound v (.named name)
  | kept {v w : Validator} (hproper : ¬ v.isReference) (hv : ¬ IsPromoted plan v)
    (hresembles : Resembles v w)
    (hchildren : List.Forall₂ (Inlined plan bound) v.children w.children) : Inlined plan bound v w

/-- What the declaration of a validator holds: its children are inlined, and it is itself kept. -/
structure Opened (plan : Plan) (bound : List (String × String)) (v w : Validator) : Prop where
  proper : ¬ v.isReference
  resembles : Resembles v w
  children : List.Forall₂ (Inlined plan bound) v.children w.children

section

variable {plan : Plan} {bound bound' : List (String × String)} {v w : Validator}

lemma IsPromoted.not_isReference (h : IsPromoted plan v) : ¬ v.isReference := by
  have hcomposite := h.1
  cases v <;> simp_all [isComposite, isReference]

lemma Inlined.mono (h : Inlined plan bound v w) (hsub : bound ⊆ bound') :
    Inlined plan bound' v w := by
  induction v using children_induction generalizing w with
  | step v ih =>
    cases h with
    | target h => exact .target h
    | shared hv h => exact .shared hv (hsub h)
    | kept hproper hv hresembles hchildren =>
      exact .kept hproper hv hresembles
        (forall₂_imp_of_mem hchildren fun c hc d hcd => ih c hc hcd)

lemma Opened.mono (h : Opened plan bound v w) (hsub : bound ⊆ bound') : Opened plan bound' v w :=
  ⟨h.proper, h.resembles, h.children.imp fun _ _ hc => hc.mono hsub⟩

lemma Opened.of_children_nil (hproper : ¬ v.isReference) (h : v.children = []) :
    Opened plan bound v v :=
  ⟨hproper, .refl v, by simp [h]⟩

lemma Opened.inlined (h : Opened plan bound v w) (hv : ¬ IsPromoted plan v) :
    Inlined plan bound v w :=
  .kept h.proper hv h.resembles h.children

end

/-! ### Drafts -/

namespace Draft

/-- The names that fingerprints are bound to. -/
def boundNames (s : Draft) : List String :=
  s.registry.bound.map (·.2)

/-- Hand out a name. -/
def handOut (s : Draft) (base : String) : Draft :=
  { s with registry := (s.registry.assign base).2 }

/-- Bind a name to a fingerprint. -/
def bindName (s : Draft) (print name : String) : Draft :=
  { s with registry := { s.registry with bound := s.registry.bound ++ [(print, name)] } }

/-- Add a declaration. -/
def addEntry (s : Draft) (name : String) (w : Validator) (pointer : String) : Draft :=
  { s with declared :=
    { s.declared with entries := s.declared.entries ++ [.of name w pointer] } }

/-- What is bound or declared was handed out, and no fingerprint and no name is bound twice. -/
structure IsOrderly (s : Draft) : Prop where
  bound : s.boundNames ⊆ s.registry.used
  declared : s.declared.names ⊆ s.registry.used
  prints : (s.registry.bound.map (·.1)).Nodup
  names : s.boundNames.Nodup

variable {s : Draft}

@[simp] lemma names_addEntry (name : String) (w : Validator) (pointer : String) :
    (s.addEntry name w pointer).declared.names = s.declared.names ++ [name] := by
  simp [Declarations.names, addEntry, Declaration.of]

@[simp] lemma boundNames_bindName (print name : String) :
    (s.bindName print name).boundNames = s.boundNames ++ [name] := by
  simp [boundNames, bindName]

lemma IsOrderly.bindName (hs : s.IsOrderly) {print name : String}
    (hfree : s.registry.lookup print = none) (hused : name ∈ s.registry.used)
    (hname : name ∉ s.boundNames) : (s.bindName print name).IsOrderly where
  bound := by
    rw [boundNames_bindName]
    exact append_subset.2 ⟨hs.bound, cons_subset.2 ⟨hused, nil_subset _⟩⟩
  declared := hs.declared
  prints := by
    rw [Draft.bindName, map_append]
    refine nodup_append.2 ⟨hs.prints, nodup_singleton _, ?_⟩
    intro p hp q hq hpq
    rw [map_singleton, mem_singleton] at hq
    rw [hpq, hq, ← isSome_lookup_iff, show s.registry.bound.lookup print = none from hfree] at hp
    cases hp
  names := by
    rw [boundNames_bindName]
    exact nodup_append.2 ⟨hs.names, nodup_singleton _, by grind⟩

lemma IsOrderly.addEntry (hs : s.IsOrderly) {name : String} (hused : name ∈ s.registry.used)
    (w : Validator) (pointer : String) : (s.addEntry name w pointer).IsOrderly where
  bound := hs.bound
  declared := by
    rw [names_addEntry]
    exact append_subset.2 ⟨hs.declared, cons_subset.2 ⟨hused, nil_subset _⟩⟩
  prints := hs.prints
  names := hs.names

end Draft

/-! ### Primitive steps -/

section

variable {s s' : Draft} {α : Type} {u : Unit}

lemma run_targetName_iff {plan : Plan} {target name : String} :
    (targetName plan target).run s = .ok (name, s') ↔
      plan.names.lookup target = some name ∧ s' = s := by
  unfold targetName
  cases plan.names.lookup target with
  | none => exact ⟨nofun, nofun⟩
  | some other =>
    constructor
    · rintro ⟨⟩
      exact ⟨rfl, rfl⟩
    · rintro ⟨⟨⟩, rfl⟩
      rfl

lemma run_liftM_iff {x : Except Fault α} {a : α} :
    (liftM x : Build α).run s = .ok (a, s') ↔ x = .ok a ∧ s' = s := by
  cases x with
  | error fault => exact ⟨nofun, nofun⟩
  | ok b =>
    constructor
    · rintro ⟨⟩
      exact ⟨rfl, rfl⟩
    · rintro ⟨⟨⟩, rfl⟩
      rfl

lemma run_declare_iff {name pointer : String} {w : Validator} :
    (declare name w pointer).run s = .ok (u, s') ↔
      name ∉ s.declared.names ∧ s' = s.addEntry name w pointer := by
  have hadd (d : Declarations) : s.declared.add (.of name w pointer) = .ok d ↔
      name ∉ s.declared.names ∧ d = (s.addEntry name w pointer).declared := by
    unfold Declarations.add Declarations.contains
    by_cases hname : name ∈ s.declared.names
    · simp [Declaration.of, hname]
    · simp [Declaration.of, hname, Draft.addEntry, eq_comm]
  constructor
  · intro h
    obtain ⟨_, _, ⟨⟩, h⟩ := StateT.run_bind_eq_ok_iff.1 h
    obtain ⟨d, _, hd, h⟩ := StateT.run_bind_eq_ok_iff.1 h
    obtain ⟨hd, rfl⟩ := run_liftM_iff.1 hd
    obtain ⟨hname, rfl⟩ := (hadd d).1 hd
    cases h
    exact ⟨hname, rfl⟩
  · rintro ⟨hname, rfl⟩
    refine StateT.run_bind_eq_ok_iff.2 ⟨s, s, rfl, StateT.run_bind_eq_ok_iff.2 ⟨_, s, ?_, rfl⟩⟩
    exact run_liftM_iff.2 ⟨(hadd _).2 ⟨hname, rfl⟩, rfl⟩

/-- Where the fingerprint is free, any name that is not bound yet can be bound to it. -/
lemma run_bind_iff {print name : String} (hfree : s.registry.lookup print = none) :
    (bind print name).run s = .ok (u, s') ↔
      name ∉ s.boundNames ∧ s' = s.bindName print name := by
  have hbind (r : Name.Registry) : s.registry.bind print name = .ok r ↔
      name ∉ s.boundNames ∧ r = (s.bindName print name).registry := by
    have hname : s.registry.fingerprintOf name = none ↔ name ∉ s.boundNames := by
      simp only [Name.Registry.fingerprintOf, Draft.boundNames, Option.map_eq_none_iff,
        List.find?_eq_none, mem_map, beq_iff_eq]
      exact ⟨fun h ⟨b, hb, hname⟩ => h b hb hname, fun h b hb hname => h ⟨b, hb, hname⟩⟩
    rw [Name.Registry.bind, hfree, ← hname]
    cases s.registry.fingerprintOf name with
    | none => simp [Draft.bindName, eq_comm]
    | some other => simp
  constructor
  · intro h
    obtain ⟨_, _, ⟨⟩, h⟩ := StateT.run_bind_eq_ok_iff.1 h
    obtain ⟨r, _, hr, h⟩ := StateT.run_bind_eq_ok_iff.1 h
    obtain ⟨hr, rfl⟩ := run_liftM_iff.1 hr
    obtain ⟨hname, rfl⟩ := (hbind r).1 hr
    cases h
    exact ⟨hname, rfl⟩
  · rintro ⟨hname, rfl⟩
    refine StateT.run_bind_eq_ok_iff.2 ⟨s, s, rfl, StateT.run_bind_eq_ok_iff.2 ⟨_, s, ?_, rfl⟩⟩
    exact run_liftM_iff.2 ⟨(hbind _).2 ⟨hname, rfl⟩, rfl⟩

/-- What binding a name first and declaring it later takes, and gives. -/
lemma run_bindAndDeclare_iff {print name pointer : String} {lifted : Build Validator}
    (hfree : s.registry.lookup print = none) :
    (do
        bind print name
        let w ← lifted
        declare name w pointer : Build Unit).run s = .ok (u, s') ↔
      name ∉ s.boundNames ∧ ∃ w s₁, lifted.run (s.bindName print name) = .ok (w, s₁) ∧
        name ∉ s₁.declared.names ∧ s' = s₁.addEntry name w pointer := by
  simp only [StateT.run_bind_eq_ok_iff, run_declare_iff]
  constructor
  · rintro ⟨_, _, hbind, hrest⟩
    obtain ⟨hname, rfl⟩ := (run_bind_iff hfree).1 hbind
    exact ⟨hname, hrest⟩
  · rintro ⟨hname, hrest⟩
    exact ⟨(), _, (run_bind_iff hfree).2 ⟨hname, rfl⟩, hrest⟩

end

/-! ### Stretches of a build -/

/-- There is a declaration of that name, made from a validator with that fingerprint. -/
def MadeFor (plan : Plan) (V : Validator → Prop) (s : Draft) (b : String × String) : Prop :=
  ∃ v w pointer, V v ∧ plan.fingerprint v = b.1 ∧ Opened plan s.registry.bound v w ∧
    Declaration.of b.2 w pointer ∈ s.declared.entries

/-- What a stretch of a build leads to: names are made from stems with the property `P`, and bound to
fingerprints of validators with the property `V`. The names in `own` were handed out before; all
other names that it binds or declares are new. -/
structure Stretch (plan : Plan) (P : String → Prop) (V : Validator → Prop) (own : List String)
    (s s' : Draft) : Prop where
  used : s.registry.used ⊆ s'.registry.used
  start : s'.registry.start = s.registry.start
  bound : s.registry.bound ⊆ s'.registry.bound
  entries : s.declared.entries ⊆ s'.declared.entries
  nodup : s.declared.names.Nodup → s'.declared.names.Nodup
  orderly : own ⊆ s.registry.used → s.IsOrderly → s'.IsOrderly
  new_used : ∀ n ∈ s'.registry.used, n ∈ s.registry.used ∨ ∃ stem, P stem ∧
    Name.Registry.IsMadeBeside s'.registry.used (s.registry.start ++ (stem ++ schemaSuffix)) n
  new_bound : ∀ b ∈ s'.registry.bound, b ∈ s.registry.bound ∨
    (b.2 ∈ s.registry.used → b.2 ∈ own) ∧ MadeFor plan V s' b
  new_entry : ∀ e ∈ s'.declared.entries, e ∈ s.declared.entries ∨
    (e.name ∈ s.registry.used → e.name ∈ own) ∧ e = .of e.name e.validator e.pointer ∧
      (e.name ∈ s'.boundNames ∨ ∃ other ∈ plan.names.map (·.2) ++ s'.boundNames,
        e.validator = .named other)

section

variable {plan : Plan} {P : String → Prop} {V : Validator → Prop} {own own' : List String}
  {s s' s'' : Draft} {name : String}

lemma MadeFor.mono {b : String × String} (h : MadeFor plan V s b)
    (hbound : s.registry.bound ⊆ s'.registry.bound)
    (hentries : s.declared.entries ⊆ s'.declared.entries) : MadeFor plan V s' b := by
  obtain ⟨v, w, pointer, hv, hprint, hw, hentry⟩ := h
  exact ⟨v, w, pointer, hv, hprint, hw.mono hbound, hentries hentry⟩

lemma Stretch.refl (s : Draft) : Stretch plan P V own s s where
  used := List.Subset.refl _
  start := rfl
  bound := List.Subset.refl _
  entries := List.Subset.refl _
  nodup h := h
  orderly _ hs := hs
  new_used _ hn := .inl hn
  new_bound _ hb := .inl hb
  new_entry _ he := .inl he

lemma Stretch.trans (h : Stretch plan P V own s s') (h' : Stretch plan P V own s' s'') :
    Stretch plan P V own s s'' where
  used := List.Subset.trans h.used h'.used
  start := h'.start.trans h.start
  bound := List.Subset.trans h.bound h'.bound
  entries := List.Subset.trans h.entries h'.entries
  nodup := h'.nodup ∘ h.nodup
  orderly hown hs := h'.orderly (List.Subset.trans hown h.used) (h.orderly hown hs)
  new_used n hn := by
    obtain hn | ⟨stem, hstem, hmade⟩ := h'.new_used n hn
    · exact (h.new_used n hn).imp_right fun ⟨stem, hstem, hmade⟩ =>
        ⟨stem, hstem, hmade.mono h'.used⟩
    · exact .inr ⟨stem, hstem, h.start ▸ hmade⟩
  new_bound b hb := by
    obtain hb | ⟨hown, hmade⟩ := h'.new_bound b hb
    · obtain hb | ⟨hown, hmade⟩ := h.new_bound b hb
      · exact .inl hb
      · exact .inr ⟨hown, hmade.mono h'.bound h'.entries⟩
    · exact .inr ⟨fun hused => hown (h.used hused), hmade⟩
  new_entry e he := by
    obtain he | ⟨hown, hof, hkind⟩ := h'.new_entry e he
    · obtain he | ⟨hown, hof, hkind⟩ := h.new_entry e he
      · exact .inl he
      · have hnames : s'.boundNames ⊆ s''.boundNames := map_subset _ h'.bound
        refine .inr ⟨hown, hof, hkind.imp (fun hmem => hnames hmem) ?_⟩
        rintro ⟨other, hother, heq⟩
        exact ⟨other, append_subset.2 ⟨subset_append_left _ _,
          List.Subset.trans hnames (subset_append_right _ _)⟩ hother, heq⟩
    · exact .inr ⟨fun hused => hown (h.used hused), hof, hkind⟩

lemma Stretch.mono (h : Stretch plan P V own s s') (hsub : own ⊆ own') :
    Stretch plan P V own' s s' :=
  { h with
    orderly := fun hown => h.orderly (List.Subset.trans hsub hown)
    new_bound := fun b hb => (h.new_bound b hb).imp_right fun hnew =>
      ⟨fun hused => hsub (hnew.1 hused), hnew.2⟩
    new_entry := fun e he => (h.new_entry e he).imp_right fun hnew =>
      ⟨fun hused => hsub (hnew.1 hused), hnew.2⟩ }

/-- A stretch binds none of the names handed out before, but for its own. -/
lemma Stretch.unbound (h : Stretch plan P V own s s') (hused : name ∈ s.registry.used)
    (hown : name ∉ own) (hname : name ∉ s.boundNames) : name ∉ s'.boundNames := by
  intro hmem
  obtain ⟨b, hb, rfl⟩ := mem_map.1 hmem
  obtain hb | ⟨hnew, -⟩ := h.new_bound b hb
  · exact hname (mem_map_of_mem hb)
  · exact hown (hnew hused)

/-- Nor does it declare any of them. -/
lemma Stretch.undeclared (h : Stretch plan P V own s s') (hused : name ∈ s.registry.used)
    (hown : name ∉ own) (hname : name ∉ s.declared.names) : name ∉ s'.declared.names := by
  intro hmem
  obtain ⟨e, he, rfl⟩ := mem_map.1 hmem
  obtain he | ⟨hnew, -⟩ := h.new_entry e he
  · exact hname (mem_map_of_mem he)
  · exact hown (hnew hused)

lemma stretch_handOut {stem : String} (hstem : P stem) (s : Draft) :
    Stretch plan P V own s (s.handOut (stem ++ schemaSuffix)) where
  used := subset_append_left _ _
  start := rfl
  bound := List.Subset.refl _
  entries := List.Subset.refl _
  nodup h := h
  orderly _ hs := ⟨List.Subset.trans hs.bound (subset_append_left _ _),
    List.Subset.trans hs.declared (subset_append_left _ _), hs.prints, hs.names⟩
  new_used n hn := by
    rcases mem_append.1 hn with hn | hn
    · exact .inl hn
    · rw [mem_singleton.1 hn]
      exact .inr ⟨stem, hstem, Name.Registry.isMadeBeside_assign _ _⟩
  new_bound _ hb := .inl hb
  new_entry _ he := .inl he

lemma nodup_names_addEntry (hname : name ∉ s.declared.names) (hs : s.declared.names.Nodup)
    (w : Validator) (pointer : String) : (s.addEntry name w pointer).declared.names.Nodup := by
  rw [Draft.names_addEntry]
  exact nodup_append.2 ⟨hs, nodup_singleton _, by grind⟩

/-- An alias may be declared under a name of the build's own. -/
lemma stretch_addEntry_named (hname : name ∉ s.declared.names) {other : String}
    (hother : other ∈ plan.names.map (·.2) ++ s.boundNames) (pointer : String) :
    Stretch plan P V [name] s (s.addEntry name (.named other) pointer) where
  used := List.Subset.refl _
  start := rfl
  bound := List.Subset.refl _
  entries := subset_append_left _ _
  nodup hs := nodup_names_addEntry hname hs _ _
  orderly hown hs := hs.addEntry (hown (mem_singleton_self _)) _ _
  new_used _ hn := .inl hn
  new_bound _ hb := .inl hb
  new_entry e he := by
    rcases mem_append.1 he with he | he
    · exact .inl he
    · rw [mem_singleton.1 he]
      exact .inr ⟨fun _ => mem_singleton_self _, rfl, .inr ⟨other, hother, rfl⟩⟩

/-- A name of the build's own may be bound first and declared later. -/
lemma Stretch.addEntry {v w : Validator} (hv : V v)
    (hfree : s.registry.lookup (plan.fingerprint v) = none) (hunbound : name ∉ s.boundNames)
    (h : Stretch plan P V [] (s.bindName (plan.fingerprint v) name) s')
    (hw : Opened plan s'.registry.bound v w) (hname : name ∉ s'.declared.names)
    (pointer : String) : Stretch plan P V [name] s (s'.addEntry name w pointer) where
  used := h.used
  start := h.start
  bound := List.Subset.trans (subset_append_left _ _) h.bound
  entries := List.Subset.trans h.entries (subset_append_left _ _)
  nodup hs := nodup_names_addEntry hname (h.nodup hs) _ _
  orderly hown hs := by
    have hused : name ∈ s.registry.used := hown (mem_singleton_self _)
    exact (h.orderly (nil_subset _) (hs.bindName hfree hused hunbound)).addEntry
      (h.used hused) _ _
  new_used := h.new_used
  new_bound b hb := by
    obtain hb | ⟨hnew, hmade⟩ := h.new_bound b hb
    · rcases mem_append.1 hb with hb | hb
      · exact .inl hb
      · obtain rfl := mem_singleton.1 hb
        exact .inr ⟨fun _ => mem_singleton_self _, v, w, pointer, hv, rfl, hw,
          mem_append_right _ (mem_singleton_self _)⟩
    · exact .inr ⟨fun hused => absurd (hnew hused) not_mem_nil,
        hmade.mono (List.Subset.refl _) (subset_append_left _ _)⟩
  new_entry e he := by
    rcases mem_append.1 he with he | he
    · exact (h.new_entry e he).imp_right fun hnew =>
        ⟨fun hused => absurd (hnew.1 hused) not_mem_nil, hnew.2⟩
    · rw [mem_singleton.1 he]
      refine .inr ⟨fun _ => mem_singleton_self _, rfl, .inl ?_⟩
      exact map_subset _ h.bound (by simp [Draft.bindName, Declaration.of])

/-- A name that is handed out on the way is not one of those handed out before. -/
lemma Stretch.fresh (h : Stretch plan P V [] s s') (h' : Stretch plan P V [name] s' s'')
    (hnew : name ∉ s.registry.used) (hused : name ∈ s'.registry.used) :
    Stretch plan P V [] s s'' := by
  have hboth := (h.mono (nil_subset [name])).trans h'
  have hold {n : String} (hn : n ∈ s.registry.used) : n ∉ [name] := by
    rintro hmem
    exact hnew (mem_singleton.1 hmem ▸ hn)
  exact { hboth with
    orderly := fun hown hs => h'.orderly (by simpa using hused) (h.orderly hown hs)
    new_bound := fun b hb => (hboth.new_bound b hb).imp_right fun hmade =>
      ⟨fun hn => absurd (hmade.1 hn) (hold hn), hmade.2⟩
    new_entry := fun e he => (hboth.new_entry e he).imp_right fun hmade =>
      ⟨fun hn => absurd (hmade.1 hn) (hold hn), hmade.2⟩ }

end

/-! ### Steps -/

/-- All names that are newly in use are bound. -/
def Draft.Binds (s s' : Draft) : Prop :=
  ∀ n ∈ s'.registry.used, n ∈ s.registry.used ∨ n ∈ s'.boundNames

lemma Draft.Binds.refl (s : Draft) : s.Binds s :=
  fun _ => .inl

lemma Draft.Binds.trans {s s' s'' : Draft} (h : s.Binds s') (h' : s'.Binds s'')
    (hbound : s'.registry.bound ⊆ s''.registry.bound) : s.Binds s'' := by
  intro n hn
  obtain hn | hn := h' n hn
  · exact (h n hn).imp_right fun hn => map_subset _ hbound hn
  · exact .inr hn

section

variable (plan : Plan) (P : String → Prop) (V : Validator → Prop) (G : Prop)

/-- A step that takes a stretch, and whose result has the property for all names that are bound
then. If `G` holds, it succeeds from every orderly draft. -/
structure Builds {α : Type} (x : Build α) (Q : List (String × String) → α → Prop) : Prop where
  stretch : ∀ {s a s'}, x.run s = .ok (a, s') → Stretch plan P V [] s s'
  routes : ∀ {s a s'}, x.run s = .ok (a, s') → s'.declared.routes = s.declared.routes
  binds : ∀ {s a s'}, x.run s = .ok (a, s') → s.Binds s'
  result : ∀ {s a s'}, x.run s = .ok (a, s') → ∀ bound, s'.registry.bound ⊆ bound → Q bound a
  succeeds : G → ∀ {s}, s.IsOrderly → ∃ a s', x.run s = .ok (a, s')

end

section

variable {plan : Plan} {P : String → Prop} {V : Validator → Prop} {G : Prop} {α β : Type}
  {s s' : Draft}

lemma builds_pure {a : α} {Q : List (String × String) → α → Prop} (h : ∀ bound, Q bound a) :
    Builds plan P V G (pure a) Q where
  stretch := by
    rintro s _ _ ⟨⟩
    exact .refl s
  routes := by
    rintro s _ _ ⟨⟩
    rfl
  binds := by
    rintro s _ _ ⟨⟩
    exact .refl s
  result := by
    rintro s _ _ ⟨⟩ bound -
    exact h bound
  succeeds _ s _ := ⟨a, s, rfl⟩

lemma Builds.bind {x : Build α} {f : α → Build β} {Q : List (String × String) → α → Prop}
    {R : List (String × String) → β → Prop} (hx : Builds plan P V G x Q)
    (hf : ∀ a, Builds plan P V G (f a) fun bound b => Q bound a → R bound b) :
    Builds plan P V G (x >>= f) R where
  stretch hrun := by
    obtain ⟨a, s', hx', hf'⟩ := StateT.run_bind_eq_ok_iff.1 hrun
    exact (hx.stretch hx').trans ((hf a).stretch hf')
  routes hrun := by
    obtain ⟨a, s', hx', hf'⟩ := StateT.run_bind_eq_ok_iff.1 hrun
    exact ((hf a).routes hf').trans (hx.routes hx')
  binds hrun := by
    obtain ⟨a, s', hx', hf'⟩ := StateT.run_bind_eq_ok_iff.1 hrun
    exact (hx.binds hx').trans ((hf a).binds hf') ((hf a).stretch hf').bound
  result hrun bound hbound := by
    obtain ⟨a, s', hx', hf'⟩ := StateT.run_bind_eq_ok_iff.1 hrun
    refine (hf a).result hf' bound hbound (hx.result hx' bound ?_)
    exact List.Subset.trans ((hf a).stretch hf').bound hbound
  succeeds hG s hs := by
    obtain ⟨a, s', hrun⟩ := hx.succeeds hG hs
    have hs' := (hx.stretch hrun).orderly (nil_subset _) hs
    obtain ⟨b, s'', hrun'⟩ := (hf a).succeeds hG hs'
    exact ⟨b, s'', StateT.run_bind_eq_ok_iff.2 ⟨a, s', hrun, hrun'⟩⟩

lemma Builds.mono {x : Build α} {Q R : List (String × String) → α → Prop}
    (hx : Builds plan P V G x Q) (hQ : ∀ bound a, Q bound a → R bound a) :
    Builds plan P V G x R :=
  { hx with result := fun hrun bound hbound => hQ bound _ (hx.result hrun bound hbound) }

lemma builds_targetName {target : String}
    (hG : G → ∃ name, plan.names.lookup target = some name) :
    Builds plan P V G (targetName plan target) fun _ name =>
      plan.names.lookup target = some name where
  stretch hrun := by
    obtain ⟨-, rfl⟩ := run_targetName_iff.1 hrun
    exact .refl _
  routes hrun := by
    obtain ⟨-, rfl⟩ := run_targetName_iff.1 hrun
    rfl
  binds hrun := by
    obtain ⟨-, rfl⟩ := run_targetName_iff.1 hrun
    exact .refl _
  result hrun _ _ := (run_targetName_iff.1 hrun).1
  succeeds hg s _ := by
    obtain ⟨name, hname⟩ := hG hg
    exact ⟨name, s, run_targetName_iff.2 ⟨hname, rfl⟩⟩

/-! ### Sharing -/

/-- What sharing does where the fingerprint is free. -/
lemma run_share_iff {v : Validator} {stem pointer name : String} {lifted : Build Validator}
    (hfree : s.registry.lookup (plan.fingerprint v) = none) :
    (share plan v stem pointer lifted).run s = .ok (name, s') ↔
      name = (s.registry.assign (stem ++ schemaSuffix)).1 ∧ name ∉ s.boundNames ∧
        ∃ w s₁, lifted.run ((s.handOut (stem ++ schemaSuffix)).bindName (plan.fingerprint v) name) =
            .ok (w, s₁) ∧
          name ∉ s₁.declared.names ∧ s' = s₁.addEntry name w pointer := by
  have hshare : (share plan v stem pointer lifted).run s = (do
      let fresh := (s.registry.assign (stem ++ schemaSuffix)).1
      (do
        Declarations.bind (plan.fingerprint v) fresh
        let w ← lifted
        declare fresh w pointer)
      return fresh : Build String).run (s.handOut (stem ++ schemaSuffix)) := by
    unfold share
    simp only [bind_assoc, StateT.run_bind, StateT.run_get, pure_bind, hfree]
    rfl
  have hfree' : (s.handOut (stem ++ schemaSuffix)).registry.lookup (plan.fingerprint v) = none := hfree
  have hnames : (s.handOut (stem ++ schemaSuffix)).boundNames = s.boundNames := rfl
  rw [hshare, ← hnames]
  generalize (s.registry.assign (stem ++ schemaSuffix)).1 = fresh
  rw [StateT.run_bind_eq_ok_iff]
  constructor
  · rintro ⟨_, _, hrun, ⟨⟩⟩
    exact ⟨rfl, (run_bindAndDeclare_iff hfree').1 hrun⟩
  · rintro ⟨rfl, hrun⟩
    exact ⟨(), s', (run_bindAndDeclare_iff hfree').2 hrun, rfl⟩

lemma run_share_of_bound {v : Validator} {stem pointer name : String} {lifted : Build Validator}
    (hlookup : s.registry.lookup (plan.fingerprint v) = some name) :
    (share plan v stem pointer lifted).run s = .ok (name, s) := by
  unfold share
  simp only [StateT.run_bind, StateT.run_get, pure_bind, hlookup]
  rfl

lemma builds_share {v : Validator} (hv : V v) {lifted : Build Validator}
    (hlifted : Builds plan P V G lifted fun bound => Opened plan bound v) {stem : String}
    (hstem : P stem) (pointer : String) :
    Builds plan P V G (share plan v stem pointer lifted) fun bound name =>
      (plan.fingerprint v, name) ∈ bound := by
  -- The name is bound for the whole stretch in which the validator is lifted.
  have hcases {s s' name} (hrun : (share plan v stem pointer lifted).run s = .ok (name, s')) :
      Stretch plan P V [] s s' ∧ s'.declared.routes = s.declared.routes ∧ s.Binds s' ∧
        (plan.fingerprint v, name) ∈ s'.registry.bound := by
    cases hlookup : s.registry.lookup (plan.fingerprint v) with
    | some existing =>
      cases (run_share_of_bound hlookup).symm.trans hrun
      exact ⟨.refl s, rfl, .refl s, mem_of_lookup hlookup⟩
    | none =>
      obtain ⟨hfresh, hunbound, w, s₁, hlift, hname, rfl⟩ := (run_share_iff hlookup).1 hrun
      have hstretch := hlifted.stretch hlift
      have hw := hlifted.result hlift _ (List.Subset.refl _)
      have hown := Stretch.addEntry (s := s.handOut _) hv hlookup hunbound hstretch hw hname pointer
      have hroutes := hlifted.routes hlift
      have hbound := hstretch.bound (mem_append_right _ (mem_singleton_self _))
      refine ⟨(stretch_handOut hstem s).fresh hown ?_ ?_, hroutes, fun n hn => ?_, hbound⟩
      · exact hfresh ▸ Name.Registry.assign_not_mem _ _
      · exact hfresh ▸ mem_append_right _ (mem_singleton_self _)
      · obtain hn | hn := hlifted.binds hlift n hn
        · refine (mem_append.1 hn).imp_right fun hn => ?_
          obtain rfl : n = name := (mem_singleton.1 hn).trans hfresh.symm
          exact mem_map_of_mem hbound
        · exact .inr hn
  refine ⟨fun hrun => (hcases hrun).1, fun hrun => (hcases hrun).2.1, fun hrun => (hcases hrun).2.2.1,
    fun hrun bound hbound => hbound (hcases hrun).2.2.2, fun hG s hs => ?_⟩
  cases hlookup : s.registry.lookup (plan.fingerprint v) with
  | some existing => exact ⟨existing, s, run_share_of_bound hlookup⟩
  | none =>
    set name := (s.registry.assign (stem ++ schemaSuffix)).1 with hname
    have hnew : name ∉ s.registry.used := Name.Registry.assign_not_mem _ _
    have hused : name ∈ (s.handOut (stem ++ schemaSuffix)).registry.used :=
      mem_append_right _ (mem_singleton_self _)
    have hhand : Stretch plan P V [] s (s.handOut (stem ++ schemaSuffix)) := stretch_handOut hstem s
    have hout := hhand.orderly (nil_subset _) hs
    have hunbound : name ∉ s.boundNames := fun hmem => hnew (hs.bound hmem)
    obtain ⟨w, s₁, hlift⟩ := hlifted.succeeds hG (hout.bindName hlookup hused hunbound)
    refine ⟨name, _, (run_share_iff hlookup).2 ⟨rfl, hunbound, w, s₁, hlift, ?_, rfl⟩⟩
    exact (hlifted.stretch hlift).undeclared hused not_mem_nil
      fun hmem => hnew (hs.declared hmem)

lemma builds_promote {v : Validator} (hcomposite : v.isComposite) (hv : IsPromoted plan v → V v)
    {lifted : Build Validator}
    (hlifted : Builds plan P V G lifted fun bound => Opened plan bound v) (root : Bool)
    {stem : String} (hstem : P stem) :
    Builds plan P V G (promote plan root v stem lifted) fun bound w =>
      if root then Opened plan bound v w else Inlined plan bound v w := by
  unfold promote
  cases root with
  | true => exact hlifted
  | false =>
    by_cases hshared : isShared plan v
    · have hpromoted : IsPromoted plan v := ⟨hcomposite, hshared⟩
      simp only [Bool.not_false, hshared, Bool.and_self, if_true]
      refine (builds_share (hv hpromoted) hlifted hstem "").bind fun name => builds_pure ?_
      exact fun bound hname => .shared hpromoted hname
    · simp only [Bool.not_false, hshared, Bool.and_false]
      exact hlifted.mono fun bound w hw => hw.inlined fun hpromoted => hshared hpromoted.2

end

/-! ### Lifting -/

/-- Stems that may be extended by the names of parts. -/
structure Extensible (P : String → Prop) : Prop where
  item : ∀ {stem}, P stem → P (stem ++ "Item")
  value : ∀ {stem}, P stem → P (stem ++ "Value")
  field : ∀ {stem} (key : String), P stem → P (stem ++ fieldPart key)
  extra : ∀ {stem}, P stem → P (stem ++ "Extra")
  option : ∀ {stem} (i : Nat), P stem → P (stem ++ "Option" ++ toString i)
  part : ∀ {stem} (i : Nat), P stem → P (stem ++ "Part" ++ toString i)

/-- What lifting asks of a validator: what is promoted in it has the property, and nothing in it is
a name yet. -/
structure Growable (plan : Plan) (V : Validator → Prop) (v : Validator) : Prop where
  promoted : ∀ u, v.Part u → IsPromoted plan u → V u
  unnamed : ∀ name, ¬ v.Part (.named name)

/-- References lead to definitions with names. -/
def Grounded (plan : Plan) (v : Validator) : Prop :=
  ∀ target, v.Part (.ref target) → ∃ name, plan.names.lookup target = some name

/-- What lifting asks of a validator in order to succeed if `G` holds. -/
structure Liftable (plan : Plan) (V : Validator → Prop) (G : Prop) (v : Validator) : Prop
    extends Growable plan V v where
  ref : G → Grounded plan v

section

variable {plan : Plan} {P : String → Prop} {V : Validator → Prop} {G : Prop}

lemma Liftable.child {v c : Validator} (h : Liftable plan V G v) (hc : c ∈ v.children) :
    Liftable plan V G c where
  promoted u hu := h.promoted u (hu.of_child hc)
  unnamed name hu := h.unnamed name (hu.of_child hc)
  ref hG target hu := h.ref hG target (hu.of_child hc)

/-- What lifting gives in place of a validator: its declaration, or what stands for it inside of
another one. -/
def LiftsTo (plan : Plan) (root : Bool) (v : Validator) (bound : List (String × String))
    (w : Validator) : Prop :=
  if root ∧ ¬ v.isReference then Opened plan bound v w else Inlined plan bound v w

lemma LiftsTo.of_opened {root : Bool} {v w : Validator} {bound : List (String × String)}
    (hv : ¬ IsPromoted plan v) (h : Opened plan bound v w) : LiftsTo plan root v bound w := by
  unfold LiftsTo
  split
  · exact h
  · exact h.inlined hv

lemma LiftsTo.opened {v w : Validator} {bound : List (String × String)}
    (h : LiftsTo plan true v bound w) (hproper : ¬ v.isReference) : Opened plan bound v w := by
  simpa [LiftsTo, hproper] using h

lemma LiftsTo.inlined {v w : Validator} {bound : List (String × String)}
    (h : LiftsTo plan false v bound w) : Inlined plan bound v w := by
  simpa [LiftsTo] using h

/-- A composite is promoted or lifted in place. -/
lemma builds_composite {v : Validator} (hcomposite : v.isComposite) (hv : Liftable plan V G v)
    {lifted : Build Validator}
    (hlifted : Builds plan P V G lifted fun bound => Opened plan bound v) (root : Bool)
    {stem : String} (hstem : P stem) :
    Builds plan P V G (promote plan root v stem lifted) (LiftsTo plan root v) := by
  have hproper : ¬ v.isReference := by
    cases v <;> simp_all [isComposite, isReference]
  refine (builds_promote hcomposite (hv.promoted v .refl) hlifted root hstem).mono ?_
  intro bound w hw
  simpa [LiftsTo, hproper] using hw

mutual

lemma builds_lift (hP : Extensible P) (v : Validator) (hv : Liftable plan V G v) (root : Bool)
    {stem : String} (hstem : P stem) :
    Builds plan P V G (lift plan root stem v) (LiftsTo plan root v) := by
  match v with
  | .any | .null | .boolean | .string _ _ _ | .custom _ | .number _ _ =>
    apply builds_pure
    intro bound
    refine .of_opened (fun h => ?_) (.of_children_nil (by simp [isReference]) rfl)
    cases h.1
  | .literal values =>
    refine builds_composite rfl hv (builds_pure fun bound => ?_) root hstem
    exact .of_children_nil (by simp [isReference]) rfl
  | .array items length unique =>
    refine builds_composite rfl hv ?_ root hstem
    have hitems : Liftable plan V G items := hv.child (by simp [children])
    refine (builds_lift hP items hitems false (hP.item hstem)).bind fun w => builds_pure ?_
    intro bound hw
    exact ⟨by simp [isReference], .array unique fun _ => Iff.rfl, .cons hw.inlined .nil⟩
  | .record values count =>
    refine builds_composite rfl hv ?_ root hstem
    have hvalues : Liftable plan V G values := hv.child (by simp [children])
    refine (builds_lift hP values hvalues false (hP.value hstem)).bind fun w => builds_pure ?_
    intro bound hw
    exact ⟨by simp [isReference], .record fun _ => Iff.rfl, .cons hw.inlined .nil⟩
  | .object fields forbidExtra extra count =>
    refine builds_composite rfl hv ?_ root hstem
    have hfields : ∀ f ∈ fields, Liftable plan V G f.validator := fun f hf =>
      hv.child (mem_append_left _ (mem_map_of_mem hf))
    have hextra : ∀ w ∈ extra, Liftable plan V G w := fun w hw =>
      hv.child (mem_append_right _ (Option.mem_toList.2 hw))
    refine (builds_liftFields hP fields hfields hstem).bind fun fields' => ?_
    refine (builds_liftExtra hP extra hextra hstem).bind fun extra' => builds_pure ?_
    intro bound hextra' hfields'
    have hheads : fields.map fieldHead = fields'.map fieldHead :=
      (map_eq_map_of_forall₂ hfields' fun h => by simp [fieldHead, h.1, h.2.1]).symm
    exact ⟨by simp [isReference], .object forbidExtra hheads fun _ => Iff.rfl,
      (forall₂_children_object hheads).2 ⟨hfields', hextra'⟩⟩
  | .union branches =>
    refine builds_composite rfl hv ?_ root hstem
    have hbranches : ∀ b ∈ branches, Liftable plan V G b := fun b hb => hv.child hb
    refine (builds_liftBranches hP branches hbranches 1 fun i => hP.option i hstem).bind
      fun bs => builds_pure fun bound hbs => ?_
    exact ⟨by simp [isReference], .union, hbs⟩
  | .intersection branches =>
    refine builds_composite rfl hv ?_ root hstem
    have hbranches : ∀ b ∈ branches, Liftable plan V G b := fun b hb => hv.child hb
    refine (builds_liftBranches hP branches hbranches 1 fun i => hP.part i hstem).bind
      fun bs => builds_pure fun bound hbs => ?_
    exact ⟨by simp [isReference], .intersection, hbs⟩
  | .nullable inner =>
    have hinner : Liftable plan V G inner := hv.child (by simp [children])
    have hstem' : P (if root then stem ++ "Value" else stem) := by
      split
      · exact hP.value hstem
      · exact hstem
    refine (builds_lift hP inner hinner false hstem').bind fun w => builds_pure fun bound hw => ?_
    refine .of_opened (fun h => ?_) ⟨by simp [isReference], .nullable, .cons hw.inlined .nil⟩
    cases h.1
  | .ref target =>
    refine (builds_targetName fun hG => hv.ref hG target .refl).bind fun name => builds_pure fun bound hname => ?_
    simpa [LiftsTo, isReference] using Inlined.target hname
  | .named name => exact absurd .refl (hv.unnamed name)

lemma builds_liftFields (hP : Extensible P) (fields : List (FieldOf Validator))
    (hfields : ∀ f ∈ fields, Liftable plan V G f.validator) {stem : String} (hstem : P stem) :
    Builds plan P V G (liftFields plan stem fields) fun bound fields' =>
      Forall₂ (fun f f' => f'.key = f.key ∧ f'.required = f.required ∧
        Inlined plan bound f.validator f'.validator) fields fields' := by
  match fields with
  | [] => exact builds_pure fun _ => .nil
  | ⟨key, v, required⟩ :: rest =>
    refine (builds_lift hP v (hfields _ mem_cons_self) false (hP.field key hstem)).bind
      fun w => ?_
    have hrest := fun f hf => hfields f (mem_cons_of_mem _ hf)
    refine (builds_liftFields hP rest hrest hstem).bind fun fields' => builds_pure ?_
    exact fun bound hfields' hw => .cons ⟨rfl, rfl, hw.inlined⟩ hfields'

lemma builds_liftExtra (hP : Extensible P) (extra : Option Validator)
    (hextra : ∀ v ∈ extra, Liftable plan V G v) {stem : String} (hstem : P stem) :
    Builds plan P V G (liftExtra plan stem extra) fun bound extra' =>
      Forall₂ (Inlined plan bound) extra.toList extra'.toList := by
  match extra with
  | none => exact builds_pure fun _ => .nil
  | some v =>
    refine (builds_lift hP v (hextra v rfl) false (hP.extra hstem)).bind fun w => builds_pure ?_
    exact fun bound hw => .cons hw.inlined .nil

lemma builds_liftBranches (hP : Extensible P) (branches : List Validator)
    (hbranches : ∀ v ∈ branches, Liftable plan V G v) {stem : String} (i : Nat)
    (hstem : ∀ i : Nat, P (stem ++ toString i)) :
    Builds plan P V G (liftBranches plan stem i branches) fun bound branches' =>
      Forall₂ (Inlined plan bound) branches branches' := by
  match branches with
  | [] => exact builds_pure fun _ => .nil
  | v :: rest =>
    refine (builds_lift hP v (hbranches v mem_cons_self) false (hstem i)).bind fun w => ?_
    have hrest := fun v hv => hbranches v (mem_cons_of_mem _ hv)
    refine (builds_liftBranches hP rest hrest (i + 1) hstem).bind fun branches' => builds_pure ?_
    exact fun bound hbranches' hw => .cons hw.inlined hbranches'

end

end

end Declarations

end ApiSchema
