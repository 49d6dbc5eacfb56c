import ApiSchema.Proofs.Module.Tables
import ApiSchema.Proofs.Name.Identifier

/-!
# Names of declarations

Main statement: the names of the declarations of a document are distinct, begin as the configuration
says, and are neither reserved nor keywords. They are identifiers too, but for names that begin with
the role of a response whose status is odd.
-/

namespace ApiSchema

open List Traced Text

namespace Declarations

open Validator

variable {lib : Library} {doc : Resolved} {t : Validators} {r : Route Validator} {α : Type}

/-! ### Stems -/

/-- An identifier, or a text that begins with an odd one. -/
def IsStem (odd : String → Prop) (stem : String) : Prop :=
  Name.isIdentifier stem ∨ ∃ start, odd start ∧ Text.hasPrefix start stem

section

variable {odd : String → Prop} {stem part : String}

lemma IsStem.append (h : IsStem odd stem) (hpart : Name.IsWord part) :
    IsStem odd (stem ++ part) := by
  rcases h with h | ⟨start, hstart, h⟩
  · exact .inl ((Name.isIdentifier_append h).2 hpart)
  · obtain ⟨rest, rfl⟩ := hasPrefix_iff.1 h
    exact .inr ⟨start, hstart, hasPrefix_iff.2 ⟨rest ++ part, String.append_assoc⟩⟩

lemma isWord_fieldPart (key : String) : Name.IsWord (fieldPart key) := by
  unfold fieldPart
  extract_lets name
  split
  · decide
  · exact Name.isWord_pascal key

lemma extensible_isStem (odd : String → Prop) : Extensible (IsStem odd) where
  item h := h.append (by decide)
  value h := h.append (by decide)
  field key h := h.append (isWord_fieldPart key)
  extra h := h.append (by decide)
  option i h := (h.append (by decide)).append (Name.isWord_toString i)
  part i h := (h.append (by decide)).append (Name.isWord_toString i)

/-- What a name is made from is followed by a word. -/
lemma exists_eq_append_of_isMadeFrom {base name : String}
    (h : Name.Registry.IsMadeFrom base name) : ∃ rest, Name.IsWord rest ∧ name = base ++ rest := by
  cases h with
  | plain => exact ⟨"", by decide, String.append_empty.symm⟩
  | numbered k =>
    refine ⟨"_" ++ toString k, ?_, String.append_assoc⟩
    exact Name.isWord_append.2 ⟨by decide, Name.isWord_toString k⟩

end

/-! ### Routes -/

/-- Every route of a resolved document has one of the methods. -/
lemma exists_method_of_resolve (hdoc : (Schema.resolve lib).outcome = .ok doc) {r : Route Node}
    (hr : r ∈ doc.routes) : ∃ method ∈ Route.methods, r.method = method.2 := by
  obtain ⟨ops, hdescribes, hops, -⟩ :=
    Schema.describes_of_readRoutes (Schema.readRoutes_of_resolve hdoc)
  obtain ⟨o, ho, hdescribes⟩ := exists_left_of_forall₂ hdescribes hr
  exact ⟨o.method, ((hops o).1 ho).method, hdescribes.method⟩

lemma exists_method_of_ofDocument {formats : Format.Registry} {includeRoutes : Bool}
    (hdoc : (Schema.resolve lib).outcome = .ok doc)
    (ht : (ofDocument ⟨doc, formats⟩ includeRoutes).outcome = .ok t) (hr : r ∈ t.routes) :
    ∃ method ∈ Route.methods, r.method = method.2 := by
  obtain ⟨_, -, ht⟩ := outcome_bind_eq_ok_iff.1 ht
  obtain ⟨routes, hroutes, ht⟩ := outcome_bind_eq_ok_iff.1 ht
  cases ht
  obtain ⟨r', hr', hstep⟩ := exists_left_of_forall₂ (inStep_of_ofRoutes hroutes) hr
  have hmem : r' ∈ doc.routes := by
    cases includeRoutes with
    | false => cases hr'
    | true => exact hr'
  rw [hstep.method]
  exact exists_method_of_resolve hdoc hmem

/-- The beginning of the name of a response with an odd status. -/
def IsOddStem {α : Type} (routes : List (Route α)) (stem : String) : Prop :=
  ∃ r ∈ routes, ∃ p ∈ r.responses, Name.IsOddStatus p.1 ∧
    stem = Name.routeStem r.path r.method (Name.statusSuffix p.1)

/-- Stems of routes in step are the same. -/
lemma IsOddStem.of_inStep {β : Type} {q : α → β → Prop} {routes : List (Route α)}
    {routes' : List (Route β)} (h : Forall₂ (Route.InStep q) routes routes') {stem : String}
    (hstem : IsOddStem routes stem) : IsOddStem routes' stem := by
  obtain ⟨r, hr, p, hp, hodd, rfl⟩ := hstem
  obtain ⟨r', hr', hstep⟩ := exists_right_of_forall₂ h hr
  obtain ⟨p', hp', hkey, -⟩ := exists_right_of_forall₂ hstep.responses hp
  exact ⟨r', hr', p', hp', hkey ▸ hodd, by rw [hkey, hstep.path, hstep.method]⟩

/-- A text that begins with the name of such a response is no identifier. -/
lemma not_isWord_of_isOddStem {routes : List (Route α)} {stem : String}
    (hstem : IsOddStem routes stem) (before rest : String) :
    ¬ Name.IsWord (before ++ stem ++ rest) := by
  obtain ⟨r, -, p, -, hodd, rfl⟩ := hstem
  intro h
  have hword := (Name.isWord_append.1 (Name.isWord_append.1 (Name.isWord_append.1 h).1).2).2
  exact (Name.isWord_statusSuffix p.1).1 hword hodd

/-- The schemas of a route are named after identifiers, or after odd statuses. -/
lemma isStem_of_route (hr : r ∈ t.routes) {method : String × String}
    (hmethod : method ∈ Route.methods) (heq : r.method = method.2) :
    (∀ p ∈ r.request,
      IsStem (IsOddStem t.routes) (Name.routeStem r.path r.method (kindSuffix p.1))) ∧
    ∀ p ∈ r.responses,
      IsStem (IsOddStem t.routes) (Name.routeStem r.path r.method (Name.statusSuffix p.1)) := by
  constructor
  · intro p _
    rw [heq]
    refine .inl ((Name.isIdentifier_routeStem hmethod _ _).2 ?_)
    unfold kindSuffix
    split_ifs <;> decide
  · intro p hp
    by_cases hodd : Name.IsOddStatus p.1
    · exact .inr ⟨_, ⟨r, hr, p, hp, hodd, rfl⟩, hasPrefix_iff.2 ⟨"", String.append_empty.symm⟩⟩
    · rw [heq]
      exact .inl ((Name.isIdentifier_routeStem hmethod _ _).2 ((Name.isWord_statusSuffix _).2 hodd))

/-! ### Names -/

/-- A name that a module can declare. -/
structure IsUsable (config : Config) (d : Declarations) (name : String) : Prop where
  start : Text.hasPrefix config.namePrefix name
  reserved : name ∉ config.reservedNames
  keyword : ¬ Name.isKeyword name
  identifier : Name.isIdentifier name ↔
    ¬ ∃ stem, IsOddStem d.routes stem ∧ Text.hasPrefix (config.namePrefix ++ stem) name

lemma isUsable_of_isMadeFrom {config : Config} {d : Declarations} {stem name : String}
    (hconfig : config.check = .ok config) (hreserved : name ∉ config.reservedNames)
    (hstem : IsStem (IsOddStem d.routes) stem)
    (hname : Name.Registry.IsMadeFrom (config.namePrefix ++ (stem ++ schemaSuffix)) name) :
    IsUsable config d name := by
  have hprefix : config.namePrefix.isEmpty || Name.isIdentifier config.namePrefix := by
    unfold Config.check at hconfig
    split at hconfig
    next h => exact h
    next => cases hconfig
  obtain ⟨rest, hrest, rfl⟩ := exists_eq_append_of_isMadeFrom hname
  refine ⟨?_, hreserved, Name.not_isKeyword_of_mem ?_, ?_⟩
  · exact hasPrefix_iff.2 ⟨stem ++ schemaSuffix ++ rest, String.append_assoc⟩
  · simp [schemaSuffix]
  · constructor
    · rintro hidentifier ⟨start, hodd, hstart⟩
      obtain ⟨more, hmore⟩ := hasPrefix_iff.1 hstart
      rw [hmore] at hidentifier
      exact not_isWord_of_isOddStem hodd _ _ (.of_isIdentifier hidentifier)
    · intro hnone
      rcases hstem with hstem | ⟨start, hodd, hstart⟩
      · have hbase : Name.isIdentifier (config.namePrefix ++ (stem ++ schemaSuffix)) :=
          Name.isIdentifier_append_of_isIdentifier hprefix
            ((Name.isIdentifier_append hstem).2 (by decide))
        exact (Name.isIdentifier_append hbase).2 hrest
      · obtain ⟨more, rfl⟩ := hasPrefix_iff.1 hstart
        refine absurd ⟨start, hodd, hasPrefix_iff.2 ⟨more ++ schemaSuffix ++ rest, ?_⟩⟩ hnone
        simp only [String.append_assoc]

/-- The names of the declarations of a document are distinct, and a module can declare them. -/
theorem isUsable_of_declarations {lib : Library} {config : Config} {d : Declarations}
    (hconfig : config.check = .ok config)
    (hd : (Generate.declarations lib config).outcome = .ok d) :
    d.names.Nodup ∧ ∀ name ∈ d.names, IsUsable config d name := by
  refine ⟨(Generate.isSound_of_declarations hd).1.nodup, fun name hname => ?_⟩
  obtain ⟨doc, t, hdoc, ht, hbuild⟩ := Generate.exists_of_declarations hd
  obtain ⟨⟨u, z⟩, hrun, rfl⟩ := Except.map_eq_ok_iff.1 hbuild
  have hbuildable (plan : Plan) (v : Validator) (hv : v ∈ t.roots) :
      Buildable plan (fun _ => True) v :=
    ⟨⟨fun _ _ _ => trivial, not_part_named_of_mem_roots ht hv⟩, fun _ => trivial⟩
  obtain ⟨names, -, hbuilt⟩ := built_of_build (extensible_isStem (IsOddStem t.routes))
    (show config.registry.bound = [] from rfl)
    (by rw [keys_of_ofDocument ht]; exact Schema.nodup_keys_of_resolve hdoc)
    (fun plan _ _ e he => ⟨hbuildable plan e.2 (mem_roots_of_mem_definitions he),
      .inl (Name.isIdentifier_identifier _)⟩)
    (fun plan _ _ r hr => by
      obtain ⟨method, hmethod, heq⟩ := exists_method_of_ofDocument hdoc ht hr
      obtain ⟨hrequest, hresponses⟩ := isStem_of_route hr hmethod heq
      exact ⟨fun p hp => ⟨hbuildable plan p.2 (mem_roots_of_mem_routes hr (.inl hp)), hrequest p hp⟩,
        fun p hp => ⟨hbuildable plan p.2 (mem_roots_of_mem_routes hr (.inr hp)),
          hresponses p hp⟩⟩) hrun
  obtain ⟨e, he, rfl⟩ := mem_map.1 hname
  obtain ⟨stem, hstem, hmade⟩ := hbuilt.made e he
  refine isUsable_of_isMadeFrom hconfig (fun hmem => ?_) ?_ hmade
  · exact hbuilt.unused e he (mem_distinct.2 hmem)
  · refine hstem.imp_right fun ⟨start, hodd, hstart⟩ => ⟨start, ?_, hstart⟩
    exact hodd.of_inStep hbuilt.routes

/-- A document with a response whose status is a dash. -/
def dashLibrary : Library :=
  Library.ofTable ""
    (.object [("paths", .object [("/a", .object [("get", .object
      [("responses", .object [("-", .object [])])])])])])
    []

def dashConfig : Config where
  namePrefix := "Api"

theorem dash_isUsable :
    ∃ d, dashConfig.check = .ok dashConfig ∧
      (Generate.declarations dashLibrary dashConfig).outcome = .ok d ∧
      d.names = ["ApiGetA-ErrorResponseSchema"] ∧ d.names.Nodup ∧
      (∀ name ∈ d.names, IsUsable dashConfig d name) ∧
      ∃ stem, IsOddStem d.routes stem ∧
        Text.hasPrefix ("Api" ++ stem) "ApiGetA-ErrorResponseSchema" := by
  have hfound : (Generate.declarations dashLibrary dashConfig).outcome.toOption.map (·.names) =
      some ["ApiGetA-ErrorResponseSchema"] := by decide +kernel
  obtain ⟨d, hd, hnames⟩ := Except.map_toOption_eq_some_iff.1 hfound
  have hconfig : dashConfig.check = .ok dashConfig := rfl
  obtain ⟨hnodup, husable⟩ := isUsable_of_declarations hconfig hd
  refine ⟨d, hconfig, hd, hnames, hnodup, husable, ?_⟩
  have hdash := husable "ApiGetA-ErrorResponseSchema" (hnames ▸ mem_singleton_self _)
  exact not_not.1 (mt hdash.identifier.2 (by decide))

end Declarations

end ApiSchema
