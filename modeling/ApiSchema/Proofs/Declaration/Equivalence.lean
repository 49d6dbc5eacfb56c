import ApiSchema.Proofs.Declaration.Unfolding
import ApiSchema.Proofs.Validator.Alike

/-!
# Declarations mean what their validators mean

Main statement: the name of a definition, and every name in a route, has a declaration that accepts
exactly what the validator accepts, whatever other validators share the declaration. Validators
share one if their digests agree, so no two of the texts that are digested may collide.
-/

namespace ApiSchema

open List

namespace Declarations

open Validator

variable {v : Validator}

/-- A name has a declaration that accepts what the validator accepts. -/
def Means (basis : Basis) (t : Validators) (d : Declarations) (v : Validator) (name : String) :
    Prop :=
  d.contains name ∧ ∀ x, d.Accepts basis name x ↔ t.Accepts basis v x

/-- The texts that a build takes digests of. -/
def digested (t : Validators) : Set (List Char) :=
  {s | ∃ v ∈ fingerprinted t, canonicalString v.canonical = s}

section

variable {t : Validators} {plan : Plan} {registry : Name.Registry} {z : Draft}

lemma Finished.get?_of_holds (h : Finished t plan registry z) {name : String}
    {P : Validator → Prop} (hholds : Holds z name P) :
    ∃ e, z.declared.get? name = some e ∧ P e.validator := by
  obtain ⟨e, he, rfl, hP⟩ := hholds
  exact ⟨e, get?_name h.isMade.nodup he, hP⟩

lemma Finished.lookup_of_name (h : Finished t plan registry z) {target name : String}
    (hname : plan.names.lookup target = some name) : ∃ v, t.definitions.lookup target = some v := by
  have hkeys : plan.names.map (·.1) = t.definitions.map (·.1) := map_eq_map_of_forall₂ h.keys id
  rw [← Option.isSome_iff_exists, isSome_lookup_iff, ← hkeys, ← isSome_lookup_iff, hname]
  rfl

/-- The declarations of a finished build stand for validators, if nothing was bound before it and
validators with one fingerprint are alike. -/
lemma Finished.represents {r : Validator → Validator → Prop} (h : Finished t plan registry z)
    (hfresh : registry.bound = [])
    (hlike : ∀ v ∈ fingerprinted t, ∀ w ∈ fingerprinted t,
      plan.fingerprint v = plan.fingerprint w → r v w) :
    Represents r t z.declared (Stands plan (· ∈ fingerprinted t) z) where
  unnamed hstands := by
    cases hstands with
    | bound _ hproper _ => exact hproper rfl
  target {target name} hstands := by
    cases hstands with
    | bound _ hproper _ => exact absurd rfl hproper
    | target hname =>
      obtain ⟨v, hv⟩ := h.lookup_of_name hname
      obtain ⟨name', hname', hholds⟩ := h.definitions (target, v) (mem_of_lookup hv)
      obtain rfl : name = name' := Option.some.inj (hname.symm.trans hname')
      obtain ⟨e, he, hlifts⟩ := h.get?_of_holds hholds
      exact ⟨v, e, hv, he, hlifts⟩
  proper {v name} hstands hproper := by
    cases hstands with
    | target _ => exact absurd rfl hproper
    | bound hv _ hbound =>
      obtain hold | ⟨v', hv', hprint, hholds⟩ := h.settles _ hbound
      · rw [hfresh] at hold
        cases hold
      · obtain ⟨e, he, hrebuilt⟩ := h.get?_of_holds hholds
        exact ⟨v', e, hlike v hv v' hv' hprint.symm, he, hrebuilt⟩

end

lemma Represents.contains {r : Validator → Validator → Prop} {t : Validators} {d : Declarations}
    {stands : Validator → String → Prop} (h : Represents r t d stands) {name : String}
    (hv : stands v name) : d.contains name := by
  have hget : ∃ e, d.get? name = some e := by
    by_cases hproper : v.isReference
    · cases v with
      | ref target =>
        obtain ⟨_, e, _, he, _⟩ := h.target hv
        exact ⟨e, he⟩
      | named _ => exact absurd hv h.unnamed
      | _ => simp [isReference] at hproper
    · obtain ⟨_, e, _, he, _⟩ := h.proper hv hproper
      exact ⟨e, he⟩
  obtain ⟨e, he⟩ := hget
  have hmem : e ∈ d.entries := mem_reverse.1 (List.mem_of_find?_eq_some he)
  have hname : e.name = name := by simpa using List.find?_some he
  exact contains_iff_mem.2 (hname ▸ name_mem_names hmem)

/-- Every definition and every schema of a route has a name that means the same. -/
theorem means_of_ofValidators {basis : Basis} {ctx : Context} {includeRoutes : Bool}
    {t : Validators} {registry : Name.Registry} {d : Declarations}
    (ht : (ofDocument ctx includeRoutes).outcome = .ok t)
    (hd : ofValidators ctx.doc t fingerprint registry = .ok d) (hfresh : registry.bound = [])
    (hbinary : ∀ node, ctx.doc.Contains node → ∀ x ∈ node.floats, x.IsBinary64)
    (hdigest : Set.InjOn Sha256.hexDigest (digested t)) :
    ∃ names, (assignAll ctx.doc t.definitions).run' { registry } = .ok names ∧
      (∀ target v, t.definitions.lookup target = some v →
        ∃ name, names.lookup target = some name ∧ Means basis t d v name) ∧
      List.Forall₂ (Route.InStep (Means basis t d)) t.routes d.routes := by
  obtain ⟨names, z, rfl, hnames, hfinished⟩ := finished_of_ofValidators ht hd
  have hfloats (v : Validator) (hv : v ∈ fingerprinted t) : v.IsBinary64 := by
    intro u hu x hx
    obtain ⟨root, hroot, hpart⟩ := exists_root_of_mem_fingerprinted hv
    obtain ⟨node, hnode, hof⟩ := exists_node_of_mem_roots ht hroot
    obtain ⟨a, ha, hx⟩ := (stemsFrom_of_ofNodeWithin _ node root hof u (hpart.trans hu)).floats hx
    exact hbinary a (ha.mem ctx.doc.isClosed_contains hnode) x hx
  have hrepresents := hfinished.represents (r := Equated) hfresh fun v hv w hw hprint =>
    .inr ⟨hdigest ⟨v, hv, rfl⟩ ⟨w, hw, rfl⟩ hprint, hfloats v hv, hfloats w hw⟩
  have hmeans {v : Validator} {name : String}
      (hv : Stands _ (· ∈ fingerprinted t) z v name) : Means basis t z.declared v name :=
    ⟨hrepresents.contains hv, hrepresents.accepts_iff_of_stands likeness_equated hv⟩
  refine ⟨names, hnames, fun target v hv => ?_, ?_⟩
  · obtain ⟨name, hname, -⟩ := hfinished.definitions (target, v) (mem_of_lookup hv)
    obtain ⟨hcontains, haccepts⟩ := hmeans (.target hname)
    exact ⟨name, hname, hcontains, fun x => (haccepts x).trans (Validators.accepts_ref_iff hv)⟩
  · exact hfinished.routes.imp fun a b hab => hab.mono fun v name => hmeans

/-! ### Twins -/

/-- The first of two definitions that say the same. -/
def twinTarget : String := "#/components/schemas/First"

def otherTarget : String := "#/components/schemas/Second"

/-- One half. -/
def twinWeight : Number := .float (.finite false 1 (-1))

def twinNode (pointer : String) : Node :=
  .object ⟨pointer, false⟩
    [("next", .reference ⟨pointer ++ "/properties/next", true⟩ twinTarget),
      ("weight", .number ⟨pointer ++ "/properties/weight", false⟩ false
        { minimum := some twinWeight })]
    ["weight"] .forbidden {}

/-- Two definitions that say the same, and a route that says it once more. -/
def twinDocument : Resolved where
  definitions := [(twinTarget, twinNode twinTarget), (otherTarget, twinNode otherTarget)]
  names := [(twinTarget, "First"), (otherTarget, "Second")]
  routes := [⟨"/twins", "GET", "#/paths/~1twins/get", [],
    [("200", .reference ⟨"", false⟩ otherTarget), ("404", twinNode "")]⟩]
  cyclic := [twinTarget]

def twinValidator : Validator :=
  .object [⟨"next", .nullable (.ref twinTarget), false⟩,
    ⟨"weight", .number false { minimum := some twinWeight }, true⟩]
    true none {}

def twinValidators : Validators where
  definitions := [(twinTarget, twinValidator), (otherTarget, twinValidator)]
  routes := [⟨"/twins", "GET", "#/paths/~1twins/get", [],
    [("200", .ref otherTarget), ("404", twinValidator)]⟩]

lemma ofDocument_twins :
    (ofDocument ⟨twinDocument, {}⟩ true).outcome = .ok twinValidators := by
  rfl

def twinDeclarations : Declarations where
  entries := [
    .of "FirstSchema" (.object [⟨"next", .nullable (.named "FirstSchema"), false⟩,
      ⟨"weight", .number false { minimum := some twinWeight }, true⟩]
      true none {}) twinTarget,
    .of "SecondSchema" (.named "FirstSchema") otherTarget]
  routes := [⟨"/twins", "GET", "#/paths/~1twins/get", [],
    [("200", "SecondSchema"), ("404", "FirstSchema")]⟩]

/-- Whatever the fingerprint is, the twins share one declaration. -/
lemma ofValidators_twins (fingerprint : Validator → String) :
    ofValidators twinDocument twinValidators fingerprint {} = .ok twinDeclarations := by
  have hok {α β : Type} (a : α) (f : α → Except Fault β) : Except.ok a >>= f = f a := rfl
  have hpure {α : Type} (a : α) : (pure a : Except Fault α) = .ok a := rfl
  have hfirst : stemOf twinDocument twinTarget = "First" := by decide +kernel
  have hsecond : stemOf twinDocument otherTarget = "Second" := by decide +kernel
  have hp : pointerOf twinDocument twinTarget = twinTarget := by decide +kernel
  have hq : pointerOf twinDocument otherTarget = otherTarget := by decide +kernel
  have hne : (otherTarget == twinTarget) = false := by decide +kernel
  simp [ofValidators, build, twinValidators, assignAll, assign, Name.Registry.assign, hfirst, hsecond,
    schemaSuffix, hp, hq, hne, targetName, define, Name.Registry.lookup, Name.Registry.bind,
    Name.Registry.fingerprintOf, Declarations.bind, lift, promote, twinValidator, declare,
    Declarations.add, contains, names, liftFields, liftExtra, addRoute, routeNames, routeName, share,
    twinDeclarations, List.lookup, hok, hpure, Declaration.of]

lemma eq_of_mem_fingerprinted_twins (hv : v ∈ fingerprinted twinValidators) :
    v = twinValidator := by
  have hroots : twinValidators.roots =
      [twinValidator, twinValidator, .ref otherTarget, twinValidator] := rfl
  simpa [fingerprinted, hroots, twinValidator, isReference, compositesAll, composites,
    compositesFields, compositesExtra] using hv

lemma isBinary64_twins {node : Node} (hnode : twinDocument.Contains node) :
    ∀ x ∈ node.floats, x.IsBinary64 := by
  have hcases : (∃ pointer, node = twinNode pointer) ∨
      (∃ site target, node = .reference site target) ∨
      ∃ site, node = .number site false { minimum := some twinWeight } := by
    induction hnode with
    | definition h =>
      left
      simp only [twinDocument, mem_cons, Prod.mk.injEq, not_mem_nil, or_false] at h
      obtain ⟨-, rfl⟩ | ⟨-, rfl⟩ := h <;> exact ⟨_, rfl⟩
    | request hr h =>
      rw [mem_singleton.1 hr] at h
      cases h
    | response hr h =>
      rw [mem_singleton.1 hr] at h
      simp only [mem_cons, Prod.mk.injEq, not_mem_nil, or_false] at h
      obtain ⟨-, rfl⟩ | ⟨-, rfl⟩ := h
      · exact .inr (.inl ⟨_, _, rfl⟩)
      · exact .inl ⟨_, rfl⟩
    | child _ hc ih =>
      obtain ⟨_, rfl⟩ | ⟨_, _, rfl⟩ | ⟨_, rfl⟩ := ih
      · obtain rfl | rfl : _ ∨ _ := by simpa [twinNode, Node.children] using hc
        · exact .inr (.inl ⟨_, _, rfl⟩)
        · exact .inr (.inr ⟨_, rfl⟩)
      · cases hc
      · cases hc
  intro x hx
  obtain ⟨_, rfl⟩ | ⟨_, _, rfl⟩ | ⟨_, rfl⟩ := hcases
  · cases hx
  · cases hx
  · obtain rfl : x = .finite false 1 (-1) := mem_singleton.1 hx
    exact .inr ⟨by decide, by decide, by decide, by decide⟩

/-- The second twin has a declaration of its own that refers to the first. -/
theorem twins_mean :
    (ofDocument ⟨twinDocument, {}⟩ true).outcome = .ok twinValidators ∧
      ofValidators twinDocument twinValidators fingerprint {} = .ok twinDeclarations ∧
      Means lenient twinValidators twinDeclarations twinValidator "SecondSchema" ∧
      List.Forall₂ (Route.InStep (Means lenient twinValidators twinDeclarations))
        twinValidators.routes twinDeclarations.routes := by
  have hdigest : Set.InjOn Sha256.hexDigest (digested twinValidators) := by
    rintro _ ⟨v, hv, rfl⟩ _ ⟨w, hw, rfl⟩ -
    rw [eq_of_mem_fingerprinted_twins hv, eq_of_mem_fingerprinted_twins hw]
  have hd := ofValidators_twins fingerprint
  obtain ⟨names, hnames, hdefinitions, hroutes⟩ :=
    means_of_ofValidators ofDocument_twins hd rfl (fun _ => isBinary64_twins) hdigest
  obtain ⟨name, hname, hmeans⟩ := hdefinitions otherTarget twinValidator rfl
  have hassigned : (assignAll twinDocument twinValidators.definitions).run' { registry := {} } =
      .ok [(twinTarget, "FirstSchema"), (otherTarget, "SecondSchema")] := by decide +kernel
  cases hnames.symm.trans hassigned
  cases hname
  exact ⟨ofDocument_twins, hd, hmeans, hroutes⟩

end Declarations

end ApiSchema
