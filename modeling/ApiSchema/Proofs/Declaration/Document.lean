import ApiSchema.Proofs.Declaration.Course
import ApiSchema.Proofs.Validator.Enforcement

/-!
# Declarations of a document

Every validator of a document is made from a schema of the document, so no part of it is a name, and
its declarations hold what they should.
-/

namespace ApiSchema

open List Traced

namespace Validator

variable {ctx : Context}

variable {v : Validator} {includeRoutes : Bool} {t : Validators}

lemma exists_node_of_forall₂ {pairs : List (String × Node)} {ws : List (String × Validator)}
    (h : Forall₂ (fun p q => q.1 = p.1 ∧ (ofNode ctx p.2).outcome = .ok q.2) pairs ws)
    (hv : v ∈ ws.map (·.2)) : ∃ p ∈ pairs, (ofNode ctx p.2).outcome = .ok v := by
  obtain ⟨q, hq, rfl⟩ := mem_map.1 hv
  obtain ⟨p, hp, -, hof⟩ := exists_left_of_forall₂ h hq
  exact ⟨p, hp, hof⟩

lemma inStep_of_ofRoutes {routes : List (Route Node)} {rs : List (Route Validator)}
    (h : (ofRoutes ctx routes).outcome = .ok rs) :
    Forall₂ (Route.InStep fun node v => (ofNode ctx node).outcome = .ok v) routes rs := by
  induction routes generalizing rs with
  | nil =>
    cases h
    exact .nil
  | cons r routes ih =>
    obtain ⟨request, hrequest, h⟩ := outcome_bind_eq_ok_iff.1 h
    obtain ⟨responses, hresponses, h⟩ := outcome_bind_eq_ok_iff.1 h
    obtain ⟨rest, hrest, h⟩ := outcome_bind_eq_ok_iff.1 h
    cases h
    exact .cons ⟨rfl, rfl, forall₂_of_ofPairs hrequest, forall₂_of_ofPairs hresponses⟩ (ih hrest)

/-- Validators of definitions go by the targets that the definitions go by. -/
lemma keys_of_ofDocument (h : (ofDocument ctx includeRoutes).outcome = .ok t) :
    t.definitions.map (·.1) = ctx.doc.definitions.map (·.1) := by
  obtain ⟨definitions, hdefinitions, h⟩ := outcome_bind_eq_ok_iff.1 h
  obtain ⟨routes, -, h⟩ := outcome_bind_eq_ok_iff.1 h
  cases h
  exact map_eq_map_of_forall₂ (forall₂_of_ofPairs hdefinitions) And.left

/-- Every validator of a document stems from a schema of the document. -/
lemma exists_node_of_mem_roots (h : (ofDocument ctx includeRoutes).outcome = .ok t)
    (hv : v ∈ t.roots) : ∃ node, ctx.doc.Contains node ∧ (ofNode ctx node).outcome = .ok v := by
  obtain ⟨definitions, hdefinitions, h⟩ := outcome_bind_eq_ok_iff.1 h
  obtain ⟨routes, hroutes, h⟩ := outcome_bind_eq_ok_iff.1 h
  cases h
  rcases mem_append.1 hv with hv | hv
  · obtain ⟨p, hp, hof⟩ := exists_node_of_forall₂ (forall₂_of_ofPairs hdefinitions) hv
    exact ⟨p.2, .definition hp, hof⟩
  · obtain ⟨r', hr', hv⟩ := mem_flatMap.1 hv
    obtain ⟨r, hr, hstep⟩ := exists_left_of_forall₂ (inStep_of_ofRoutes hroutes) hr'
    have hr : r ∈ ctx.doc.routes := by
      cases includeRoutes with
      | false => cases hr
      | true => exact hr
    rcases mem_append.1 hv with hv | hv
    · obtain ⟨p, hp, hof⟩ := exists_node_of_forall₂ hstep.request hv
      exact ⟨p.2, .request hr hp, hof⟩
    · obtain ⟨p, hp, hof⟩ := exists_node_of_forall₂ hstep.responses hv
      exact ⟨p.2, .response hr hp, hof⟩

lemma not_part_named_of_mem_roots (h : (ofDocument ctx includeRoutes).outcome = .ok t)
    (hv : v ∈ t.roots) (name : String) : ¬ v.Part (.named name) := by
  intro hpart
  obtain ⟨node, -, hof⟩ := exists_node_of_mem_roots h hv
  exact stemsFrom_of_ofNodeWithin _ node v hof _ hpart

end Validator

namespace Declarations

/-- Declarations of a document are those of a finished build. -/
lemma finished_of_ofValidators {ctx : Validator.Context} {includeRoutes : Bool} {t : Validators}
    {fingerprint : Validator → String} {registry : Name.Registry} {d : Declarations}
    (ht : (Validator.ofDocument ctx includeRoutes).outcome = .ok t)
    (hd : ofValidators ctx.doc t fingerprint registry = .ok d) :
    ∃ names z, z.declared = d ∧ (assignAll ctx.doc t.definitions).run' { registry } = .ok names ∧
      Finished t ⟨fingerprint, t.repeated fingerprint, names⟩ registry z := by
  obtain ⟨⟨u, z⟩, hz, hdeclared⟩ := Except.map_eq_ok_iff.1 hd
  obtain ⟨names, hnames, hfinished⟩ :=
    finished_of_build (fun v hv => Validator.not_part_named_of_mem_roots ht hv) hz
  exact ⟨names, z, hdeclared, hnames, hfinished⟩

end Declarations

/-! ### The declaration of a chain -/

/-- A fingerprint that is good enough for the chain: it tells its composites apart. -/
def chainPrint : Validator → String
  | .object .. => "object"
  | .intersection _ => "intersection"
  | _ => "other"

/-- The chain with a name for the reference to itself. -/
def chainLifted : Validator :=
  .object
    [⟨"n", .intersection [.number true { exclusiveMinimum := some (.int 0) },
      .literal [.int 1, .int 2]], true⟩,
    ⟨"next", .named "ChainSchema", false⟩,
    ⟨"tag", .string {} none none, false⟩]
    true none {}

def chainDeclarations : Declarations where
  entries := [.of "ChainSchema" chainLifted (Declarations.pointerOf chainDocument chainTarget)]

lemma ofValidators_chain :
    Declarations.ofValidators chainDocument chainValidators chainPrint {} = .ok chainDeclarations :=
  rfl

end ApiSchema
