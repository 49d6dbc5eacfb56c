import ApiSchema.Proofs.Module.Rendering
import ApiSchema.Proofs.Schema.Termination

/-!
# How generation fails

Main statement: where documents are refused for faults of schemas only, a run gives the text of a
module, or it fails for a fault of a schema or for one of a few reasons that come from values of an
unexpected kind or size. What is declared, ordered and written afterwards does not fail for reasons
of its own, a cycle that cannot be broken apart.
-/

open ApiSchema.Except ApiSchema.Traced

namespace ApiSchema

/-- Reasons to fail that a document can give. -/
def Fault.IsOfInput : Fault → Prop
  | .schema _ | .unhashable | .incomparable | .overflow | .noNumber _ | .malformedUri _
  | .clashingFlags | .endless => True
  | _ => False

lemma Traced.failsOnly_bind {w e α β : Type} {E : e → Prop} {x : Traced w e α}
    {f : α → Traced w e β} (hx : FailsOnly E x.outcome)
    (hf : ∀ a, x.outcome = .ok a → FailsOnly E (f a).outcome) :
    FailsOnly E (x >>= f).outcome := by
  obtain ⟨trace, outcome⟩ := x
  cases outcome with
  | error err => exact failsOnly_error (hx err rfl)
  | ok a => exact hf a rfl

/-! ### Numbers and strings -/

namespace NumberRules

lemma failsOnly_orOverflow (i : Option Int) : FailsOnly Fault.IsOfInput (orOverflow i) := by
  cases i with
  | none => exact failsOnly_error trivial
  | some i => exact failsOnly_ok

lemma failsOnly_inclusive (round? : Number → Option Int) (bound : Option Number) :
    FailsOnly Fault.IsOfInput (inclusive round? bound) := by
  cases bound with
  | none => exact failsOnly_ok
  | some n => exact (failsOnly_orOverflow _).map

lemma failsOnly_exclusive (round? : Number → Option Int) (bound : Option Number) :
    FailsOnly Fault.IsOfInput (exclusive round? bound) := by
  cases bound with
  | none => exact failsOnly_ok
  | some n =>
    have hinteger : FailsOnly Fault.IsOfInput n.asInteger? := by
      unfold Number.asInteger?
      split
      · split
        · exact failsOnly_ok
        · exact failsOnly_error trivial
      · exact failsOnly_ok
    refine hinteger.bind fun i => ?_
    split
    · exact failsOnly_ok
    · exact (failsOnly_orOverflow _).bind fun _ => failsOnly_ok

lemma failsOnly_ofInteger (rules : NumberRules) : FailsOnly Fault.IsOfInput rules.ofInteger := by
  refine (failsOnly_inclusive _ _).bind fun _ => ?_
  refine (failsOnly_inclusive _ _).bind fun _ => ?_
  refine (failsOnly_exclusive _ _).bind fun _ => ?_
  exact (failsOnly_exclusive _ _).bind fun _ => failsOnly_ok

end NumberRules

/-! ### Merging -/

namespace Shape

lemma failsOnly_flatten {doc : Resolved} (branches : List Node) :
    FailsOnly Fault.IsOfInput (flatten doc branches) := by
  intro fault h
  obtain ⟨_, rfl⟩ := exists_error_of_flatten h
  trivial

lemma failsOnly_sharper (precedes? : Value → Value → Option Bool) (known new : Option Value) :
    FailsOnly Fault.IsOfInput (sharper precedes? known new) := by
  unfold sharper
  split
  · exact failsOnly_ok
  · exact failsOnly_ok
  · split
    · exact failsOnly_ok
    · exact failsOnly_ok
    · exact failsOnly_error trivial

lemma failsOnly_merge (shapes : List Shape) : FailsOnly Fault.IsOfInput (merge shapes) := by
  unfold merge
  generalize ({} : Merged) = merged
  induction shapes generalizing merged with
  | nil => exact failsOnly_ok
  | cons shape shapes ih =>
    rw [List.foldlM_cons]
    refine FailsOnly.bind ?_ ih
    refine (failsOnly_sharper _ _ _).bind fun _ => ?_
    exact (failsOnly_sharper _ _ _).bind fun _ => failsOnly_ok

end Shape

/-! ### Validators -/

namespace Validator

/-- Making fails for reasons of the document only. -/
abbrev Behaved {α : Type} (x : Making α) : Prop :=
  x.Behaves (fun _ => True) Fault.IsOfInput fun _ => True

section

variable {α β : Type}

lemma Behaved.bind {x : Making α} {f : α → Making β} (hx : Behaved x)
    (hf : ∀ a, Behaved (f a)) : Behaved (x >>= f) :=
  Behaves.bind hx fun a _ => hf a

lemma behaved_pure {a : α} : Behaved (pure a) :=
  behaves_pure trivial

lemma behaved_throw {fault : Fault} (h : fault.IsOfInput) : Behaved (throw fault : Making α) :=
  behaves_throw h

lemma behaved_ofExcept {r : Except Fault α} (h : FailsOnly Fault.IsOfInput r) :
    Behaved (Traced.ofExcept r) :=
  behaves_of_failsOnly h

end

lemma failsOnly_checkPattern (pointer : String) (pattern : Option Value) :
    FailsOnly Fault.IsOfInput (checkPattern pointer pattern) := by
  unfold checkPattern
  split
  · exact failsOnly_ok
  · split
    · exact failsOnly_ok
    · exact failsOnly_error trivial
    · exact failsOnly_error trivial
    · exact failsOnly_error trivial
  · exact failsOnly_error trivial

lemma behaved_ofString (formats : Format.Registry) (pointer : String) (rules : StringRules) :
    Behaved (ofString formats pointer rules) := by
  have hformat (format : Option Value) : Behaved (useFormat formats pointer format) := by
    unfold useFormat
    split
    · exact behaved_pure
    · split
      · exact behaved_throw trivial
      · split
        · split
          · exact behaved_pure
          · split
            · exact behaved_pure
            · exact Behaved.bind (behaves_note trivial) fun _ => behaved_pure
        · exact Behaved.bind (behaves_note trivial) fun _ => behaved_pure
  refine (behaved_ofExcept (failsOnly_checkPattern _ _)).bind fun pattern => ?_
  refine (hformat _).bind fun use => ?_
  split <;> exact behaved_pure

section

variable {inner : Node → Making Validator} (hinner : ∀ node, Behaved (inner node))

include hinner

lemma behaved_ofBranches (branches : List Node) : Behaved (ofBranches inner branches) := by
  induction branches with
  | nil => exact behaved_pure
  | cons branch rest ih => exact (hinner branch).bind fun _ => ih.bind fun _ => behaved_pure

lemma behaved_ofProperties (required : List String) (properties : List (String × Node)) :
    Behaved (ofProperties inner required properties) := by
  induction properties with
  | nil => exact behaved_pure
  | cons property rest ih => exact (hinner _).bind fun _ => ih.bind fun _ => behaved_pure

lemma behaved_ofObject (properties : List (String × Node)) (required : List String)
    (additional : Additional Node) (rules : CountRules) :
    Behaved (ofObject inner properties required additional rules) := by
  unfold ofObject
  split
  · exact behaved_pure
  · exact behaved_pure
  · exact (hinner _).bind fun _ => behaved_pure
  · refine (behaved_ofProperties hinner _ _).bind fun fields => ?_
    split
    · exact (hinner _).bind fun _ => behaved_pure
    · exact behaved_pure
    · exact behaved_pure

lemma behaved_conjunction (nodes : List Node) : Behaved (conjunction inner nodes) := by
  have hdistinct (known : List Validator) : Behaved (ofDistinct inner known nodes) := by
    induction nodes generalizing known with
    | nil => exact behaved_pure
    | cons node rest ih =>
      refine (hinner node).bind fun v => ?_
      extract_lets next
      have hnext (_ : Unit) : Behaved (next ()) := ih _
      split
      · exact Behaved.bind (behaved_throw (show Fault.unhashable.IsOfInput from trivial)) hnext
      · exact hnext ()
  refine (hdistinct []).bind fun all => ?_
  extract_lets proper
  split <;> exact behaved_pure

lemma behaved_ofDeclared (required : List String) (declared : List (String × List Node)) :
    Behaved (ofDeclared inner required declared) := by
  induction declared with
  | nil => exact behaved_pure
  | cons entry rest ih =>
    exact (behaved_conjunction hinner _).bind fun _ => ih.bind fun _ => behaved_pure

lemma behaved_ofMerged (merged : Shape.Merged) : Behaved (ofMerged inner merged) := by
  unfold ofMerged
  extract_lets next
  have hnext (extra : Option Validator) : Behaved (next extra) := by
    unfold next
    split
    · exact behaved_pure
    · exact (behaved_ofDeclared hinner _ _).bind fun _ => behaved_pure
  split
  · exact behaved_pure.bind hnext
  · exact (behaved_conjunction hinner _).bind fun _ => behaved_pure.bind hnext

lemma behaved_ofAll (doc : Resolved) (branches : List Node) :
    Behaved (ofAll inner doc branches) := by
  unfold ofAll
  split
  · exact hinner _
  · refine (behaved_ofExcept (Shape.failsOnly_flatten _)).bind fun shapes => ?_
    split
    · refine (behaved_ofExcept (Shape.failsOnly_merge _)).bind fun merged => ?_
      exact behaved_ofMerged hinner merged
    · exact (behaved_ofBranches hinner _).bind fun _ => behaved_pure

lemma behaved_ofAny (branches : List Node) : Behaved (ofAny inner branches) := by
  refine (behaved_ofBranches hinner branches).bind fun vs => ?_
  split <;> exact behaved_pure

lemma behaved_ofLayer (ctx : Context) (node : Node) : Behaved (ofLayer inner ctx node) := by
  refine Behaved.bind ?_ fun _ => behaved_pure
  cases node with
  | string site rules => exact behaved_ofString _ _ _
  | number site integer rules =>
    refine behaved_ofExcept ?_
    unfold ofNumber
    split
    · exact rules.failsOnly_ofInteger.map
    · exact failsOnly_ok
  | array site items rules =>
    cases items with
    | none => exact behaved_pure
    | some schema => exact (hinner schema).bind fun _ => behaved_pure
  | object site properties required additional rules => exact behaved_ofObject hinner _ _ _ _
  | anyOf site branches | oneOf site branches => exact behaved_ofAny hinner branches
  | allOf site branches => exact behaved_ofAll hinner ctx.doc branches
  | reference site target =>
    rw [ofBare]
    split
    · exact behaved_pure
    · exact behaved_throw trivial
  | any _ | null _ | boolean _ | enum _ _ | literal _ _ => exact behaved_pure

end

lemma behaved_ofNode (ctx : Context) (node : Node) : Behaved (ofNode ctx node) := by
  have hwithin (n : Nat) (node : Node) : Behaved (ofNodeWithin ctx n node) := by
    induction n generalizing node with
    | zero => exact behaved_throw trivial
    | succ n ih => exact behaved_ofLayer ih ctx node
  exact hwithin _ _

lemma behaved_ofDocument (ctx : Context) (includeRoutes : Bool) :
    Behaved (ofDocument ctx includeRoutes) := by
  have hpairs (pairs : List (String × Node)) : Behaved (ofPairs ctx pairs) := by
    induction pairs with
    | nil => exact behaved_pure
    | cons p pairs ih => exact (behaved_ofNode ctx _).bind fun _ => ih.bind fun _ => behaved_pure
  have hroutes (routes : List (Route Node)) : Behaved (ofRoutes ctx routes) := by
    induction routes with
    | nil => exact behaved_pure
    | cons r routes ih =>
      exact (hpairs _).bind fun _ => (hpairs _).bind fun _ => ih.bind fun _ => behaved_pure
  exact (hpairs _).bind fun _ => (hroutes _).bind fun _ => behaved_pure

end Validator

/-! ### The whole run -/

/-- A resolution fails for reasons of its documents, where documents are refused for faults of
schemas only. -/
lemma Schema.failsOnly_resolve {lib : Library}
    (hfetch : ∀ {uri fault}, lib.fetch uri = .error fault → ∃ f, fault = .schema f) :
    FailsOnly Fault.IsOfInput (resolve lib).outcome := by
  have hlib : lib.Confined (fun _ _ => True) (fun _ => True) := by constructor <;> simp
  have hE : IsReason lib Fault.IsOfInput := by
    refine ⟨fun _ => trivial, trivial, trivial, fun _ => trivial, fun _ => trivial, fun h => ?_⟩
    obtain ⟨fault, rfl⟩ := hfetch h
    trivial
  intro fault h
  obtain ⟨-, hfails, -⟩ := steers_resolveAll hlib hE (.inl trivial) (fun _ _ _ _ => trivial) {}
    ⟨List.nodup_nil, nofun⟩
  exact hfails fault (outcome_resolve_eq_error_iff.1 h)

namespace Generate

variable {lib : Library} {d : Declarations}

lemma outcome_resolved_eq_ok_iff {doc : Resolved} :
    (resolved lib).outcome = .ok doc ↔ (Schema.resolve lib).outcome = .ok doc := by
  rw [resolved, outcome_bind_eq_ok_iff]
  constructor
  · rintro ⟨doc', hdoc, h⟩
    cases h
    exact hdoc
  · exact fun h => ⟨doc, h, rfl⟩

/-- The declarations of a document are built from the validators of its schemas. -/
lemma exists_of_declarations {config : Config} (h : (declarations lib config).outcome = .ok d) :
    ∃ doc t, (Schema.resolve lib).outcome = .ok doc ∧
      (Validator.ofDocument ⟨doc, config.formats⟩ config.includeRoutes).outcome = .ok t ∧
      Declarations.ofValidators doc t Validator.fingerprint config.registry = .ok d := by
  obtain ⟨doc, hdoc, h⟩ := outcome_bind_eq_ok_iff.1 h
  obtain ⟨t, ht, h⟩ := outcome_bind_eq_ok_iff.1 h
  obtain ⟨_, hd, h⟩ := outcome_bind_eq_ok_iff.1 h
  cases h
  exact ⟨doc, t, outcome_resolved_eq_ok_iff.1 hdoc, ht, hd⟩

/-- Declaring the validators of a document does not fail. -/
lemma failsOnly_declarations
    (hfetch : ∀ uri fault, lib.fetch uri = .error fault → ∃ f, fault = .schema f) (config : Config) :
    FailsOnly Fault.IsOfInput (declarations lib config).outcome := by
  refine failsOnly_bind ?_ fun doc hdoc => ?_
  · exact failsOnly_bind (Schema.failsOnly_resolve (hfetch _ _)) fun _ _ => failsOnly_ok
  refine failsOnly_bind ?_ fun t ht => ?_
  · exact (Validator.behaved_ofDocument _ _).failed
  obtain ⟨d, hd, -⟩ := Declarations.exists_ofValidators (outcome_resolved_eq_ok_iff.1 hdoc) ht
    Validator.fingerprint
  rw [hd]
  exact failsOnly_ok

lemma isSound_of_declarations {config : Config} (h : (declarations lib config).outcome = .ok d) :
    d.IsMade ∧ d.IsSound := by
  obtain ⟨doc, t, hdoc, ht, hd⟩ := exists_of_declarations h
  obtain ⟨d₀, hd₀, hmade, hentries, hroutes⟩ :=
    Declarations.exists_ofValidators hdoc ht Validator.fingerprint
  cases hd₀.symm.trans hd
  exact ⟨hmade, Declarations.isSound_of_atTop hmade hentries hroutes⟩

/-- Declarations that a module can be made of fail to be ordered only for a cycle. -/
lemma failsOnly_module (hmade : d.IsMade) (hsound : d.IsSound) (config : Config) :
    FailsOnly Fault.IsOfInput (module d config).outcome := by
  refine failsOnly_bind (fun fault hfault => ?_) fun components hcomponents => ?_
  · rcases Declarations.order_outcome_cases hmade.nodup hmade.eagerAmong with
      ⟨cycle, pointer, h, -⟩ | ⟨h, -⟩
    · cases h.symm.trans hfault
      trivial
    · cases h.symm.trans hfault
  · extract_lets next
    have hnext (lookup : Option Module.Lookup) :
        FailsOnly Fault.IsOfInput (next lookup).outcome := by
      obtain ⟨m, hm, -⟩ := hsound.module components lookup config hcomponents
      show FailsOnly _
        (Traced.ofExcept (Module.ofComponents components lookup config) >>= _).outcome
      rw [hm]
      exact failsOnly_ok
    split
    · obtain ⟨tables, htables⟩ := hsound.lookup
      rw [htables]
      exact hnext (some tables)
    · exact hnext none

end Generate

/-- A document whose schema stands in another one, with a list in the place of a format. -/
def listedFormat : Library :=
  Library.ofTable ""
    (.object [("components", .object [("schemas", .object
      [("S", .object [("$ref", .str "more#/S")])])])])
    [("more", .object [("S", .object
      [("type", .str "string"), ("format", .list [.str "email"])])])]

end ApiSchema
