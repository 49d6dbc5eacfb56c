import ApiSchema.Proofs.Schema.Listed
import ApiSchema.Proofs.Value.Parts
import ApiSchema.Schema.Route

/-!
# What readings make, what they ask for, and how they fail

A reading looks at values of the documents of a library only, so the targets that it asks for are
those of references found there, and puts schemas together in a few ways. Main statements: whatever
these ways keep holds of every schema that is read, and of all schemas of the routes of a document,
together with the links noted for them; and readings ask for no other targets, and fail for one of a
few reasons. References that are followed on the spot never come to an end without one of these, if
there are no more targets than the limit of the library.
-/

namespace ApiSchema

open List Except

/-! ### Libraries seen from inside -/

/-- A library is confined to values `K` of its documents, each with the document it stands in: no
part and no document leads out of them, and their references lead to targets `M`. -/
structure Library.Confined (lib : Library) (K : String → Value → Prop) (M : String → Prop) :
    Prop where
  root : K lib.base lib.root
  fetch : ∀ {uri : String} {doc : Value}, lib.fetch uri = .ok doc → K uri doc
  part : ∀ {uri : String} {v c : Value}, K uri v → c ∈ v.parts → K uri c
  empty : ∀ {uri : String} {v : Value}, K uri v → K uri (.map [])
  target : ∀ {uri ref referrer : String} {v : Value} {place : Location}, K uri v →
    v.get? "$ref" = some (.str ref) → lib.locate ref uri referrer = .ok place → M place.target

/-- Reasons for a reading to fail. -/
structure Schema.IsReason (lib : Library) (E : Fault → Prop) : Prop where
  schema : ∀ fault, E (.schema fault)
  unhashable : E .unhashable
  overflow : E .overflow
  noNumber : ∀ text, E (.noNumber text)
  malformedUri : ∀ problem, E (.malformedUri problem)
  fetch : ∀ {uri fault}, lib.fetch uri = .error fault → E fault

/-- There are no more targets than the limit of the library, or having no end is a reason. -/
def Library.Suffices (lib : Library) (M : String → Prop) (E : Fault → Prop) : Prop :=
  E .endless ∨ ∃ targets : List String, (∀ target, M target → target ∈ targets) ∧
    targets.length ≤ lib.limit

/-- A link to a target in `M` that is located from a document in `K`. -/
def Link.IsIn (lib : Library) (K : String → Value → Prop) (M : String → Prop) (link : Link) : Prop :=
  M link.target ∧ ∃ doc v fragment, K doc v ∧
    lib.locate link.ref doc link.referrer = .ok ⟨link.target, link.uri, fragment⟩

/-! ### Values of documents -/

namespace Pointer

variable {node : Value} {token : String} {fault : Fault}

lemma mem_parts_of_step {next : Value} (h : step node token = .ok (some next)) :
    next ∈ node.parts := by
  unfold step at h
  split at h
  next entries => exact Value.mem_of_find? (Except.ok.inj h)
  next items =>
    split at h
    · cases h
    · obtain ⟨i, -, hi⟩ := map_eq_ok_iff.1 h
      exact mem_of_getElem? hi
  next => cases h

lemma of_step_eq_error (h : step node token = .error fault) : ∃ text, fault = .noNumber text := by
  have hindex : Except.FailsOnly (fun fault => ∃ text, fault = .noNumber text) (index? token) := by
    unfold index?
    split
    · split
      · exact failsOnly_ok
      · exact failsOnly_error ⟨token, rfl⟩
    · exact failsOnly_error ⟨token, rfl⟩
  unfold step at h
  split at h
  · cases h
  · split at h
    · cases h
    · exact hindex.map fault h
  · cases h

lemma of_follow_eq_error {tokens : List String} (h : follow node tokens = .error fault) :
    ∃ text, fault = .noNumber text := by
  induction tokens generalizing node with
  | nil => cases h
  | cons token tokens ih =>
    rw [follow] at h
    split at h
    · exact ih h
    · cases h
    next hstep =>
      cases h
      exact of_step_eq_error hstep

end Pointer

namespace Schema

lemma inside_mediaSchema {content : List (Scalar × Value)} {pointer : String} {schema : Value}
    {place : String} (h : mediaSchema content pointer = (schema, place)) (hnull : schema ≠ .null) :
    schema.Inside (.map content) := by
  unfold mediaSchema at h
  cases hfound : (preferredTypes content).findSome? _ with
  | none =>
    rw [hfound] at h
    cases h
    exact absurd rfl hnull
  | some found =>
    rw [hfound] at h
    cases h
    obtain ⟨type, -, htype⟩ := List.exists_of_findSome?_eq_some hfound
    split at htype
    next media hmedia =>
      obtain ⟨schema', hschema, h⟩ := Option.map_eq_some_iff.1 htype
      cases h
      exact .of_mem_parts (y := .map media) (Value.mem_of_find? hschema)
        (.single (Value.mem_of_find? hmedia))
    next => cases htype

lemma Parameter.inside_schema (p : Parameter) (h : p.schema.1 ≠ .null) :
    p.schema.1.Inside p.part.raw := by
  unfold Parameter.schema at h ⊢
  split at h
  next content hschema hcontent =>
    have hparts : .map content ∈ p.part.raw.parts :=
      hcontent ▸ Value.mem_parts_of_get (by rw [hcontent]; exact nofun)
    exact Relation.TransGen.trans (inside_mediaSchema rfl h) (.single hparts)
  next => exact .single (Value.mem_parts_of_get h)

/-- No two parameters have the same name and location. -/
def Parameter.Distinct (ps : List Parameter) : Prop :=
  ps.Pairwise fun p q => p.name = q.name → p.location ≠ q.location

/-- A merge has parameters of both lists, and keeps them distinct. -/
lemma Parameter.merge_spec {earlier : List Parameter} (h : Distinct earlier)
    (later : List Parameter) :
    (∀ p ∈ merge earlier later, p ∈ earlier ∨ p ∈ later) ∧ Distinct (merge earlier later) := by
  have hmem (p : Parameter) (ps : List Parameter) : ∀ q ∈ p.put ps, q = p ∨ q ∈ ps := by
    induction ps with
    | nil => exact fun q hq => .inl (mem_singleton.1 hq)
    | cons r ps ih =>
      rw [put]
      split <;> grind
  have hput (p : Parameter) {ps : List Parameter} (hps : Distinct ps) : Distinct (p.put ps) := by
    induction ps with
    | nil => exact pairwise_singleton _ _
    | cons r ps ih =>
      obtain ⟨hr, hps⟩ := pairwise_cons.1 hps
      rw [put]
      split
      next heq =>
        refine pairwise_cons.2 ⟨fun q hq => ?_, hps⟩
        rw [← heq.1, ← heq.2]
        exact hr q hq
      next hne =>
        refine pairwise_cons.2 ⟨fun q hq => ?_, ih hps⟩
        rcases hmem p ps q hq with rfl | hq
        · exact fun hname hlocation => hne ⟨hname, hlocation⟩
        · exact hr q hq
  unfold merge
  induction later generalizing earlier with
  | nil => exact ⟨fun p hp => .inl hp, h⟩
  | cons p later ih =>
    obtain ⟨hsub, hdistinct⟩ := ih (hput p h)
    refine ⟨fun q hq => ?_, hdistinct⟩
    rcases hsub q hq with hq | hq
    · rcases hmem p earlier q hq with rfl | hq
      · exact .inr mem_cons_self
      · exact .inl hq
    · exact .inr (mem_cons_of_mem _ hq)

/-- Among the parameters of one location names are distinct. -/
lemma Parameter.Distinct.nodup_names {ps : List Parameter} (h : Distinct ps) (location : String) :
    ((ps.filter (·.location == location)).map (·.name)).Nodup := by
  refine (pairwise_map.2 ((h.filter _).imp_of_mem ?_))
  intro p q hp hq hpq hname
  have hp := beq_iff_eq.1 (mem_filter.1 hp).2
  have hq := beq_iff_eq.1 (mem_filter.1 hq).2
  exact hpq hname (hp.trans hq.symm)

end Schema

namespace Library

variable {lib : Library} {K : String → Value → Prop} {M : String → Prop} {E : Fault → Prop}

/-- Among targets that are met only once there is no room for more than the limit. -/
lemma Suffices.endless (h : lib.Suffices M E) {seen : List String} (hnodup : seen.Nodup)
    (hseen : ∀ target ∈ seen, M target) (hlimit : lib.limit < seen.length) : E .endless := by
  rcases h with h | ⟨targets, htargets, hlength⟩
  · exact h
  · have hsub : seen ⊆ targets := fun target h => htargets target (hseen target h)
    have := (hnodup.subperm hsub).length_le
    omega

namespace Confined

variable (hlib : lib.Confined K M) {uri : String} {v : Value}

include hlib

lemma inside (hv : K uri v) {c : Value} (hc : c.Inside v) : K uri c := by
  induction hc using Relation.TransGen.head_induction_on with
  | single h => exact hlib.part hv h
  | head h _ ih => exact hlib.part ih h

lemma follow (hv : K uri v) {tokens : List String} {w : Value}
    (h : Pointer.follow v tokens = .ok (some w)) : K uri w := by
  induction tokens generalizing v with
  | nil =>
    cases h
    exact hv
  | cons token tokens ih =>
    rw [Pointer.follow] at h
    split at h
    next hstep => exact ih (hlib.part hv (Pointer.mem_parts_of_step hstep)) h
    next => cases h
    next => cases h

lemma media (hv : K uri v) {content : List (Scalar × Value)}
    (hcontent : v.get "content" = .map content) {schema : Value} {pointer place : String}
    (h : Schema.mediaSchema content pointer = (schema, place)) (hnull : schema ≠ .null) :
    K uri schema := by
  have hparts : .map content ∈ v.parts :=
    hcontent ▸ Value.mem_parts_of_get (by rw [hcontent]; exact nofun)
  exact hlib.inside (hlib.part hv hparts) (Schema.inside_mediaSchema h hnull)

lemma mappingAt (hv : K uri v) {key : String} {fault : Fault} {entries : List (Scalar × Value)}
    (h : Schema.mappingAt key v fault = .ok entries) : ∀ c ∈ entries.map (·.2), K uri c := by
  unfold Schema.mappingAt at h
  split at h
  next es hes =>
    cases h
    have hparts : .map entries ∈ v.parts :=
      hes ▸ Value.mem_parts_of_get (by rw [hes]; exact nofun)
    exact fun c hc => hlib.part (hlib.part hv hparts) hc
  next =>
    split at h
    · cases h
      exact nofun
    · cases h

end Confined

end Library

namespace Schema

open Traced

variable {lib : Library} {K : String → Value → Prop} {M : String → Prop} {E : Fault → Prop}

/-! ### Constraints -/

section

variable (hE : IsReason lib E)

include hE

lemma failsOnly_readBound (raw : Value) (pointer key : String) :
    Except.FailsOnly E (readBound raw pointer key) := by
  unfold readBound
  split
  · exact failsOnly_ok
  · split
    · exact failsOnly_ok
    · exact failsOnly_error (hE.schema _)

lemma failsOnly_readExclusive (raw : Value) (pointer key : String) (inclusive : Option Number) :
    Except.FailsOnly E (readExclusive raw pointer key inclusive) := by
  unfold readExclusive
  split
  · exact failsOnly_ok
  · exact failsOnly_ok
  · split
    · exact failsOnly_ok
    · exact failsOnly_error (hE.schema _)

lemma failsOnly_readNumberRules (raw : Value) (pointer : String) :
    Except.FailsOnly E (readNumberRules raw pointer) := by
  refine (failsOnly_readBound hE raw pointer _).bind fun _ => ?_
  refine (failsOnly_readBound hE raw pointer _).bind fun _ => ?_
  refine (failsOnly_readBound hE raw pointer _).bind fun _ => ?_
  refine (failsOnly_readExclusive hE raw pointer _ _).bind fun _ => ?_
  exact (failsOnly_readExclusive hE raw pointer _ _).bind fun _ => failsOnly_ok

lemma failsOnly_hasType (s : Scalar) (type : String) : Except.FailsOnly E (hasType s type) := by
  unfold hasType
  split
  case h_4 i =>
    split
    · split
      · exact failsOnly_ok
      · exact failsOnly_error hE.overflow
    · exact failsOnly_ok
  all_goals exact failsOnly_ok

lemma failsOnly_hasSomeType (s : Scalar) (types : List String) :
    Except.FailsOnly E (hasSomeType s types) := by
  induction types with
  | nil => exact failsOnly_ok
  | cons type types ih =>
    rw [hasSomeType]
    split
    · exact failsOnly_ok
    · exact ih
    next fault h => exact failsOnly_error (failsOnly_hasType hE s type fault h)

lemma failsOnly_ofSomeType (types : List String) (scalars : List Scalar) :
    Except.FailsOnly E (ofSomeType types scalars) := by
  induction scalars with
  | nil => exact failsOnly_ok
  | cons s scalars ih =>
    refine (failsOnly_hasSomeType hE s types).bind fun _ => ?_
    exact ih.bind fun _ => failsOnly_ok

lemma failsOnly_readScalars (pointer : String) (vs : List Value) :
    Except.FailsOnly E (readScalars pointer vs) := by
  induction vs with
  | nil => exact failsOnly_ok
  | cons v vs ih =>
    cases v with
    | scalar s => exact ih.bind fun _ => failsOnly_ok
    | list _ | tuple _ | map _ => exact failsOnly_error (hE.schema _)

lemma failsOnly_readTypeName (pointer : String) (v : Value) :
    Except.FailsOnly E (readTypeName pointer v) := by
  unfold readTypeName
  split
  · split
    · exact failsOnly_ok
    · exact failsOnly_error (hE.schema _)
  · exact failsOnly_error (hE.schema _)

lemma failsOnly_readDeclared (pointer : String) (vs : List Value) :
    Except.FailsOnly E (readDeclared pointer vs) := by
  induction vs with
  | nil => exact failsOnly_ok
  | cons v vs ih =>
    unfold readDeclared
    extract_lets next
    have hnext (_ : Unit) : Except.FailsOnly E (next ()) := by
      refine (failsOnly_readTypeName hE pointer v).bind fun _ => ?_
      exact ih.bind fun _ => failsOnly_ok
    split
    · exact (failsOnly_error hE.unhashable).bind hnext
    · exact hnext ()

lemma failsOnly_readListed (raw : Value) (pointer : String) :
    Except.FailsOnly E (readListed raw pointer) := by
  unfold readListed
  extract_lets single keyword finish next
  have hnext (listed : List Value) : Except.FailsOnly E (next listed) := by
    refine (failsOnly_readScalars hE pointer listed).bind fun scalars => ?_
    split
    · exact failsOnly_ok
    · refine (failsOnly_readDeclared hE pointer _).bind fun names => ?_
      refine (failsOnly_ofSomeType hE names scalars).bind fun kept => ?_
      split
      · exact failsOnly_error (hE.schema _)
      · exact failsOnly_ok
  clear_value next single
  split
  · exact hnext _
  · split
    · exact hnext _
    · exact failsOnly_error (hE.schema _)

omit hE in
lemma failsOnly_mappingAt (key : String) (raw : Value) {fault : Fault} (h : E fault) :
    Except.FailsOnly E (mappingAt key raw fault) := by
  unfold mappingAt
  split
  · exact failsOnly_ok
  · split
    · exact failsOnly_ok
    · exact failsOnly_error h

lemma failsOnly_locate (ref doc referrer : String) :
    Except.FailsOnly E (lib.locate ref doc referrer) := by
  unfold Library.locate
  generalize Text.cutAt '#' ref.toList = cut
  obtain ⟨before, after⟩ := cut
  dsimp only
  split
  · exact failsOnly_error (hE.malformedUri _)
  · split
    · exact failsOnly_error (hE.schema _)
    · exact failsOnly_ok

end

end Schema

/-! ### What reading makes -/

/-- Schemas that are made of no others. -/
inductive Node.IsLeaf : Node → Prop
  | any (site : Site) : IsLeaf (.any site)
  | null (site : Site) : IsLeaf (.null site)
  | boolean (site : Site) : IsLeaf (.boolean site)
  | string (site : Site) (rules : StringRules) : IsLeaf (.string site rules)
  | number (site : Site) (integer : Bool) (rules : NumberRules) :
      IsLeaf (.number site integer rules)
  | array (site : Site) (rules : ArrayRules) : IsLeaf (.array site none rules)
  | object (site : Site) : IsLeaf (.object site [] [] .unstated {})
  | enum (site : Site) (values : List Scalar) : IsLeaf (.enum site values)
  | literal (site : Site) (values : List Scalar) : IsLeaf (.literal site values)

/-- The schema of additional properties, if there is one. -/
def Additional.nodes : Additional Node → List Node
  | .typed node => [node]
  | _ => []

/-- The schemas of a route. -/
def Route.nodes (r : Route Node) : List Node :=
  (r.request ++ r.responses).map (·.2)

namespace Schema

variable {N : List Link → Node → Prop} {links : List Link} {node : Node} {nodes : List Node}

lemma isLeaf_bareType (pointer type : String) : (bareType pointer type).IsLeaf := by
  unfold bareType
  split_ifs <;> constructor

/-- Schemas in order, each with links noted for it. -/
inductive Pieces (N : List Link → Node → Prop) : List Link → List Node → Prop
  | nil : Pieces N [] []
  | cons {links links' : List Link} {node : Node} {nodes : List Node} (hnode : N links node)
    (hnodes : Pieces N links' nodes) : Pieces N (links ++ links') (node :: nodes)

lemma pieces_singleton : Pieces N links [node] ↔ N links node := by
  constructor
  · rintro (_ | ⟨hnode, ⟨⟩⟩)
    rwa [append_nil]
  · intro h
    simpa using Pieces.cons h .nil

lemma Pieces.append {links' : List Link} {nodes' : List Node} (h : Pieces N links nodes)
    (h' : Pieces N links' nodes') : Pieces N (links ++ links') (nodes ++ nodes') := by
  induction h with
  | nil => exact h'
  | cons hnode _ ih =>
    rw [append_assoc]
    exact .cons hnode ih

lemma Pieces.exists_of_mem (h : Pieces N links nodes) (hnode : node ∈ nodes) :
    ∃ links', N links' node := by
  induction h with
  | nil => cases hnode
  | cons hfirst _ ih =>
    rcases mem_cons.1 hnode with rfl | hnode
    · exact ⟨_, hfirst⟩
    · exact ih hnode

/-- A property of schemas with the links noted for them that every way of reading keeps. -/
structure Forms (K : String → Value → Prop) (N : List Link → Node → Prop) : Prop where
  leaf : ∀ {node : Node}, node.IsLeaf → N [] node
  reference : ∀ (link : Link) (site : Site), N [link] (.reference site link.target)
  array : ∀ {links : List Link} {node : Node}, N links node → ∀ site rules,
    N links (.array site (some node) rules)
  object : ∀ {doc : String} {entries : List (Scalar × Value)} {links links' : List Link}
    {declared : List (String × Node)} {additional : Additional Node}, K doc (.map entries) →
    declared.map (·.1) = entries.map (·.1.display) → Pieces N links (declared.map (·.2)) →
    Pieces N links' additional.nodes → ∀ site pointer required rules, N (links ++ links')
      (.object site (addRequired pointer declared required) (Text.distinct required) additional rules)
  group : ∀ {links : List Link} {properties : List (String × Node)} {required : List String},
    (properties.map (·.1)).Nodup → required ⊆ properties.map (·.1) →
    Pieces N links (properties.map (·.2)) → ∀ site,
    N links (.object site properties required .unstated {})
  anyOf : ∀ {links : List Link} {nodes : List Node}, Pieces N links nodes → ∀ site,
    N links (.anyOf site nodes)
  oneOf : ∀ {links : List Link} {nodes : List Node}, Pieces N links nodes → ∀ site,
    N links (.oneOf site nodes)
  allOf : ∀ {links : List Link} {nodes : List Node}, nodes ≠ [] → Pieces N links nodes →
    ∀ site, N links (.allOf site nodes)
  orNull : ∀ {links : List Link} {node : Node}, N links node → N links node.orNull

/-- Readings as such make schemas of any form. -/
lemma forms_true (K : String → Value → Prop) : Forms K fun _ _ => True := by
  constructor <;> intros <;> trivial

lemma isReason_true (lib : Library) : IsReason lib fun _ => True := by
  constructor <;> intros <;> trivial

lemma suffices_true (lib : Library) : lib.Suffices (fun _ => True) fun _ => True :=
  .inl trivial

/-- What is known of a library when its documents are read. -/
structure Reader where
  lib : Library
  /-- Values of documents, each with the document it stands in. -/
  known : String → Value → Prop
  /-- What references lead to. -/
  target : String → Prop
  /-- Reasons to fail. -/
  reason : Fault → Prop
  /-- Schemas as they are made, with the links noted for them. -/
  made : List Link → Node → Prop
  confined : lib.Confined known target
  reasons : IsReason lib reason
  forms : Forms known made
  enough : lib.Suffices target reason

/-- Every library is known to hold some values, and to fail for some reasons. -/
def Reader.free (lib : Library) {N : List Link → Node → Prop} (h : Forms (fun _ _ => True) N) :
    Reader where
  lib := lib
  known _ _ := True
  target _ := True
  reason _ := True
  made := N
  confined := by constructor <;> intros <;> trivial
  reasons := isReason_true lib
  forms := h
  enough := suffices_true lib

/-! ### How readings go -/

/-- The links among demands. -/
def linksIn (demands : List Demand) : List Link :=
  demands.filterMap fun demand =>
    match demand with
    | .document _ => none
    | .schema link => some link

/-- The reading asks for known targets only, fails for a reason, and a result has the property `P`,
together with the links noted for it. -/
structure Reader.Reads (r : Reader) {α : Type} (P : List Link → α → Prop) (x : Reading α) : Prop where
  noted : ∀ link, .schema link ∈ x.trace → link.IsIn r.lib r.known r.target
  failed : ∀ fault, x.outcome = .error fault → r.reason fault
  ended : ∀ a, x.outcome = .ok a → P (linksIn x.trace) a

/-- The reading notes no links. -/
abbrev Reader.ReadsAlone (r : Reader) {α : Type} (P : α → Prop) (x : Reading α) : Prop :=
  r.Reads (fun links a => links = [] ∧ P a) x

namespace Reader

variable {r : Reader}

variable {part : Part} {ps : List Parameter} {links : List Link} {acc : Routing}

section

variable {α β : Type} {P : List Link → α → Prop} {Q : List Link → β → Prop}

variable {x : Reading α} {f : α → Reading β} {R : α → Prop} {a : α}

lemma Reads.bind (hx : r.Reads P x)
    (hf : ∀ links a, P links a → r.Reads (fun links' b => Q (links ++ links') b) (f a)) :
    r.Reads Q (x >>= f) := by
  obtain ⟨trace, outcome⟩ := x
  cases outcome with
  | error fault => exact ⟨hx.noted, fun _ h => by cases h; exact hx.failed fault rfl, nofun⟩
  | ok a =>
    have ha := hf _ a (hx.ended a rfl)
    refine ⟨fun link hlink => ?_, ha.failed, fun b hb => ?_⟩
    · rcases mem_append.1 hlink with hlink | hlink
      · exact hx.noted link hlink
      · exact ha.noted link hlink
    · have hb := ha.ended b hb
      rwa [linksIn, linksIn, ← filterMap_append] at hb

lemma ReadsAlone.then (hx : r.ReadsAlone R x) (hf : ∀ a, R a → r.Reads Q (f a)) :
    r.Reads Q (x >>= f) :=
  Reads.bind hx fun _ a ⟨hlinks, ha⟩ => hlinks ▸ hf a ha

lemma reads_pure (h : P [] a) : r.Reads P (pure a) :=
  ⟨nofun, nofun, fun _ hb => Except.ok.inj hb ▸ h⟩

lemma reads_throw {fault : Fault} (h : r.reason fault) : r.Reads P (throw fault) :=
  ⟨nofun, fun _ hf => Except.error.inj hf ▸ h, nofun⟩

lemma readsAlone_ofExcept {x : Except Fault α} (hfailed : Except.FailsOnly r.reason x)
    (hended : ∀ a, x = .ok a → R a) : r.ReadsAlone R (Traced.ofExcept x) :=
  ⟨nofun, hfailed, fun a ha => ⟨rfl, hended a ha⟩⟩

lemma reads_foldlM {f : α → β → Reading α} {bs : List β}
    (hf : ∀ links a, ∀ b ∈ bs, P links a → r.Reads (fun links' a' => P (links ++ links') a') (f a b))
    {links : List Link} (ha : P links a) :
    r.Reads (fun links' a' => P (links ++ links') a') (bs.foldlM f a) := by
  induction bs generalizing links a with
  | nil => exact reads_pure (by rwa [append_nil])
  | cons b bs ih =>
    rw [foldlM_cons]
    refine (hf links a b mem_cons_self ha).bind fun links' a' ha' => ?_
    simp only [← append_assoc]
    exact ih (fun links a c hc => hf links a c (mem_cons_of_mem _ hc)) ha'

/-- One schema stands for itself, several for their conjunction. -/
lemma reads_conjunction (links : List Link) (nodes : List Node) (pointer : String)
    (nullable onlyNull : Bool) : Pieces r.made links nodes →
    r.Reads (fun links' node => r.made (links ++ links') node) (match nodes with
      | [] => pure (if onlyNull then .null ⟨pointer, false⟩ else .any ⟨pointer, false⟩)
      | [node] => pure (if nullable then node.orNull else node)
      | nodes =>
        have node := Node.allOf ⟨pointer, false⟩ nodes
        pure (if nullable then node.orNull else node) : Reading Node) := by
  intro h
  have horNull {node : Node} (h : r.made links node) :
      r.made (links ++ []) (if nullable then node.orNull else node) := by
    rw [append_nil]
    split
    · exact r.forms.orNull h
    · exact h
  rcases nodes with _ | ⟨node, _ | ⟨second, rest⟩⟩
  · cases h
    refine reads_pure (r.forms.leaf ?_)
    split
    · exact .null _
    · exact .any _
  · exact reads_pure (horNull (pieces_singleton.1 h))
  · exact reads_pure (horNull (r.forms.allOf (cons_ne_nil _ _) h _))

end

/-! ### One layer -/

section

variable {inner : Value → String → Reading Node} {raw : Value} {pointer : String}
  (hinner : ∀ c, c.Inside raw → ∀ place, r.Reads r.made (inner c place))

include hinner

lemma reads_readBranches (place : String) (i : Nat) {members : List Value}
    (h : ∀ c ∈ members, c.Inside raw) :
    r.Reads (fun links nodes => nodes.length = members.length ∧ Pieces r.made links nodes)
      (readBranches inner place i members) := by
  induction members generalizing i with
  | nil => exact reads_pure ⟨rfl, .nil⟩
  | cons member rest ih =>
    refine (hinner member (h _ mem_cons_self) _).bind fun links node hnode => ?_
    refine (ih (i + 1) fun c hc => h c (mem_cons_of_mem _ hc)).bind
      fun links' nodes hnodes => reads_pure ⟨by simp [hnodes.1], ?_⟩
    rw [append_nil]
    exact .cons hnode hnodes.2

lemma reads_readProperties (place : String) {entries : List (Scalar × Value)}
    (h : ∀ c ∈ entries.map (·.2), c.Inside raw) :
    r.Reads (fun links properties => properties.map (·.1) = entries.map (·.1.display) ∧
      Pieces r.made links (properties.map (·.2))) (readProperties inner place entries) := by
  induction entries with
  | nil => exact reads_pure ⟨rfl, .nil⟩
  | cons entry rest ih =>
    refine (hinner entry.2 (h _ mem_cons_self) _).bind fun links node hnode => ?_
    refine (ih fun c hc => h c (mem_cons_of_mem _ hc)).bind
      fun links' nodes hnodes => reads_pure ⟨by simp [hnodes.1], ?_⟩
    rw [append_nil]
    exact .cons hnode hnodes.2

lemma reads_readAdditional :
    r.Reads (fun links additional => Pieces r.made links additional.nodes)
      (readAdditional inner raw pointer) := by
  unfold readAdditional
  split
  · exact reads_pure .nil
  · exact reads_pure (by split <;> exact .nil)
  · exact reads_pure .nil
  next hnull _ _ =>
    refine (hinner _ ?_ _).bind fun links node hnode => reads_pure ?_
    · exact Value.inside_of_mem_parts (Value.mem_parts_of_get hnull)
    · rw [append_nil]
      exact pieces_singleton.2 hnode

lemma reads_readArray : r.Reads r.made (readArray inner raw pointer) := by
  unfold readArray
  split
  · exact reads_pure (r.forms.leaf (.array _ _))
  · exact reads_throw (r.reasons.schema _)
  next hnull _ =>
    refine (hinner _ ?_ _).bind fun links node hnode => reads_pure ?_
    · exact Value.inside_of_mem_parts (Value.mem_parts_of_get hnull)
    · rw [append_nil]
      exact r.forms.array hnode _ _

lemma reads_readCombination (keyword : String) {make : Site → List Node → Node}
    (hmake : ∀ {links nodes}, nodes ≠ [] → Pieces r.made links nodes →
      ∀ site, r.made links (make site nodes)) :
    r.Reads (Pieces r.made) (readCombination inner raw pointer keyword make) := by
  unfold readCombination
  split
  · exact reads_pure .nil
  next m ms hms =>
    refine (reads_readBranches hinner _ _ fun c hc => ?_).bind fun links nodes hnodes => ?_
    · exact .of_mem_parts (y := .list (m :: ms)) hc (.single (Value.mem_parts_of_get? hms))
    · refine reads_pure (pieces_singleton.2 (hmake ?_ ?_ _))
      · exact ne_nil_of_length_pos (by simp [hnodes.1])
      · simpa using hnodes.2
  · exact reads_throw (r.reasons.schema _)

variable {doc : String} (hraw : r.known doc raw)

include hraw

lemma reads_readObject : r.Reads r.made (readObject inner raw pointer) := by
  unfold readObject
  extract_lets properties next
  have hnext (entries : List (Scalar × Value)) (hentries : r.known doc (.map entries))
      (h : ∀ c ∈ entries.map (·.2), c.Inside raw) : r.Reads r.made (next entries) := by
    unfold next
    extract_lets next
    have hnext (required : List Value) : r.Reads r.made (next required) := by
      refine (reads_readProperties hinner _ h).bind fun links declared hdeclared => ?_
      refine (reads_readAdditional hinner).bind fun links' additional hadditional => reads_pure ?_
      rw [append_nil]
      exact r.forms.object hentries hdeclared.1 hdeclared.2 hadditional _ _ _ _
    split
    · exact hnext _
    · split
      · exact hnext _
      · exact reads_throw (r.reasons.schema _)
  have hproperties : raw.get "properties" = properties := rfl
  clear_value properties next
  split
  next es =>
    have hparts : .map es ∈ raw.parts := hproperties ▸
      Value.mem_parts_of_get (by rw [hproperties]; exact nofun)
    exact hnext es (r.confined.part hraw hparts) fun c hc =>
      .of_mem_parts (y := .map es) hc (.single hparts)
  next =>
    split
    · exact hnext [] (r.confined.empty hraw) nofun
    · exact reads_throw (r.reasons.schema _)

lemma reads_readTyped (type : Value) : r.Reads r.made (readTyped inner raw type pointer) := by
  unfold readTyped
  split
  next fault hfault =>
    exact reads_throw (failsOnly_readTypeName r.reasons pointer type fault hfault)
  next =>
    split_ifs
    · exact reads_pure (r.forms.leaf (.string _ _))
    · refine (readsAlone_ofExcept (R := fun _ => True)
        (failsOnly_readNumberRules r.reasons raw pointer) fun _ _ => trivial).then fun _ _ => ?_
      exact reads_pure (r.forms.leaf (.number _ _ _))
    · exact reads_pure (r.forms.leaf (.boolean _))
    · exact reads_pure (r.forms.leaf (.null _))
    · exact reads_readArray hinner
    · exact reads_readObject hinner hraw

lemma reads_readEveryType (types : List (String × List String)) :
    r.Reads (Pieces r.made) (readEveryType inner raw pointer types) := by
  induction types with
  | nil => exact reads_pure .nil
  | cons type rest ih =>
    unfold readEveryType
    extract_lets next
    have hnext (links : List Link) (node : Node) (hnode : r.made links node) :
        r.Reads (fun links' nodes => Pieces r.made (links ++ links') nodes) (next node) := by
      refine ih.bind fun links' nodes hnodes => reads_pure ?_
      rw [append_nil]
      exact .cons hnode hnodes
    split
    · exact (reads_readTyped hinner hraw _).bind hnext
    · exact hnext [] _ (r.forms.leaf (isLeaf_bareType _ _))

lemma reads_readUntyped : r.Reads r.made (readUntyped inner raw pointer) := by
  unfold readUntyped
  split_ifs
  · refine (reads_readEveryType hinner hraw _).bind fun links nodes hnodes => ?_
    exact reads_pure (by simpa using r.forms.anyOf hnodes _)
  · exact reads_readTyped hinner hraw _
  · exact reads_readTyped hinner hraw _

lemma reads_readTypes (types : List Value) :
    r.Reads (Pieces r.made) (readTypes inner raw pointer types) := by
  induction types with
  | nil => exact reads_pure .nil
  | cons type rest ih =>
    refine (reads_readTyped hinner hraw _).bind fun links node hnode => ?_
    refine ih.bind fun links' nodes hnodes => reads_pure ?_
    rw [append_nil]
    exact .cons hnode hnodes

lemma reads_readShape (types : List Value) :
    r.Reads r.made (readShape inner raw types pointer) := by
  unfold readShape
  split
  · exact reads_readUntyped hinner hraw
  · exact reads_readTyped hinner hraw _
  · refine (reads_readTypes hinner hraw _).bind fun links nodes hnodes => ?_
    exact reads_pure (by simpa using r.forms.anyOf hnodes _)

lemma reads_readBase (types : List Value) :
    r.Reads r.made (readBase inner raw types pointer) := by
  have hleaf (node : Node) (h : readListed raw pointer = .ok node) : node.IsLeaf := by
    obtain ⟨values, -, rfl | rfl⟩ := isAmong_of_readListed h
    · exact .literal _ _
    · exact .enum _ _
  unfold readBase
  split
  · refine (readsAlone_ofExcept (failsOnly_readListed r.reasons raw pointer) hleaf).then
      fun values hvalues => ?_
    split
    · refine (reads_readShape hinner hraw types).bind fun links shape hshape => ?_
      refine reads_pure (r.forms.allOf (cons_ne_nil _ _) ?_ _)
      rw [append_nil]
      exact .cons (r.forms.leaf hvalues) (pieces_singleton.2 hshape)
    · exact reads_pure (r.forms.leaf hvalues)
  · exact reads_readShape hinner hraw types

lemma reads_readMapping : r.Reads r.made (readMapping inner raw pointer) := by
  unfold readMapping
  extract_lets next
  have hnext : r.Reads r.made (next ()) := by
    unfold next
    split
    extract_lets nullable onlyNull hasBase next
    have hnext (links : List Link) (base : List Node) (hbase : Pieces r.made links base) :
        r.Reads (fun links' node => r.made (links ++ links') node) (next base) := by
      refine (reads_readCombination hinner _ r.forms.allOf).bind fun links₁ allOf hall => ?_
      refine (reads_readCombination hinner _ fun _ => r.forms.anyOf).bind
        fun links₂ anyOf hany => ?_
      refine (reads_readCombination hinner _ fun _ => r.forms.oneOf).bind
        fun links₃ oneOf hone => ?_
      have hnodes := ((hbase.append hall).append hany).append hone
      simp only [← append_assoc]
      exact reads_conjunction _ _ pointer nullable onlyNull hnodes
    split
    · refine (reads_readBase hinner hraw _).bind fun links node hnode => ?_
      exact hnext links [node] (pieces_singleton.2 hnode)
    · exact hnext [] [] .nil
  split
  · exact reads_throw (r.reasons.schema _)
  · exact hnext

lemma reads_readLayer : r.Reads r.made (readLayer r.lib doc inner raw pointer) := by
  unfold readLayer
  split
  · exact reads_pure (r.forms.leaf (.any _))
  · exact reads_pure (r.forms.leaf (.any _))
  · split
    next ref href =>
      unfold readReference
      split
      next text =>
        refine (readsAlone_ofExcept (failsOnly_locate r.reasons _ _ _) fun _ => id).then
          fun place hplace => ?_
        refine Reads.bind (P := fun links _ => links = [⟨place.target, place.uri, text, pointer⟩])
          ⟨fun link hlink => ?_, nofun, fun _ _ => rfl⟩ fun links _ hlinks => ?_
        · cases mem_singleton.1 hlink
          exact ⟨r.confined.target hraw href hplace, doc, _, place.fragment, hraw, hplace⟩
        · subst hlinks
          exact reads_pure (r.forms.reference _ _)
      next => exact reads_throw (r.reasons.schema _)
    next => exact reads_readMapping hinner hraw
  · exact reads_throw (r.reasons.schema _)

end

/-! ### All layers -/

variable (r)

/-- The layers of a value are no more than its depth, so reading it comes to an end. -/
lemma reads_readWithin {doc : String} (n : Nat) {raw : Value} (hraw : r.known doc raw)
    (hn : raw.depth < n) (pointer : String) :
    r.Reads r.made (readWithin r.lib doc n raw pointer) := by
  induction n generalizing raw pointer with
  | zero => omega
  | succ n ih =>
    refine reads_readLayer (fun c hc place => ?_) hraw
    have hdepth := hc.depth_lt
    exact ih (r.confined.inside hraw hc) (by omega) place

/-- What every way of reading keeps holds of all that is read. -/
lemma reads_read {doc : String} {raw : Value} (hraw : r.known doc raw) (pointer : String) :
    r.Reads r.made (read r.lib doc raw pointer) :=
  r.reads_readWithin _ hraw raw.depth.lt_succ_self pointer

/-! ### Following references -/

lemma reads_document (ref uri referrer : String) :
    r.ReadsAlone (r.known uri) (r.lib.document ref uri referrer) := by
  unfold Library.document
  split
  next h =>
    subst h
    exact reads_pure ⟨rfl, r.confined.root⟩
  next =>
    refine ReadsAlone.then (R := fun _ => True) (x := Traced.note (.document uri))
      ⟨fun link hlink => ?_, nofun, fun _ _ => ⟨rfl, trivial⟩⟩ fun _ _ => ?_
    · cases mem_singleton.1 hlink
    split
    next h => exact reads_pure ⟨rfl, r.confined.fetch h⟩
    next => exact reads_throw (r.reasons.schema _)
    next h => exact reads_throw (r.reasons.fetch h)

lemma reads_lookup (ref uri fragment referrer : String) :
    r.ReadsAlone (r.known uri) (r.lib.lookup ref uri fragment referrer) := by
  refine (r.reads_document ref uri referrer).then fun doc hdoc => ?_
  split
  · exact reads_pure ⟨rfl, hdoc⟩
  · split
    next h => exact reads_pure ⟨rfl, r.confined.follow hdoc h⟩
    next => exact reads_throw (r.reasons.schema _)
    next fault h =>
      obtain ⟨text, rfl⟩ := Pointer.of_follow_eq_error h
      exact reads_throw (r.reasons.noNumber text)

lemma reads_derefWithin (n : Nat) {seen : List String} (hnodup : seen.Nodup)
    (hseen : ∀ target ∈ seen, r.target target) (hn : r.lib.limit < n + seen.length)
    (hpart : r.known part.doc part.raw) :
    r.ReadsAlone (fun p => r.known p.doc p.raw) (part.derefWithin r.lib n seen) := by
  induction n generalizing seen part with
  | zero => exact reads_throw (r.enough.endless hnodup hseen (by omega))
  | succ n ih =>
    unfold Part.derefWithin
    split
    next ref href =>
      refine (readsAlone_ofExcept (R := fun place => r.target place.target)
        (failsOnly_locate r.reasons _ _ _) fun place => r.confined.target hpart href).then
        fun place hplace => ?_
      split
      next => exact reads_throw (r.reasons.schema _)
      next hnew =>
        refine (r.reads_lookup _ _ _ _).then fun raw hraw => ?_
        refine ih (nodup_cons.2 ⟨fun h => hnew (contains_iff_mem.2 h), hnodup⟩) ?_ ?_ hraw
        · exact forall_mem_cons.2 ⟨hplace, hseen⟩
        · rw [length_cons]
          omega
    next => exact reads_pure ⟨rfl, hpart⟩

lemma reads_deref (hpart : r.known part.doc part.raw) :
    r.ReadsAlone (fun p => r.known p.doc p.raw) (part.deref r.lib) :=
  r.reads_derefWithin _ nodup_nil nofun (by simp) hpart

/-! ### Parameters -/

lemma reads_readParameterList {doc : String} (pointer : String) (i : Nat) {raws : List Value}
    (hraws : ∀ raw ∈ raws, r.known doc raw) :
    r.ReadsAlone (fun ps => ∀ p ∈ ps, r.known p.part.doc p.part.raw)
      (readParameterList r.lib doc pointer i raws) := by
  induction raws generalizing i with
  | nil => exact reads_pure ⟨rfl, nofun⟩
  | cons raw raws ih =>
    have hparameter {entry : Part} (hentry : r.known entry.doc entry.raw) :
        r.ReadsAlone (fun p => r.known p.part.doc p.part.raw) (readParameter r.lib entry) := by
      refine (r.reads_deref hentry).then fun part hpart => ?_
      split
      · exact reads_pure ⟨rfl, hpart⟩
      · exact reads_throw (r.reasons.schema _)
    refine (hparameter (hraws raw mem_cons_self)).then fun p hp => ?_
    refine (ih (i + 1) fun raw h => hraws raw (mem_cons_of_mem _ h)).then fun ps hps => ?_
    exact reads_pure ⟨rfl, forall_mem_cons.2 ⟨hp, hps⟩⟩

/-- Parameters that are known, no two of them alike. -/
structure Offers (ps : List Parameter) : Prop where
  known : ∀ p ∈ ps, r.known p.part.doc p.part.raw
  distinct : Parameter.Distinct ps

lemma Offers.merge {earlier later : List Parameter} (h : r.Offers earlier)
    (hlater : ∀ p ∈ later, r.known p.part.doc p.part.raw) :
    r.Offers (Parameter.merge earlier later) := by
  obtain ⟨hmem, hdistinct⟩ := Parameter.merge_spec h.distinct later
  exact ⟨fun p hp => (hmem p hp).elim (h.known p) (hlater p), hdistinct⟩

lemma reads_readParameters {doc : String} (pointer : String) {raw : Value}
    (hraw : r.known doc raw) :
    r.ReadsAlone r.Offers (readParameters r.lib (raw.get "parameters") doc pointer) := by
  have hparameters (h : raw.get "parameters" ≠ .null) : r.known doc (raw.get "parameters") :=
    r.confined.part hraw (Value.mem_parts_of_get h)
  generalize raw.get "parameters" = v at hparameters
  unfold readParameters
  split
  · exact reads_pure ⟨rfl, nofun, .nil⟩
  next entries =>
    have hentries : ∀ raw ∈ entries, r.known doc raw :=
      fun c hc => r.confined.part (hparameters nofun) hc
    refine (r.reads_readParameterList pointer 0 hentries).then fun ps hps => ?_
    exact reads_pure ⟨rfl, Offers.merge r ⟨nofun, .nil⟩ hps⟩
  · exact reads_throw (r.reasons.schema _)

lemma reads_readParameterSchemas (hps : ∀ p ∈ ps, r.known p.part.doc p.part.raw) :
    r.Reads (fun links properties => properties.map (·.1) = ps.map (·.name) ∧
      Pieces r.made links (properties.map (·.2))) (readParameterSchemas r.lib ps) := by
  induction ps with
  | nil => exact reads_pure ⟨rfl, .nil⟩
  | cons p ps ih =>
    have hp := hps p mem_cons_self
    have hinside := p.inside_schema
    unfold readParameterSchemas
    generalize p.schema = schema at hinside ⊢
    obtain ⟨raw, place⟩ := schema
    have hraw : r.known p.part.doc (if raw.isNull then .map [] else raw) := by
      split
      next => exact r.confined.empty hp
      next hnull => exact r.confined.inside hp (hinside fun h => hnull (congrArg Value.isNull h))
    refine (r.reads_read hraw _).bind fun links node hnode => ?_
    refine (ih fun p hp => hps p (mem_cons_of_mem _ hp)).bind
      fun links' nodes hnodes => reads_pure ⟨by simp [hnodes.1], ?_⟩
    rw [append_nil]
    exact .cons hnode hnodes.2

lemma reads_readGroups (hps : r.Offers ps) (pointer : String) (locations : List (String × String)) :
    r.Reads (fun links groups => Pieces r.made links (groups.map (·.2)))
      (readGroups r.lib ps pointer locations) := by
  induction locations with
  | nil => exact reads_pure .nil
  | cons location locations ih =>
    unfold readGroups
    extract_lets here
    have hhere : ∀ p ∈ here, r.known p.part.doc p.part.raw :=
      fun p hp => hps.known p (mem_of_mem_filter hp)
    refine (r.reads_readParameterSchemas hhere).bind
      fun links properties hproperties => ih.bind fun links' groups hgroups => ?_
    split
    next hempty =>
      have hlinks := hproperties.2
      rw [List.isEmpty_iff.1 hempty] at hlinks
      cases hlinks
      exact reads_pure (by simpa using hgroups)
    next =>
      refine reads_pure ?_
      rw [append_nil]
      refine .cons (r.forms.group ?_ ?_ hproperties.2 _) hgroups
      · rw [hproperties.1]
        exact hps.distinct.nodup_names location.1
      · intro name hname
        obtain ⟨parameter, hparameter, rfl⟩ := mem_map.1 hname
        rw [hproperties.1]
        exact mem_map_of_mem (mem_of_mem_filter hparameter)

/-! ### Routes -/

/-- The schema under the preferred media type of a part, if there is one. -/
lemma reads_content (hpart : r.known part.doc part.raw) {α : Type} {P : List Link → α → Prop}
    {x : Reading α} {f : Node → Reading α} (hx : r.Reads P x)
    (hf : ∀ links node, r.made links node →
      r.Reads (fun links' a => P (links ++ links') a) (f node)) :
    r.Reads P (match part.raw.get "content" with
      | .map content =>
        match mediaSchema content (part.pointer ++ "/content") with
        | (.null, _) => x
        | (schema, place) => read r.lib part.doc schema place >>= f
      | _ => x) := by
  split
  next content hcontent =>
    split
    · exact hx
    next schema place hnull hschema =>
      exact (r.reads_read (r.confined.media hpart hcontent hschema hnull) _).bind hf
  next => exact hx

lemma reads_readBody {doc : String} {operation : Value} (hoperation : r.known doc operation)
    (pointer : String) :
    r.Reads (fun links body => Pieces r.made links (body.map (·.2)))
      (readBody r.lib operation doc pointer) := by
  unfold readBody
  split
  · exact reads_pure .nil
  next raw hraw =>
    have hbody := r.confined.part hoperation (Value.mem_parts_of_get? hraw)
    refine ReadsAlone.then (r.reads_deref hbody) fun body hbody => ?_
    refine r.reads_content hbody (reads_pure .nil) fun links node hnode => reads_pure ?_
    rw [append_nil]
    exact pieces_singleton.2 hnode

lemma reads_readResponse {entry : Part} (hentry : r.known entry.doc entry.raw) :
    r.Reads r.made (readResponse r.lib entry) := by
  refine (r.reads_deref hentry).then fun response hresponse => ?_
  have hcontent := r.reads_content hresponse (f := pure)
    (reads_pure (r.forms.leaf (.null ⟨response.pointer, false⟩))) fun links node hnode =>
      reads_pure (by rwa [append_nil])
  simp only [bind_pure] at hcontent
  exact hcontent

lemma reads_readResponses {doc : String} (pointer : String) {entries : List (Scalar × Value)}
    (hentries : ∀ raw ∈ entries.map (·.2), r.known doc raw) :
    r.Reads (fun links responses => Pieces r.made links (responses.map (·.2)))
      (readResponses r.lib doc pointer entries) := by
  induction entries with
  | nil => exact reads_pure .nil
  | cons entry entries ih =>
    have hentry := hentries entry.2 mem_cons_self
    refine Reads.bind (r.reads_readResponse hentry) fun links node hnode => ?_
    refine (ih fun raw h => hentries raw (mem_cons_of_mem _ h)).bind
      fun links' nodes hnodes => reads_pure ?_
    rw [append_nil]
    exact .cons hnode hnodes

/-- The schemas of the routes read so far. -/
abbrev Routes (links : List Link) (acc : Routing) : Prop :=
  Pieces r.made links (acc.routes.flatMap Route.nodes)

lemma reads_readOperation {path : String} {item : Part} (hitem : r.known item.doc item.raw)
    {shared : List Parameter} (hshared : r.Offers shared) (hacc : r.Routes links acc)
    (method : String × String) :
    r.Reads (fun links' acc => r.Routes (links ++ links') acc)
      (readOperation r.lib path item shared acc method) := by
  unfold readOperation
  extract_lets operation key pointer next
  split
  · exact reads_pure (by rwa [append_nil])
  next hmap =>
    have hoperation : r.known item.doc operation := by
      refine r.confined.part hitem (Value.mem_parts_of_get fun hnull => hmap ?_)
      rw [show operation = .null from hnull]
      rfl
    split
    · exact reads_throw (r.reasons.schema _)
    · refine (r.reads_readParameters _ hoperation).then fun own hown => ?_
      have hps := hshared.merge r hown.known
      refine (r.reads_readGroups hps _ _).bind fun links₁ groups hgroups => ?_
      refine (r.reads_readBody hoperation _).bind fun links₂ body hbody => ?_
      refine (readsAlone_ofExcept (failsOnly_mappingAt _ _ (r.reasons.schema _))
        fun _ => r.confined.mappingAt hoperation).then fun statuses hstatuses => ?_
      refine (r.reads_readResponses _ hstatuses).bind
        fun links₃ responses hresponses => reads_pure ?_
      have hroute := hacc.append ((hgroups.append hbody).append hresponses)
      simpa [Routes, Route.nodes] using hroute

lemma reads_readPath (hacc : r.Routes links acc) {entry : Scalar × Value}
    (hentry : r.known r.lib.base entry.2) :
    r.Reads (fun links' acc => r.Routes (links ++ links') acc) (readPath r.lib acc entry) := by
  unfold readPath
  extract_lets path
  refine ReadsAlone.then (r.reads_deref hentry) fun item hitem => ?_
  split
  · exact reads_pure (by rwa [append_nil])
  · refine (r.reads_readParameters _ hitem).then fun shared hshared => ?_
    exact reads_foldlM (P := r.Routes)
      (fun _ _ method _ hacc => r.reads_readOperation hitem hshared hacc method) hacc

/-- What every way of reading keeps holds of all schemas of the routes. -/
lemma reads_readRoutes :
    r.Reads (fun links routes => Pieces r.made links (routes.flatMap Route.nodes))
      (readRoutes r.lib) := by
  refine (readsAlone_ofExcept (failsOnly_mappingAt _ _ (r.reasons.schema _))
    fun _ => r.confined.mappingAt r.confined.root).then fun paths hpaths => ?_
  refine (reads_foldlM (P := r.Routes) (fun _ _ entry hentry hacc =>
    r.reads_readPath hacc (hpaths _ (mem_map_of_mem hentry))) .nil).bind
    fun links routing hrouting => reads_pure (by simpa using hrouting)

end Reader

end Schema

end ApiSchema
