import ApiSchema.Proofs.Schema.Completeness

/-!
# Operations of a document

An operation is a mapping under one of the methods in a path item; path items, parameters, bodies
and responses may be references. Main statement: reading the routes of a document gives one route
for each of its operations, with the kinds of request data and the statuses that the operation has,
each with the schema that the document says. No two of them have one method and one template.
-/

namespace ApiSchema

open List Traced

/-! ### References to parts -/

/-- Following references from one part of a document ends at another one. -/
inductive Part.LeadsTo (lib : Library) : Part → Part → Prop
  | done {part : Part} (h : ∀ ref, part.raw.get? "$ref" ≠ some (.str ref)) : LeadsTo lib part part
  | follow {part last : Part} {ref : String} {place : Location} {raw : Value}
    (href : part.raw.get? "$ref" = some (.str ref))
    (hplace : lib.locate ref part.doc part.pointer = .ok place)
    (hraw : (lib.lookup ref place.uri place.fragment part.pointer).outcome = .ok raw)
    (hlast : LeadsTo lib ⟨raw, place.uri, place.target⟩ last) : LeadsTo lib part last

namespace Part

variable {lib : Library} {part : Part}

lemma LeadsTo.unique {last last' : Part} (h : part.LeadsTo lib last)
    (h' : part.LeadsTo lib last') : last' = last := by
  induction h with
  | done hnone =>
    cases h' with
    | done _ => rfl
    | follow href _ _ _ => exact absurd href (hnone _)
  | follow href hplace hraw _ ih =>
    cases h' with
    | done hnone => exact absurd href (hnone _)
    | follow href' hplace' hraw' hlast' =>
      cases href.symm.trans href'
      cases hplace.symm.trans hplace'
      cases hraw.symm.trans hraw'
      exact ih hlast'

lemma leadsTo_of_deref {last : Part} (h : (part.deref lib).outcome = .ok last) :
    part.LeadsTo lib last := by
  unfold deref at h
  generalize lib.limit + 1 = n at h
  generalize ([] : List String) = seen at h
  induction n generalizing seen part with
  | zero => cases h
  | succ n ih =>
    unfold derefWithin at h
    split at h
    next ref href =>
      obtain ⟨place, hplace, h⟩ := outcome_bind_eq_ok_iff.1 h
      split at h
      · cases h
      · obtain ⟨raw, hraw, h⟩ := outcome_bind_eq_ok_iff.1 h
        exact .follow href hplace hraw (ih _ h)
    next hnone =>
      cases h
      exact .done hnone

end Part

/-! ### Content -/

namespace Schema

/-- A media type of a content comes with a schema. -/
def Offers (content : List (Scalar × Value)) (type : Scalar) (schema : Value) : Prop :=
  ∃ media, Value.find? type content = some (.map media) ∧
    Value.find? (.str "schema") media = some schema

/-- The schema that is picked from a content, with its place: that of the first media type to come
with one, where JSON goes before what is based on JSON, and that before any other. -/
def Picks (content : List (Scalar × Value)) (pointer : String) (schema : Value) (place : String) :
    Prop :=
  ∃ before type after, preferredTypes content = before ++ type :: after ∧
    (∀ other ∈ before, ∀ schema', ¬ Offers content other schema') ∧ Offers content type schema ∧
    place = pointer ++ "/" ++ Pointer.escape type.display ++ "/schema"

/-- The schema that a media type comes with, and its place. -/
def offer (content : List (Scalar × Value)) (pointer : String) (type : Scalar) :
    Option (Value × String) :=
  match Value.find? type content with
  | some (.map media) =>
    (Value.find? (.str "schema") media).map fun schema =>
      (schema, pointer ++ "/" ++ Pointer.escape type.display ++ "/schema")
  | _ => none

section

variable {content : List (Scalar × Value)} {pointer place : String} {type : Scalar}
  {schema : Value}

lemma offer_eq_some_iff : offer content pointer type = some (schema, place) ↔
    Offers content type schema ∧
      place = pointer ++ "/" ++ Pointer.escape type.display ++ "/schema" := by
  rw [offer, Offers]
  split
  next media hmedia => simp [hmedia, eq_comm]
  next hnone =>
    simp only [reduceCtorEq, false_iff, not_and]
    rintro ⟨media, hmedia, -⟩
    exact absurd hmedia (hnone media)

lemma offer_eq_none_iff :
    offer content pointer type = none ↔ ∀ schema, ¬ Offers content type schema := by
  constructor
  · intro h schema hschema
    cases h.symm.trans (offer_eq_some_iff.2 ⟨hschema, rfl⟩)
  · intro h
    cases htype : offer content pointer type with
    | none => rfl
    | some found => exact absurd (offer_eq_some_iff.1 htype).1 (h found.1)

lemma mediaSchema_eq_iff (hnull : schema ≠ .null) :
    mediaSchema content pointer = (schema, place) ↔ Picks content pointer schema place := by
  have hmedia : mediaSchema content pointer =
      ((preferredTypes content).findSome? (offer content pointer)).getD (.null, pointer) := rfl
  have hfound : mediaSchema content pointer = (schema, place) ↔
      (preferredTypes content).findSome? (offer content pointer) = some (schema, place) := by
    rw [hmedia]
    cases (preferredTypes content).findSome? (offer content pointer) with
    | none => simp [hnull.symm]
    | some found => simp
  rw [hfound, List.findSome?_eq_some_iff]
  constructor
  · rintro ⟨before, type, after, htypes, htype, hbefore⟩
    obtain ⟨hoffers, hplace⟩ := offer_eq_some_iff.1 htype
    exact ⟨before, type, after, htypes, fun other h => offer_eq_none_iff.1 (hbefore other h),
      hoffers, hplace⟩
  · rintro ⟨before, type, after, htypes, hbefore, hoffers, hplace⟩
    exact ⟨before, type, after, htypes, offer_eq_some_iff.2 ⟨hoffers, hplace⟩,
      fun other h => offer_eq_none_iff.2 (hbefore other h)⟩

end

end Schema

/-- The schema of the content of a body or a response, with its place. Null counts as none. -/
def Part.Content (part : Part) (schema : Value) (place : String) : Prop :=
  ∃ content, part.raw.get "content" = .map content ∧
    Schema.Picks content (part.pointer ++ "/content") schema place ∧ schema ≠ .null

lemma Part.content_iff {part : Part} {content : List (Scalar × Value)}
    (hcontent : part.raw.get "content" = .map content) {schema : Value} {place : String} :
    part.Content schema place ↔
      Schema.mediaSchema content (part.pointer ++ "/content") = (schema, place) ∧
        schema ≠ .null := by
  constructor
  · rintro ⟨content', hcontent', hpicks, hnull⟩
    cases hcontent.symm.trans hcontent'
    exact ⟨(Schema.mediaSchema_eq_iff hnull).2 hpicks, hnull⟩
  · rintro ⟨hmedia, hnull⟩
    exact ⟨content, hcontent, (Schema.mediaSchema_eq_iff hnull).1 hmedia, hnull⟩

/-! ### Parameters -/

namespace Schema

variable {doc pointer : String} {raw : Value} {ps : List Parameter}

/-- The entries of a list; other values have none. -/
def listed : Value → List Value
  | .list entries => entries
  | _ => []

variable {lib : Library}

/-- An entry of a list of parameters, at a position, is a parameter. -/
structure IsEntry (lib : Library) (doc pointer : String) (entry : Value × Nat) (p : Parameter) :
    Prop where
  part : Part.LeadsTo lib ⟨entry.1, doc, pointer ++ "/parameters/" ++ toString entry.2⟩ p.part
  name : (p.part.raw.get? "name").map Value.display = some p.name
  location : ((p.part.raw.get? "in").getD (.str "query")).display = p.location

lemma IsEntry.unique {entry : Value × Nat} {p q : Parameter} (hp : IsEntry lib doc pointer entry p)
    (hq : IsEntry lib doc pointer entry q) : p = q := by
  obtain ⟨name, location, part⟩ := p
  obtain ⟨name', location', part'⟩ := q
  obtain rfl : part' = part := hp.part.unique hq.part
  obtain rfl : name = name' := Option.some.inj (hp.name.symm.trans hq.name)
  obtain rfl : location = location' := hp.location.symm.trans hq.location
  rfl

/-- The parameters that a path item or an operation lists. -/
def Lists (lib : Library) (raw : Value) (doc pointer : String) (ps : List Parameter) : Prop :=
  ∃ entries, List.Forall₂ (IsEntry lib doc pointer) (listed raw).zipIdx entries ∧
    ps = Parameter.merge [] entries

lemma Lists.unique {qs : List Parameter} (hps : Lists lib raw doc pointer ps)
    (hqs : Lists lib raw doc pointer qs) : ps = qs := by
  obtain ⟨entries, hentries, rfl⟩ := hps
  obtain ⟨entries', hentries', rfl⟩ := hqs
  have hunique : Relator.RightUnique (IsEntry lib doc pointer) := fun _ _ _ => IsEntry.unique
  rw [hunique.forall₂ hentries hentries']

lemma lists_of_readParameters (h : (readParameters lib raw doc pointer).outcome = .ok ps) :
    Lists lib raw doc pointer ps := by
  have hlist (i : Nat) (raws : List Value) (entries : List Parameter)
      (h : (readParameterList lib doc pointer i raws).outcome = .ok entries) :
      Forall₂ (IsEntry lib doc pointer) (raws.zipIdx i) entries := by
    induction raws generalizing i entries with
    | nil =>
      cases h
      exact .nil
    | cons raw raws ih =>
      obtain ⟨p, hp, h⟩ := outcome_bind_eq_ok_iff.1 h
      obtain ⟨entries', hentries', h⟩ := outcome_bind_eq_ok_iff.1 h
      cases h
      refine .cons ?_ (ih (i + 1) entries' hentries')
      obtain ⟨part, hpart, hp⟩ := outcome_bind_eq_ok_iff.1 hp
      split at hp
      next name hname =>
        cases hp
        exact ⟨Part.leadsTo_of_deref hpart, by rw [hname]; rfl, rfl⟩
      next => cases hp
  unfold readParameters at h
  split at h
  next =>
    cases h
    exact ⟨[], .nil, rfl⟩
  next raws =>
    obtain ⟨entries, hentries, h⟩ := outcome_bind_eq_ok_iff.1 h
    cases h
    exact ⟨entries, hlist 0 raws entries hentries, rfl⟩
  next => cases h

/-- The properties of the object that parameters make, each with the schema of a parameter. Without
one it may be anything. -/
def AreProperties (lib : Library) : List Parameter → List (String × Node) → Prop :=
  List.Forall₂ fun p property => property.1 = p.name ∧
    (read lib p.part.doc (if p.schema.1.isNull then .map [] else p.schema.1) p.schema.2).outcome =
      .ok property.2

lemma areProperties_of_readParameterSchemas {properties : List (String × Node)}
    (h : (readParameterSchemas lib ps).outcome = .ok properties) :
    AreProperties lib ps properties := by
  induction ps generalizing properties with
  | nil =>
    cases h
    exact .nil
  | cons p ps ih =>
    obtain ⟨node, hnode, h⟩ := outcome_bind_eq_ok_iff.1 h
    obtain ⟨rest, hrest, h⟩ := outcome_bind_eq_ok_iff.1 h
    cases h
    exact .cons ⟨rfl, hnode⟩ (ih hrest)

/-- The object that the parameters of one location make. -/
inductive IsGroup (lib : Library) (ps : List Parameter) (pointer location : String) : Node → Prop
  | intro {properties : List (String × Node)}
    (h : AreProperties lib (ps.filter (·.location == location)) properties) :
    IsGroup lib ps pointer location (.object ⟨pointer ++ "/parameters", false⟩ properties
      (((ps.filter (·.location == location)).filter Parameter.isRequired).map (·.name))
      .unstated {})

lemma forall₂_of_readGroups {locations : List (String × String)} {groups : List (String × Node)}
    (h : (readGroups lib ps pointer locations).outcome = .ok groups) :
    Forall₂ (fun l g => g.1 = l.2 ∧ IsGroup lib ps pointer l.1 g.2)
      (locations.filter fun l => ps.any (·.location == l.1)) groups := by
  induction locations generalizing groups with
  | nil =>
    cases h
    exact .nil
  | cons l locations ih =>
    obtain ⟨properties, hproperties, h⟩ := outcome_bind_eq_ok_iff.1 h
    obtain ⟨rest, hrest, h⟩ := outcome_bind_eq_ok_iff.1 h
    have hall := areProperties_of_readParameterSchemas hproperties
    have hempty : properties.isEmpty ↔ ps.any (·.location == l.1) = false := by
      rw [List.isEmpty_iff, ← length_eq_zero_iff, ← hall.length_eq, length_eq_zero_iff,
        filter_eq_nil_iff, any_eq_false]
    split at h
    next hnone =>
      cases h
      rw [filter_cons_of_neg (by rw [hempty.1 hnone]; exact Bool.false_ne_true)]
      exact ih hrest
    next hsome =>
      cases h
      rw [filter_cons_of_pos (Bool.not_eq_false _ ▸ hempty.not.1 hsome)]
      exact .cons ⟨rfl, .intro hall⟩ (ih hrest)

end Schema

/-! ### Operations -/

/-- An operation: the path and the method it goes by, and the path item it stands in. -/
structure Operation where
  path : String
  method : String × String
  item : Part

namespace Operation

variable (lib : Library) (o : Operation)

/-- What the document says of an operation. -/
def raw : Value :=
  o.item.raw.get o.method.1

/-- The place of an operation. -/
def pointer : String :=
  o.item.pointer ++ "/" ++ o.method.1

/-- The operations of a document are the mappings under methods in the items that its paths lead
to. -/
structure IsOf : Prop where
  entry : ∃ key raw, (key, raw) ∈ (lib.root.get "paths").entries ∧ key.display = o.path ∧
    Part.LeadsTo lib ⟨raw, lib.base, "#/paths/" ++ Pointer.escape o.path⟩ o.item
  method : o.method ∈ Route.methods
  isMap : o.raw.isMap

/-- The parameters of an operation: those of its path item and its own, which take the place of
others with their names and locations. -/
def Merges (ps : List Schema.Parameter) : Prop :=
  ∃ shared own, Schema.Lists lib (o.item.raw.get "parameters") o.item.doc o.item.pointer shared ∧
    Schema.Lists lib (o.raw.get "parameters") o.item.doc o.pointer own ∧
    ps = Schema.Parameter.merge shared own

/-- The body of a request. -/
def Body (body : Part) : Prop :=
  ∃ raw, o.raw.get? "requestBody" = some raw ∧
    Part.LeadsTo lib ⟨raw, o.item.doc, o.pointer ++ "/requestBody"⟩ body

/-- An operation has request data of a kind: a parameter in its location, or a body with a
schema. -/
inductive Carries : String → Prop
  | parameter {location kind : String} {ps : List Schema.Parameter} {p : Schema.Parameter}
    (hkind : (location, kind) ∈ Route.locations) (hps : o.Merges lib ps) (hp : p ∈ ps)
    (hlocation : p.location = location) : Carries kind
  | body {body : Part} {schema : Value} {place : String} (hbody : o.Body lib body)
    (hschema : body.Content schema place) : Carries "body"

/-- The schema of request data of a kind. -/
inductive Request : String → Node → Prop
  | parameters {location kind : String} {ps : List Schema.Parameter} {node : Node}
    (hkind : (location, kind) ∈ Route.locations) (hps : o.Merges lib ps)
    (hnode : Schema.IsGroup lib ps o.pointer location node) : Request kind node
  | body {body : Part} {schema : Value} {place : String} {node : Node} (hbody : o.Body lib body)
    (hschema : body.Content schema place)
    (hnode : (Schema.read lib body.doc schema place).outcome = .ok node) : Request "body" node

/-- The schema of a response; one without content is null. -/
inductive Response (entry : Part) : Node → Prop
  | content {response : Part} {schema : Value} {place : String} {node : Node}
    (hentry : entry.LeadsTo lib response) (hschema : response.Content schema place)
    (hnode : (Schema.read lib response.doc schema place).outcome = .ok node) : Response entry node
  | empty {response : Part} (hentry : entry.LeadsTo lib response)
    (hnone : ∀ schema place, ¬ response.Content schema place) :
    Response entry (.null ⟨response.pointer, false⟩)

/-- A route says of an operation what the document says. -/
structure Describes (r : Route Node) : Prop where
  path : r.path = o.path
  method : r.method = o.method.2
  kinds : (r.request.map (·.1)).Sublist (Route.locations.map (·.2) ++ ["body"])
  carries : ∀ kind, kind ∈ r.request.map (·.1) ↔ o.Carries lib kind
  request : ∀ p ∈ r.request, o.Request lib p.1 p.2
  responses : List.Forall₂ (fun entry p => p.1 = entry.1.display ∧
    Response lib ⟨entry.2, o.item.doc, o.pointer ++ "/responses/" ++ Pointer.escape entry.1.display⟩
      p.2) (o.raw.get "responses").entries r.responses

variable {lib o}

lemma Merges.unique {ps qs : List Schema.Parameter} (hps : o.Merges lib ps)
    (hqs : o.Merges lib qs) : ps = qs := by
  obtain ⟨shared, own, hshared, hown, rfl⟩ := hps
  obtain ⟨shared', own', hshared', hown', rfl⟩ := hqs
  rw [hshared.unique hshared', hown.unique hown']

lemma Body.unique {body body' : Part} (h : o.Body lib body) (h' : o.Body lib body') :
    body' = body := by
  obtain ⟨raw, hraw, hbody⟩ := h
  obtain ⟨raw', hraw', hbody'⟩ := h'
  cases hraw.symm.trans hraw'
  exact hbody.unique hbody'

end Operation

/-! ### Reading operations -/

namespace Schema

variable {lib : Library}

variable {o : Operation} {body groups : List (String × Node)} {pointer path : String}
  {entries : List (Scalar × Value)} {ps shared : List Parameter} {acc acc' : Routing} {item : Part}
  {methods : List (String × String)}

/-- The schema of the body of a request is read where there is one. -/
lemma readBody_cases (h : (readBody lib o.raw o.item.doc o.pointer).outcome = .ok body) :
    (body = [] ∧ ∀ part schema place, o.Body lib part → ¬ part.Content schema place) ∨
      ∃ part schema place node, body = [("body", node)] ∧ o.Body lib part ∧
        part.Content schema place ∧ (read lib part.doc schema place).outcome = .ok node := by
  unfold readBody at h
  split at h
  next hraw =>
    cases h
    refine .inl ⟨rfl, ?_⟩
    rintro part schema place ⟨raw, hraw', -⟩
    cases hraw.symm.trans hraw'
  next raw hraw =>
    obtain ⟨part, hpart, h⟩ := outcome_bind_eq_ok_iff.1 h
    have hbody : o.Body lib part := ⟨raw, hraw, Part.leadsTo_of_deref hpart⟩
    split at h
    next content hcontent =>
      split at h
      next place hmedia =>
        cases h
        refine .inl ⟨rfl, fun part' schema place' hbody' hschema => ?_⟩
        obtain rfl := hbody.unique hbody'
        obtain ⟨hmedia', hnull⟩ := (Part.content_iff hcontent).1 hschema
        cases hmedia.symm.trans hmedia'
        exact hnull rfl
      next schema place hnull hmedia =>
        obtain ⟨node, hnode, h⟩ := outcome_bind_eq_ok_iff.1 h
        cases h
        exact .inr ⟨part, schema, place, node, rfl, hbody,
          (Part.content_iff hcontent).2 ⟨hmedia, hnull⟩, hnode⟩
    next hcontent =>
      cases h
      refine .inl ⟨rfl, fun part' schema place hbody' hschema => ?_⟩
      obtain rfl := hbody.unique hbody'
      obtain ⟨content, hcontent', -⟩ := hschema
      exact hcontent content hcontent'

lemma response_of_readResponse {entry : Part} {node : Node}
    (h : (readResponse lib entry).outcome = .ok node) : Operation.Response lib entry node := by
  obtain ⟨response, hresponse, h⟩ := outcome_bind_eq_ok_iff.1 h
  have hentry := Part.leadsTo_of_deref hresponse
  split at h
  next content hcontent =>
    split at h
    next place hmedia =>
      cases h
      refine .empty hentry fun schema place' hschema => ?_
      obtain ⟨hmedia', hnull⟩ := (Part.content_iff hcontent).1 hschema
      cases hmedia.symm.trans hmedia'
      exact hnull rfl
    next schema place hnull hmedia =>
      exact .content hentry ((Part.content_iff hcontent).2 ⟨hmedia, hnull⟩) h
  next hcontent =>
    cases h
    refine .empty hentry fun schema place hschema => ?_
    obtain ⟨content, hcontent', -⟩ := hschema
    exact hcontent content hcontent'

lemma forall₂_of_readResponses {doc : String} {responses : List (String × Node)}
    (h : (readResponses lib doc pointer entries).outcome = .ok responses) :
    Forall₂ (fun entry p => p.1 = entry.1.display ∧
      Operation.Response lib ⟨entry.2, doc, pointer ++ "/responses/" ++
        Pointer.escape entry.1.display⟩ p.2) entries responses := by
  induction entries generalizing responses with
  | nil =>
    cases h
    exact .nil
  | cons entry entries ih =>
    obtain ⟨node, hnode, h⟩ := outcome_bind_eq_ok_iff.1 h
    obtain ⟨rest, hrest, h⟩ := outcome_bind_eq_ok_iff.1 h
    cases h
    exact .cons ⟨rfl, response_of_readResponse hnode⟩ (ih hrest)

lemma entries_of_mappingAt {key : String} {raw : Value} {fault : Fault}
    (h : mappingAt key raw fault = .ok entries) : entries = (raw.get key).entries := by
  unfold mappingAt at h
  split at h
  next hmap =>
    cases h
    rw [hmap]
    rfl
  next hmap =>
    split at h
    next =>
      cases h
      cases hget : raw.get key with
      | map es => exact absurd hget (hmap es)
      | scalar _ | list _ | tuple _ => rfl
    next => cases h

/-- Parameters are grouped by the locations they have, in the order of locations. -/
lemma kinds_of_readGroups (h : (readGroups lib ps pointer Route.locations).outcome = .ok groups) :
    (groups.map (·.1)).Sublist (Route.locations.map (·.2)) ∧
      ∀ kind, kind ∈ groups.map (·.1) ↔
        ∃ location, (location, kind) ∈ Route.locations ∧ ∃ p ∈ ps, p.location = location := by
  have hkeys : groups.map (·.1) =
      (Route.locations.filter fun l => ps.any (·.location == l.1)).map (·.2) :=
    map_eq_map_of_forall₂ (forall₂_of_readGroups h) And.left
  rw [hkeys]
  exact ⟨filter_sublist.map _, fun kind => by simp⟩

/-- A request has a body exactly where the operation has a schema for one. -/
lemma request_of_readBody (h : (readBody lib o.raw o.item.doc o.pointer).outcome = .ok body) :
    (body.map (·.1)).Sublist ["body"] ∧
      (∀ kind, kind ∈ body.map (·.1) ↔
        kind = "body" ∧ ∃ part schema place, o.Body lib part ∧ part.Content schema place) ∧
      ∀ p ∈ body, o.Request lib p.1 p.2 := by
  rcases readBody_cases h with
    ⟨rfl, hnone⟩ | ⟨part, schema, place, node, rfl, hpart, hschema, hnode⟩
  · refine ⟨nil_sublist _, fun kind => ⟨fun h => (not_mem_nil h).elim, ?_⟩,
      fun p hp => (not_mem_nil hp).elim⟩
    rintro ⟨-, part, schema, place, hpart, hschema⟩
    exact absurd hschema (hnone part schema place hpart)
  · refine ⟨List.Sublist.refl _, fun kind => ⟨fun h => ?_, fun h => ?_⟩, fun p hp => ?_⟩
    · exact ⟨mem_singleton.1 h, part, schema, place, hpart, hschema⟩
    · exact mem_singleton.2 h.1
    · obtain rfl := mem_singleton.1 hp
      exact .body hpart hschema hnode

/-- The data of a request is of the kinds that the operation has, in their order. -/
lemma request_of_readGroups (hps : o.Merges lib ps)
    (hgroups : (readGroups lib ps o.pointer Route.locations).outcome = .ok groups)
    (hbody : (readBody lib o.raw o.item.doc o.pointer).outcome = .ok body) :
    ((groups ++ body).map (·.1)).Sublist (Route.locations.map (·.2) ++ ["body"]) ∧
      (∀ kind, kind ∈ (groups ++ body).map (·.1) ↔ o.Carries lib kind) ∧
      ∀ p ∈ groups ++ body, o.Request lib p.1 p.2 := by
  obtain ⟨hsub, hmem⟩ := kinds_of_readGroups hgroups
  obtain ⟨hsub', hmem', hrequest⟩ := request_of_readBody hbody
  rw [map_append]
  refine ⟨hsub.append hsub', fun kind => ?_, fun p hp => ?_⟩
  · rw [mem_append, hmem, hmem']
    constructor
    · rintro (⟨location, hkind, p, hp, hlocation⟩ | ⟨rfl, part, schema, place, hpart, hschema⟩)
      · exact .parameter hkind hps hp hlocation
      · exact .body hpart hschema
    · rintro (⟨hkind, hps', hp, hlocation⟩ | ⟨hpart, hschema⟩)
      · exact .inl ⟨_, hkind, _, hps.unique hps' ▸ hp, hlocation⟩
      · exact .inr ⟨rfl, _, _, _, hpart, hschema⟩
  · rcases mem_append.1 hp with hp | hp
    · obtain ⟨l, hl, hkind, hnode⟩ := exists_left_of_forall₂ (forall₂_of_readGroups hgroups) hp
      exact .parameters (hkind ▸ mem_of_mem_filter hl) hps hnode
    · exact hrequest p hp

/-! ### Reading routes -/

/-- What tells routes apart: the template of the path, and the method. -/
def routeKey (r : Route Node) : String × String :=
  (Route.template r.path, r.method)

/-- Routes have been read for operations, with a key of their own each. -/
structure Adds (lib : Library) (ops : List Operation) (acc acc' : Routing) : Prop where
  routes : ∃ new, acc'.routes = acc.routes ++ new ∧ List.Forall₂ (Operation.Describes lib) ops new
  keys : acc.seen.map (·.1) = acc.routes.map routeKey →
    acc'.seen.map (·.1) = acc'.routes.map routeKey
  nodup : (acc.seen.map (·.1)).Nodup → (acc'.seen.map (·.1)).Nodup

lemma Adds.refl (acc : Routing) : Adds lib [] acc acc :=
  ⟨⟨[], by simp, .nil⟩, id, id⟩

lemma Adds.trans {ops ops' : List Operation} {acc'' : Routing} (h : Adds lib ops acc acc')
    (h' : Adds lib ops' acc' acc'') : Adds lib (ops ++ ops') acc acc'' := by
  obtain ⟨⟨new, hnew, hops⟩, hkeys, hnodup⟩ := h
  obtain ⟨⟨new', hnew', hops'⟩, hkeys', hnodup'⟩ := h'
  refine ⟨⟨new ++ new', ?_, rel_append hops hops'⟩, hkeys' ∘ hkeys, hnodup' ∘ hnodup⟩
  rw [hnew', hnew, append_assoc]

lemma adds_readOperation {method : String × String}
    (hshared : Lists lib (item.raw.get "parameters") item.doc item.pointer shared)
    (h : (readOperation lib path item shared acc method).outcome = .ok acc') :
    Adds lib (if (item.raw.get method.1).isMap then [⟨path, method, item⟩] else []) acc acc' := by
  unfold readOperation at h
  extract_lets operation key pointer next at h
  split at h
  next hnone =>
    cases h
    rw [if_neg (by simpa [operation] using hnone)]
    exact .refl acc
  next hmap =>
    rw [if_pos (by simpa [operation] using hmap)]
    split at h
    next => cases h
    next hnew =>
      obtain ⟨own, hown, h⟩ := outcome_bind_eq_ok_iff.1 h
      obtain ⟨groups, hgroups, h⟩ := outcome_bind_eq_ok_iff.1 h
      obtain ⟨body, hbody, h⟩ := outcome_bind_eq_ok_iff.1 h
      obtain ⟨statuses, hstatuses, h⟩ := outcome_bind_eq_ok_iff.1 h
      obtain ⟨responses, hresponses, h⟩ := outcome_bind_eq_ok_iff.1 h
      cases h
      have hps : Operation.Merges lib ⟨path, method, item⟩ (Parameter.merge shared own) :=
        ⟨shared, own, hshared, lists_of_readParameters hown, rfl⟩
      obtain ⟨hkinds, hcarries, hrequest⟩ :=
        @request_of_readGroups lib ⟨path, method, item⟩ _ _ _ hps hgroups hbody
      have hdescribes : Operation.Describes lib ⟨path, method, item⟩
          ⟨path, method.2, pointer, groups ++ body, responses⟩ := by
        refine ⟨rfl, rfl, hkinds, hcarries, hrequest, ?_⟩
        rw [entries_of_mappingAt hstatuses] at hresponses
        exact forall₂_of_readResponses hresponses
      have hfresh : key ∉ acc.seen.map (·.1) := by
        intro hmem
        obtain ⟨p, hp, hkey⟩ := mem_map.1 hmem
        exact bne_iff_ne.1 (lookup_eq_none_iff.1 hnew p hp) hkey.symm
      refine ⟨⟨_, rfl, .cons hdescribes .nil⟩, fun hkeys => ?_, fun hnodup => ?_⟩
      · rw [map_append, map_append, hkeys]
        rfl
      · rw [map_append]
        exact nodup_append.2 ⟨hnodup, by simp, by grind⟩

/-- The operations in a path item, for some of the methods. -/
def operationsIn (path : String) (item : Part) (methods : List (String × String)) :
    List Operation :=
  (methods.filter fun m => (item.raw.get m.1).isMap).map fun m => ⟨path, m, item⟩

lemma mem_operationsIn : o ∈ operationsIn path item methods ↔
      o.path = path ∧ o.item = item ∧ o.method ∈ methods ∧ o.raw.isMap := by
  rw [operationsIn, mem_map]
  constructor
  · rintro ⟨m, hm, rfl⟩
    obtain ⟨hmem, hmap⟩ := mem_filter.1 hm
    exact ⟨rfl, rfl, hmem, hmap⟩
  · rintro ⟨rfl, rfl, hmem, hmap⟩
    exact ⟨o.method, mem_filter.2 ⟨hmem, hmap⟩, rfl⟩

lemma adds_foldlM_readOperation
    (hshared : Lists lib (item.raw.get "parameters") item.doc item.pointer shared)
    (h : (methods.foldlM (readOperation lib path item shared) acc).outcome = .ok acc') :
    Adds lib (operationsIn path item methods) acc acc' := by
  induction methods generalizing acc with
  | nil =>
    cases h
    exact .refl _
  | cons method methods ih =>
    rw [foldlM_cons] at h
    obtain ⟨acc₁, hacc₁, h⟩ := outcome_bind_eq_ok_iff.1 h
    have hall := (adds_readOperation hshared hacc₁).trans (ih h)
    rw [operationsIn, filter_cons]
    split at hall
    next hmap => rwa [if_pos hmap]
    next hmap => rwa [if_neg hmap]

lemma adds_readPath {entry : Scalar × Value} (h : (readPath lib acc entry).outcome = .ok acc') :
    ∃ item,
      Part.LeadsTo lib ⟨entry.2, lib.base, "#/paths/" ++ Pointer.escape entry.1.display⟩ item ∧
      Adds lib (operationsIn entry.1.display item Route.methods) acc acc' := by
  obtain ⟨item, hitem, h⟩ := outcome_bind_eq_ok_iff.1 h
  refine ⟨item, Part.leadsTo_of_deref hitem, ?_⟩
  split at h
  next hmap =>
    cases h
    -- An item that is no mapping holds nothing under a method.
    have hnone : operationsIn entry.1.display item Route.methods = [] := by
      rw [operationsIn, map_eq_nil_iff, filter_eq_nil_iff]
      intro m _
      cases hraw : item.raw with
      | map es => simp [hraw, Value.isMap] at hmap
      | scalar _ | list _ | tuple _ => exact Bool.false_ne_true
    rw [hnone]
    exact .refl _
  next =>
    obtain ⟨shared, hshared, h⟩ := outcome_bind_eq_ok_iff.1 h
    exact adds_foldlM_readOperation (lists_of_readParameters hshared) h

/-- Reading path items adds the operations in all of them. -/
lemma adds_foldlM_readPath (h : (entries.foldlM (readPath lib) acc).outcome = .ok acc') :
    ∃ ops, Adds lib ops acc acc' ∧ ∀ o : Operation, o ∈ ops ↔
      (∃ key raw, (key, raw) ∈ entries ∧ key.display = o.path ∧
        Part.LeadsTo lib ⟨raw, lib.base, "#/paths/" ++ Pointer.escape o.path⟩ o.item) ∧
      o.method ∈ Route.methods ∧ o.raw.isMap := by
  induction entries generalizing acc with
  | nil =>
    cases h
    exact ⟨[], .refl _, by simp⟩
  | cons entry entries ih =>
    rw [foldlM_cons] at h
    obtain ⟨acc₁, hacc₁, h⟩ := outcome_bind_eq_ok_iff.1 h
    obtain ⟨item, hitem, hadds⟩ := adds_readPath hacc₁
    obtain ⟨ops, hadds', hops⟩ := ih h
    refine ⟨_, hadds.trans hadds', fun o => ?_⟩
    rw [mem_append, mem_operationsIn, hops]
    constructor
    · rintro (⟨hpath, rfl, hmethod, hmap⟩ | ⟨⟨key, raw, hmem, hrest⟩, hmethod⟩)
      · exact ⟨⟨entry.1, entry.2, mem_cons_self, hpath.symm, hpath ▸ hitem⟩, hmethod, hmap⟩
      · exact ⟨⟨key, raw, mem_cons_of_mem _ hmem, hrest⟩, hmethod⟩
    · rintro ⟨⟨key, raw, hmem, hpath, hleads⟩, hmethod, hmap⟩
      rcases mem_cons.1 hmem with rfl | hmem
      · rw [← hpath] at hleads
        exact .inl ⟨hpath.symm, hitem.unique hleads, hmethod, hmap⟩
      · exact .inr ⟨⟨key, raw, hmem, hpath, hleads⟩, hmethod, hmap⟩

/-- Reading the routes of a document gives a route for each of its operations. -/
theorem describes_of_readRoutes {routes : List (Route Node)}
    (h : (readRoutes lib).outcome = .ok routes) :
    ∃ ops, Forall₂ (Operation.Describes lib) ops routes ∧ (∀ o, o ∈ ops ↔ o.IsOf lib) ∧
      (routes.map routeKey).Nodup := by
  obtain ⟨entries, hentries, h⟩ := outcome_bind_eq_ok_iff.1 h
  obtain ⟨acc, hacc, h⟩ := outcome_bind_eq_ok_iff.1 h
  cases h
  obtain ⟨ops, ⟨⟨new, hnew, hdescribes⟩, hkeys, hnodup⟩, hops⟩ := adds_foldlM_readPath hacc
  rw [entries_of_mappingAt hentries] at hops
  refine ⟨ops, ?_, fun o => ?_, ?_⟩
  · rw [hnew]
    exact hdescribes
  · rw [hops]
    exact ⟨fun ⟨hentry, hmethod, hmap⟩ => ⟨hentry, hmethod, hmap⟩,
      fun ⟨hentry, hmethod, hmap⟩ => ⟨hentry, hmethod, hmap⟩⟩
  · rw [← hkeys rfl]
    exact hnodup nodup_nil

/-- A resolved document has the routes that were read. -/
lemma readRoutes_of_resolve {doc : Resolved} (h : (resolve lib).outcome = .ok doc) :
    (readRoutes lib).outcome = .ok doc.routes := by
  rw [resolve] at h
  generalize hrun : (resolveAll lib).run {} = result at h
  obtain ⟨outcome, w⟩ := result
  cases outcome with
  | error fault => cases h
  | ok routes =>
    cases h
    unfold resolveAll at hrun
    extract_lets next at hrun
    have hnext : (next ()).run {} = (.ok routes, w) := by
      split at hrun
      · cases hrun
      · exact hrun
    obtain ⟨_, _, -, hrun⟩ := run_bind_eq_ok_iff.1 hnext
    obtain ⟨_, _, -, hrun⟩ := run_bind_eq_ok_iff.1 hrun
    obtain ⟨_, _, -, hrun⟩ := run_bind_eq_ok_iff.1 hrun
    obtain ⟨_, _, -, hend⟩ := run_bind_eq_ok_iff.1 hrun
    split at hend
    next hroutes =>
      cases hend
      exact hroutes
    next => cases hend

end Schema

end ApiSchema
