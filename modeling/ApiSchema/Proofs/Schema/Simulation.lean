import ApiSchema.Proofs.Schema.Role

/-!
# Libraries that stand in for one another

The parts of routes are read role by role, as schemas are, and a resolution follows the demands of
its readings. Main statement: a document that resolves has the same resolution in every library
where its parts have counterparts and its components are listed in the same order.
-/

namespace ApiSchema

open List hiding modify
open Traced

/-- A part and its counterpart. -/
structure Part.Simulates (R : Role → String → Value → Value → Prop) (role : Role)
    (part part' : Part) : Prop where
  raw : R role part.doc part.raw part'.raw
  doc : part'.doc = part.doc
  pointer : part'.pointer = part.pointer

lemma Part.simulates_of {R : Role → String → Value → Value → Prop} {role : Role} {doc : String}
    {raw raw' : Value} (h : R role doc raw raw') (pointer : String) :
    Part.Simulates R role ⟨raw, doc, pointer⟩ ⟨raw', doc, pointer⟩ :=
  ⟨h, rfl, rfl⟩

namespace Schema

variable {lib lib' : Library} {D : String → Prop} {R : Role → String → Value → Value → Prop}

section

variable (hlib : lib.Simulates lib' D R)

variable {role : Role} {part part' : Part}

include hlib

/-! ### Parts of routes -/

lemma carries_derefWithin (hrole : role ∈ Role.followed) (n : Nat) {n' : Nat} (hn : n ≤ n')
    (seen : List String) (h : part.Simulates R role part') :
    Carries D (Part.Simulates R role) (part.derefWithin lib n seen)
      (part'.derefWithin lib' n' seen) := by
  induction n generalizing n' seen part part' with
  | zero => exact carries_throw
  | succ n ih =>
    obtain ⟨n', rfl⟩ : ∃ k, n' = k + 1 := ⟨n' - 1, by omega⟩
    have href := get?_of_simulates hlib h.raw (Role.mem_fields_of_followed hrole)
    unfold Part.derefWithin
    rw [href, h.doc, h.pointer, locate_of_base hlib.base]
    split
    next ref hfound =>
      cases hplace : lib.locate ref part.doc part.pointer with
      | error fault => exact carries_throw
      | ok place =>
        show Carries D _ (pure place >>= _) (pure place >>= _)
        rw [pure_bind, pure_bind]
        split
        · exact carries_throw
        · have hplace := Library.locate_referrer hplace ""
          refine (carries_lookup hlib (fun raw hD => hlib.referent hrole h.raw hfound hplace hD) _
            _).bind fun raw raw' hraw => ?_
          exact ih (by omega) _ (Part.simulates_of hraw _)
    next => exact carries_pure h

lemma carries_deref (hrole : role ∈ Role.followed) (h : part.Simulates R role part') :
    Carries D (Part.Simulates R role) (part.deref lib) (part'.deref lib') :=
  carries_derefWithin hlib hrole _ (Nat.succ_le_succ hlib.limit) [] h

end

/-! ### Media types -/

section

variable {part : Role} {uri : String} {es es' : List (Scalar × Value)}
  (h : List.Forall₂ (fun e e' => e'.1 = e.1 ∧ R part uri e.2 e'.2) es es')

include h

lemma find?_of_forall₂ (key : Scalar) :
    Option.Rel (R part uri) (Value.find? key es) (Value.find? key es') := by
  induction h with
  | nil => exact .none
  | cons he _ ih =>
    rw [Value.find?, Value.find?, he.1]
    split
    · exact .some he.2
    · exact ih

lemma preferredTypes_of_forall₂ : preferredTypes es' = preferredTypes es := by
  have hkeys : es'.map (·.1) = es.map (·.1) := map_eq_map_of_forall₂ h fun he => he.1
  have hfilter (f : Scalar × Value → Option Scalar) (hf : ∀ k v v', f (k, v') = f (k, v)) :
      es'.filterMap f = es.filterMap f := by
    clear hkeys
    induction h with
    | nil => rfl
    | @cons e e' _ _ he _ ih =>
      have hfirst : f e' = f e := by rw [← Prod.eta e', he.1, hf e.1 e.2]
      rw [filterMap_cons, filterMap_cons, hfirst, ih]
  unfold preferredTypes
  rw [hkeys, hfilter _ fun _ _ _ => rfl]

end

lemma findSome?_rel {α β γ : Type} {S : β → γ → Prop} {f : α → Option β} {g : α → Option γ}
    (h : ∀ a, Option.Rel S (f a) (g a)) (as : List α) :
    Option.Rel S (as.findSome? f) (as.findSome? g) := by
  induction as with
  | nil => exact .none
  | cons a as ih =>
    rw [List.findSome?_cons, List.findSome?_cons]
    have ha := h a
    generalize f a = x at ha ⊢
    generalize g a = y at ha ⊢
    cases ha with
    | none => exact ih
    | some hxy => exact .some hxy

/-- A schema with its place, and the counterpart at the same place. Both may be missing. -/
structure SamePlace (R : Role → String → Value → Value → Prop) (uri : String)
    (found found' : Value × String) : Prop where
  place : found'.2 = found.2
  schema : R .schema uri found.1 found'.1 ∨ found.1 = .null ∧ found'.1 = .null

lemma samePlace_getD {uri : String} {found found' : Option (Value × String)}
    (h : Option.Rel (fun place place' => place'.2 = place.2 ∧ R .schema uri place.1 place'.1)
      found found') (pointer : String) :
    SamePlace R uri (found.getD (.null, pointer)) (found'.getD (.null, pointer)) := by
  cases h with
  | none => exact ⟨rfl, .inr ⟨rfl, rfl⟩⟩
  | some hfound => exact ⟨hfound.1, .inl hfound.2⟩

section

variable (hlib : lib.Simulates lib' D R)

variable {uri : String}

include hlib

/-- Of two schemas that stand in for one another both are null or none. -/
lemma SamePlace.null_iff {found found' : Value × String} (h : SamePlace R uri found found') :
    found'.1 = .null ↔ found.1 = .null := by
  obtain hschema | ⟨hnull, hnull'⟩ := h.schema
  · exact Value.eq_scalar_iff_of_shell (hlib.shell hschema) _
  · rw [hnull, hnull']

/-- The preferred media type is the same. -/
lemma samePlace_mediaSchema {content content' : List (Scalar × Value)}
    (h : Forall₂ (fun e e' => e'.1 = e.1 ∧ R .media uri e.2 e'.2) content content')
    (pointer : String) :
    SamePlace R uri (mediaSchema content pointer) (mediaSchema content' pointer) := by
  unfold mediaSchema
  rw [preferredTypes_of_forall₂ h]
  refine samePlace_getD (findSome?_rel (fun type => ?_) _) pointer
  have hrel := find?_of_forall₂ h type
  generalize Value.find? type content = found at hrel ⊢
  generalize Value.find? type content' = found' at hrel ⊢
  cases hrel with
  | none => exact .none
  | @some media media' hmedia =>
    have hmap := Value.isMap_of_shell (hlib.shell hmedia)
    cases media with
    | map es =>
      obtain ⟨es', rfl⟩ :=
        (Value.eq_map_iff_of_shell (hlib.shell hmedia)).2 ⟨es, rfl⟩
      have hschema : Option.Rel (R .schema uri) (Value.find? (.str "schema") es)
          (Value.find? (.str "schema") es') := hlib.field hmedia (by decide)
      dsimp only
      generalize Value.find? (.str "schema") es = schema at hschema ⊢
      generalize Value.find? (.str "schema") es' = schema' at hschema ⊢
      cases hschema with
      | none => exact .none
      | some hschema => exact .some ⟨rfl, hschema⟩
    | scalar _ | list _ | tuple _ =>
      cases media' with
      | map _ => cases hmap
      | scalar _ | list _ | tuple _ => exact .none

/-- What stands under the preferred media type is read alike. -/
lemma carries_content {α : Type} {role : Role} (hrole : ("content", Role.content) ∈ role.fields)
    {part part' : Part} (h : part.Simulates R role part') {f : Node → Reading α} {x : Reading α} :
    Carries D Eq
      (match part.raw.get "content" with
        | .map content =>
          match mediaSchema content (part.pointer ++ "/content") with
          | (.null, _) => x
          | (schema, place) => read lib part.doc schema place >>= f
        | _ => x)
      (match part'.raw.get "content" with
        | .map content =>
          match mediaSchema content (part'.pointer ++ "/content") with
          | (.null, _) => x
          | (schema, place) => read lib' part'.doc schema place >>= f
        | _ => x) := by
  rw [h.pointer, h.doc]
  obtain ⟨hnull, hnull'⟩ | ⟨hcontent, -⟩ := get_of_simulates hlib h.raw hrole
  · rw [hnull, hnull']
    exact carries_refl (fun _ => rfl) x
  have hshell := hlib.shell hcontent
  generalize part.raw.get "content" = v at *
  generalize part'.raw.get "content" = v' at *
  cases v with
  | scalar _ | list _ | tuple _ =>
    have hmap := Value.isMap_of_shell hshell
    cases v' with
    | map _ => cases hmap
    | scalar _ | list _ | tuple _ => exact carries_refl (fun _ => rfl) x
  | map content =>
    obtain ⟨content', rfl⟩ := (Value.eq_map_iff_of_shell hshell).2 ⟨content, rfl⟩
    have hfound := samePlace_mediaSchema hlib (hlib.member hcontent rfl)
      (part.pointer ++ "/content")
    dsimp only
    generalize mediaSchema content (part.pointer ++ "/content") = found at hfound ⊢
    generalize mediaSchema content' (part.pointer ++ "/content") = found' at hfound ⊢
    obtain ⟨schema, place⟩ := found
    obtain ⟨schema', place'⟩ := found'
    have hnull := hfound.null_iff hlib
    obtain ⟨rfl : place' = place, hschema⟩ := hfound
    dsimp only at hnull hschema
    obtain hschema | ⟨rfl, rfl⟩ := hschema
    · split
      next heq =>
        cases heq
        rw [hnull.2 rfl]
        exact carries_refl (fun _ => rfl) x
      next hne heq =>
        cases heq
        split
        next heq' =>
          cases heq'
          exact (hne (hnull.1 rfl)).elim
        next heq' =>
          cases heq'
          exact (carries_read hlib hschema place').then fun node => carries_refl (fun _ => rfl) _
    · exact carries_refl (fun _ => rfl) x

end

/-! ### Parameters -/

/-- A parameter and its counterpart. -/
structure Parameter.Simulates (R : Role → String → Value → Value → Prop) (p p' : Parameter) :
    Prop where
  name : p'.name = p.name
  location : p'.location = p.location
  part : p.part.Simulates R .parameter p'.part

namespace Parameter

variable {p p' : Parameter} {ps ps' qs qs' : List Parameter}

lemma forall₂_put (hp : p.Simulates R p') (hps : Forall₂ (Simulates R) ps ps') :
    Forall₂ (Simulates R) (p.put ps) (p'.put ps') := by
  induction hps with
  | nil => exact .cons hp .nil
  | @cons q q' qs qs' hq hqs ih =>
    rw [put, put, hq.name, hq.location, hp.name, hp.location]
    split
    · exact .cons hp hqs
    · exact .cons hq ih

lemma forall₂_merge (hps : Forall₂ (Simulates R) ps ps') (hqs : Forall₂ (Simulates R) qs qs') :
    Forall₂ (Simulates R) (merge ps qs) (merge ps' qs') := by
  unfold merge
  induction hqs generalizing ps ps' with
  | nil => exact hps
  | cons hq _ ih => exact ih (forall₂_put hq hps)

lemma forall₂_filter {test : Parameter → Bool}
    (htest : ∀ {p p' : Parameter}, p.Simulates R p' → test p' = test p)
    (hps : Forall₂ (Simulates R) ps ps') : Forall₂ (Simulates R) (ps.filter test) (ps'.filter test) := by
  induction hps with
  | nil => exact .nil
  | cons hp _ ih =>
    rw [filter_cons, filter_cons, htest hp]
    split
    · exact .cons hp ih
    · exact ih

end Parameter

section

variable (hlib : lib.Simulates lib' D R)

variable {p p' : Parameter} {entry entry' : Part} {doc : String} {role : Role} {raw raw' : Value}
  {ps ps' : List Parameter}

include hlib

lemma Parameter.isRequired_of_simulates (h : p.Simulates R p') : p'.isRequired = p.isRequired := by
  have hrequired := get?_of_simulates hlib h.part.raw
    (show ("required", .data) ∈ Role.parameter.fields by decide)
  unfold Parameter.isRequired
  rw [h.location, Value.get, hrequired, Value.get]

/-- The schema of a parameter stands at the same place. -/
lemma Parameter.samePlace_schema (h : p.Simulates R p') :
    SamePlace R p.part.doc p.schema p'.schema := by
  have hschema := get_of_simulates hlib h.part.raw
    (show ("schema", .schema) ∈ Role.parameter.fields by decide)
  have hcontent := get_of_simulates hlib h.part.raw
    (show ("content", .content) ∈ Role.parameter.fields by decide)
  have hown : SamePlace R p.part.doc (p.part.raw.get "schema", p.part.pointer ++ "/schema")
      (p'.part.raw.get "schema", p.part.pointer ++ "/schema") :=
    ⟨rfl, hschema.symm.imp_left And.left⟩
  have hnull := hown.null_iff hlib
  unfold Parameter.schema
  rw [h.part.pointer]
  generalize p.part.raw.get "schema" = v at *
  generalize p'.part.raw.get "schema" = v' at *
  by_cases hv : v = .null
  · obtain rfl := hnull.2 hv
    subst hv
    obtain ⟨hnone, hnone'⟩ | ⟨hcontent, -⟩ := hcontent
    · rw [hnone, hnone']
      exact hown
    have hshell := hlib.shell hcontent
    generalize p.part.raw.get "content" = c at *
    generalize p'.part.raw.get "content" = c' at *
    cases c with
    | map content =>
      obtain ⟨content', rfl⟩ := (Value.eq_map_iff_of_shell hshell).2 ⟨content, rfl⟩
      exact samePlace_mediaSchema hlib (hlib.member hcontent rfl) _
    | scalar _ | list _ | tuple _ =>
      have hmap := Value.isMap_of_shell hshell
      cases c' with
      | map _ => cases hmap
      | scalar _ | list _ | tuple _ => exact hown
  · split
    next => exact (hv rfl).elim
    next =>
      split
      next => exact (hv (hnull.1 rfl)).elim
      next => exact hown

lemma carries_readParameter (h : entry.Simulates R .parameter entry') :
    Carries D (Parameter.Simulates R) (readParameter lib entry) (readParameter lib' entry') := by
  refine (carries_deref hlib (by decide) h).bind fun part part' hpart => ?_
  have hname := get?_of_simulates hlib hpart.raw
    (show ("name", .data) ∈ Role.parameter.fields by decide)
  have hin := get?_of_simulates hlib hpart.raw
    (show ("in", .data) ∈ Role.parameter.fields by decide)
  rw [hname, hin, hpart.pointer]
  split
  · exact carries_pure ⟨rfl, rfl, hpart⟩
  · exact carries_throw

lemma carries_readParameterList (pointer : String) (i : Nat) {raws raws' : List Value}
    (h : Forall₂ (R .parameter doc) raws raws') :
    Carries D (Forall₂ (Parameter.Simulates R)) (readParameterList lib doc pointer i raws)
      (readParameterList lib' doc pointer i raws') := by
  induction h generalizing i with
  | nil => exact carries_pure .nil
  | cons hraw _ ih =>
    refine (carries_readParameter hlib (Part.simulates_of hraw _)).bind fun p p' hp => ?_
    exact (ih (i + 1)).bind fun ps ps' hps => carries_pure (.cons hp hps)

/-- The parameters of a path item or an operation. -/
lemma carries_readParameters (hrole : ("parameters", Role.parameters) ∈ role.fields)
    (h : R role doc raw raw') (pointer : String) :
    Carries D (Forall₂ (Parameter.Simulates R))
      (readParameters lib (raw.get "parameters") doc pointer)
      (readParameters lib' (raw'.get "parameters") doc pointer) := by
  obtain ⟨hnull, hnull'⟩ | ⟨hparameters, -⟩ := get_of_simulates hlib h hrole
  · rw [hnull, hnull']
    exact carries_pure .nil
  · have hshell := hlib.shell hparameters
    generalize raw.get "parameters" = v at *
    generalize raw'.get "parameters" = v' at *
    unfold readParameters
    split
    next =>
      rw [(Value.eq_scalar_iff_of_shell hshell _).2 rfl]
      exact carries_pure .nil
    next entries =>
      obtain ⟨entries', rfl⟩ := (Value.eq_list_iff_of_shell hshell).2 ⟨entries, rfl⟩
      refine (carries_readParameterList hlib pointer 0 (hlib.element hparameters rfl)).bind
        fun ps ps' hps => ?_
      exact carries_pure (Parameter.forall₂_merge .nil hps)
    next => exact carries_throw

lemma carries_readParameterSchemas (h : Forall₂ (Parameter.Simulates R) ps ps') :
    Carries D Eq (readParameterSchemas lib ps) (readParameterSchemas lib' ps') := by
  induction h with
  | nil => exact carries_pure rfl
  | @cons p p' ps ps' hp _ ih =>
    have hfound := Parameter.samePlace_schema hlib hp
    unfold readParameterSchemas
    generalize p.schema = found at hfound ⊢
    generalize p'.schema = found' at hfound ⊢
    have hnull := hfound.null_iff hlib
    dsimp only
    rw [hfound.place, hp.part.doc, hp.name]
    refine Carries.then ?_ fun node => ih.then fun nodes => carries_pure rfl
    by_cases hmissing : found.1 = .null
    · rw [hmissing, hnull.2 hmissing]
      exact carries_pure rfl
    · have hpresent {v : Value} (hv : v ≠ .null) : v.isNull = false := by
        unfold Value.isNull
        split
        · exact (hv rfl).elim
        · rfl
      rw [hpresent hmissing, hpresent fun h => hmissing (hnull.1 h)]
      exact carries_read hlib (hfound.schema.resolve_right fun h => hmissing h.1) _

lemma carries_readGroups (h : Forall₂ (Parameter.Simulates R) ps ps') (pointer : String)
    (locations : List (String × String)) :
    Carries D Eq (readGroups lib ps pointer locations) (readGroups lib' ps' pointer locations) := by
  induction locations with
  | nil => exact carries_pure rfl
  | cons location rest ih =>
    have hhere : Forall₂ (Parameter.Simulates R) (ps.filter (·.location == location.1))
        (ps'.filter (·.location == location.1)) :=
      Parameter.forall₂_filter (fun hp => by rw [hp.location]) h
    have hrequired : ((ps'.filter (·.location == location.1)).filter Parameter.isRequired).map
        (·.name) = ((ps.filter (·.location == location.1)).filter Parameter.isRequired).map
        (·.name) := by
      refine map_eq_map_of_forall₂ (Parameter.forall₂_filter ?_ hhere) ?_
      · exact fun hp => Parameter.isRequired_of_simulates hlib hp
      · exact fun hp => hp.name
    unfold readGroups
    dsimp only
    refine (carries_readParameterSchemas hlib hhere).then fun properties => ?_
    refine ih.then fun groups => ?_
    rw [hrequired]
    exact carries_refl (fun _ => rfl) _

/-! ### Operations -/

lemma carries_readBody {operation operation' : Value} (h : R .operation doc operation operation')
    (pointer : String) :
    Carries D Eq (readBody lib operation doc pointer) (readBody lib' operation' doc pointer) := by
  have hrel := hlib.field h (show ("requestBody", .body) ∈ Role.operation.fields by decide)
  unfold readBody
  generalize operation.get? "requestBody" = found at hrel ⊢
  generalize operation'.get? "requestBody" = found' at hrel ⊢
  cases hrel with
  | none => exact carries_pure rfl
  | some hraw =>
    refine (carries_deref hlib (by decide) (Part.simulates_of hraw _)).bind
      fun body body' hbody => ?_
    exact carries_content hlib (by decide) hbody

lemma carries_readResponse (h : entry.Simulates R .response entry') :
    Carries D Eq (readResponse lib entry) (readResponse lib' entry') := by
  refine (carries_deref hlib (by decide) h).bind fun response response' hresponse => ?_
  have hcontent := carries_content hlib (by decide) hresponse
    (f := pure) (x := pure (.null ⟨response.pointer, false⟩))
  simp only [bind_pure] at hcontent
  rw [hresponse.pointer] at hcontent ⊢
  exact hcontent

lemma carries_readResponses (pointer : String) {es es' : List (Scalar × Value)}
    (h : Forall₂ (fun e e' => e'.1 = e.1 ∧ R .response doc e.2 e'.2) es es') :
    Carries D Eq (readResponses lib doc pointer es) (readResponses lib' doc pointer es') := by
  induction h with
  | nil => exact carries_pure rfl
  | @cons e e' es es' he _ ih =>
    obtain ⟨hkey, hraw⟩ := he
    rw [readResponses, readResponses, hkey]
    refine (carries_readResponse hlib (Part.simulates_of hraw _)).then fun node => ?_
    exact ih.then fun nodes => carries_pure rfl

/-- What is read from the mapping under a key. -/
lemma carries_mappingAt {part : Role} {key : String}
    (h : Option.Rel (R role doc) (raw.get? key) (raw'.get? key)) (hpart : role.member? = some part)
    (fault : Fault) :
    Carries D (Forall₂ fun e e' => e'.1 = e.1 ∧ R part doc e.2 e'.2)
      (Traced.ofExcept (mappingAt key raw fault)) (Traced.ofExcept (mappingAt key raw' fault)) := by
  have hentries (raw : Value) : (Traced.ofExcept (mappingAt key raw fault) : Reading _) =
      match raw.get key with
      | .map es => pure es
      | v => if v.isEmpty then pure [] else throw fault := by
    unfold mappingAt
    cases raw.get key with
    | map es => rfl
    | scalar _ | list _ | tuple _ =>
      dsimp only
      split <;> rfl
  rw [hentries, hentries, Value.get, Value.get]
  generalize raw.get? key = found at h ⊢
  generalize raw'.get? key = found' at h ⊢
  cases h with
  | none => exact carries_pure .nil
  | some h => exact carries_entries hlib h hpart (fun _ _ hes _ => carries_pure hes) carries_throw

lemma carries_readOperation (path : String) {item item' : Part}
    (hitem : item.Simulates R .item item') {shared shared' : List Parameter}
    (hshared : Forall₂ (Parameter.Simulates R) shared shared') (acc : Routing)
    {method : String × String} (hmethod : method ∈ Route.methods) :
    Carries D Eq (readOperation lib path item shared acc method)
      (readOperation lib' path item' shared' acc method) := by
  have hfield : (method.1, Role.operation) ∈ Role.item.fields :=
    mem_append_right _ (mem_map.2 ⟨method, hmethod, rfl⟩)
  unfold readOperation
  rw [hitem.pointer, hitem.doc]
  obtain ⟨hnull, hnull'⟩ | ⟨hoperation, -⟩ := get_of_simulates hlib hitem.raw hfield
  · rw [hnull, hnull']
    exact carries_pure rfl
  · have hmap := Value.isMap_of_shell (hlib.shell hoperation)
    extract_lets operation key pointer next operation' next'
    have hmap : operation'.isMap = operation.isMap := hmap
    have hnext (_ : Unit) : Carries D Eq (next ()) (next' ()) := by
      refine (carries_readParameters hlib (by decide) hoperation _).bind fun own own' hown => ?_
      refine (carries_readGroups hlib (Parameter.forall₂_merge hshared hown) _ _).then
        fun groups => ?_
      refine (carries_readBody hlib hoperation _).then fun body => ?_
      have hfield := hlib.field hoperation
        (show ("responses", .responses) ∈ Role.operation.fields by decide)
      refine (carries_mappingAt hlib hfield rfl _).bind fun statuses statuses' hstatuses => ?_
      exact (carries_readResponses hlib _ hstatuses).then fun responses => carries_pure rfl
    rw [hmap]
    split
    · exact carries_pure rfl
    · split
      · exact carries_throw
      · exact hnext ()

lemma carries_readPath (acc : Routing) {entry entry' : Scalar × Value} (hkey : entry'.1 = entry.1)
    (h : R .item lib.base entry.2 entry'.2) :
    Carries D Eq (readPath lib acc entry) (readPath lib' acc entry') := by
  unfold readPath
  rw [hkey, hlib.base]
  refine (carries_deref hlib (by decide) (Part.simulates_of h _)).bind fun item item' hitem => ?_
  rw [Value.isMap_of_shell (hlib.shell hitem.raw), hitem.doc, hitem.pointer]
  split
  · exact carries_pure rfl
  · refine (carries_readParameters hlib (by decide) hitem.raw _).bind fun shared shared' hshared => ?_
    refine carries_foldlM (S := fun m m' => m' = m ∧ m ∈ Route.methods) ?_ ?_ rfl
    · exact forall₂_same.2 fun method hmethod => ⟨rfl, hmethod⟩
    · rintro acc _ method _ rfl ⟨rfl, hmethod⟩
      exact carries_readOperation hlib _ hitem hshared acc hmethod

/-- The routes of a document are read alike in both libraries. -/
theorem carries_readRoutes : Carries D Eq (readRoutes lib) (readRoutes lib') := by
  refine (carries_mappingAt hlib hlib.paths rfl _).bind fun paths paths' hpaths => ?_
  refine Carries.then ?_ fun routing => carries_pure rfl
  refine carries_foldlM hpaths ?_ rfl
  rintro acc _ entry entry' rfl ⟨hkey, hentry⟩
  exact carries_readPath hlib acc hkey hentry

end

/-! ### Documents that are opened -/

/-- Documents that were opened before a step are still known behind it. -/
def Grows {α : Type} (x : Resolving α) : Prop :=
  ∀ w, w.opened ⊆ (x.run w).2.opened

section

variable {α β : Type}

variable {define : Link → Resolving Unit}

-- Growth is an invariant of steps, for every set of documents to start from.
lemma grows_iff {x : Resolving α} : Grows x ↔ ∀ opened : List String,
    Steers (fun w => opened ⊆ w.opened) (fun _ => True) (fun _ => True) x := by
  constructor
  · intro h opened w hw
    exact ⟨List.Subset.trans hw (h w), fun _ _ => trivial, fun _ _ => trivial⟩
  · intro h w
    exact (h w.opened w (List.Subset.refl _)).1

lemma Walk.opened_subset_openDocument (uri : String) (w : Walk) :
    w.opened ⊆ (w.openDocument uri).opened := by
  rw [Walk.openDocument]
  split
  · exact List.Subset.refl _
  · exact subset_append_left _ _

lemma Walk.mem_opened_openDocument (uri : String) (w : Walk) :
    uri ∈ (w.openDocument uri).opened := by
  rw [Walk.openDocument]
  split
  next h => exact contains_iff_mem.1 h
  next => exact mem_append_right _ (mem_singleton.2 rfl)

lemma Walk.opened_introduce (target name : String) (w : Walk) :
    (w.introduce target name).opened = w.opened := by
  rw [Walk.introduce]
  split <;> rfl

lemma grows_pure (a : α) : Grows (pure a) :=
  fun _ => List.Subset.refl _

lemma grows_modify {f : Walk → Walk} (hf : ∀ w, w.opened ⊆ (f w).opened) :
    Grows (modify f : Resolving Unit) :=
  hf

lemma grows_forM {f : β → Resolving Unit} {bs : List β} (hf : ∀ b ∈ bs, Grows (f b)) :
    Grows (bs.forM f) :=
  grows_iff.2 fun opened => steers_forM fun b hb => grows_iff.1 (hf b hb) opened

lemma grows_meet (hdefine : ∀ link, Grows (define link)) (x : Reading α) :
    Grows (meet define x) := by
  refine grows_iff.2 fun opened => ?_
  refine steers_meet (fun uri w hw => ?_) (fun link _ => grows_iff.1 (hdefine link) opened)
    (fun _ _ => trivial) fun _ _ => trivial
  exact List.Subset.trans hw (w.opened_subset_openDocument uri)

lemma grows_defineWithin (lib : Library) (n : Nat) (stack : List String) (link : Link) :
    Grows (defineWithin lib n stack link) := by
  refine grows_iff.2 fun opened => ?_
  have hkeeps : (Reader.free lib (forms_true _)).Keeps fun w => opened ⊆ w.opened := by
    refine ⟨fun uri w hw => ?_, fun _ _ hw => hw, fun _ name w hw => ?_, fun _ _ _ _ _ hw => hw⟩
    · exact List.Subset.trans hw (w.opened_subset_openDocument uri)
    · rwa [Walk.opened_introduce]
  exact hkeeps.guides.steers_defineWithin n (.inl trivial) trivial

lemma grows_meetDemand (hdefine : ∀ link, Grows (define link)) (demand : Demand) :
    Grows (meetDemand define demand) := by
  cases demand with
  | document uri => exact grows_modify (Walk.opened_subset_openDocument uri)
  | schema link => exact hdefine link

/-- Documents among the demands that were met have been opened. -/
lemma mem_opened_of_forM (hdefine : ∀ link, Grows (define link)) {demands : List Demand}
    {w w' : Walk} {u : Unit} (h : (demands.forM (meetDemand define)).run w = (.ok u, w'))
    {uri : String} (huri : .document uri ∈ demands) : uri ∈ w'.opened := by
  induction demands generalizing w with
  | nil => cases huri
  | cons demand demands ih =>
    obtain ⟨_, w₁, hfirst, hrest⟩ := run_bind_eq_ok_iff.1 h
    obtain rfl | huri := mem_cons.1 huri
    · cases hfirst
      have hsub := (show Grows (demands.forM _) from grows_forM fun demand _ =>
        grows_meetDemand hdefine demand) (w.openDocument uri)
      rw [hrest] at hsub
      exact hsub (Walk.mem_opened_openDocument uri w)
    · exact ih hrest huri

end

/-! ### Walks -/

/-- If the first step succeeds and only documents in `D` are known behind it, the second one leads to
the same walk, with a related result. -/
def Retraces {α β : Type} (D : String → Prop) (S : α → β → Prop) (x : Resolving α)
    (y : Resolving β) : Prop :=
  ∀ w a w', x.run w = (.ok a, w') → (∀ uri ∈ w'.opened, D uri) →
    ∃ b, y.run w = (.ok b, w') ∧ S a b

section

variable {α β γ δ : Type} {S : α → β → Prop} {T : γ → δ → Prop}

variable {a : α} {y : Resolving β} {define : Link → Resolving Unit} {x : Reading α}

lemma retraces_pure {b : β} (h : S a b) : Retraces D S (pure a) (pure b) := by
  intro w a' w' hrun _
  cases hrun
  exact ⟨b, rfl, h⟩

lemma retraces_throw {fault : Fault} : Retraces D S (throw fault) y := by
  intro w a w' hrun
  cases hrun

lemma retraces_refl (x : Resolving α) : Retraces D Eq x x :=
  fun _ a _ hrun _ => ⟨a, hrun, rfl⟩

lemma Retraces.bind {x : Resolving α} {f : α → Resolving γ} {g : β → Resolving δ}
    (hxy : Retraces D S x y) (hgrows : ∀ a, Grows (f a))
    (hfg : ∀ a b, S a b → Retraces D T (f a) (g b)) : Retraces D T (x >>= f) (y >>= g) := by
  intro w c w'' hrun hD
  obtain ⟨a, w', hrunx, hrunf⟩ := run_bind_eq_ok_iff.1 hrun
  have hsub := hgrows a w'
  rw [hrunf] at hsub
  obtain ⟨b, hruny, hab⟩ := hxy w a w' hrunx fun uri huri => hD uri (hsub huri)
  obtain ⟨d, hrung, hcd⟩ := hfg a b hab w' c w'' hrunf hD
  exact ⟨d, (run_bind_of_ok hruny).trans hrung, hcd⟩

lemma retraces_forM {f g : γ → Resolving Unit} {cs : List γ} (hgrows : ∀ c, Grows (f c))
    (hfg : ∀ c ∈ cs, Retraces D Eq (f c) (g c)) : Retraces D Eq (cs.forM f) (cs.forM g) := by
  induction cs with
  | nil => exact retraces_pure rfl
  | cons c cs ih =>
    refine (hfg c mem_cons_self).bind (fun _ => grows_forM fun c _ => hgrows c) fun _ _ _ => ?_
    exact ih fun d hd => hfg d (mem_cons_of_mem _ hd)

/-- Meeting the demands of readings that carry over, given how links are followed. -/
lemma retraces_meet {define' : Link → Resolving Unit} {y : Reading β} (hxy : Carries D S x y)
    (hgrows : ∀ link, Grows (define link))
    (hdefine : ∀ link, .schema link ∈ x.trace → Retraces D Eq (define link) (define' link)) :
    Retraces D S (meet define x) (meet define' y) := by
  intro w a w' hrun hD
  obtain ⟨hdemands, houtcome⟩ := demands_and_outcome_of_meet hrun
  obtain ⟨b, rfl, hab⟩ := hxy a houtcome fun uri huri =>
    hD uri (mem_opened_of_forM hgrows hdemands huri)
  have hsame : Retraces D Eq (x.trace.forM (meetDemand define))
      (x.trace.forM (meetDemand define')) := by
    refine retraces_forM (fun demand => grows_meetDemand hgrows demand) fun demand hdemand => ?_
    cases demand with
    | document uri => exact retraces_refl _
    | schema link => exact hdefine link hdemand
  obtain ⟨_, hdemands', -⟩ := hsame w _ w' hdemands hD
  exact ⟨b, run_bind_of_ok hdemands', hab⟩

end

section

variable (hlib : lib.Simulates lib' D R)

variable {link : Link}

include hlib

lemma retraces_defineWithin (n : Nat) {n' : Nat} (hn : n ≤ n') (stack : List String)
    (hlink : lib.Meets link.target link.uri) :
    Retraces D Eq (defineWithin lib n stack link) (defineWithin lib' n' stack link) := by
  induction n generalizing n' stack link with
  | zero => exact retraces_throw
  | succ n ih =>
    obtain ⟨n', rfl⟩ : ∃ k, n' = k + 1 := ⟨n' - 1, by omega⟩
    intro w u w' hrun hD
    obtain ⟨_, _, hget, hrun⟩ := run_bind_eq_ok_iff.1 hrun
    cases hget
    refine ⟨u, ?_, rfl⟩
    unfold defineWithin
    rw [locate_of_base hlib.base]
    refine (run_bind_of_ok (show (get : Resolving Walk).run w = (.ok w, w) from rfl)).trans ?_
    split at hrun
    next hdefined =>
      rw [if_pos hdefined]
      exact hrun
    next hundefined =>
    rw [if_neg hundefined]
    split at hrun
    next hstack =>
      rw [if_pos hstack]
      exact hrun
    next hstack =>
    rw [if_neg hstack]
    obtain ⟨place, w₁, hplace, hrun⟩ := run_bind_eq_ok_iff.1 hrun
    obtain ⟨raw, w₂, hraw, hrun⟩ := run_bind_eq_ok_iff.1 hrun
    obtain ⟨_, w₃, hintroduce, hrun⟩ := run_bind_eq_ok_iff.1 hrun
    obtain ⟨node, w₄, hread, hrecord⟩ := run_bind_eq_ok_iff.1 hrun
    cases hintroduce
    cases hrecord
    have hlocated : lib.locate link.target link.uri "" = .ok place :=
      Library.locate_referrer (demands_and_outcome_of_meet hplace).2 ""
    have hheld := lookup_referrer (demands_and_outcome_of_meet hraw).2 link.target ""
    have hgrows (link' : Link) := grows_defineWithin lib n (stack ++ [link.target]) link'
    have hD₂ : ∀ uri ∈ w₂.opened, D uri := by
      have hsub := grows_meet hgrows (read lib place.uri raw link.target)
        (w₂.introduce link.target (targetName place))
      rw [hread, Walk.opened_introduce] at hsub
      exact fun uri huri => hD uri (hsub huri)
    obtain ⟨raw', hraw', hrel⟩ := retraces_meet
      (carries_lookup hlib (fun raw hD => hlib.target hlink hlocated hD) _ _)
      (fun _ => grows_pure ()) (fun _ _ => retraces_refl _) w₁ raw w₂ hraw hD₂
    obtain ⟨_, hread', rfl⟩ := retraces_meet (carries_read hlib hrel link.target) hgrows
      (fun link' hlink' => ih (show n ≤ n' by omega) _
        (.inner hlink (mem_trace_readAt hlocated hheld hlink')))
      _ node w₄ hread hD
    exact (run_bind_of_ok hplace).trans <| (run_bind_of_ok hraw').trans <|
      (run_bind_of_ok rfl).trans (run_bind_of_ok hread')

lemma retraces_define (hlink : lib.Meets link.target link.uri) :
    Retraces D Eq (define lib link) (define lib' link) :=
  retraces_defineWithin hlib _ (Nat.succ_le_succ hlib.limit) [] hlink

/-- A document that resolves has the same resolution in a library where its parts have counterparts
and its components have the same names in the same order. -/
theorem resolve_of_simulates {doc : Resolved} (h : (resolve lib).outcome = .ok doc)
    (hD : ∀ uri ∈ (resolve lib).trace, D uri) (hmap : lib'.root.isMap)
    {entries' : List (Scalar × Value)} (hentries' : components lib'.root = .ok entries')
    (hnames : lib'.componentNames = lib.componentNames) : resolve lib' = resolve lib := by
  have hrun' := run_resolveAll hmap hentries'
  have hmap := isMap_of_resolve h
  unfold resolve at h hD ⊢
  cases hrun : (resolveAll lib).run {} with
  | mk outcome w =>
  rw [hrun] at h hD
  obtain ⟨routes, rfl, -⟩ := Except.map_eq_ok_iff.1 h
  obtain ⟨entries, -, hentries, -⟩ := visits_of_resolveAll hrun
  rw [run_resolveAll hmap hentries] at hrun
  have hgrows (link : Link) : Grows (define lib link) := grows_defineWithin lib _ [] link
  have hall : Retraces D Eq (do
      lib.componentNames.forM fun name =>
        define lib ⟨componentTarget name, lib.base, componentTarget name, ""⟩
      meet (define lib) (readRoutes lib)) (do
      lib.componentNames.forM fun name =>
        define lib' ⟨componentTarget name, lib.base, componentTarget name, ""⟩
      meet (define lib') (readRoutes lib')) := by
    refine (retraces_forM (fun _ => hgrows _) fun name hname => ?_).bind
      (fun _ => grows_meet hgrows _) fun _ _ _ => ?_
    · exact retraces_define hlib (.component hname)
    · refine retraces_meet (carries_readRoutes hlib) hgrows fun link hlink => ?_
      exact retraces_define hlib (.route hlink)
  obtain ⟨_, w₀, hintroduce, hrun⟩ := run_bind_eq_ok_iff.1 hrun
  obtain ⟨_, hrest, rfl⟩ := hall w₀ routes w hrun hD
  rw [hrun', hnames, hlib.base, run_bind_of_ok hintroduce, hrest]

end

end Schema

end ApiSchema
