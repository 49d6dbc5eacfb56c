import ApiSchema.Proofs.Schema.Simulation
import ApiSchema.Proofs.Value.Position

/-!
# Places in documents

A place is a document and a path in it. What stands there is read in roles that follow from the place
it is a part of and from the references that lead to it. Main statements: the roles of all places can
be read off a list that is closed under parts and references, and a change of one document moves
nothing that a fragment leads to.
-/

namespace ApiSchema

open List Schema

/-- The roles of the parts of a value that is read whole. -/
def Role.inner (role : Role) : List Role :=
  if role = .data then [.data] else role.member?.toList ++ role.element?.toList

/-- The positions of the parts of a value that are read with it, each with its role. -/
def Role.parts (role : Role) (v : Value) : List (Role × Nat) :=
  (role.fields.filter fun field => v.has field.1).map
      (fun field => (field.2, Value.position (.str field.1) v.entries)) ++
    (List.range v.parts.length).flatMap fun i => role.inner.map (·, i)

lemma Role.mem_parts_of_field {role part : Role} {key : String} {es : List (Scalar × Value)}
    {c : Value} (hpart : (key, part) ∈ role.fields) (hc : Value.find? (.str key) es = some c) :
    (part, Value.position (.str key) es) ∈ role.parts (.map es) := by
  refine mem_append_left _ (mem_map.2 ⟨(key, part), mem_filter.2 ⟨hpart, ?_⟩, rfl⟩)
  rw [Value.has, Value.get?]
  exact Option.isSome_of_eq_some hc

lemma Role.mem_parts_of_inner {role part : Role} {v c : Value} {i : Nat} (hpart : part ∈ role.inner)
    (hc : v.parts[i]? = some c) : (part, i) ∈ role.parts v := by
  obtain ⟨hi, -⟩ := List.getElem?_eq_some_iff.1 hc
  refine mem_append_right _ (mem_flatMap.2 ⟨i, mem_range.2 hi, ?_⟩)
  exact mem_map.2 ⟨part, hpart, rfl⟩

lemma Role.mem_inner_of_member {role part : Role} (h : role.member? = some part) :
    part ∈ role.inner := by
  cases role <;> cases h <;> decide

lemma Role.mem_inner_of_element {role part : Role} (h : role.element? = some part) :
    part ∈ role.inner := by
  cases role <;> cases h <;> decide

/-- A place in a document, and what it is read as. -/
structure Place where
  role : Role
  uri : String
  path : List Nat
deriving DecidableEq

namespace Library

/-! ### Places and their roles -/

/-- The document at a uri, if it can be had. -/
def document? (lib : Library) (uri : String) : Option Value :=
  if uri = lib.base then some lib.root else (lib.fetch uri).toOption

/-- The value at a path of a document. -/
def valueAt (lib : Library) (uri : String) (path : List Nat) : Option Value :=
  (lib.document? uri).bind (·.at? path)

/-- The path of a fragment. -/
def pathOf (lib : Library) (uri fragment : String) : List Nat :=
  match lib.document? uri with
  | some doc => if fragment.isEmpty then [] else Pointer.path doc (Pointer.tokens fragment)
  | none => []

/-- The place that a reference leads to, if any. -/
def referents (lib : Library) (role : Role) (ref uri : String) : List Place :=
  match lib.locate ref uri "" with
  | .ok place => [⟨role, place.uri, lib.pathOf place.uri place.fragment⟩]
  | .error _ => []

/-- The places that are read with a place: those of its parts, and that of its reference. -/
def readWith (lib : Library) (place : Place) : List Place :=
  match lib.valueAt place.uri place.path with
  | none => []
  | some v =>
    (place.role.parts v).map (fun part => ⟨part.1, place.uri, place.path ++ [part.2]⟩) ++
      match v.get? "$ref" with
      | some (.str ref) =>
        if place.role ∈ Role.followed then lib.referents place.role ref place.uri else []
      | _ => []

/-- A place that resolving comes by. -/
inductive Reads (lib : Library) : Place → Prop
  | root : Reads lib ⟨.document, lib.base, []⟩
  | next {place next : Place} (h : Reads lib place) (hnext : next ∈ lib.readWith place) :
      Reads lib next
  | target {target uri : String} {place : Place} (h : lib.Meets target uri)
      (hplace : place ∈ lib.referents .schema target uri) : Reads lib place

section

variable {lib : Library}

variable {uri ref : String} {path rest : List Nat} {v : Value} {role : Role} {place : Location}

lemma valueAt_append (h : lib.valueAt uri path = some v) (i : Nat) :
    lib.valueAt uri (path ++ [i]) = v.parts[i]? := by
  obtain ⟨doc, hdoc, hv⟩ := Option.bind_eq_some_iff.1 h
  rw [valueAt, hdoc]
  show doc.at? (path ++ [i]) = _
  rw [Value.at?_append hv, Value.at?]
  cases v.parts[i]? <;> rfl

lemma exists_valueAt_of_append (h : lib.valueAt uri (path ++ rest) = some v) :
    ∃ w, lib.valueAt uri path = some w := by
  obtain ⟨doc, hdoc, hv⟩ := Option.bind_eq_some_iff.1 h
  rw [valueAt, hdoc]
  exact Value.exists_at?_of_append hv

lemma Reads.part {part : Role} {i : Nat} (h : lib.Reads ⟨role, uri, path⟩)
    (hvalue : lib.valueAt uri path = some v) (hpart : (part, i) ∈ role.parts v) :
    lib.Reads ⟨part, uri, path ++ [i]⟩ := by
  refine h.next ?_
  rw [readWith, hvalue]
  exact mem_append_left _ (mem_map.2 ⟨_, hpart, rfl⟩)

/-- What is used as it is is read with all that is in it. -/
lemma Reads.data (h : lib.Reads ⟨.data, uri, path⟩)
    (hvalue : lib.valueAt uri (path ++ rest) = some v) : lib.Reads ⟨.data, uri, path ++ rest⟩ := by
  induction rest using List.reverseRecOn generalizing v with
  | nil => rwa [append_nil]
  | append_singleton rest i ih =>
    rw [← append_assoc] at hvalue ⊢
    obtain ⟨w, hw⟩ := exists_valueAt_of_append hvalue
    rw [valueAt_append hw] at hvalue
    exact (ih hw).part hw (Role.mem_parts_of_inner (by decide) hvalue)

lemma mem_referents (hplace : lib.locate ref uri "" = .ok place) :
    ⟨role, place.uri, lib.pathOf place.uri place.fragment⟩ ∈ lib.referents role ref uri := by
  rw [referents, hplace]
  exact mem_singleton_self _

lemma Reads.referent (hrole : role ∈ Role.followed) (h : lib.Reads ⟨role, uri, path⟩)
    (hvalue : lib.valueAt uri path = some v) (href : v.get? "$ref" = some (.str ref))
    (hplace : lib.locate ref uri "" = .ok place) :
    lib.Reads ⟨role, place.uri, lib.pathOf place.uri place.fragment⟩ := by
  refine h.next ?_
  rw [readWith, hvalue]
  dsimp only
  rw [href]
  dsimp only
  rw [if_pos hrole]
  exact mem_append_right _ (mem_referents hplace)

end

/-- The targets of links, each with the document it is met in. -/
def linked (demands : List Demand) : List (String × String) :=
  demands.filterMap fun
    | .schema link => some (link.target, link.uri)
    | .document _ => none

/-- Lists of places and of targets that are closed under what they lead to. -/
structure Covers (lib : Library) (places : List Place) (targets : List (String × String)) :
    Prop where
  root : ⟨.document, lib.base, []⟩ ∈ places
  next : ∀ place ∈ places, lib.readWith place ⊆ places
  target : ∀ t ∈ targets, lib.referents .schema t.1 t.2 ⊆ places
  component : ∀ name ∈ lib.componentNames, (componentTarget name, lib.base) ∈ targets
  route : linked (readRoutes lib).trace ⊆ targets
  inner : ∀ t ∈ targets, linked (readAt lib t.1 t.2).trace ⊆ targets

lemma mem_linked {demands : List Demand} {link : Link} (h : .schema link ∈ demands) :
    (link.target, link.uri) ∈ linked demands :=
  mem_filterMap.2 ⟨_, h, rfl⟩

namespace Covers

variable {lib : Library} {places : List Place} {targets : List (String × String)}
  (hcovers : lib.Covers places targets)

include hcovers

lemma mem_of_meets {target uri : String} (h : lib.Meets target uri) : (target, uri) ∈ targets := by
  induction h with
  | component hname => exact hcovers.component _ hname
  | route hlink => exact hcovers.route (mem_linked hlink)
  | inner _ hlink ih => exact hcovers.inner _ ih (mem_linked hlink)

/-- Every place that resolving comes by is in a list that is closed. -/
theorem mem_of_reads {place : Place} (h : lib.Reads place) : place ∈ places := by
  induction h with
  | root => exact hcovers.root
  | next _ hnext ih => exact hcovers.next _ ih hnext
  | target hmeets hplace => exact hcovers.target _ (hcovers.mem_of_meets hmeets) hplace

end Covers

/-! ### Documents around a change -/

/-- Change the document at a uri. -/
def modifyDocument (lib : Library) (uri : String) (f : Value → Value) (limit : Nat) : Library where
  base := lib.base
  root := if uri = lib.base then f lib.root else lib.root
  fetch other := if other = uri then (lib.fetch other).map f else lib.fetch other
  limit := limit

section

variable {lib : Library}

variable {uri fragment : String} {raw : Value}

lemma holds_iff : lib.Holds uri fragment raw ↔
    ∃ doc, lib.document? uri = some doc ∧ (if fragment.isEmpty then doc = raw
      else Pointer.follow doc (Pointer.tokens fragment) = .ok (some raw)) := by
  have hdocument (doc : Value) :
      (lib.document "" uri "").outcome = .ok doc ↔ lib.document? uri = some doc := by
    unfold document document?
    split
    · simp
    · cases lib.fetch uri with
      | ok doc' => simp [Traced.note, Except.toOption]
      | error fault => cases fault <;> simp [Traced.note, Except.toOption]
  unfold Holds lookup
  rw [Traced.outcome_bind_eq_ok_iff]
  refine exists_congr fun doc => and_congr (hdocument doc) ?_
  split
  · simp
  · cases Pointer.follow doc (Pointer.tokens fragment) with
    | error fault => simp
    | ok found => cases found <;> simp

lemma document?_modifyDocument (uri : String) (f : Value → Value) (limit : Nat) (other : String) :
    (lib.modifyDocument uri f limit).document? other =
      if other = uri then (lib.document? other).map f else lib.document? other := by
  unfold document? modifyDocument
  dsimp only
  by_cases hbase : other = lib.base
  · by_cases huri : other = uri
    · simp [hbase, ← huri]
    · simp [hbase, show ¬ uri = lib.base from fun h => huri (hbase.trans h.symm),
        show ¬ lib.base = uri from fun h => huri (hbase.trans h)]
  · by_cases huri : other = uri
    · simp only [if_neg hbase, if_pos huri]
      cases lib.fetch other <;> rfl
    · simp only [if_neg hbase, if_neg huri]

lemma valueAt_pathOf (h : lib.Holds uri fragment raw) :
    lib.valueAt uri (lib.pathOf uri fragment) = some raw := by
  obtain ⟨doc, hdoc, hraw⟩ := holds_iff.1 h
  rw [valueAt, pathOf, hdoc]
  show doc.at? (if _ then _ else _) = _
  split at hraw
  next hempty =>
    rw [if_pos hempty, hraw]
    rfl
  next hempty =>
    rw [if_neg hempty]
    exact Pointer.at?_path hraw

/-- The counterpart of a value when the document at `uri` is changed at `path`. -/
def BecomesAt (uri : String) (f : Value → Value) (path : List Nat) (other : String) (p : List Nat)
    (v v' : Value) : Prop :=
  v' = v ∨ other = uri ∧ Value.BecomesAt f path p v v'

/-- What a fragment leads to behind a change that leaves the steps of the changed value alone. -/
lemma exists_holds_modifyDocument {path : List Nat} {target : Value}
    (htarget : lib.valueAt uri path = some target) {f : Value → Value}
    (hf : ∀ token c, Pointer.step target token = .ok (some c) →
      Pointer.step (f target) token = .ok (some c)) {limit : Nat} {other : String}
    (h : lib.Holds other fragment raw) :
    ∃ raw', (lib.modifyDocument uri (Value.modifyAt f path) limit).Holds other fragment raw' ∧
      BecomesAt uri f path other (lib.pathOf other fragment) raw raw' := by
  obtain ⟨doc, hdoc, hraw⟩ := holds_iff.1 h
  simp only [holds_iff, document?_modifyDocument]
  by_cases hother : other = uri
  · subst hother
    obtain ⟨_, hdoc', htarget⟩ := Option.bind_eq_some_iff.1 htarget
    cases hdoc.symm.trans hdoc'
    rw [if_pos rfl, hdoc, pathOf, hdoc]
    dsimp only
    split at hraw
    next hempty =>
      subst hraw
      simp only [if_pos hempty]
      exact ⟨_, ⟨_, rfl, rfl⟩, .inr ⟨rfl, .inr ⟨path, rfl, rfl⟩⟩⟩
    next hempty =>
      obtain ⟨raw', hraw', hbecomes⟩ := Pointer.follow_modifyAt hraw htarget hf
      simp only [if_neg hempty]
      exact ⟨raw', ⟨_, rfl, hraw'⟩, .inr ⟨rfl, hbecomes⟩⟩
  · rw [if_neg hother]
    exact ⟨raw, ⟨doc, hdoc, hraw⟩, .inl rfl⟩

end

end Library

end ApiSchema
