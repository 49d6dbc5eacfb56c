import ApiSchema.Proofs.Declaration.Growth
import ApiSchema.Proofs.Validator.Alike

/-!
# Occurrences

A validator of a document occurs at a place: in one of the definitions or schemas of routes, along a
path of children. Main statement: the fingerprint of a composite that occurs at two places is
repeated.
-/

namespace ApiSchema

open List

namespace Validator

variable {v u w : Validator} {i : Nat} {p q : List Nat}

/-! ### Paths -/

lemma part_of_at? {path : List Nat} (h : v.at? path = some u) : v.Part u := by
  induction path generalizing v with
  | nil =>
    cases h
    exact .refl
  | cons i path ih =>
    obtain ⟨c, hc, hu⟩ := at?_cons_eq_some_iff.1 h
    exact (ih hu).of_child (mem_of_getElem? hc)

lemma exists_at?_of_part (h : v.Part u) : ∃ path, v.at? path = some u := by
  induction v using children_induction with
  | step v ih =>
    obtain rfl | ⟨c, hc, hu⟩ := h.eq_or_child
    · exact ⟨[], rfl⟩
    · obtain ⟨path, hpath⟩ := ih c hc hu
      obtain ⟨i, hi⟩ := mem_iff_getElem?.1 hc
      exact ⟨i :: path, at?_cons_eq_some_iff.2 ⟨c, hi, hpath⟩⟩

lemma sizeOf_le_of_part (h : v.Part u) : sizeOf u ≤ sizeOf v := by
  induction h with
  | refl => exact Nat.le_refl _
  | child _ hc ih => exact (sizeOf_lt_of_mem_children hc).le.trans ih

/-- No validator lies inside of itself. -/
lemma at?_cons_ne_self (v : Validator) (i : Nat) (path : List Nat) : v.at? (i :: path) ≠ some v := by
  intro h
  obtain ⟨c, hc, hv⟩ := at?_cons_eq_some_iff.1 h
  have hlt := sizeOf_lt_of_mem_children (mem_of_getElem? hc)
  have hle := sizeOf_le_of_part (part_of_at? hv)
  omega

/-- Validators with one text have validators with one text along each path. -/
lemma SameText.at? (h : SameText v w) (hv : v.IsBinary64) (hw : w.IsBinary64) {path : List Nat}
    (hu : v.at? path = some u) : ∃ u', w.at? path = some u' ∧ SameText u u' := by
  induction path generalizing v w with
  | nil =>
    cases hu
    exact ⟨w, rfl, h⟩
  | cons i path ih =>
    obtain ⟨c, hc, hu⟩ := at?_cons_eq_some_iff.1 hu
    obtain ⟨c', hc', hcc'⟩ :=
      getElem?_of_forall₂ (h.sameHead_and_children hv hw).2 hc
    obtain ⟨u', hu', huu'⟩ := ih hcc' (hv.child (mem_of_getElem? hc))
      (hw.child (mem_of_getElem? hc')) hu
    exact ⟨u', at?_cons_eq_some_iff.2 ⟨c', hc', hu'⟩, huu'⟩

/-! ### Two places -/

lemma compositesAll_eq (vs : List Validator) : compositesAll vs = vs.flatMap composites := by
  induction vs with
  | nil => rfl
  | cons v vs ih => rw [compositesAll, ih, flatMap_cons]

lemma compositesFields_eq (fields : List (FieldOf Validator)) :
    compositesFields fields = compositesAll (fields.map (·.validator)) := by
  induction fields with
  | nil => rfl
  | cons f fields ih => rw [compositesFields, ih, map_cons, compositesAll]

lemma compositesAll_children_sublist (v : Validator) :
    (compositesAll v.children).Sublist v.composites := by
  cases v with
  | array items _ _ | record items _ => simp [children, composites, compositesAll]
  | nullable inner => simp [children, composites, compositesAll]
  | object fields _ extra _ =>
    cases extra <;>
      simp [children, composites, compositesExtra, compositesFields_eq, compositesAll_eq]
  | union branches | intersection branches => simp [children, composites]
  | any | null | boolean | string _ _ _ | custom _ | number _ _ | literal _ | ref _ | named _ =>
    exact nil_sublist _

/-- Two places below a list of validators, at different members or along different paths. -/
lemma pair_sublist_compositesAll {vs : List Validator} (hu : u.isComposite)
    (hmember : ∀ v ∈ vs, ∀ p q, p ≠ q → v.at? p = some u → v.at? q = some u →
      [u, u].Sublist v.composites) {j : Nat} (hne : (i, p) ≠ (j, q)) (hv : vs[i]? = some v)
    (hw : vs[j]? = some w) (hp : v.at? p = some u) (hq : w.at? q = some u) :
    [u, u].Sublist (compositesAll vs) := by
  have hone {v : Validator} {p : List Nat} (h : v.at? p = some u) : [u].Sublist v.composites :=
    singleton_sublist.2 (mem_composites_of_part (part_of_at? h) hu)
  induction vs generalizing i j with
  | nil => cases hv
  | cons x vs ih =>
    rw [compositesAll]
    have hrest := fun v hv => hmember v (mem_cons_of_mem x hv)
    have hbelow {k : Nat} {w : Validator} {q : List Nat} (hw : vs[k]? = some w)
        (hq : w.at? q = some u) : [u].Sublist (compositesAll vs) :=
      singleton_sublist.2 (mem_compositesAll.2 ⟨w, mem_of_getElem? hw,
        singleton_sublist.1 (hone hq)⟩)
    cases i with
    | zero =>
      cases hv
      cases j with
      | zero =>
        cases hw
        have hpq : p ≠ q := fun h => hne (by rw [h])
        exact (hmember v mem_cons_self p q hpq hp hq).trans (sublist_append_left _ _)
      | succ j => exact (hone hp).append (hbelow hw hq)
    | succ i =>
      cases j with
      | zero =>
        cases hw
        exact (hone hq).append (hbelow hv hp)
      | succ j =>
        refine (ih hrest ?_ hv hw).trans (sublist_append_right _ _)
        simpa using hne

/-- A composite at the end of two paths is listed twice. -/
lemma pair_sublist_composites (hu : u.isComposite) (hne : p ≠ q) (hp : v.at? p = some u)
    (hq : v.at? q = some u) : [u, u].Sublist v.composites := by
  induction v using children_induction generalizing p q with
  | step v ih =>
    cases p with
    | nil =>
      cases hp
      cases q with
      | nil => exact absurd rfl hne
      | cons j q => exact absurd hq (at?_cons_ne_self _ _ _)
    | cons i p =>
      cases q with
      | nil =>
        cases hq
        exact absurd hp (at?_cons_ne_self _ _ _)
      | cons j q =>
        obtain ⟨c, hc, hp⟩ := at?_cons_eq_some_iff.1 hp
        obtain ⟨c', hc', hq⟩ := at?_cons_eq_some_iff.1 hq
        refine (pair_sublist_compositesAll hu ?_ ?_ hc hc' hp hq).trans
          v.compositesAll_children_sublist
        · exact fun x hx p q hpq hp hq => ih x hx hpq hp hq
        · simpa using hne

end Validator

namespace Validators

open Validator

variable {t : Validators} {u : Validator}

/-- The validator at a place of a document: a definition or schema of a route by its number, and a
path in it. -/
def at? (t : Validators) (place : Nat × List Nat) : Option Validator :=
  t.roots[place.1]?.bind fun v => v.at? place.2

/-- A validator occurs at two places. -/
def Repeated (t : Validators) (u : Validator) : Prop :=
  ∃ place place', place ≠ place' ∧ t.at? place = some u ∧ t.at? place' = some u

/-- An occurrence that declarations share with others of the same validator: a whole schema of a
route, an object inside of something, or a composite inside of something that occurs twice. -/
inductive Shareable (t : Validators) : Nat × List Nat → Validator → Prop
  | route {k : Nat} {u : Validator} (hk : t.definitions.length ≤ k) (hu : t.at? (k, []) = some u)
    (hproper : ¬ u.isReference) : Shareable t (k, []) u
  | object {k i : Nat} {path : List Nat} {u : Validator} (hu : t.at? (k, i :: path) = some u)
    (hmodel : u.isModel) : Shareable t (k, i :: path) u
  | repeated {k i : Nat} {path : List Nat} {u : Validator} (hu : t.at? (k, i :: path) = some u)
    (hcomposite : u.isComposite) (hrepeated : t.Repeated u) : Shareable t (k, i :: path) u

lemma Shareable.at?_eq {place : Nat × List Nat} (h : t.Shareable place u) :
    t.at? place = some u := by
  cases h <;> assumption

lemma at?_eq_some_iff {k : Nat} {path : List Nat} :
    t.at? (k, path) = some u ↔ ∃ root, t.roots[k]? = some root ∧ root.at? path = some u :=
  Option.bind_eq_some_iff

/-- The fingerprint of a composite that occurs at two places is repeated. -/
lemma mem_repeated (hu : u.isComposite) (h : t.Repeated u) (fingerprint : Validator → String) :
    fingerprint u ∈ t.repeated fingerprint := by
  obtain ⟨⟨i, p⟩, ⟨j, q⟩, hne, hp, hq⟩ := h
  obtain ⟨v, hv, hp⟩ := at?_eq_some_iff.1 hp
  obtain ⟨w, hw, hq⟩ := at?_eq_some_iff.1 hq
  have hpair := (pair_sublist_compositesAll hu
    (fun x _ p q hpq hp hq => pair_sublist_composites hu hpq hp hq) hne hv hw hp hq).map fingerprint
  have hcount : 1 < ((compositesAll t.roots).map fingerprint).count (fingerprint u) :=
    replicate_sublist_iff.1 hpair
  rw [repeated, Text.mem_distinct, mem_filter]
  exact ⟨count_pos_iff.1 (by omega), by simpa using hcount⟩

end Validators

end ApiSchema
