import ApiSchema.Proofs.Module.Tables
import ApiSchema.Proofs.Schema.Place

/-!
# Annotations

A schema may have members that no keyword gives a meaning to, such as descriptions and examples. Main
statement: adding one to a mapping that is read as a schema, wherever it stands, leaves the generated
module as it is. Only an empty mapping of additional properties is left out, since it is told from all
others.
-/

namespace ApiSchema

open List Schema

/-- The keywords that have a meaning in a schema. -/
def Schema.keywords : List String :=
  ["$ref", "nullable", "type", "enum", "const", "allOf", "anyOf", "oneOf"] ++ unsupportedKeywords ++
    typedKeywords

lemma mem_keywords_of_field {role part : Role} (hrole : role.IsSchema) {word : String}
    (h : (word, part) ∈ role.fields) : word ∈ Schema.keywords := by
  have hwords : ∀ word ∈ Role.schema.fields.map (·.1), word ∈ Schema.keywords := by decide +kernel
  obtain rfl | rfl := hrole
  all_goals exact hwords word (mem_map.2 ⟨_, h, rfl⟩)

/-- Add a member to a mapping, at a position. -/
def Value.addMember (i : Nat) (key : Scalar) (c : Value) : Value → Value
  | .map es => .map (es.insertIdx i (key, c))
  | v => v

namespace Library

/-- Add a member to the mapping at a place. -/
def annotate (lib : Library) (uri : String) (path : List Nat) (i : Nat) (key : Scalar) (c : Value)
    (limit : Nat) : Library :=
  lib.modifyDocument uri (Value.modifyAt (Value.addMember i key c) path) limit

/-! ### Annotated libraries -/

lemma find?_insertIdx {key : String} {other : Scalar} (h : other ≠ .str key) (i : Nat) (c : Value)
    (es : List (Scalar × Value)) :
    Value.find? (.str key) (es.insertIdx i (other, c)) = Value.find? (.str key) es := by
  have hsame : other.same (.str key) = false := by
    rw [← Bool.not_eq_true, Value.same_str_iff]
    exact h
  induction i generalizing es with
  | zero => simp [Value.find?, hsame]
  | succ i ih =>
    cases es with
    | nil => rfl
    | cons e es => simp only [insertIdx_succ_cons, Value.find?, ih]

section

variable {lib : Library} {uri : String} {path : List Nat} {es : List (Scalar × Value)}
  (hvalue : lib.valueAt uri path = some (.map es)) {i : Nat} {key : Scalar} {c : Value}

variable {f : Value → Value} {es₀ es₀' : List (Scalar × Value)}

lemma shell_modifyAt (hf : ∀ v, (f v).shell = v.shell) (rest : List Nat) (v : Value) :
    (v.modifyAt f rest).shell = v.shell := by
  cases rest with
  | nil => exact hf v
  | cons i rest =>
    cases v with
    | scalar s | map es => rfl
    | list xs | tuple xs =>
      simp only [Value.modifyAt, Value.modifyPart, Value.shell, map_const', length_modify]

lemma shell_addMember (v : Value) : (Value.addMember i key c v).shell = v.shell := by
  cases v <;> rfl

/-- A value and its counterpart in the annotated library, at a place where it is read. -/
def Annotates (lib : Library) (uri : String) (path : List Nat) (i : Nat) (key : Scalar) (c : Value)
    (role : Role) (other : String) (v v' : Value) : Prop :=
  ∃ p, lib.Reads ⟨role, other, p⟩ ∧ lib.valueAt other p = some v ∧
    BecomesAt uri (Value.addMember i key c) path other p v v'

variable {role part : Role} {other : String} {p : List Nat} {v v' : Value}

lemma BecomesAt.shell (h : BecomesAt uri (Value.addMember i key c) path other p v v') :
    v'.shell = v.shell := by
  obtain rfl | ⟨-, rfl | ⟨rest, -, rfl⟩⟩ := h
  · rfl
  · rfl
  · exact shell_modifyAt shell_addMember rest v

variable (hroles : ∀ role, lib.Reads ⟨role, uri, path⟩ → role = .schema ∨ role = .extra ∧ es ≠ [])

include hroles

/-- Parts of other values than schemas are not changed themselves. -/
lemma BecomesAt.of_role (hrole : ¬ role.IsSchema) (hreads : lib.Reads ⟨role, other, p⟩)
    (h : BecomesAt uri f path other p v v') :
    v' = v ∨ other = uri ∧ p ≠ path ∧ Value.BecomesAt f path p v v' := by
  obtain rfl | ⟨rfl, h⟩ := h
  · exact .inl rfl
  · refine .inr ⟨rfl, ?_, h⟩
    rintro rfl
    exact hrole ((hroles role hreads).imp_right And.left)

lemma annotates_member (hpart : role.member? = some part)
    (h : Annotates lib uri path i key c role other (.map es₀) (.map es₀')) :
    Forall₂ (fun e e' => e'.1 = e.1 ∧ Annotates lib uri path i key c part other e.2 e'.2)
      es₀ es₀' := by
  obtain ⟨p, hreads, hp, hbecomes⟩ := h
  have hrole : ¬ role.IsSchema := by
    rintro (rfl | rfl)
    all_goals cases hpart
  have hmember {k : Nat} {e : Scalar × Value} (he : es₀[k]? = some e) {c' : Value}
      (hc' : BecomesAt uri (Value.addMember i key c) path other (p ++ [k]) e.2 c') :
      Annotates lib uri path i key c part other e.2 c' := by
    have hk : (Value.map es₀).parts[k]? = some e.2 := List.getElem?_map.trans (by rw [he]; rfl)
    refine ⟨p ++ [k], hreads.part hp (Role.mem_parts_of_inner ?_ hk), ?_, hc'⟩
    · exact Role.mem_inner_of_member hpart
    · rw [valueAt_append hp, hk]
  obtain heq | ⟨rfl, hne, hbecomes⟩ := hbecomes.of_role hroles hrole hreads
  · cases heq
    exact forall₂_of_getElem? rfl fun k e he => ⟨e, he, rfl, hmember he (.inl rfl)⟩
  · obtain ⟨_, heq, hkeys⟩ := hbecomes.map hne
    cases heq
    have hlength : es₀'.length = es₀.length := by simpa using congrArg List.length hkeys
    refine forall₂_of_getElem? hlength fun k e he => ?_
    have hpart : (Value.map es₀).parts[k]? = some e.2 :=
      List.getElem?_map.trans (by rw [he]; rfl)
    obtain ⟨c', hc', hc⟩ := hbecomes.part hne hpart
    obtain ⟨e', he', rfl⟩ := Option.map_eq_some_iff.1 (List.getElem?_map.symm.trans hc')
    have hkey := congrArg (·[k]?) hkeys
    simp only [List.getElem?_map, he, he', Option.map_some, Option.some.injEq] at hkey
    exact ⟨e', he', hkey, hmember he (.inr ⟨rfl, hc⟩)⟩

lemma annotates_element {xs xs' : List Value} (hpart : role.element? = some part)
    (h : Annotates lib uri path i key c role other (.list xs) (.list xs')) :
    Forall₂ (Annotates lib uri path i key c part other) xs xs' := by
  obtain ⟨p, hreads, hp, hbecomes⟩ := h
  have hrole : ¬ role.IsSchema := by
    rintro (rfl | rfl)
    all_goals cases hpart
  have hlength : xs'.length = xs.length := by
    have hshell := congrArg (fun v => v.parts.length) hbecomes.shell
    simpa [Value.shell, Value.parts] using hshell
  have hmember {k : Nat} {x x' : Value} (hx : xs[k]? = some x)
      (hx' : BecomesAt uri (Value.addMember i key c) path other (p ++ [k]) x x') :
      Annotates lib uri path i key c part other x x' := by
    have hinner := Role.mem_inner_of_element hpart
    exact ⟨p ++ [k], hreads.part hp (Role.mem_parts_of_inner hinner hx),
      (valueAt_append hp k).trans hx, hx'⟩
  refine forall₂_of_getElem? hlength fun k x hx => ?_
  obtain heq | ⟨rfl, hne, hbecomes⟩ := hbecomes.of_role hroles hrole hreads
  · cases heq
    exact ⟨x, hx, hmember hx (.inl rfl)⟩
  · obtain ⟨x', hx', hxx'⟩ := hbecomes.part hne hx
    exact ⟨x', hx', hmember hx (.inr ⟨rfl, hxx'⟩)⟩

/-- The names of component schemas stay as they are. -/
lemma keys_of_annotates (h : Annotates lib uri path i key c .table other (.map es₀) (.map es₀')) :
    es₀'.map (·.1) = es₀.map (·.1) := by
  obtain ⟨p, hreads, -, hbecomes⟩ := h
  have hrole : ¬ Role.table.IsSchema := nofun
  obtain heq | ⟨-, hne, hbecomes⟩ := hbecomes.of_role hroles hrole hreads
  · cases heq
    rfl
  · obtain ⟨_, heq, hkeys⟩ := hbecomes.map hne
    cases heq
    exact hkeys

/-- What is used as it is does not hold the change. -/
lemma annotates_data (hvalue : lib.valueAt uri path = some (.map es))
    (h : Annotates lib uri path i key c .data other v v') : v' = v := by
  obtain ⟨p, hreads, hp, rfl | ⟨rfl, rfl | ⟨rest, hpath, -⟩⟩⟩ := h
  · rfl
  · rfl
  · rw [hpath] at hvalue
    have hrest := hreads.data hvalue
    obtain heq | ⟨heq, -⟩ := hroles _ (hpath ▸ hrest)
    all_goals cases heq

include hvalue in
lemma annotates_extra (h : Annotates lib uri path i key c .extra other v v') :
    v' = .map [] ↔ v = .map [] := by
  obtain ⟨p, hreads, hp, rfl | ⟨rfl, hbecomes⟩⟩ := h
  · rfl
  · by_cases hpath : p = path
    · subst hpath
      cases hvalue.symm.trans hp
      have hes : es ≠ [] := by
        obtain heq | ⟨-, hes⟩ := hroles _ hreads
        · cases heq
        · exact hes
      obtain rfl | ⟨rest, hrest, rfl⟩ := hbecomes
      · rfl
      · obtain rfl : rest = [] := by simpa using hrest
        have hpos := length_pos_iff.2 hes
        simp only [Value.modifyAt, Value.addMember, Value.map.injEq, hes, iff_false,
          ← length_eq_zero_iff, length_insertIdx]
        split <;> omega
    · obtain rfl | ⟨k, rest, -, rfl⟩ := hbecomes.eq_or_modifyPart hpath
      · rfl
      · cases v <;> simp [Value.modifyPart, modify_eq_nil_iff]

include hvalue in
lemma annotates_field (hkey : ∀ word ∈ keywords, key ≠ .str word) {word : String}
    (hpart : (word, part) ∈ role.fields) (h : Annotates lib uri path i key c role other v v') :
    Option.Rel (Annotates lib uri path i key c part other) (v.get? word) (v'.get? word) := by
  obtain ⟨p, hreads, hp, hbecomes⟩ := h
  have hshell := Value.eq_map_iff_of_shell hbecomes.shell
  cases v with
  | scalar _ | list _ | tuple _ =>
    cases v' with
    | map es' => exact absurd (hshell.1 ⟨es', rfl⟩) nofun
    | scalar _ | list _ | tuple _ => exact .none
  | map es₀ =>
    obtain ⟨es₀', rfl⟩ := hshell.2 ⟨es₀, rfl⟩
    have hfound {d d' : Value} (hd : Value.find? (.str word) es₀ = some d)
        (hd' : BecomesAt uri (Value.addMember i key c) path other
          (p ++ [Value.position (.str word) es₀]) d d') :
        Annotates lib uri path i key c part other d d' := by
      refine ⟨_, hreads.part hp (Role.mem_parts_of_field hpart hd), ?_, hd'⟩
      rw [valueAt_append hp, ← hd, Value.find?_eq]
      exact List.getElem?_map
    have hsame (heq : Value.find? (.str word) es₀' = Value.find? (.str word) es₀) :
        Option.Rel (Annotates lib uri path i key c part other)
          (Value.find? (.str word) es₀) (Value.find? (.str word) es₀') := by
      rw [heq]
      cases hd : Value.find? (.str word) es₀ with
      | none => exact .none
      | some d => exact .some (hfound hd (.inl rfl))
    obtain heq | ⟨rfl, hbecomes⟩ := hbecomes
    · cases heq
      exact hsame rfl
    · by_cases hpath : p = path
      · subst hpath
        cases hvalue.symm.trans hp
        obtain heq | ⟨rest, hrest, heq⟩ := hbecomes
        · cases heq
          exact hsame rfl
        · obtain rfl : rest = [] := by simpa using hrest
          cases heq
          have hrole : role.IsSchema := (hroles role hreads).imp_right And.left
          exact hsame (find?_insertIdx (hkey word (mem_keywords_of_field hrole hpart)) i c es)
      · refine option_rel_imp (hbecomes.find? hpath (.str word)) fun d d' hd hdd' => ?_
        exact hfound hd (.inr ⟨rfl, hdd'⟩)

end

section

variable {lib : Library} {uri : String} {path : List Nat} {es : List (Scalar × Value)}
  (hvalue : lib.valueAt uri path = some (.map es))
  (hroles : ∀ role, lib.Reads ⟨role, uri, path⟩ → role = .schema ∨ role = .extra ∧ es ≠ [])
  {key : Scalar} (hkey : ∀ word ∈ keywords, key ≠ .str word) (hnew : Value.find? key es = none)
  {i : Nat} {c : Value} {n : Nat}

lemma annotates_root : Annotates lib uri path i key c .document lib.base lib.root
    (lib.annotate uri path i key c n).root := by
  refine ⟨[], .root, ?_, ?_⟩
  · rw [valueAt, document?, if_pos rfl]
    rfl
  · show BecomesAt _ _ _ _ _ _ (if _ then _ else _)
    split
    next huri => exact .inr ⟨huri.symm, .inr ⟨path, rfl, rfl⟩⟩
    next => exact .inl rfl

include hvalue hnew

lemma exists_holds_annotate {other fragment : String} {raw : Value}
    (h : lib.Holds other fragment raw) {role : Role}
    (hreads : lib.Reads ⟨role, other, lib.pathOf other fragment⟩) :
    ∃ raw', (lib.annotate uri path i key c n).Holds other fragment raw' ∧
      Annotates lib uri path i key c role other raw raw' := by
  have hstep (token : String) (d : Value) (hd : Pointer.step (.map es) token = .ok (some d)) :
      Pointer.step (Value.addMember i key c (.map es)) token = .ok (some d) := by
    have hd : Value.find? (.str token) es = some d := Except.ok.inj hd
    have htoken : key ≠ .str token := by
      rintro rfl
      cases hd.symm.trans hnew
    show Except.ok (Value.find? (.str token) (es.insertIdx i (key, c))) = _
    rw [find?_insertIdx htoken, hd]
  obtain ⟨raw', hheld, hbecomes⟩ := exists_holds_modifyDocument hvalue hstep h
  exact ⟨raw', hheld, _, hreads, valueAt_pathOf h, hbecomes⟩

include hroles hkey

lemma simulates_annotate (hlimit : lib.limit ≤ n) :
    lib.Simulates (lib.annotate uri path i key c n) (fun _ => True)
      (Annotates lib uri path i key c) where
  base := rfl
  limit := hlimit
  base_mem := trivial
  shell := by
    rintro role other v v' ⟨p, -, -, hbecomes⟩
    exact hbecomes.shell
  data := annotates_data hroles hvalue
  extra := annotates_extra hvalue hroles
  field h hpart := annotates_field hvalue hroles hkey hpart h
  member h hpart := annotates_member hroles hpart h
  element h hpart := annotates_element hroles hpart h
  paths := annotates_field hvalue hroles hkey (by decide) annotates_root
  referent := by
    rintro role other ref v v' raw place hrole ⟨p, hreads, hp, -⟩ href hplace - hheld
    exact exists_holds_annotate hvalue hnew hheld (.referent hrole hreads hp href hplace)
  target := by
    intro target other raw place hmeets hplace _ hheld
    exact exists_holds_annotate hvalue hnew hheld (.target hmeets (mem_referents hplace))

lemma exists_components_annotate (hlimit : lib.limit ≤ n) {entries : List (Scalar × Value)}
    (h : components lib.root = .ok entries) :
    ∃ entries', components (lib.annotate uri path i key c n).root = .ok entries' ∧
      entries'.map (·.1) = entries.map (·.1) := by
  have hlib : lib.Simulates (lib.annotate uri path i key c n) (fun _ => True) _ :=
    simulates_annotate hvalue hroles hkey hnew hlimit
  have hcomponents : ("components", .components) ∈ Role.document.fields := by decide
  have hschemas : ("schemas", .table) ∈ Role.components.fields := by decide
  unfold components at h ⊢
  obtain ⟨hnull, hnull'⟩ | ⟨hparts, -⟩ := get_of_simulates hlib annotates_root hcomponents
  · rw [hnull] at h
    rw [hnull']
    exact ⟨entries, h, rfl⟩
  generalize lib.root.get "components" = parts at h hparts
  generalize (lib.annotate uri path i key c n).root.get "components" = parts' at hparts ⊢
  have hshell := Value.eq_map_iff_of_shell (hlib.shell hparts)
  cases parts with
  | scalar _ | list _ | tuple _ =>
    cases parts' with
    | map es' => exact absurd (hshell.1 ⟨es', rfl⟩) nofun
    | scalar _ | list _ | tuple _ => exact ⟨entries, h, rfl⟩
  | map ps =>
    obtain ⟨ps', rfl⟩ := hshell.2 ⟨ps, rfl⟩
    unfold mappingAt at h ⊢
    dsimp only at h ⊢
    obtain ⟨hnull, hnull'⟩ | ⟨htable, -⟩ := get_of_simulates hlib hparts hschemas
    · rw [hnull] at h
      rw [hnull']
      exact ⟨entries, h, rfl⟩
    generalize (Value.map ps).get "schemas" = table at h htable
    generalize (Value.map ps').get "schemas" = table' at htable ⊢
    have hshell := Value.eq_map_iff_of_shell (hlib.shell htable)
    cases table with
    | map entries =>
      obtain ⟨entries', rfl⟩ := hshell.2 ⟨entries, rfl⟩
      cases h
      exact ⟨entries', rfl, keys_of_annotates hroles htable⟩
    | scalar _ | list _ | tuple _ =>
      have hempty := Value.isEmpty_of_shell (hlib.shell htable) rfl
      cases table' with
      | map es' => exact absurd (hshell.1 ⟨es', rfl⟩) nofun
      | scalar _ | list _ | tuple _ =>
        dsimp only at h ⊢
        rw [hempty]
        exact ⟨entries, h, rfl⟩

end

end Library

/-- A member that no keyword gives a meaning to, added to a mapping that is read as a schema and as
nothing else, does not change the module. -/
theorem generate_annotate {lib : Library} {config : Config} {text : String}
    (h : (generate lib config).outcome = .ok text) {uri : String} {path : List Nat}
    {es : List (Scalar × Value)} (hvalue : lib.valueAt uri path = some (.map es))
    (hroles : ∀ role, lib.Reads ⟨role, uri, path⟩ → role = .schema ∨ role = .extra ∧ es ≠ [])
    {key : Scalar} (hkey : ∀ word ∈ keywords, key ≠ .str word) (hnew : Value.find? key es = none)
    (i : Nat) (c : Value) {n : Nat} (hlimit : lib.limit ≤ n) :
    generate (lib.annotate uri path i key c n) config = generate lib config := by
  obtain ⟨d, hd, -⟩ := Traced.outcome_bind_eq_ok_iff.1 h
  obtain ⟨doc, _, hdoc, -⟩ := Generate.exists_of_declarations hd
  obtain ⟨entries, hentries⟩ := exists_components_of_resolve hdoc
  obtain ⟨entries', hentries', hkeys⟩ :=
    Library.exists_components_annotate hvalue hroles hkey hnew hlimit hentries (i := i) (c := c)
  have hlib := Library.simulates_annotate hvalue hroles hkey hnew hlimit (i := i) (c := c)
  have hmap : (lib.annotate uri path i key c n).root.isMap = lib.root.isMap :=
    Value.isMap_of_shell (hlib.shell Library.annotates_root)
  have hnames : (lib.annotate uri path i key c n).componentNames = lib.componentNames := by
    have hdisplay (es : List (Scalar × Value)) :
        es.map (·.1.display) = (es.map (·.1)).map Scalar.display := by
      rw [map_map]
      rfl
    rw [Library.componentNames, hentries', Library.componentNames, hentries]
    dsimp only
    rw [hdisplay, hkeys, ← hdisplay]
  have hresolve := resolve_of_simulates hlib hdoc (fun _ _ => trivial)
    (hmap.trans (isMap_of_resolve hdoc)) hentries' hnames
  unfold generate Generate.declarations Generate.resolved
  rw [hresolve]

/-- The places in the document with one operation, level by level from its root and from its
component. -/
def userPlaces : Nat → List Place
  | 0 => ⟨.document, "", []⟩ :: userLibrary.referents .schema "#/components/schemas/User" ""
  | n + 1 => (userPlaces n).flatMap userLibrary.readWith

/-- The user may be described. -/
theorem user_generate_annotate :
    let described := userLibrary.annotate "" [1, 0, 0] 0 (.str "description") (.str "A user.") 10
    (Value.at? described.root [1, 0, 0]).map (·.has "description") = some true ∧
      ∃ text, (generate userLibrary {}).outcome = .ok text ∧
        generate described {} = generate userLibrary {} := by
  intro described
  refine ⟨by decide +kernel, ?_⟩
  have hok : (generate userLibrary {}).outcome.isOk := by decide +kernel
  have hcovers : userLibrary.Covers ((List.range 12).flatMap userPlaces)
      [("#/components/schemas/User", "")] := by
    constructor <;> decide +kernel
  have hschema : ∀ place ∈ (List.range 12).flatMap userPlaces, place.path = [1, 0, 0] →
      place.role = .schema := by decide +kernel
  obtain ⟨text, htext⟩ := Except.isOk_iff.1 hok
  refine ⟨text, htext, generate_annotate htext rfl (fun role hreads => .inl ?_) (by decide)
    (by decide) 0 _ (by decide +kernel)⟩
  exact hschema _ (hcovers.mem_of_reads hreads) rfl

end ApiSchema
