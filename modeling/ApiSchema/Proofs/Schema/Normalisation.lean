import ApiSchema.Proofs.Schema.Keywords
import ApiSchema.Proofs.Schema.WellFormed

/-!
# Reading never weakens a schema

A raw schema becomes a node of one kind, and its keywords are spread over the parts of that node.
Main statement: what meets the node satisfies all keywords of the raw schema.
-/

namespace ApiSchema.Schema

open List

open Node (Guarantees guarantees_of_bare)
open Traced

variable {basis : Basis} {raw v : Value} {pointer : String}

/-! ### One layer -/

section

-- `sat` tells what satisfies a raw schema inside the present one. Any value satisfies an empty one.
variable {target : String → Value → Prop} {inner : Value → String → Reading Node}
  {sat : Value → Value → Prop}
  (hinner : ∀ raw pointer, (inner raw pointer).Yields (Guarantees basis target (sat raw)))

include hinner

lemma guarantees_readArray (raw : Value) (pointer : String) :
    (readArray inner raw pointer).Yields
      (Guarantees basis target fun v => ∃ xs, v = .list xs ∧ AssertsArray sat raw xs) := by
  unfold readArray
  extract_lets next
  have hnext (items : Option Node)
      (hitems : ∀ schema, given "items" raw = some schema →
        ∃ node ∈ items, node.Guarantees basis target (sat schema)) :
      (next items).Yields
        (Guarantees basis target fun v => ∃ xs, v = .list xs ∧ AssertsArray sat raw xs) := by
    refine yields_pure (guarantees_of_bare rfl ?_)
    rintro _ ⟨xs, rfl, hlength, hunique, hmeets⟩
    refine ⟨xs, rfl, hlength, ?_, ?_⟩
    · intro hflag
      refine hunique ?_
      rw [ArrayRules.isUnique, readArrayRules, hflag]
      rfl
    · intro schema hschema x hx
      obtain ⟨node, hnode, hguarantees⟩ := hitems schema hschema
      exact hguarantees x (hmeets x hx node hnode)
  split
  next hnull =>
    refine (yields_pure ?_).bind hnext
    intro schema hschema
    obtain ⟨hget, hne⟩ := given_eq_some_iff.1 hschema
    exact absurd (hget.symm.trans hnull) hne
  next => exact yields_throw.bind hnext
  next =>
    refine (hinner _ _).bind fun node hnode => (yields_pure ?_).bind hnext
    intro schema hschema
    rw [← (given_eq_some_iff.1 hschema).1]
    exact ⟨node, rfl, hnode⟩

lemma guarantees_readProperties (place : String) (entries : List (Scalar × Value)) :
    (readProperties inner place entries).Yields fun properties =>
      Forall₂ (fun e p => p.1 = e.1.display ∧ Guarantees basis target (sat e.2) p.2) entries
        properties := by
  induction entries with
  | nil => exact yields_pure .nil
  | cons entry rest ih =>
    refine (hinner _ _).bind fun node hnode => ih.bind fun nodes hnodes => ?_
    exact yields_pure (.cons ⟨rfl, hnode⟩ hnodes)

/-- What the additional properties are read as allows no more than what is said of them. -/
lemma guarantees_readAdditional (hempty : ∀ x, sat (.map []) x) (raw : Value) (pointer : String) :
    (readAdditional inner raw pointer).Yields fun additional =>
      (given "additionalProperties" raw = some (.bool false) → additional = .forbidden) ∧
      ∀ schema, given "additionalProperties" raw = some schema → (∀ b, schema ≠ .bool b) →
        (∀ x, sat schema x) ∨
          ∃ node, additional = .typed node ∧ node.Guarantees basis target (sat schema) := by
  unfold readAdditional
  simp only [given_eq_some_iff]
  split
  next hget => exact yields_pure (by simp +contextual [hget])
  next b hget =>
    refine yields_pure ⟨?_, ?_⟩
    · rw [hget]
      rintro ⟨⟨⟩, -⟩
      rfl
    · rintro schema ⟨rfl, -⟩ hbool
      exact absurd hget (hbool b)
  next hget =>
    refine yields_pure ⟨by simp [hget], ?_⟩
    rintro schema ⟨rfl, -⟩ -
    rw [hget]
    exact .inl hempty
  next hnull hbool hmap =>
    refine (hinner _ _).bind fun node hnode => yields_pure ⟨?_, ?_⟩
    · rintro ⟨hfalse, -⟩
      exact absurd hfalse (hbool false)
    · rintro schema ⟨rfl, -⟩ -
      exact .inr ⟨node, rfl, hnode⟩

end

section

variable {target : String → Value → Prop} {inner : Value → String → Reading Node}
  {sat : Value → Value → Prop}
  (hinner : ∀ raw pointer, (inner raw pointer).Yields (Guarantees basis target (sat raw)))
  (hempty : ∀ x, sat (.map []) x)

include hinner hempty

/-- The object of given entries and required names. -/
lemma guarantees_objectOf (raw : Value) (pointer : String) (required : List Value)
    (hrequired : required.map Value.display = requiredNames raw) :
    (do
      let declared ← readProperties inner (pointer ++ "/properties") (raw.get "properties").entries
      let additional ← readAdditional inner raw pointer
      return Node.object ⟨pointer, false⟩
        (addRequired pointer declared (required.map Value.display))
        (Text.distinct (required.map Value.display)) additional
        (readCountRules raw) : Reading Node).Yields
      (Guarantees basis target fun v => ∃ es, v = .map es ∧ AssertsObject sat raw es) := by
  rw [hrequired]
  refine (guarantees_readProperties hinner _ _).bind fun declared hdeclared => ?_
  refine (guarantees_readAdditional hinner hempty _ _).bind fun additional hadditional => ?_
  obtain ⟨hkept, -, hmem⟩ := addRequired_spec pointer declared (requiredNames raw)
  -- The names that count as declared are those of properties and those that are required.
  have hnames : (addRequired pointer declared (requiredNames raw)).map (·.1) ++ [] ⊆
      propertyNames raw ++ requiredNames raw := by
    rw [append_nil, propertyNames, ← map_eq_map_of_forall₂ hdeclared And.left]
    intro name hname
    obtain ⟨p, hp, rfl⟩ := mem_map.1 hname
    rcases hmem p hp with hp | ⟨hp, -⟩
    · exact mem_append_left _ (mem_map_of_mem hp)
    · exact mem_append_right _ hp
  refine yields_pure (guarantees_of_bare rfl ?_)
  rintro _ ⟨es, rfl, hcount, hpresent, hproperties, hholds⟩
  refine ⟨es, rfl, hcount, ?_, ?_, ?_, ?_⟩
  · exact fun name hname => hpresent name (Text.mem_distinct.2 hname)
  · intro e he x hx
    obtain ⟨p, hp, hname, hguarantees⟩ := exists_right_of_forall₂ hdeclared he
    exact hguarantees x (hproperties p (hkept hp) x (hname ▸ hx))
  · intro hforbidden e he hlacks
    rw [hadditional.1 hforbidden] at hholds
    exact hholds e he (hlacks.mono hnames)
  · intro schema hschema hbool e he hlacks
    rcases hadditional.2 schema hschema hbool with hall | ⟨node, rfl, hguarantees⟩
    · exact hall e.2
    · exact hguarantees e.2 (hholds e he (hlacks.mono hnames))

lemma guarantees_readObject (raw : Value) (pointer : String) :
    (readObject inner raw pointer).Yields
      (Guarantees basis target fun v => ∃ es, v = .map es ∧ AssertsObject sat raw es) := by
  unfold readObject
  extract_lets properties next
  have hnext (entries : List (Scalar × Value)) (hentries : entries = properties.entries) :
      (next entries).Yields
        (Guarantees basis target fun v => ∃ es, v = .map es ∧ AssertsObject sat raw es) := by
    subst hentries
    unfold next
    extract_lets next
    have hnext (required : List Value)
        (hrequired : required.map Value.display = requiredNames raw) :
        (next required).Yields
          (Guarantees basis target fun v => ∃ es, v = .map es ∧ AssertsObject sat raw es) :=
      guarantees_objectOf hinner hempty raw pointer required hrequired
    split
    next names hnames => exact (yields_pure (by rw [requiredNames, hnames])).bind hnext
    next hlist =>
      split
      · refine (yields_pure ?_).bind hnext
        unfold requiredNames
        split
        next names hnames => exact absurd hnames (hlist names)
        next => rfl
      · exact yields_throw.bind hnext
  clear_value properties
  split
  · refine (yields_pure ?_).bind hnext
    rfl
  next hmap =>
    split
    · refine (yields_pure ?_).bind hnext
      unfold Value.entries
      split
      next es _ => exact absurd rfl (hmap es)
      next => rfl
    · exact yields_throw.bind hnext

/-- A value of a mapping taken as one of a type is of that type, as its keywords demand. -/
lemma guarantees_readTyped (raw type : Value) (pointer : String) :
    (readTyped inner raw type pointer).Yields
      (Guarantees basis target fun v =>
        (∃ name, type = .str name ∧ v.HasType name) ∧ AssertsTyped basis sat raw v) := by
  unfold readTyped
  split
  · exact yields_throw
  next name hname =>
    obtain ⟨rfl, hmem⟩ := of_readTypeName hname
    split_ifs with hstring hnumber hboolean hnull harray
    · subst hstring
      refine yields_pure (guarantees_of_bare rfl fun v hv => ?_)
      obtain ⟨s, rfl, hs⟩ := exists_assertsString hv
      exact ⟨⟨_, rfl, .string s⟩, .of_string hs⟩
    · have hrules : (Traced.ofExcept (readNumberRules raw pointer) : Reading NumberRules).Yields
          fun rules => readNumberRules raw pointer = .ok rules := fun _ h => h
      refine hrules.bind fun rules hrules => yields_pure (guarantees_of_bare rfl ?_)
      rintro v ⟨n, hn, hinteger, hholds⟩
      refine ⟨⟨name, rfl, ?_⟩, .of_number hn (assertsNumber_of_holds hrules hholds)⟩
      rcases hnumber with rfl | rfl
      · exact .number hn
      · obtain ⟨i, hi⟩ := basis.integral (hinteger rfl)
        exact .integer hn hi
    · subst hboolean
      refine yields_pure (guarantees_of_bare rfl ?_)
      rintro _ ⟨b, rfl⟩
      exact ⟨⟨_, rfl, .boolean b⟩, .of_plain (.inr ⟨b, rfl⟩)⟩
    · subst hnull
      refine yields_pure (guarantees_of_bare rfl ?_)
      rintro _ rfl
      exact ⟨⟨_, rfl, .null⟩, .of_plain (.inl rfl)⟩
    · subst harray
      refine fun node hnode => (guarantees_readArray hinner raw pointer node hnode).mono ?_
      rintro _ ⟨xs, rfl, hxs⟩
      exact ⟨⟨_, rfl, .array xs⟩, .of_array hxs⟩
    · have hobject : name = "object" := by
        simp only [typeNames, mem_cons, not_mem_nil, or_false] at hmem
        tauto
      subst hobject
      refine fun node hnode => (guarantees_readObject hinner hempty raw pointer node hnode).mono ?_
      rintro _ ⟨es, rfl, hes⟩
      exact ⟨⟨_, rfl, .object es⟩, .of_object hes⟩

omit hinner hempty in
/-- Where no keyword constrains a type, values of that type are all as the keywords demand. -/
lemma guarantees_bareType {type : String × List String} (htype : type ∈ jsonTypes)
    (habsent : hasAny type.2 raw = false) :
    (bareType pointer type.1).Guarantees basis target (AssertsTyped basis sat raw) := by
  simp only [jsonTypes, mem_cons, not_mem_nil, or_false] at htype
  rcases htype with rfl | rfl | rfl | rfl | rfl | rfl
  all_goals
    simp only [bareType, String.reduceEq, if_true, if_false]
    refine guarantees_of_bare rfl ?_
  · rintro _ ⟨s, rfl, -⟩
    exact .of_string (assertsString_of_absent habsent s)
  · rintro v ⟨n, hn, -⟩
    exact .of_number hn (assertsNumber_of_absent habsent n)
  · exact fun v hv => .of_plain (.inr hv)
  · exact fun v hv => .of_plain (.inl hv)
  · rintro _ ⟨xs, rfl, -⟩
    exact .of_array (assertsArray_of_absent habsent xs)
  · rintro _ ⟨es, rfl, -⟩
    exact .of_object (assertsObject_of_absent habsent es)

lemma guarantees_readEveryType (raw : Value) (pointer : String)
    (types : List (String × List String)) (htypes : types ⊆ jsonTypes) :
    (readEveryType inner raw pointer types).Yields fun nodes =>
      ∀ node ∈ nodes, node.Guarantees basis target (AssertsTyped basis sat raw) := by
  induction types with
  | nil => exact yields_pure (by simp)
  | cons type rest ih =>
    obtain ⟨htype, hrest⟩ := cons_subset.1 htypes
    unfold readEveryType
    extract_lets next
    have hnext (node : Node) (hnode : node.Guarantees basis target (AssertsTyped basis sat raw)) :
        (next node).Yields fun nodes =>
          ∀ node ∈ nodes, node.Guarantees basis target (AssertsTyped basis sat raw) := by
      refine (ih hrest).bind fun nodes hnodes => yields_pure ?_
      simp only [mem_cons, forall_eq_or_imp]
      exact ⟨hnode, hnodes⟩
    split
    · refine (guarantees_readTyped hinner hempty raw (.str type.1) pointer).bind fun node hnode => ?_
      exact hnext node (hnode.mono fun v => And.right)
    next habsent =>
      exact (yields_pure (guarantees_bareType htype (Bool.eq_false_iff.2 habsent))).bind hnext

omit hinner hempty in
lemma guarantees_anyOf {nodes : List Node} {P : Value → Prop}
    (h : ∀ node ∈ nodes, node.Guarantees basis target P) :
    (Node.anyOf ⟨pointer, false⟩ nodes).Guarantees basis target P := by
  refine guarantees_of_bare rfl ?_
  rintro v ⟨node, hnode, hv⟩
  exact h node hnode v hv

lemma guarantees_readUntyped (raw : Value) (pointer : String) :
    (readUntyped inner raw pointer).Yields
      (Guarantees basis target (AssertsTyped basis sat raw)) := by
  have htyped (name : String) : (readTyped inner raw (.str name) pointer).Yields
      (Guarantees basis target (AssertsTyped basis sat raw)) := fun node hnode =>
    (guarantees_readTyped hinner hempty raw (.str name) pointer node hnode).mono fun v => And.right
  unfold readUntyped
  split_ifs
  · refine (guarantees_readEveryType hinner hempty raw pointer jsonTypes (fun _ h => h)).bind ?_
    exact fun branches hbranches => yields_pure (guarantees_anyOf hbranches)
  · exact htyped "array"
  · exact htyped "object"

lemma guarantees_readTypes (raw : Value) (pointer : String) (types : List Value) :
    (readTypes inner raw pointer types).Yields fun nodes =>
      ∀ node ∈ nodes, node.Guarantees basis target fun v =>
        (∃ name, .str name ∈ types ∧ v.HasType name) ∧ AssertsTyped basis sat raw v := by
  induction types with
  | nil => exact yields_pure (by simp)
  | cons type rest ih =>
    refine (guarantees_readTyped hinner hempty raw type pointer).bind fun node hnode => ?_
    refine ih.bind fun nodes hnodes => yields_pure ?_
    simp only [mem_cons, forall_eq_or_imp]
    refine ⟨hnode.mono ?_, fun other hother => (hnodes other hother).mono ?_⟩
    · rintro v ⟨⟨name, rfl, hname⟩, htyped⟩
      exact ⟨⟨name, .inl rfl, hname⟩, htyped⟩
    · rintro v ⟨⟨name, hmem, hname⟩, htyped⟩
      exact ⟨⟨name, .inr hmem, hname⟩, htyped⟩

lemma guarantees_readShape (raw : Value) (types : List Value) (pointer : String) :
    (readShape inner raw types pointer).Yields
      (Guarantees basis target fun v =>
        (types ≠ [] → ∃ name, .str name ∈ types ∧ v.HasType name) ∧
          AssertsTyped basis sat raw v) := by
  unfold readShape
  split
  · refine fun node hnode => (guarantees_readUntyped hinner hempty raw pointer node hnode).mono ?_
    exact fun v hv => ⟨fun h => absurd rfl h, hv⟩
  next type =>
    refine fun node hnode => (guarantees_readTyped hinner hempty raw type pointer node hnode).mono ?_
    rintro v ⟨⟨name, rfl, hname⟩, htyped⟩
    exact ⟨fun _ => ⟨name, mem_singleton.2 rfl, hname⟩, htyped⟩
  · refine (guarantees_readTypes hinner hempty raw pointer _).bind fun branches hbranches => ?_
    refine yields_pure (guarantees_anyOf fun node hnode => (hbranches node hnode).mono ?_)
    exact fun v hv => ⟨fun _ => hv.1, hv.2⟩

end

/-! ### All keywords -/

/-- What a mapping asserts on its own, combinations left aside. -/
def AssertsBase (basis : Basis) (sat : Value → Value → Prop) (raw v : Value) : Prop :=
  AssertsType raw v ∧ AssertsListed raw v ∧ AssertsTyped basis sat raw v

section

variable {target : String → Value → Prop} {inner : Value → String → Reading Node}
  {sat : Value → Value → Prop}
  (hinner : ∀ raw pointer, (inner raw pointer).Yields (Guarantees basis target (sat raw)))
  (hempty : ∀ x, sat (.map []) x)

variable {members : List Value} {branches : List Node}

lemma assertsListed_of_absent (henum : raw.has "enum" = false) (hconst : raw.has "const" = false) :
    AssertsListed raw v where
  const u hu := by
    rw [get?_eq_none_of_has hconst] at hu
    cases hu
  enum _ us hus := by
    rw [get?_eq_none_of_has henum] at hus
    cases hus

section

include hinner hempty

lemma guarantees_readBase (raw : Value) (pointer : String) (honly : ¬ OnlyNull raw) :
    (readBase inner raw (declaredTypes raw).1 pointer).Yields
      (Guarantees basis target (AssertsBase basis sat raw)) := by
  have hshape := guarantees_readShape hinner hempty raw (declaredTypes raw).1 pointer
  unfold readBase
  split
  · have hlisted : (Traced.ofExcept (readListed raw pointer) : Reading Node).Yields
        (Guarantees basis target fun v => AssertsListed raw v ∧ AssertsType raw v) :=
      fun node hnode => guarantees_of_readListed hnode
    refine hlisted.bind fun values hvalues => ?_
    split
    · refine hshape.bind fun shape hshape => yields_pure (guarantees_of_bare rfl fun v hv => ?_)
      obtain ⟨hlisted, htype⟩ := hvalues v (hv values (by simp))
      exact ⟨htype, hlisted, (hshape v (hv shape (by simp))).2⟩
    next habsent =>
      refine yields_pure (hvalues.mono ?_)
      rintro v ⟨hlisted, htype⟩
      exact ⟨htype, hlisted, assertsTyped_of_absent (Bool.eq_false_iff.2 habsent) v⟩
  next habsent =>
    simp only [Bool.or_eq_true, not_or, Bool.not_eq_true] at habsent
    refine fun node hnode => (hshape node hnode).mono ?_
    rintro v ⟨htype, htyped⟩
    exact ⟨assertsType_of_declared honly htype, assertsListed_of_absent habsent.1 habsent.2, htyped⟩

omit hempty

lemma guarantees_readBranches (place : String) (i : Nat) (members : List Value) :
    (readBranches inner place i members).Yields
      (Forall₂ (fun m => Guarantees basis target (sat m)) members) := by
  induction members generalizing i with
  | nil => exact yields_pure .nil
  | cons member rest ih =>
    refine (hinner _ _).bind fun node hnode => (ih (i + 1)).bind fun nodes hnodes => ?_
    exact yields_pure (.cons hnode hnodes)

/-- A combination is read as one node, if it is there. What meets that node has the property that
the combination has of the members. -/
lemma guarantees_readCombination (raw : Value) (pointer keyword : String)
    {make : Site → List Node → Node} {Q : List Value → Value → Prop}
    (hmake : ∀ place members branches,
      Forall₂ (fun m => Guarantees basis target (sat m)) members branches →
        (make ⟨place, false⟩ branches).Guarantees basis target (Q members)) :
    (readCombination inner raw pointer keyword make).Yields fun nodes =>
      (raw.has keyword = false → nodes = []) ∧
        ∀ v, (∀ node ∈ nodes, node.MeetsAlone basis target v) →
          ∀ members, raw.get? keyword = some (.list members) → Q members v := by
  unfold readCombination
  split
  next hnone => exact yields_pure ⟨fun _ => rfl, by simp [hnone]⟩
  next m ms hsome =>
    refine (guarantees_readBranches hinner _ _ _).bind fun branches hbranches => yields_pure ⟨?_, ?_⟩
    · simp [Value.has, hsome]
    · intro v hv members hmembers
      cases hsome.symm.trans hmembers
      exact hmake _ _ _ hbranches v (hv _ (mem_singleton.2 rfl))
  next => exact yields_throw

end

lemma guarantees_all (place : String)
    (h : Forall₂ (fun m => Guarantees basis target (sat m)) members branches) :
    (Node.allOf ⟨place, false⟩ branches).Guarantees basis target fun v => ∀ m ∈ members, sat m v := by
  refine guarantees_of_bare rfl fun v hv m hm => ?_
  obtain ⟨node, hnode, hguarantees⟩ := exists_right_of_forall₂ h hm
  exact hguarantees v (hv node hnode)

lemma guarantees_some {make : Site → List Node → Node} (hmake : make = .anyOf ∨ make = .oneOf)
    (place : String) (h : Forall₂ (fun m => Guarantees basis target (sat m)) members branches) :
    (make ⟨place, false⟩ branches).Guarantees basis target fun v => ∃ m ∈ members, sat m v := by
  rcases hmake with rfl | rfl
  all_goals
    refine guarantees_of_bare rfl ?_
    rintro v ⟨node, hnode, hv⟩
    obtain ⟨m, hm, hguarantees⟩ := exists_left_of_forall₂ h hnode
    exact ⟨m, hm, hguarantees v hv⟩

/-- One node stands for itself, several for their conjunction. -/
lemma guarantees_conjunctionOf (pointer : String) (nullable onlyNull : Bool) (nodes : List Node) :
    (match nodes with
      | [] => pure (if onlyNull then .null ⟨pointer, false⟩ else .any ⟨pointer, false⟩)
      | [node] => pure (if nullable then node.orNull else node)
      | nodes =>
        have node := Node.allOf ⟨pointer, false⟩ nodes
        pure (if nullable then node.orNull else node) : Reading Node).Yields
      (Guarantees basis target fun v => nullable ∧ v = .null ∨
        (∀ node ∈ nodes, node.MeetsAlone basis target v) ∧ (nodes = [] → onlyNull → v = .null)) := by
  have horNull {node : Node} {P : Value → Prop} (h : node.Guarantees basis target P) :
      (if nullable then node.orNull else node).Guarantees basis target
        fun v => nullable ∧ v = .null ∨ P v := by
    intro v hv
    cases nullable with
    | true => exact (Node.meetsAlone_orNull hv).imp (fun hnull => ⟨rfl, hnull⟩) (h v)
    | false => exact .inr (h v hv)
  rcases nodes with _ | ⟨node, _ | ⟨second, rest⟩⟩
  · refine yields_pure fun v hv => .inr ⟨by simp, ?_⟩
    rintro - rfl
    exact (Node.meets_iff.1 hv).elim And.right id
  · exact yields_pure (horNull fun v hv => ⟨by simpa using hv, by simp⟩)
  · exact yields_pure (horNull (guarantees_of_bare rfl fun v hv => ⟨hv, by simp⟩))

/-- What the parts of a mapping say, taken together. -/
lemma allowsNull_or_asserts (hbase : ¬ OnlyNull raw → AssertsBase basis sat raw v)
    (hnull : OnlyNull raw → raw.has "allOf" = false → raw.has "anyOf" = false →
      raw.has "oneOf" = false → v = .null)
    (hallOf : ∀ ms, raw.get? "allOf" = some (.list ms) → ∀ m ∈ ms, sat m v)
    (hanyOf : ∀ ms, raw.get? "anyOf" = some (.list ms) → ∃ m ∈ ms, sat m v)
    (honeOf : ∀ ms, raw.get? "oneOf" = some (.list ms) → ∃ m ∈ ms, sat m v) :
    v = .null ∧ AllowsNull raw ∨ Asserts basis sat raw v := by
  by_cases honly : OnlyNull raw
  · obtain ⟨types, hget, htypes⟩ := honly.exists_list
    by_cases haside : IsAside raw
    · exact .inr ⟨absurd haside, absurd haside, absurd haside, hallOf, hanyOf, honeOf⟩
    · have hbare : ¬ (types = [] ∨ raw.has "allOf" ∨ raw.has "anyOf" ∨ raw.has "oneOf") :=
        fun h => haside ⟨types, hget, htypes, h⟩
      simp only [not_or, Bool.not_eq_true] at hbare
      obtain ⟨hne, hall, hany, hone⟩ := hbare
      obtain ⟨t, ht⟩ := exists_mem_of_ne_nil types hne
      exact .inl ⟨hnull honly hall hany hone, .inr ⟨types, hget, htypes t ht ▸ ht⟩⟩
  · obtain ⟨htype, hlisted, htyped⟩ := hbase honly
    exact .inr ⟨fun _ => htype, fun _ => hlisted, fun _ => htyped, hallOf, hanyOf, honeOf⟩

lemma isNull_iff : v.isNull ↔ v = .null := by
  cases v with
  | scalar s => cases s <;> simp [Value.isNull]
  | list _ | tuple _ | map _ => simp [Value.isNull]

include hinner hempty

lemma guarantees_readMapping (raw : Value) (pointer : String) :
    (readMapping inner raw pointer).Yields (Guarantees basis target fun v =>
      v = .null ∧ AllowsNull raw ∨ Asserts basis sat raw v) := by
  unfold readMapping
  extract_lets next
  have hnext : (next ()).Yields (Guarantees basis target fun v =>
      v = .null ∧ AllowsNull raw ∨ Asserts basis sat raw v) := by
    unfold next
    split
    next types listsNull htypes =>
    obtain rfl : types = (declaredTypes raw).1 := by rw [htypes]
    obtain rfl : listsNull = (declaredTypes raw).2 := by rw [htypes]
    extract_lets nullable onlyNull hasBase next
    have hallows (h : nullable) : AllowsNull raw := by
      simp only [nullable, Bool.or_eq_true] at h
      exact h.elim .inl allowsNull_of_declared
    have hiff : onlyNull ↔ OnlyNull raw := by
      simp [onlyNull, OnlyNull, ← isNull_iff]
    have habsent (h : hasBase = false) (honly : ¬ OnlyNull raw) (v : Value) :
        AssertsBase basis sat raw v := by
      simp only [hasBase, Bool.or_eq_false_iff] at h
      obtain ⟨⟨⟨htypes, henum⟩, hconst⟩, htyped⟩ := h
      refine ⟨assertsType_of_declared honly fun hne => ?_, assertsListed_of_absent henum hconst,
        assertsTyped_of_absent htyped v⟩
      exact absurd (by simpa using htypes) hne
    clear_value nullable onlyNull hasBase
    have hnext (base : List Node)
        (hbase : (OnlyNull raw → base = []) ∧ (¬ OnlyNull raw → ∀ v,
          (∀ node ∈ base, node.MeetsAlone basis target v) → AssertsBase basis sat raw v)) :
        (next base).Yields (Guarantees basis target fun v =>
          v = .null ∧ AllowsNull raw ∨ Asserts basis sat raw v) := by
      refine (guarantees_readCombination hinner _ _ _ fun place _ _ => guarantees_all place).bind
        fun allOf hall => ?_
      refine (guarantees_readCombination hinner _ _ _
        fun place _ _ => guarantees_some (.inl rfl) place).bind fun anyOf hany => ?_
      refine (guarantees_readCombination hinner _ _ _
        fun place _ _ => guarantees_some (.inr rfl) place).bind fun oneOf hone => ?_
      intro node hnode
      refine (guarantees_conjunctionOf pointer _ _ _ node hnode).mono ?_
      rintro v (⟨hnullable, hv⟩ | ⟨hmeets, hnull⟩)
      · exact .inl ⟨hv, hallows hnullable⟩
      · simp only [mem_append] at hmeets
        refine allowsNull_or_asserts ?_ ?_ ?_ ?_ ?_
        · exact fun honly => hbase.2 honly v fun node h => hmeets node (.inl (.inl (.inl h)))
        · intro honly hnoAll hnoAny hnoOne
          refine hnull ?_ (hiff.2 honly)
          rw [hbase.1 honly, hall.1 hnoAll, hany.1 hnoAny, hone.1 hnoOne]
          rfl
        · exact hall.2 v fun node h => hmeets node (.inl (.inl (.inr h)))
        · exact hany.2 v fun node h => hmeets node (.inl (.inr h))
        · exact hone.2 v fun node h => hmeets node (.inr h)
    split
    next hboth =>
      simp only [Bool.and_eq_true, Bool.not_eq_true', ← Bool.not_eq_true, hiff] at hboth
      refine (guarantees_readBase hinner hempty raw pointer hboth.1).bind fun node hnode => ?_
      refine (yields_pure ⟨fun h => absurd h hboth.1, fun _ v hv => ?_⟩).bind hnext
      exact hnode v (hv node (mem_singleton.2 rfl))
    next hnone =>
      refine (yields_pure ⟨fun _ => rfl, fun honly v _ => habsent ?_ honly v⟩).bind hnext
      simpa [mt hiff.1 honly] using hnone
  split
  · exact yields_throw.bind fun _ (h : True) => hnext
  · exact hnext

end

/-! ### All layers -/

section

variable {lib : Library} {doc : String} {target : String → Value → Prop}

variable {sat : Value → Value → Prop}

/-- What has no keywords asserts nothing. -/
lemma asserts_of_no_entries (h : raw.entries = []) : Asserts basis sat raw v := by
  have hget (key : String) : raw.get? key = none := by
    rw [Value.get?, h]
    rfl
  have hhas (key : String) : raw.has key = false := by
    rw [Value.has, hget]
    rfl
  have hnull : raw.get "type" = .null := get_of_has (hhas "type")
  have habsent : hasAny typedKeywords raw = false := any_eq_false.2 fun key _ => by simp [hhas]
  refine ⟨fun _ => ⟨?_, ?_⟩, fun _ => ?_, fun _ => ?_, ?_, ?_, ?_⟩
  · simp [hnull]
  · simp [hnull]
  · exact assertsListed_of_absent (hhas "enum") (hhas "const")
  · exact assertsTyped_of_absent habsent v
  · simp [hget]
  · simp [hget]
  · simp [hget]

lemma guarantees_readLayer {inner : Value → String → Reading Node}
    (hinner : ∀ raw pointer, (inner raw pointer).Yields (Guarantees basis target (sat raw)))
    (hempty : ∀ x, sat (.map []) x) (raw : Value) (pointer : String) :
    (readLayer lib doc inner raw pointer).Yields
      (Guarantees basis target (SatisfiesLayer basis sat lib doc target raw)) := by
  unfold readLayer
  split
  · exact yields_pure fun v _ => .inr (asserts_of_no_entries rfl)
  · exact yields_pure fun v _ => .inr (asserts_of_no_entries rfl)
  · split
    next ref href =>
      unfold readReference
      split
      next text =>
        have hplace : (Traced.ofExcept (lib.locate text doc pointer) : Reading Location).Yields
            fun place => lib.locate text doc pointer = .ok place := fun _ h => h
        refine hplace.bind fun place hplace => (yields_true _).bind fun _ _ => yields_pure ?_
        intro v hv
        rcases Node.meets_iff.1 hv with ⟨hnullable, hnull⟩ | htarget
        · exact .inl ⟨hnull, .inl hnullable⟩
        · refine .inr ?_
          rw [href]
          exact ⟨text, pointer, place, rfl, hplace, htarget⟩
      next => exact yields_throw
    next href =>
      intro node hnode
      refine (guarantees_readMapping hinner hempty _ pointer node hnode).mono fun v hv => ?_
      rw [SatisfiesLayer, href]
      exact hv
  · exact yields_throw

/-- What meets the node that a schema is read as satisfies the schema. -/
lemma guarantees_read (lib : Library) (doc : String) (raw : Value) (pointer : String) :
    (read lib doc raw pointer).Yields
      (Guarantees basis target (Satisfies basis lib doc target raw)) := by
  have hempty (x : Value) : Satisfies basis lib doc target (.map []) x :=
    satisfies_iff.2 (.inr (asserts_of_no_entries rfl))
  unfold read
  generalize raw.depth + 1 = n
  induction n generalizing raw pointer with
  | zero => exact yields_throw
  | succ n ih =>
    intro node hnode
    refine (guarantees_readLayer ih hempty raw pointer node hnode).mono ?_
    exact fun v => satisfies_iff.2

/-- Reading never weakens a schema: a value other than null that meets the node satisfies every
keyword of a mapping without a reference. -/
theorem asserts_of_meets {node : Node} (hread : (read lib doc raw pointer).outcome = .ok node)
    (href : raw.has "$ref" = false) (hv : v ≠ .null) (hmeets : node.MeetsAlone basis target v) :
    Asserts basis (Satisfies basis lib doc target) raw v := by
  have hsatisfies := satisfies_iff.1 (guarantees_read lib doc raw pointer node hread v hmeets)
  rw [SatisfiesLayer, get?_eq_none_of_has href] at hsatisfies
  exact hsatisfies.resolve_left fun hnull => hv hnull.1

end

/-! ### A mapping with many keywords -/

/-- An object with a positive count, or null. It has an entry, or is the number five. -/
def stockSchema : Value :=
  .object [
    ("type", .list [.str "object", .str "null"]),
    ("properties", .object [
      ("count", .object [("type", .str "integer"), ("exclusiveMinimum", .int 0)])]),
    ("required", .list [.str "count", .str "place"]),
    ("additionalProperties", .bool false),
    ("anyOf", .list [.object [("minProperties", .int 1)], .object [("const", .int 5)]])]

def stockLibrary : Library :=
  .ofTable "" stockSchema []

/-- The place is required, but not declared. -/
def stockValue : Value :=
  .object [("count", .int 3), ("place", .str "shelf")]

def stockObject : Node :=
  .object ⟨"", false⟩
    [("count", .number ⟨"/properties" ++ "/" ++ "count", false⟩ true
      { exclusiveMinimum := some (.int 0) }), ("place", .any ⟨"/required", false⟩)]
    ["count", "place"] .forbidden {}

def stockChoice : Node :=
  .anyOf ⟨"/anyOf", false⟩
    [.object ⟨"/anyOf/0", false⟩ [] [] .unstated { minProperties := some (.int 1) },
      .literal ⟨"/anyOf/1", false⟩ [.int 5]]

lemma read_stock : (read stockLibrary "" stockSchema "").outcome =
    .ok (.allOf ⟨"", true⟩ [stockObject, stockChoice]) := rfl

lemma meets_stock {target : String → Value → Prop} :
    (Node.allOf ⟨"", true⟩ [stockObject, stockChoice]).MeetsAlone lenient target stockValue := by
  have hrules : NumberRules.Holds { exclusiveMinimum := some (.int 0) } (.int 3) := by
    constructor <;> simp [Number.lt, Number.value, ExtRat.lt]
  have hinteger : lenient.integer (.int 3) := ⟨3, rfl⟩
  have hobject : stockObject.MeetsAlone lenient target stockValue := by
    refine Node.meets_iff.2 (.inr ⟨_, rfl, ?_, ?_, ?_, ?_⟩)
    · simp [Validator.countOf, Extent.Holds]
    · simp [Value.find?, Scalar.same, Scalar.number?]
    · simp [Value.find?, Scalar.same, Scalar.number?, Node.Meets, Value.number?, hrules, hinteger]
    · simp [Additional.Holds, Scalar.Lacks]
  have hchoice : stockChoice.MeetsAlone lenient target stockValue := by
    refine Node.meets_iff.2 (.inr ⟨_, mem_cons_self, ?_⟩)
    refine Node.meets_iff.2 (.inr ⟨_, rfl, ?_, ?_, ?_, ?_⟩)
    · simp [Validator.countOf, Extent.Holds, Extent.AtLeast, Value.bound?, Scalar.number?, Number.le,
        Number.lt, Number.value, ExtRat.lt]
    · simp
    · simp
    · trivial
  refine Node.meets_iff.2 (.inr ?_)
  simp [Node.MeetsBare, hobject, hchoice]

/-- The keywords of the mapping, the combination among them, hold of the value. -/
theorem stock_asserts : ∃ node, (read stockLibrary "" stockSchema "").outcome = .ok node ∧
    stockSchema.has "$ref" = false ∧ stockValue ≠ .null ∧
    node.MeetsAlone lenient (fun _ _ => False) stockValue ∧
    Asserts lenient (Satisfies lenient stockLibrary "" fun _ _ => False) stockSchema stockValue :=
  ⟨_, read_stock, rfl, by simp [stockValue, Value.object], meets_stock,
    asserts_of_meets read_stock rfl (by simp [stockValue, Value.object]) meets_stock⟩

/-- Nothing may stand beside the properties, and the place is none of them; it is admitted since it is
required. -/
theorem stock_meets_undeclared : ∃ node, (read stockLibrary "" stockSchema "").outcome = .ok node ∧
    stockSchema.has "$ref" = false ∧ stockValue ≠ .null ∧
    node.MeetsAlone lenient (fun _ _ => False) stockValue ∧
    given "additionalProperties" stockSchema = some (.bool false) ∧
    ∃ e ∈ stockValue.entries, e.1.Lacks (propertyNames stockSchema) := by
  refine ⟨_, read_stock, rfl, by simp [stockValue, Value.object], meets_stock, rfl,
    (.str "place", .str "shelf"), ?_, ?_⟩
  · simp [stockValue, Value.object, Value.entries]
  · simp [Scalar.Lacks, propertyNames, stockSchema, Value.object, Value.get, Value.get?,
      Value.entries, Value.find?, Scalar.same, Scalar.number?, Scalar.display]

end ApiSchema.Schema
