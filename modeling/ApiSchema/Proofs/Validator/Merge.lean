import ApiSchema.Proofs.Validator.Flattening
import ApiSchema.Proofs.Validator.Parts

/-!
# Objects read together

Flattening a conjunction gives the shapes of all objects that it is made of, and merging says once
what the shapes say together. Main statements: a mapping meets the branches of a conjunction, read
together, exactly if all of its shapes hold, and what is merged holds if all shapes do.
-/

namespace ApiSchema

open List Option

namespace Shape

variable {b : Value} {precedes? : Value → Value → Option Bool} {known new bound : Option Value}
  {schema s : Node} {schemas : List Node} {name key : String} {declared : List (String × List Node)}
  {shapes : List Shape} {m : Merged}

/-! ### Shapes -/

/-- The entries of a mapping are as a shape demands, among the names `names`. -/
structure Holds (meets : Node → Value → Prop) (names : List String) (shape : Shape)
    (es : List (Scalar × Value)) : Prop where
  count : (Validator.countOf shape.rules).Holds es.length
  required : ∀ k ∈ shape.required, (Value.find? (.str k) es).isSome
  properties : ∀ p ∈ shape.properties, ∀ x, Value.find? (.str p.1) es = some x → meets p.2 x
  additional : shape.additional.Holds meets (shape.properties.map (·.1) ++ names) es

variable {doc : Resolved}

/-! ### Meaning of flattened branches -/

section

variable {basis : Basis} {formats : Format.Registry} {scope : List Node → Option (List String)}
  {ref : Option (List String) → String → Value → Prop} {names : List String}

variable {site : Site} {v : Value} {branches : List Node} {shapes : List Shape}
  {es : List (Scalar × Value)}

/-- An object without null is met by the mappings that its shape admits. -/
lemma meets_object_iff (hsite : site.nullable = false) {shape : Shape} :
    Node.Meets basis formats scope ref (some names)
        (.object site shape.properties shape.required shape.additional shape.rules) v ↔
      ∃ es, v = .map es ∧ shape.Holds (Node.Meets basis formats scope ref none) names es := by
  simp only [Node.Meets, hsite, Bool.false_eq_true, false_and, false_or, getD_some,
    Node.meetsProperties_iff, Node.meetsAdditional_iff]
  constructor
  · rintro ⟨es, rfl, hcount, hrequired, hproperties, hadditional⟩
    exact ⟨es, rfl, hcount, hrequired, hproperties, hadditional⟩
  · rintro ⟨es, rfl, hcount, hrequired, hproperties, hadditional⟩
    exact ⟨es, rfl, hcount, hrequired, hproperties, hadditional⟩

/-- Among names, a conjunction without null is met by what meets all branches among them. -/
lemma meets_allOf_iff (hsite : site.nullable = false) :
    Node.Meets basis formats scope ref (some names) (.allOf site branches) v ↔
      ∀ b ∈ branches, Node.Meets basis formats scope ref (some names) b v := by
  simp [Node.Meets, hsite, Node.meetsAll_iff]

lemma meets_reference_iff (hsite : site.nullable = false) {target : String} :
    Node.Meets basis formats scope ref (some names) (.reference site target) v ↔
      ref (some names) target v := by
  simp [Node.Meets, hsite]

/-- What meets the branches of a conjunction has the entries that the shapes demand. -/
lemma Flattens.holds (h : Flattens doc branches shapes)
    (href : ∀ {t v}, ref (some names) t v → ∃ node, doc.definitions.lookup t = some node ∧
      Node.Meets basis formats scope ref (some names) node v)
    (hv : ∀ b ∈ branches, Node.Meets basis formats scope ref (some names) b (.map es)) :
    ∀ shape ∈ shapes, shape.Holds (Node.Meets basis formats scope ref none) names es := by
  induction h with
  | nil => simp
  | object shape hsite _ ih =>
    simp only [mem_cons, forall_eq_or_imp] at hv ⊢
    obtain ⟨es', hes, hshape⟩ := (meets_object_iff hsite).1 hv.1
    cases hes
    exact ⟨hshape, ih hv.2⟩
  | allOf hsite _ _ ih ih' =>
    simp only [mem_cons, forall_eq_or_imp, meets_allOf_iff hsite] at hv
    simp only [mem_append]
    exact fun shape hshape => hshape.elim (ih hv.1 shape) (ih' hv.2 shape)
  | reference hsite hnode _ _ ih ih' =>
    simp only [mem_cons, forall_eq_or_imp, meets_reference_iff hsite] at hv
    obtain ⟨node, hlookup, hmeets⟩ := href hv.1
    cases hnode.symm.trans hlookup
    simp only [mem_append]
    exact fun shape hshape => hshape.elim (ih (by simpa using hmeets) shape) (ih' hv.2 shape)

/-- A mapping with the entries that the shapes demand meets the branches of a conjunction. -/
lemma Flattens.meets (h : Flattens doc branches shapes)
    (href : ∀ {t v node}, doc.definitions.lookup t = some node →
      Node.Meets basis formats scope ref (some names) node v → ref (some names) t v)
    (hv : ∀ shape ∈ shapes, shape.Holds (Node.Meets basis formats scope ref none) names es) :
    ∀ b ∈ branches, Node.Meets basis formats scope ref (some names) b (.map es) := by
  induction h with
  | nil => simp
  | object shape hsite _ ih =>
    simp only [mem_cons, forall_eq_or_imp] at hv ⊢
    exact ⟨(meets_object_iff hsite).2 ⟨es, rfl, hv.1⟩, ih hv.2⟩
  | allOf hsite _ _ ih ih' =>
    simp only [mem_append, or_imp, forall_and] at hv
    simp only [mem_cons, forall_eq_or_imp, meets_allOf_iff hsite]
    exact ⟨ih hv.1, ih' hv.2⟩
  | reference hsite hnode _ _ ih ih' =>
    simp only [mem_append, or_imp, forall_and] at hv
    simp only [mem_cons, forall_eq_or_imp, meets_reference_iff hsite]
    exact ⟨href hnode (ih hv.1 _ (by simp)), ih' hv.2⟩

/-- What meets the branches of a conjunction is a mapping. -/
lemma Flattens.exists_map (hdoc : doc.IsProper) (h : Flattens doc branches shapes)
    (hne : branches ≠ []) (hbranches : ∀ b ∈ branches, doc.Contains b)
    (href : ∀ {t v}, ref (some names) t v → ∃ node, doc.definitions.lookup t = some node ∧
      Node.Meets basis formats scope ref (some names) node v)
    (hv : ∀ b ∈ branches, Node.Meets basis formats scope ref (some names) b v) :
    ∃ es, v = .map es := by
  induction h with
  | nil => exact absurd rfl hne
  | object shape hsite _ _ =>
    obtain ⟨es, hes, -⟩ := (meets_object_iff hsite).1 (hv _ mem_cons_self)
    exact ⟨es, hes⟩
  | allOf hsite _ _ ih _ =>
    have hnode := hbranches _ mem_cons_self
    exact ih (hdoc _ hnode) (fun b hb => hnode.child hb)
      ((meets_allOf_iff hsite).1 (hv _ mem_cons_self))
  | reference hsite hnode _ _ ih _ =>
    obtain ⟨node, hlookup, hmeets⟩ := href ((meets_reference_iff hsite).1 (hv _ mem_cons_self))
    cases hnode.symm.trans hlookup
    refine ih (cons_ne_nil _ _) ?_ (by simpa using hmeets)
    simpa using Resolved.Contains.definition (mem_of_lookup hnode)

end

/-! ### Bounds on the number of properties -/

lemma not_lt_of_not_lt {a b c : ExtRat} (hab : a.lt b = false) (hca : c.lt a = false) :
    c.lt b = false := by
  cases a <;> cases b <;> cases c <;> simp_all [ExtRat.lt]
  exact hab.trans hca

/-- Bounds that can be compared are both numbers, or neither bounds anything. -/
lemma precedes?_cases {a : Value} {before : Bool} (h : Value.precedes? a b = some before) :
    (∃ x y, a.bound? = some x ∧ b.bound? = some y ∧ before = x.lt y) ∨
      a.bound? = none ∧ b.bound? = none := by
  unfold Value.precedes? at h
  split at h
  · split at h
    next hx hy =>
      cases h
      exact .inl ⟨_, _, hx, hy, rfl⟩
    · exact .inr ⟨rfl, rfl⟩
    · cases h
  · exact .inr ⟨rfl, rfl⟩
  · exact .inr ⟨rfl, rfl⟩
  · cases h

/-- The sharper of two bounds demands what both demand, if demanding more is what it means to be
sharper. -/
lemma forall_mem_sharper {P : Number → Prop}
    (hcases : ∀ {a b before}, precedes? a b = some before →
      (∃ x y, a.bound? = some x ∧ b.bound? = some y ∧ if before then P y → P x else P x → P y) ∨
        a.bound? = none ∧ b.bound? = none) (h : sharper precedes? known new = .ok bound) :
    (∀ b ∈ bound.bind Value.bound?, P b) ↔
      (∀ b ∈ known.bind Value.bound?, P b) ∧ ∀ b ∈ new.bind Value.bound?, P b := by
  unfold sharper at h
  split at h
  · cases h
    simp
  · cases h
    simp
  · split at h
    next hab =>
      cases h
      obtain ⟨x, y, hx, hy, hsharp⟩ | ⟨hx, hy⟩ := hcases hab
      · simpa [hx, hy] using hsharp
      · simp [hx, hy]
    next hab =>
      cases h
      obtain ⟨x, y, hx, hy, hsharp⟩ | ⟨hx, hy⟩ := hcases hab
      · simpa [hx, hy] using hsharp
      · simp [hx, hy]
    · cases h

/-- The sharper of two bounds is one of them. -/
lemma mem_of_sharper (h : sharper precedes? known new = .ok bound) (hb : b ∈ bound) :
    b ∈ known ∨ b ∈ new := by
  unfold sharper at h
  split at h
  · cases h
    exact .inl hb
  · cases h
    exact .inr hb
  · split at h
    · cases h
      exact .inr hb
    · cases h
      exact .inl hb
    · cases h

lemma atLeast_sharper (h : sharper Value.precedes? known new = .ok bound) {count : Nat} :
    Extent.AtLeast bound count ↔ Extent.AtLeast known count ∧ Extent.AtLeast new count := by
  refine forall_mem_sharper (fun {a b before} hab => ?_) h
  obtain ⟨x, y, hx, hy, rfl⟩ | hnone := precedes?_cases hab
  · refine .inl ⟨x, y, hx, hy, ?_⟩
    simp only [Number.le, Bool.not_eq_true']
    split
    next hlt => exact not_lt_of_not_lt (ExtRat.not_lt_of_lt hlt)
    next hlt => exact not_lt_of_not_lt (Bool.eq_false_iff.2 hlt)
  · exact .inr hnone

lemma atMost_sharper (h : sharper (fun a b => Value.precedes? b a) known new = .ok bound)
    {count : Nat} :
    Extent.AtMost bound count ↔ Extent.AtMost known count ∧ Extent.AtMost new count := by
  refine forall_mem_sharper (fun {a b before} hab => ?_) h
  obtain ⟨y, x, hy, hx, rfl⟩ | hnone := precedes?_cases hab
  · refine .inl ⟨x, y, hx, hy, ?_⟩
    simp only [Number.le, Bool.not_eq_true']
    split
    next hlt => exact fun h => not_lt_of_not_lt h (ExtRat.not_lt_of_lt hlt)
    next hlt => exact fun h => not_lt_of_not_lt h (Bool.eq_false_iff.2 hlt)
  · exact .inr hnone.symm

/-! ### Declared properties -/

/-- A schema is among those declared for a name. -/
def Declares (declared : List (String × List Node)) (name : String) (schema : Node) : Prop :=
  ∃ d ∈ declared, d.1 = name ∧ schema ∈ d.2

lemma mem_addSchema (h : s ∈ addSchema schema schemas) : s = schema ∨ s ∈ schemas := by
  unfold addSchema at h
  split at h
  · exact .inr h
  · rcases mem_append.1 h with h | h
    · exact .inr h
    · exact .inl (mem_singleton.1 h)

lemma mem_addSchema_of_mem (h : s ∈ schemas) : s ∈ addSchema schema schemas := by
  unfold addSchema
  split
  · exact h
  · exact mem_append_left _ h

/-- A schema is added, or it is the same as one that is there. -/
lemma exists_mem_addSchema (schema : Node) (schemas : List Node) :
    ∃ s ∈ addSchema schema schemas, s = schema ∨ schema.same s ∧ s ∈ schemas := by
  unfold addSchema
  split
  next hany =>
    obtain ⟨s, hs, hsame⟩ := any_eq_true.1 hany
    exact ⟨s, hs, .inr ⟨hsame, hs⟩⟩
  next => exact ⟨schema, by simp, .inl rfl⟩

lemma Declares.of_declare (h : Declares (declare name schema declared) key s) :
    (key, s) = (name, schema) ∨ Declares declared key s := by
  induction declared with
  | nil =>
    obtain ⟨d, hd, rfl, hs⟩ := h
    cases mem_singleton.1 hd
    rw [mem_singleton.1 hs]
    exact .inl rfl
  | cons head rest ih =>
    obtain ⟨d, hd, rfl, hs⟩ := h
    unfold declare at hd
    split at hd
    next hname =>
      rcases mem_cons.1 hd with rfl | hd
      · rcases mem_addSchema hs with rfl | hs
        · exact .inl (Prod.ext hname rfl)
        · exact .inr ⟨head, mem_cons_self, rfl, hs⟩
      · exact .inr ⟨d, mem_cons_of_mem _ hd, rfl, hs⟩
    next =>
      rcases mem_cons.1 hd with rfl | hd
      · exact .inr ⟨head, mem_cons_self, rfl, hs⟩
      · rcases ih ⟨d, hd, rfl, hs⟩ with h | ⟨d', hd', hkey, hs'⟩
        · exact .inl h
        · exact .inr ⟨d', mem_cons_of_mem _ hd', hkey, hs'⟩

lemma Declares.declare (h : Declares declared key s) :
    Declares (declare name schema declared) key s := by
  induction declared with
  | nil =>
    obtain ⟨d, hd, -⟩ := h
    cases hd
  | cons head rest ih =>
    obtain ⟨d, hd, rfl, hs⟩ := h
    unfold Shape.declare
    split
    · rcases mem_cons.1 hd with rfl | hd
      · exact ⟨_, mem_cons_self, rfl, mem_addSchema_of_mem hs⟩
      · exact ⟨d, mem_cons_of_mem _ hd, rfl, hs⟩
    · rcases mem_cons.1 hd with rfl | hd
      · exact ⟨_, mem_cons_self, rfl, hs⟩
      · obtain ⟨d', hd', hkey, hs'⟩ := ih ⟨d, hd, rfl, hs⟩
        exact ⟨d', mem_cons_of_mem _ hd', hkey, hs'⟩

/-- A declared schema is there, or one that is the same. -/
lemma exists_declares (name : String) (schema : Node) (declared : List (String × List Node)) :
    ∃ s, Declares (declare name schema declared) name s ∧
      (s = schema ∨ schema.same s ∧ Declares declared name s) := by
  induction declared with
  | nil => exact ⟨schema, ⟨_, mem_singleton.2 rfl, rfl, mem_singleton.2 rfl⟩, .inl rfl⟩
  | cons head rest ih =>
    unfold declare
    split
    next hname =>
      obtain ⟨s, hs, hsame⟩ := exists_mem_addSchema schema head.2
      refine ⟨s, ⟨_, mem_cons_self, hname, hs⟩, hsame.imp_right ?_⟩
      exact fun h => ⟨h.1, head, mem_cons_self, hname, h.2⟩
    next =>
      obtain ⟨s, ⟨d, hd, hkey, hs⟩, hsame⟩ := ih
      refine ⟨s, ⟨d, mem_cons_of_mem _ hd, hkey, hs⟩, hsame.imp_right ?_⟩
      rintro ⟨hsame, d', hd', hkey', hs'⟩
      exact ⟨hsame, d', mem_cons_of_mem _ hd', hkey', hs'⟩

lemma mem_keys_declare :
    key ∈ (declare name schema declared).map (·.1) ↔ key = name ∨ key ∈ declared.map (·.1) := by
  induction declared with
  | nil => simp [declare]
  | cons head rest ih =>
    unfold declare
    split
    next hname =>
      simp only [map_cons, mem_cons, hname]
      tauto
    next =>
      simp only [map_cons, mem_cons, ih]
      tauto

/-! ### Merging -/

/-- What is merged is what the shapes say: a schema may stand for one that is the same. -/
structure MergedFrom (shapes : List Shape) (m : Merged) : Prop where
  of_declares : ∀ {name s}, Declares m.declared name s →
    ∃ shape ∈ shapes, (name, s) ∈ shape.properties
  declares : ∀ {shape name schema}, shape ∈ shapes → (name, schema) ∈ shape.properties →
    ∃ s, Declares m.declared name s ∧ (s = schema ∨ schema.same s)
  keys : ∀ {name}, name ∈ m.declared.map (·.1) ↔
    ∃ shape ∈ shapes, name ∈ shape.properties.map (·.1)
  nodup : (m.declared.map (·.1)).Nodup
  required : ∀ {name}, name ∈ m.required ↔ ∃ shape ∈ shapes, name ∈ shape.required
  forbidden : m.forbidden ↔ ∃ shape ∈ shapes, shape.additional = .forbidden
  of_mem_extras : ∀ {s}, s ∈ m.extras → ∃ shape ∈ shapes, shape.additional = .typed s
  extras : ∀ {shape schema}, shape ∈ shapes → shape.additional = .typed schema →
    ∃ s ∈ m.extras, s = schema ∨ schema.same s
  count : ∀ {n}, m.count.Holds n ↔ ∀ shape ∈ shapes, (Validator.countOf shape.rules).Holds n
  of_mem_bounds : ∀ {b}, b ∈ m.count.bounds →
    ∃ shape ∈ shapes, b ∈ (Validator.countOf shape.rules).bounds

lemma mergedFrom_nil : MergedFrom [] {} where
  of_declares h := by
    obtain ⟨d, hd, -⟩ := h
    cases hd
  declares h := by cases h
  keys := by simp
  nodup := nodup_nil
  required := by simp
  forbidden := by simp
  of_mem_extras h := by cases h
  extras h := by cases h
  count := by simp [Extent.Holds]
  of_mem_bounds h := by cases h

lemma nodup_keys_declare (h : (declared.map (·.1)).Nodup) (name : String) (schema : Node) :
    ((declare name schema declared).map (·.1)).Nodup := by
  induction declared with
  | nil => simp [declare]
  | cons head rest ih =>
    unfold declare
    split
    next => exact h
    next hname =>
      simp only [map_cons, nodup_cons, mem_keys_declare, not_or] at h ⊢
      exact ⟨⟨hname, h.1⟩, ih h.2⟩

/-- The properties of one shape are declared one after the other. -/
lemma declares_foldl (properties : List (String × Node)) (declared : List (String × List Node)) :
    let all := properties.foldl (fun ps (name, schema) => declare name schema ps) declared
    (∀ {name s}, Declares all name s → (name, s) ∈ properties ∨ Declares declared name s) ∧
      (∀ {name s}, Declares declared name s → Declares all name s) ∧
      (∀ {name schema}, (name, schema) ∈ properties →
        ∃ s, Declares all name s ∧ (s = schema ∨ schema.same s)) ∧
      ∀ {name}, name ∈ all.map (·.1) ↔
        name ∈ properties.map (·.1) ∨ name ∈ declared.map (·.1) := by
  induction properties generalizing declared with
  | nil =>
    refine ⟨.inr, id, fun h => ?_, by simp⟩
    cases h
  | cons p rest ih =>
    obtain ⟨hof, hkeep, hall, hkeys⟩ := ih (declare p.1 p.2 declared)
    refine ⟨fun h => ?_, fun h => hkeep h.declare, fun h => ?_, ?_⟩
    · rcases hof h with h | h
      · exact .inl (mem_cons_of_mem _ h)
      · rcases h.of_declare with h | h
        · exact .inl (h ▸ mem_cons_self)
        · exact .inr h
    · rcases mem_cons.1 h with rfl | h
      · obtain ⟨s, hs, hsame⟩ := exists_declares _ _ declared
        exact ⟨s, hkeep hs, hsame.imp_right (·.1)⟩
      · exact hall h
    · intro name
      rw [foldl_cons, hkeys, mem_keys_declare, map_cons, mem_cons]
      tauto

/-- Adding a shape adds what it says. -/
lemma MergedFrom.addTo {m' : Merged} (hm : MergedFrom shapes m) {shape : Shape}
    (h : addTo m shape = .ok m') : MergedFrom (shapes ++ [shape]) m' := by
  obtain ⟨least, hleast, h⟩ := Except.bind_eq_ok_iff.1 h
  obtain ⟨most, hmost, h⟩ := Except.bind_eq_ok_iff.1 h
  cases h
  obtain ⟨hof, hkeep, hall, hkeys⟩ := declares_foldl shape.properties m.declared
  have hmem {P : Shape → Prop} :
      (∃ s ∈ shapes ++ [shape], P s) ↔ (∃ s ∈ shapes, P s) ∨ P shape := by
    simp [or_and_right, exists_or]
  exact {
    of_declares := fun hd => by
      rw [hmem]
      exact (hof hd).symm.imp_left hm.of_declares
    declares := fun hs hp => by
      rcases mem_append.1 hs with hs | hs
      · obtain ⟨s, hd, hsame⟩ := hm.declares hs hp
        exact ⟨s, hkeep hd, hsame⟩
      · cases mem_singleton.1 hs
        exact hall hp
    keys := by
      intro name
      rw [hmem, hkeys, hm.keys, or_comm]
    nodup := List.foldlRecOn
      (motive := fun (declared : List (String × List Node)) => (declared.map (·.1)).Nodup) _ _
      hm.nodup fun _ h p _ => nodup_keys_declare h p.1 p.2
    required := by
      intro name
      rw [hmem, mem_append, hm.required]
    forbidden := by
      rw [hmem, ← hm.forbidden]
      cases shape.additional <;> simp
    of_mem_extras := fun hs => by
      rw [hmem]
      dsimp only at hs
      split at hs
      next schema hadditional =>
        rcases mem_addSchema hs with rfl | hs
        · exact .inr hadditional
        · exact .inl (hm.of_mem_extras hs)
      · exact .inl (hm.of_mem_extras hs)
    extras := fun hs htyped => by
      rcases mem_append.1 hs with hs | hs
      · obtain ⟨s, hs, hsame⟩ := hm.extras hs htyped
        refine ⟨s, ?_, hsame⟩
        dsimp only
        split
        · exact mem_addSchema_of_mem hs
        · exact hs
      · cases mem_singleton.1 hs
        simp only [htyped]
        obtain ⟨s, hs, hsame⟩ := exists_mem_addSchema _ m.extras
        exact ⟨s, hs, hsame.imp_right (·.1)⟩
    count := by
      intro n
      simp only [mem_append, mem_singleton, or_imp, forall_and, forall_eq, ← hm.count]
      simp only [Extent.Holds, Validator.countOf, atLeast_sharper hleast, atMost_sharper hmost]
      tauto
    of_mem_bounds := fun hb => by
      rw [hmem]
      rcases mem_append.1 hb with hb | hb
      · refine (mem_of_sharper hleast (mem_toList.1 hb)).imp (fun hb => ?_) fun hb => ?_
        · exact hm.of_mem_bounds (mem_append_left _ (mem_toList.2 hb))
        · exact mem_append_left _ (mem_toList.2 hb)
      · refine (mem_of_sharper hmost (mem_toList.1 hb)).imp (fun hb => ?_) fun hb => ?_
        · exact hm.of_mem_bounds (mem_append_right _ (mem_toList.2 hb))
        · exact mem_append_right _ (mem_toList.2 hb) }

/-- Merging says what all shapes say. -/
lemma mergedFrom_of_merge (h : merge shapes = .ok m) : MergedFrom shapes m := by
  have hrun (rest done : List Shape) (m₀ : Merged) (hm₀ : MergedFrom done m₀)
      (h : rest.foldlM Shape.addTo m₀ = .ok m) : MergedFrom (done ++ rest) m := by
    induction rest generalizing done m₀ with
    | nil =>
      cases h
      rw [append_nil]
      exact hm₀
    | cons shape rest ih =>
      rw [foldlM_cons] at h
      obtain ⟨m₁, hm₁, h⟩ := Except.bind_eq_ok_iff.1 h
      rw [append_cons]
      exact ih _ m₁ (hm₀.addTo hm₁) h
  exact hrun shapes [] {} mergedFrom_nil h

end Shape

end ApiSchema
