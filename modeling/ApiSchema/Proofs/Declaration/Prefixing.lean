import ApiSchema.Generate
import ApiSchema.Proofs.Declaration.Document
import ApiSchema.Proofs.Declaration.Renaming

/-!
# What a name prefix changes

Two builds of one document, one with a prefix and one without, go through the same steps: where the
one hands out a name, the other hands out the same name with the prefix in front. Main statement: the
prefix renames the declarations of a document and does nothing else.
-/

namespace ApiSchema

open List

/-- Put a text in front of names. -/
def Name.startingWith (start : String) : String ↪ String where
  toFun name := start ++ name
  inj' _ _ h := (String.append_right_inj start).1 h

/-- Names that a build can hand out, after any prefix. -/
def Name.IsSchemaName (name : String) : Prop :=
  ∃ stem, Registry.IsMadeFrom (stem ++ Declarations.schemaSuffix) name

/-- Names that no build hands out, after any prefix. -/
def Name.IsApart (reserved : List String) : Prop :=
  ∀ name ∈ reserved, ¬ IsSchemaName name

namespace Declarations

open Name

variable {config : Config}

/-! ### Two drafts in step -/

/-- Drafts without and with a prefix. The reserved names are the same in both. -/
structure Draft.Renames (start : String) (reserved : List String) (z z' : Draft) : Prop where
  plain : z.registry.start = ""
  prefixed : z'.registry.start = start
  used : ∃ names, z.registry.used = reserved ++ names ∧
    z'.registry.used = reserved ++ names.map (startingWith start)
  count : ∀ name, z'.registry.count (start ++ name) = z.registry.count name
  bound : z'.registry.bound = z.registry.bound.map (Prod.map id (startingWith start))
  declared : z'.declared = z.declared.rename (startingWith start)

section

variable (start : String) (reserved : List String) {α β γ δ : Type}

variable {k : α → Build γ} {k' : β → Build δ} {name : String} {lifted lifted' : Build Validator}
  {v : Validator}

/-- From two drafts in step, a step without the prefix and one with it end alike: with results that
differ by `f` and drafts in step again, or with the same fault about names. -/
def ShadowsAt (z z' : Draft) (f : α → β) (x : Build α) (y : Build β) : Prop :=
  match x.run z with
  | .ok (a, w) => ∃ w', y.run z' = .ok (f a, w') ∧ w.Renames start reserved w'
  | .error fault => y.run z' = .error (fault.rename (startingWith start))

/-- Steps that end alike from all drafts in step. -/
def Shadows (f : α → β) (x : Build α) (y : Build β) : Prop :=
  ∀ z z', z.Renames start reserved z' → ShadowsAt start reserved z z' f x y

variable {start reserved} {z z' : Draft} {f : α → β} {g : γ → δ} {x : Build α} {y : Build β}

lemma shadows_pure {a : α} {b : β} (h : b = f a) : Shadows start reserved f (pure a) (pure b) :=
  fun _ z' hz => ⟨z', by rw [h]; rfl, hz⟩

lemma ShadowsAt.bind (hx : ShadowsAt start reserved z z' f x y)
    (hk : ∀ a, Shadows start reserved g (k a) (k' (f a))) :
    ShadowsAt start reserved z z' g (x >>= k) (y >>= k') := by
  unfold ShadowsAt at hx ⊢
  rw [StateT.run_bind, StateT.run_bind]
  generalize x.run z = r at hx ⊢
  cases r with
  | error fault =>
    rw [hx]
    rfl
  | ok r =>
    obtain ⟨w', hw', hw⟩ := hx
    rw [hw']
    exact hk r.1 r.2 w' hw

lemma Shadows.bind (hx : Shadows start reserved f x y)
    (hk : ∀ a, Shadows start reserved g (k a) (k' (f a))) :
    Shadows start reserved g (x >>= k) (y >>= k') :=
  fun z z' hz => (hx z z' hz).bind hk

lemma Shadows.map {h : α → γ} {h' : β → δ} (hx : Shadows start reserved f x y)
    (hmap : ∀ a, h' (f a) = g (h a)) : Shadows start reserved g (h <$> x) (h' <$> y) := by
  rw [map_eq_pure_bind, map_eq_pure_bind]
  exact hx.bind fun a => shadows_pure (hmap a)

/-- A step that looks at the draft. -/
lemma shadows_get {k : Draft → Build α} {k' : Draft → Build β}
    (h : ∀ z z', z.Renames start reserved z' → ShadowsAt start reserved z z' f (k z) (k' z')) :
    Shadows start reserved f (get >>= k) (get >>= k') :=
  h

lemma shadows_forM {as : List α} {k k' : α → Build Unit}
    (h : ∀ a ∈ as, Shadows start reserved id (k a) (k' a)) :
    Shadows start reserved id (as.forM k) (as.forM k') := by
  induction as with
  | nil => exact shadows_pure rfl
  | cons a as ih =>
    exact (h a mem_cons_self).bind fun _ => ih fun a' ha' => h a' (mem_cons_of_mem _ ha')

/-! ### Names -/

lemma numbered_append (start name : String) (k : Nat) :
    Registry.numbered (start ++ name) k = start ++ Registry.numbered name k := by
  simp only [Registry.numbered, String.append_assoc]

lemma isSchemaName_append (h : IsSchemaName name) (start : String) :
    IsSchemaName (start ++ name) := by
  obtain ⟨stem, hname⟩ := h
  refine ⟨start ++ stem, ?_⟩
  cases hname with
  | plain =>
    rw [← String.append_assoc]
    exact .plain
  | numbered k =>
    rw [← numbered_append, ← String.append_assoc]
    exact .numbered k

variable (hreserved : IsApart reserved)

include hreserved

/-- Whether a name that a build can hand out is in use does not depend on the prefix. -/
lemma contains_used (h : z.Renames start reserved z') (hname : IsSchemaName name) :
    z'.registry.used.contains (start ++ name) = z.registry.used.contains name := by
  obtain ⟨names, hused, hused'⟩ := h.used
  have hnot {other : String} (hother : IsSchemaName other) : reserved.contains other = false := by
    rw [← Bool.not_eq_true, contains_iff_mem]
    exact fun hmem => hreserved other hmem hother
  rw [hused, hused', contains_append, contains_append, hnot hname,
    hnot (isSchemaName_append hname start), Bool.false_or, Bool.false_or]
  exact contains_map (startingWith start) names name

/-- The same number is found for a name with the prefix and without. -/
lemma freeNumber_eq (h : z.Renames start reserved z') (stem : String) (last : Nat) :
    Registry.freeNumber z'.registry.used (start ++ (stem ++ schemaSuffix)) last =
      Registry.freeNumber z.registry.used (stem ++ schemaSuffix) last := by
  have hlength : z'.registry.used.length = z.registry.used.length := by
    obtain ⟨names, hused, hused'⟩ := h.used
    simp [hused, hused']
  have htaken (k : Nat) := contains_used hreserved h ⟨stem, .numbered k⟩
  simp only [Registry.freeNumber, hlength, numbered_append start (stem ++ schemaSuffix), htaken]

lemma assign_eq (h : z.Renames start reserved z') (stem : String) :
    (z'.registry.assign (stem ++ schemaSuffix)).1 =
      start ++ (z.registry.assign (stem ++ schemaSuffix)).1 := by
  have hplain : "" ++ (stem ++ schemaSuffix) = stem ++ schemaSuffix := String.empty_append
  simp only [Registry.assign, h.plain, h.prefixed, hplain, h.count, freeNumber_eq hreserved h,
    numbered_append start (stem ++ schemaSuffix), contains_used hreserved h ⟨stem, .plain⟩]
  split <;> rfl

lemma count_assign_eq (h : z.Renames start reserved z') (stem name : String) :
    (z'.registry.assign (stem ++ schemaSuffix)).2.count (start ++ name) =
      (z.registry.assign (stem ++ schemaSuffix)).2.count name := by
  have hused : start ++ (stem ++ schemaSuffix) ∈ z'.registry.used ↔
      stem ++ schemaSuffix ∈ z.registry.used := by
    rw [← contains_iff_mem, ← contains_iff_mem, contains_used hreserved h ⟨stem, .plain⟩]
  simp only [Registry.count_assign, h.plain, h.prefixed, String.empty_append,
    String.append_right_inj, hused, freeNumber_eq hreserved h, h.count]

lemma shadows_assign (stem : String) :
    Shadows start reserved (startingWith start) (assign (stem ++ schemaSuffix))
      (assign (stem ++ schemaSuffix)) := by
  intro z z' hz
  have hname := assign_eq hreserved hz stem
  refine ⟨{ z' with registry := (z'.registry.assign (stem ++ schemaSuffix)).2 }, ?_, ?_⟩
  · show Except.ok ((z'.registry.assign (stem ++ schemaSuffix)).1, _) = _
    rw [hname]
    rfl
  · obtain ⟨names, hused, hused'⟩ := hz.used
    refine ⟨hz.plain, hz.prefixed, ⟨names ++ [(z.registry.assign (stem ++ schemaSuffix)).1], ?_, ?_⟩,
      count_assign_eq hreserved hz stem, hz.bound, hz.declared⟩
    · show z.registry.used ++ [(z.registry.assign (stem ++ schemaSuffix)).1] = _
      rw [hused, append_assoc]
    · show z'.registry.used ++ [(z'.registry.assign (stem ++ schemaSuffix)).1] = _
      rw [hused', hname, map_append, append_assoc]
      rfl

omit hreserved

lemma Draft.Renames.lookup (h : z.Renames start reserved z') (print : String) :
    z'.registry.lookup print = (z.registry.lookup print).map (startingWith start) := by
  rw [Registry.lookup, Registry.lookup, h.bound]
  exact lookup_map _ _ print

lemma Draft.Renames.fingerprintOf (h : z.Renames start reserved z') (name : String) :
    z'.registry.fingerprintOf (start ++ name) = z.registry.fingerprintOf name := by
  have hsame : (fun b : String × String => b.2 == start ++ name) ∘
      Prod.map id (startingWith start) = fun b => b.2 == name := by
    funext b
    exact beq_map (startingWith start) b.2 name
  rw [Registry.fingerprintOf, Registry.fingerprintOf, h.bound, List.find?_map, hsame, Option.map_map]
  rfl

/-- A step that puts the result of a check into the draft. -/
lemma run_update (check : Draft → Except Fault γ) (put : Draft → γ → Draft) (z : Draft) :
    (do
      let draft ← get
      let c ← check draft
      set (put draft c) : Build Unit).run z = (check z).map fun c => ((), put z c) := by
  rw [StateT.run_bind, StateT.run_get, pure_bind, StateT.run_bind]
  cases check z <;> rfl

lemma shadows_bind (print name : String) :
    Shadows start reserved id (bind print name) (bind print (start ++ name)) := by
  intro z z' hz
  unfold ShadowsAt bind
  rw [run_update, run_update, Registry.bind, Registry.bind, hz.lookup, hz.fingerprintOf]
  cases z.registry.lookup print with
  | some existing =>
    have hstart : startingWith start existing ≠ start ++ name ↔ existing ≠ name :=
      not_congr (String.append_right_inj start)
    simp only [Option.map_some, hstart]
    by_cases hname : existing ≠ name
    · simp only [if_pos hname]
      rfl
    · simp only [if_neg hname]
      cases z.registry.fingerprintOf name with
      | none => exact ⟨z', rfl, hz⟩
      | some other =>
        by_cases hother : other ≠ print
        · simp only [if_pos hother]
          rfl
        · simp only [if_neg hother]
          exact ⟨z', rfl, hz⟩
  | none =>
    cases z.registry.fingerprintOf name with
    | some other => rfl
    | none =>
      refine ⟨_, rfl, hz.plain, hz.prefixed, hz.used, hz.count, ?_, hz.declared⟩
      show z'.registry.bound ++ _ = (z.registry.bound ++ _).map _
      rw [hz.bound, map_append]
      rfl

lemma shadows_declare (name : String) (v : Validator) (pointer : String) :
    Shadows start reserved id (declare name v pointer)
      (declare (start ++ name) (v.rename (startingWith start)) pointer) := by
  intro z z' hz
  have hentry : Declaration.of (start ++ name) (v.rename (startingWith start)) pointer =
      (Declaration.of name v pointer).rename (startingWith start) :=
    (Declaration.rename_of (startingWith start) name v pointer).symm
  unfold ShadowsAt declare
  rw [run_update, run_update, hz.declared, hentry, add_rename]
  cases z.declared.add (.of name v pointer) with
  | error fault => rfl
  | ok declared => exact ⟨_, rfl, hz.plain, hz.prefixed, hz.used, hz.count, hz.bound, rfl⟩

/-! ### Sharing and lifting -/

/-- A plan for the names with the prefix. -/
def Plan.renamed (start : String) (plan : Plan) : Plan :=
  { plan with names := plan.names.map (Prod.map id (startingWith start)) }

variable {plan : Plan}

lemma Plan.fingerprint_renamed : (plan.renamed start).fingerprint = plan.fingerprint :=
  rfl

lemma shadows_targetName (target : String) :
    Shadows start reserved (startingWith start) (targetName plan target)
      (targetName (plan.renamed start) target) := by
  have hlookup : (plan.renamed start).names.lookup target =
      (plan.names.lookup target).map (startingWith start) := lookup_map _ _ target
  unfold targetName
  rw [hlookup]
  cases plan.names.lookup target with
  | none => exact fun _ _ _ => rfl
  | some name => exact shadows_pure rfl

include hreserved

lemma shadows_share (v : Validator) (stem pointer : String)
    (hlifted : Shadows start reserved (Validator.rename (startingWith start)) lifted lifted') :
    Shadows start reserved (startingWith start) (share plan v stem pointer lifted)
      (share (plan.renamed start) v stem pointer lifted') := by
  refine shadows_get fun z z' hz => ?_
  have hlookup := hz.lookup (plan.fingerprint v)
  simp only [Plan.fingerprint_renamed, hlookup]
  cases z.registry.lookup (plan.fingerprint v) with
  | some name => exact shadows_pure rfl z z' hz
  | none =>
    refine Shadows.bind (shadows_assign hreserved stem) (fun name => ?_) z z' hz
    refine (shadows_bind _ name).bind fun _ => hlifted.bind fun w => ?_
    exact (shadows_declare name w pointer).bind fun _ => shadows_pure rfl

lemma shadows_promote (root : Bool) (v : Validator) (stem : String)
    (hlifted : Shadows start reserved (Validator.rename (startingWith start)) lifted lifted') :
    Shadows start reserved (Validator.rename (startingWith start)) (promote plan root v stem lifted)
      (promote (plan.renamed start) root v stem lifted') := by
  unfold promote
  show Shadows _ _ _ (if !root && isShared plan v then _ else _)
    (if !root && isShared plan v then _ else _)
  split
  · exact (shadows_share hreserved v stem "" hlifted).bind fun name => shadows_pure rfl
  · exact hlifted

omit hreserved

mutual

lemma shadows_lift (hreserved : IsApart reserved) (v : Validator)
    (hv : ∀ name, ¬ v.Part (.named name)) (root : Bool) (stem : String) :
    Shadows start reserved (Validator.rename (startingWith start)) (lift plan root stem v)
      (lift (plan.renamed start) root stem v) := by
  have hchild {c : Validator} (hc : c ∈ v.children) (name : String) : ¬ c.Part (.named name) :=
    fun hpart => hv name (hpart.of_child hc)
  match v with
  | .any | .null | .boolean | .string _ _ _ | .custom _ | .number _ _ => exact shadows_pure rfl
  | .literal values => exact shadows_promote hreserved root _ stem (shadows_pure rfl)
  | .array items length unique =>
    refine shadows_promote hreserved root _ stem ?_
    have hitems := shadows_lift hreserved items (hchild (by simp [Validator.children])) false
      (stem ++ "Item")
    exact hitems.bind fun w => shadows_pure rfl
  | .record values count =>
    refine shadows_promote hreserved root _ stem ?_
    have hvalues := shadows_lift hreserved values (hchild (by simp [Validator.children])) false
      (stem ++ "Value")
    exact hvalues.bind fun w => shadows_pure rfl
  | .object fields forbidExtra extra count =>
    refine shadows_promote hreserved root _ stem ?_
    have hfields := shadows_liftFields hreserved fields
      (fun f hf => hchild (mem_append_left _ (mem_map_of_mem hf))) stem
    have hextra := shadows_liftExtra hreserved extra
      (fun w hw => hchild (mem_append_right _ (Option.mem_toList.2 hw))) stem
    exact hfields.bind fun fields' => hextra.bind fun extra' => shadows_pure rfl
  | .union branches =>
    refine shadows_promote hreserved root _ stem ?_
    have hbranches := shadows_liftBranches hreserved branches (fun b hb => hchild hb)
      (stem ++ "Option") 1
    exact hbranches.bind fun bs => shadows_pure rfl
  | .intersection branches =>
    refine shadows_promote hreserved root _ stem ?_
    have hbranches := shadows_liftBranches hreserved branches (fun b hb => hchild hb)
      (stem ++ "Part") 1
    exact hbranches.bind fun bs => shadows_pure rfl
  | .nullable inner =>
    have hinner := shadows_lift hreserved inner (hchild (by simp [Validator.children])) false
      (if root then stem ++ "Value" else stem)
    exact hinner.bind fun w => shadows_pure rfl
  | .ref target => exact (shadows_targetName target).map fun name => rfl
  | .named name => exact absurd .refl (hv name)

lemma shadows_liftFields (hreserved : IsApart reserved) (fields : List (FieldOf Validator))
    (hfields : ∀ f ∈ fields, ∀ name, ¬ f.validator.Part (.named name)) (stem : String) :
    Shadows start reserved (Validator.renameFields (startingWith start))
      (liftFields plan stem fields) (liftFields (plan.renamed start) stem fields) := by
  match fields with
  | [] => exact shadows_pure rfl
  | ⟨key, v, required⟩ :: rest =>
    have hv := shadows_lift hreserved v (hfields _ mem_cons_self) false (stem ++ fieldPart key)
    have hrest := shadows_liftFields hreserved rest
      (fun f hf => hfields f (mem_cons_of_mem _ hf)) stem
    exact hv.bind fun w => hrest.bind fun fields' => shadows_pure rfl

lemma shadows_liftExtra (hreserved : IsApart reserved) (extra : Option Validator)
    (hextra : ∀ v ∈ extra, ∀ name, ¬ v.Part (.named name)) (stem : String) :
    Shadows start reserved (Validator.renameExtra (startingWith start))
      (liftExtra plan stem extra) (liftExtra (plan.renamed start) stem extra) := by
  match extra with
  | none => exact shadows_pure rfl
  | some v =>
    have hv := shadows_lift hreserved v (hextra v rfl) false (stem ++ "Extra")
    exact hv.bind fun w => shadows_pure rfl

lemma shadows_liftBranches (hreserved : IsApart reserved) (branches : List Validator)
    (hbranches : ∀ b ∈ branches, ∀ name, ¬ b.Part (.named name)) (stem : String) (i : Nat) :
    Shadows start reserved (Validator.renameAll (startingWith start))
      (liftBranches plan stem i branches) (liftBranches (plan.renamed start) stem i branches) := by
  match branches with
  | [] => exact shadows_pure rfl
  | v :: rest =>
    have hv := shadows_lift hreserved v (hbranches v mem_cons_self) false (stem ++ toString i)
    have hrest := shadows_liftBranches hreserved rest
      (fun b hb => hbranches b (mem_cons_of_mem _ hb)) stem (i + 1)
    exact hv.bind fun w => hrest.bind fun bs => shadows_pure rfl

end

include hreserved

/-! ### Definitions and routes -/

lemma shadows_define (name stem pointer : String) (hv : ∀ name, ¬ v.Part (.named name)) :
    Shadows start reserved id (define plan name stem pointer v)
      (define (plan.renamed start) (start ++ name) stem pointer v) := by
  unfold define
  split
  · exact (shadows_targetName _).bind fun other => shadows_declare name (.named other) pointer
  next =>
    refine shadows_get fun z z' hz => ?_
    have hlookup := hz.lookup (plan.fingerprint v)
    simp only [Plan.fingerprint_renamed, hlookup]
    cases z.registry.lookup (plan.fingerprint v) with
    | some existing => exact shadows_declare name (.named existing) pointer z z' hz
    | none =>
      refine Shadows.bind (shadows_bind _ name) (fun _ => ?_) z z' hz
      exact (shadows_lift hreserved v hv true stem).bind fun w => shadows_declare name w pointer

lemma shadows_routeName (hv : ∀ name, ¬ v.Part (.named name)) (stem pointer : String) :
    Shadows start reserved (startingWith start) (routeName plan v stem pointer)
      (routeName (plan.renamed start) v stem pointer) := by
  unfold routeName
  split
  · exact shadows_targetName _
  next => exact shadows_share hreserved v stem pointer (shadows_lift hreserved v hv true stem)

lemma shadows_routeNames (route : Route Validator) (suffix : String → String)
    {ps : List (String × Validator)} (hps : ∀ p ∈ ps, ∀ name, ¬ p.2.Part (.named name)) :
    Shadows start reserved (List.map (Prod.map id (startingWith start)))
      (routeNames plan route suffix ps) (routeNames (plan.renamed start) route suffix ps) := by
  induction ps with
  | nil => exact shadows_pure rfl
  | cons p rest ih =>
    have hrest := ih fun q hq => hps q (mem_cons_of_mem _ hq)
    refine (shadows_routeName hreserved (hps p mem_cons_self) _ _).bind fun name => ?_
    exact hrest.bind fun names => shadows_pure rfl

lemma shadows_addRoute {route : Route Validator}
    (hroute : ∀ p ∈ route.request ++ route.responses, ∀ name, ¬ p.2.Part (.named name)) :
    Shadows start reserved id (addRoute plan route) (addRoute (plan.renamed start) route) := by
  unfold addRoute
  refine (shadows_routeNames hreserved route _ fun p hp => hroute p (mem_append_left _ hp)).bind
    fun request => ?_
  refine (shadows_routeNames hreserved route _ fun p hp => hroute p (mem_append_right _ hp)).bind
    fun responses => ?_
  intro z z' hz
  refine ⟨_, rfl, hz.plain, hz.prefixed, hz.used, hz.count, hz.bound, ?_⟩
  show ({ z'.declared with routes := _ } : Declarations) = rename _ { z.declared with routes := _ }
  rw [hz.declared]
  simp [rename, Route.rename]

lemma shadows_assignAll (doc : Resolved) (definitions : List (String × Validator)) :
    Shadows start reserved (List.map (Prod.map id (startingWith start))) (assignAll doc definitions)
      (assignAll doc definitions) := by
  induction definitions with
  | nil => exact shadows_pure rfl
  | cons d rest ih =>
    exact (shadows_assign hreserved (stemOf doc d.1)).bind fun name =>
      ih.bind fun names => shadows_pure rfl

lemma shadows_build (doc : Resolved) {t : Validators} (fingerprint : Validator → String)
    (ht : ∀ v ∈ t.roots, ∀ name, ¬ v.Part (.named name)) :
    Shadows start reserved id (build doc t fingerprint) (build doc t fingerprint) := by
  unfold build
  refine (shadows_assignAll hreserved doc t.definitions).bind fun names => ?_
  have hplan : (⟨fingerprint, t.repeated fingerprint,
      names.map (Prod.map id (startingWith start))⟩ : Plan) =
        Plan.renamed start ⟨fingerprint, t.repeated fingerprint, names⟩ := rfl
  rw [hplan]
  refine Shadows.bind (shadows_forM fun d hd => ?_) fun _ => shadows_forM fun route hroute => ?_
  · refine (shadows_targetName d.1).bind fun name => ?_
    exact shadows_define hreserved name _ _ (ht d.2 (mem_roots_of_mem_definitions hd))
  · exact shadows_addRoute hreserved fun p hp => 
      ht p.2 (mem_roots_of_mem_routes hroute (mem_append.1 hp))

end

/-! ### Whole runs -/

/-- The declarations of a document whose validators are made, and their components in order. -/
def ofTranslated (doc : Resolved) (t : Validators) (config : Config) :
    Except Fault (Declarations × List (List Declaration)) := do
  let d ← ofValidators doc t Validator.fingerprint config.registry
  let components ← (Generate.ordered d).outcome
  return (d, components)

/-- The declarations of a resolved document, and their components in order. -/
def ofResolved (doc : Resolved) (config : Config) :
    Except Fault (Declarations × List (List Declaration)) := do
  let t ← (Generate.validators doc config config.includeRoutes).outcome
  ofTranslated doc t config

/-- Rename declarations and their components. -/
def renameBoth (τ : String ↪ String) (r : Declarations × List (List Declaration)) :
    Declarations × List (List Declaration) :=
  (r.1.rename τ, r.2.map (List.map (Declaration.rename τ)))

lemma isInfix_of_isSchemaName {name : String} (h : IsSchemaName name) :
    schemaSuffix.toList <:+: name.toList := by
  obtain ⟨stem, hname⟩ := h
  cases hname with
  | plain => exact ⟨stem.toList, [], by simp⟩
  | numbered k =>
    exact ⟨stem.toList, '_' :: (toString k).toList, by simp [Registry.numbered]⟩

lemma isApart_reservedNames (hformats : ∀ name ∈ config.formats.validators, ¬ IsSchemaName name) :
    IsApart (Text.distinct config.reservedNames) := by
  have hfixed : ∀ name ∈ Module.Symbol.names ++ ["Request", "Response"],
      ¬ schemaSuffix.toList <:+: name.toList := by decide +kernel
  intro name hname
  obtain hname | hname := mem_append.1 (Text.mem_distinct.1 hname)
  · exact fun hschema => hfixed name hname (isInfix_of_isSchemaName hschema)
  · exact hformats name hname

/-- With a prefix, declaring and ordering give what they give without it, under the new names. -/
lemma ofTranslated_startingWith {doc : Resolved} {t : Validators}
    (ht : ∀ v ∈ t.roots, ∀ name, ¬ v.Part (.named name))
    (hformats : ∀ name ∈ config.formats.validators, ¬ IsSchemaName name) (start : String) :
    ofTranslated doc t { config with namePrefix := start } =
      ((ofTranslated doc t { config with namePrefix := "" }).map
        (renameBoth (startingWith start))).mapError (Fault.rename (startingWith start)) := by
  have hreserved := isApart_reservedNames hformats
  have hstart : Draft.Renames start (Text.distinct config.reservedNames)
      { registry := Config.registry { config with namePrefix := "" } }
      { registry := Config.registry { config with namePrefix := start } } :=
    ⟨rfl, rfl, ⟨[], (append_nil _).symm, (append_nil _).symm⟩, fun _ => rfl, rfl, rfl⟩
  have hbuild := shadows_build hreserved doc Validator.fingerprint ht _ _ hstart
  unfold ShadowsAt at hbuild
  unfold ofTranslated ofValidators
  generalize (build doc t Validator.fingerprint).run
    { registry := Config.registry { config with namePrefix := "" } } = r at hbuild ⊢
  cases r with
  | error fault =>
    rw [hbuild]
    rfl
  | ok r =>
    obtain ⟨w', hw', hrenames⟩ := hbuild
    rw [hw']
    show ((order w'.declared).outcome >>= fun components => pure (w'.declared, components)) =
      (((order r.2.declared).outcome >>= fun components => pure (r.2.declared, components)).map
        _).mapError _
    rw [hrenames.declared, order_rename]
    cases (order r.2.declared).outcome <;> rfl

/-- A name prefix renames the declarations of a document and their components, and does nothing
else. -/
theorem ofResolved_startingWith (doc : Resolved) (config : Config)
    (hformats : ∀ name ∈ config.formats.validators, ¬ IsSchemaName name) (start : String) :
    (ofResolved doc { config with namePrefix := start }).toOption =
      (ofResolved doc { config with namePrefix := "" }).toOption.map
        (renameBoth (startingWith start)) := by
  have hvalidators (name : String) : Generate.validators doc { config with namePrefix := name }
      config.includeRoutes = Generate.validators doc config config.includeRoutes := rfl
  unfold ofResolved
  dsimp only
  rw [hvalidators start, hvalidators ""]
  cases htranslated : (Generate.validators doc config config.includeRoutes).outcome with
  | error fault => rfl
  | ok t =>
    have ht (v : Validator) (hv : v ∈ t.roots) := Validator.not_part_named_of_mem_roots htranslated hv
    show (ofTranslated doc t _).toOption = (ofTranslated doc t _).toOption.map _
    rw [ofTranslated_startingWith ht hformats]
    cases ofTranslated doc t { config with namePrefix := "" } <;> rfl

/-- Two definitions of one name, the second a reference to the first, which refers to itself. -/
def loopDocument : Resolved where
  definitions := [
    ("#/components/schemas/Loop", .object ⟨"#/components/schemas/Loop", false⟩
      [("next", .reference ⟨"#/components/schemas/Loop/properties/next", false⟩
          "#/components/schemas/Loop"),
        ("mail", .string ⟨"#/components/schemas/Loop/properties/mail", false⟩
          { format := some (.str "email") })] [] .allowed {}),
    ("#/parts/Loop", .reference ⟨"#/parts/Loop", false⟩ "#/components/schemas/Loop")]
  names := [("#/components/schemas/Loop", "Loop"), ("#/parts/Loop", "Loop")]
  routes := [⟨"/loops", "GET", "#/paths/~1loops/get", [],
    [("200", .reference ⟨"", false⟩ "#/parts/Loop")]⟩]
  cyclic := ["#/components/schemas/Loop"]

def loopConfig : Config where
  formats := ⟨[("email", "Mail")]⟩

theorem loop_ofResolved_startingWith :
    (∀ name ∈ loopConfig.formats.validators, ¬ IsSchemaName name) ∧
      ∃ d components,
        (ofResolved loopDocument { loopConfig with namePrefix := "" }).toOption =
          some (d, components) ∧
        d.names = ["LoopSchema", "LoopSchema_2"] ∧
        (ofResolved loopDocument { loopConfig with namePrefix := "Api" }).toOption =
          some (renameBoth (startingWith "Api") (d, components)) := by
  have hformats : ∀ name ∈ loopConfig.formats.validators, ¬ IsSchemaName name := by
    have hfixed : ∀ name ∈ loopConfig.formats.validators,
        ¬ schemaSuffix.toList <:+: name.toList := by decide +kernel
    exact fun name hname hschema => hfixed name hname (isInfix_of_isSchemaName hschema)
  have hnames : (ofResolved loopDocument { loopConfig with namePrefix := "" }).toOption.map
      (fun r => r.1.names) = some ["LoopSchema", "LoopSchema_2"] := by decide +kernel
  have hstart := ofResolved_startingWith loopDocument loopConfig hformats "Api"
  obtain ⟨⟨d, components⟩, hplain, hd⟩ := Option.map_eq_some_iff.1 hnames
  rw [hplain] at hstart
  exact ⟨hformats, d, components, hplain, hd, hstart⟩

end Declarations

end ApiSchema
