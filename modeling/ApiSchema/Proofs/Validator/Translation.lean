import ApiSchema.Proofs.Validator.OfNode

/-!
# No value is refused wrongly

Main statement: the validator of a schema accepts every value that satisfies the schema, whatever
the schema is made of and however its references lead on.

A conjunction of objects becomes one object, so its branches are read together here: that demands
less of a value than reading them one by one.
-/

namespace ApiSchema

open List Traced

namespace Validator

variable {basis : Basis} {ref named : String → Value → Prop} {inner : Node → Making Validator}
  {meets : Node → Value → Prop}

variable (basis ref named inner meets) in
/-- The validator of a node accepts what meets the node. -/
def Admits (node : Node) : Prop :=
  ∀ {w v}, (inner node).outcome = .ok w → meets node v → Accepts basis ref named w v

/-! ### One layer -/

lemma accepts_of_conjunction {nodes : List Node} {w : Validator}
    (h : (conjunction inner nodes).outcome = .ok w) {v : Value}
    (hv : ∀ s ∈ nodes, ∀ w', (inner s).outcome = .ok w' → Accepts basis ref named w' v) :
    Accepts basis ref named w v := by
  obtain ⟨all, hall, -, haccepts⟩ := exists_gathers_of_conjunction h
  rw [haccepts]
  intro w' hw'
  rcases hall.of_mem w' hw' with hw' | ⟨s, hs, hw'⟩
  · cases hw'
  · exact hv s hs w' hw'

lemma accepts_of_ofObject {properties : List (String × Node)} {required : List String}
    {additional : Additional Node} {rules : CountRules} {w : Validator}
    (h : (ofObject inner properties required additional rules).outcome = .ok w)
    (hproperties : ∀ p ∈ properties, Admits basis ref named inner meets p.2)
    (hadditional : ∀ schema, additional = .typed schema → Admits basis ref named inner meets schema)
    {es : List (Scalar × Value)}
    (hv : Shape.Holds meets [] ⟨properties, required, additional, rules⟩ es) :
    Accepts basis ref named w (.map es) := by
  obtain ⟨fields, forbidExtra, extra, hfields, hforbid, hextra, hobject⟩ :=
    exists_isObject_of_ofObject h
  have hkeys : fields.map (·.key) = properties.map (·.1) := map_eq_map_of_forall₂ hfields (·.1)
  have hbeside := hv.additional
  rw [append_nil] at hbeside
  rw [hobject.accepts_iff, hkeys]
  refine ⟨es, rfl, hv.count, ?_, ?_, ?_⟩
  · intro f hf
    obtain ⟨p, hp, hkey, hw, hrequired⟩ := exists_left_of_forall₂ hfields hf
    rw [hkey, hrequired]
    refine ⟨fun x hx => hproperties p hp hw (hv.properties p hp x hx), fun hreq => ?_⟩
    exact hv.required p.1 (by simpa using hreq)
  · intro hforbidden
    rw [hforbid.1 hforbidden] at hbeside
    exact hbeside
  · intro w' hw' e he hlacks
    cases additional with
    | typed schema =>
      obtain ⟨w'', rfl, hw''⟩ := hextra
      cases hw'
      exact hadditional schema rfl hw'' (hbeside e he hlacks)
    | unstated | allowed | forbidden =>
      cases hextra
      cases hw'

lemma accepts_of_ofMerged {shapes : List Shape} {m : Shape.Merged} (hm : Shape.MergedFrom shapes m)
    {w : Validator} (h : (ofMerged inner m).outcome = .ok w)
    (hinner : ∀ shape ∈ shapes, (∀ p ∈ shape.properties, Admits basis ref named inner meets p.2) ∧
      ∀ schema, shape.additional = .typed schema → Admits basis ref named inner meets schema)
    {es : List (Scalar × Value)}
    (hv : ∀ shape ∈ shapes, shape.Holds meets
      (shapes.flatMap fun shape => shape.properties.map (·.1)) es) :
    Accepts basis ref named w (.map es) := by
  obtain ⟨fields, extra, hfields, hextra, -, hobject⟩ := exists_isObject_of_ofMerged h
  have hkeys : fields.map (·.key) = m.declared.map (·.1) := map_eq_map_of_forall₂ hfields (·.1)
  -- A key without a field is a key that no shape declares.
  have hlacks {key : Scalar} (hkey : key.Lacks (m.declared.map (·.1))) {shape : Shape}
      (hshape : shape ∈ shapes) : key.Lacks (shape.properties.map (·.1) ++
        shapes.flatMap fun shape => shape.properties.map (·.1)) := by
    refine hkey.mono fun name hname => hm.keys.2 ?_
    rcases mem_append.1 hname with hname | hname
    · exact ⟨shape, hshape, hname⟩
    · exact mem_flatMap.1 hname
  rw [hobject.accepts_iff, hkeys]
  refine ⟨es, rfl, hm.count.2 fun shape hshape => (hv shape hshape).count, ?_, ?_, ?_⟩
  · intro f hf
    obtain ⟨d, hd, hkey, hw, hrequired⟩ := exists_left_of_forall₂ hfields hf
    rw [hkey, hrequired]
    refine ⟨fun x hx => ?_, fun hreq => ?_⟩
    · refine accepts_of_conjunction hw fun s hs w' hw' => ?_
      obtain ⟨shape, hshape, hp⟩ := hm.of_declares ⟨d, hd, rfl, hs⟩
      exact (hinner shape hshape).1 _ hp hw' ((hv shape hshape).properties _ hp x hx)
    · obtain ⟨shape, hshape, hreq⟩ := hm.required.1 (contains_iff_mem.1 hreq)
      exact (hv shape hshape).required _ hreq
  · intro hforbidden e he hkey
    obtain ⟨shape, hshape, hadditional⟩ := hm.forbidden.1 hforbidden
    have hbeside := (hv shape hshape).additional
    rw [hadditional] at hbeside
    exact hbeside e he (hlacks hkey hshape)
  · intro w' hw' e he hkey
    refine accepts_of_conjunction (hextra w' hw') fun s hs w'' hw'' => ?_
    obtain ⟨shape, hshape, hadditional⟩ := hm.of_mem_extras hs
    have hbeside := (hv shape hshape).additional
    rw [hadditional] at hbeside
    exact (hinner shape hshape).2 s hadditional hw'' (hbeside e he (hlacks hkey hshape))

lemma accepts_of_ofAny {branches : List Node} {w : Validator}
    (h : (ofAny inner branches).outcome = .ok w)
    (hinner : ∀ b ∈ branches, Admits basis ref named inner meets b) {v : Value}
    (hv : ∃ b ∈ branches, meets b v) : Accepts basis ref named w v := by
  obtain ⟨ws, hws, h⟩ := outcome_bind_eq_ok_iff.1 h
  obtain ⟨b, hb, hv⟩ := hv
  obtain ⟨w', hw', hbranch⟩ := exists_right_of_forall₂ (forall₂_of_ofBranches hws) hb
  have haccepts := hinner b hb hbranch hv
  split at h
  · cases h
    rw [mem_singleton.1 hw'] at haccepts
    exact haccepts
  · cases h
    simp only [Accepts, acceptsSome_iff]
    exact ⟨w', hw', haccepts⟩

section

variable {ctx : Context} {target : Option (List String) → String → Value → Prop}

lemma accepts_of_ofAll (hdoc : ctx.doc.IsProper) {branches : List Node} (hne : branches ≠ [])
    (hbranches : ∀ b ∈ branches, ctx.doc.Contains b)
    (hinner : ∀ node, ctx.doc.Contains node → Admits basis ref named inner
      (Node.Meets basis ctx.formats ctx.doc.joint target none) node)
    (htarget : ∀ {known t v}, target known t v → ∃ node, ctx.doc.definitions.lookup t = some node ∧
      Node.Meets basis ctx.formats ctx.doc.joint target known node v)
    {w : Validator} (h : (ofAll inner ctx.doc branches).outcome = .ok w) {v : Value}
    (hv : ∀ b ∈ branches, Node.Meets basis ctx.formats ctx.doc.joint target
      (ctx.doc.joint branches) b v) : Accepts basis ref named w v := by
  unfold ofAll at h
  split at h
  next b =>
    exact hinner b (hbranches b mem_cons_self) h (hv b mem_cons_self)
  next hmany =>
    obtain ⟨flat, hflat, h⟩ := outcome_bind_eq_ok_iff.1 h
    cases flat with
    | some shapes =>
      obtain ⟨m, hm, h⟩ := outcome_bind_eq_ok_iff.1 h
      rw [Resolved.joint_of_flatten hmany hflat] at hv
      have hshapes := Shape.flattens_of_flatten hflat
      obtain ⟨es, rfl⟩ := hshapes.exists_map hdoc hne hbranches htarget hv
      refine accepts_of_ofMerged (Shape.mergedFrom_of_merge hm) h (fun shape hshape => ?_)
        (hshapes.holds htarget hv)
      obtain ⟨site, hobject⟩ := hshapes.exists_object ctx.doc.isClosed_contains hbranches hshape
      refine ⟨fun p hp => hinner p.2 (hobject.child ?_), fun schema hschema => ?_⟩
      · exact mem_append_left _ (mem_map_of_mem hp)
      · refine hinner schema (hobject.child ?_)
        simp [Node.children, hschema]
    | none =>
      obtain ⟨ws, hws, h⟩ := outcome_bind_eq_ok_iff.1 h
      cases h
      rw [Resolved.joint_of_flatten_none hflat] at hv
      simp only [Accepts, acceptsAll_iff]
      intro w hw
      obtain ⟨b, hb, hbranch⟩ := exists_left_of_forall₂ (forall₂_of_ofBranches hws) hw
      exact hinner b (hbranches b hb) hbranch (hv b hb)

lemma accepts_of_ofBare (hdoc : ctx.doc.IsProper) {node : Node} (hnode : ctx.doc.Contains node)
    (hinner : ∀ node, ctx.doc.Contains node → Admits basis ref named inner
      (Node.Meets basis ctx.formats ctx.doc.joint target none) node)
    (htarget : ∀ {known t v}, target known t v → ∃ node, ctx.doc.definitions.lookup t = some node ∧
      Node.Meets basis ctx.formats ctx.doc.joint target known node v)
    (href : ∀ {t v}, target none t v → ref t v)
    {w : Validator} (h : (ofBare inner ctx node).outcome = .ok w) {v : Value}
    (hv : Node.MeetsBare basis ctx.formats ctx.doc.joint target none node v) :
    Accepts basis ref named w v := by
  cases node with
  | any _ =>
    cases h
    trivial
  | null _ =>
    cases h
    exact hv
  | boolean _ =>
    cases h
    exact hv
  | string _ rules => exact (accepts_ofString_iff h).2 hv
  | number _ integer rules => exact (accepts_ofNumber_iff h).2 hv
  | enum _ values =>
    cases h
    exact hv
  | literal _ values =>
    cases h
    exact hv
  | array _ items rules =>
    obtain ⟨xs, rfl, hlength, hunique, hitems⟩ := hv
    obtain ⟨w', hsome, hnone, rfl⟩ := exists_items_of_ofBare h
    simp only [Accepts]
    refine ⟨xs, rfl, hlength, hunique, fun x hx => ?_⟩
    cases items with
    | none =>
      rw [hnone rfl]
      trivial
    | some item =>
      exact hinner item (hnode.child (by simp [Node.children])) (hsome item rfl)
        (hitems x hx item rfl)
  | object _ properties required additional rules =>
    obtain ⟨es, rfl, hcount, hrequired, hproperties, hadditional⟩ := hv
    refine accepts_of_ofObject h (fun p hp => hinner p.2 (hnode.child ?_))
      (fun schema hschema => hinner schema (hnode.child ?_))
      ⟨hcount, hrequired, hproperties, hadditional⟩
    · exact mem_append_left _ (mem_map_of_mem hp)
    · simp [Node.children, hschema]
  | anyOf _ branches => exact accepts_of_ofAny h (fun b hb => hinner b (hnode.child hb)) hv
  | oneOf _ branches => exact accepts_of_ofAny h (fun b hb => hinner b (hnode.child hb)) hv
  | allOf _ branches =>
    exact accepts_of_ofAll hdoc (hdoc _ hnode) (fun b hb => hnode.child hb) hinner htarget h hv
  | reference site t =>
    simp only [ofBare] at h
    split at h
    · cases h
      exact href hv
    · cases h

/-- The validator of a schema accepts what meets the schema, if every reference does. -/
lemma accepts_of_ofNodeWithin (hdoc : ctx.doc.IsProper)
    (htarget : ∀ {known t v}, target known t v → ∃ node, ctx.doc.definitions.lookup t = some node ∧
      Node.Meets basis ctx.formats ctx.doc.joint target known node v)
    (href : ∀ {t v}, target none t v → ref t v) (n : Nat) (node : Node)
    (hnode : ctx.doc.Contains node) :
    Admits basis ref named (ofNodeWithin ctx n)
      (Node.Meets basis ctx.formats ctx.doc.joint target none) node := by
  induction n generalizing node with
  | zero =>
    intro w v h
    cases h
  | succ n ih =>
    intro w v h hv
    obtain ⟨bare, hbare, h⟩ := outcome_bind_eq_ok_iff.1 h
    cases h
    rw [accepts_orNull_iff]
    exact (Node.meets_iff.1 hv).imp_right (accepts_of_ofBare hdoc hnode ih htarget href hbare)

end

/-! ### Documents -/

lemma forall₂_of_ofPairs {ctx : Context} {pairs : List (String × Node)}
    {ws : List (String × Validator)} (h : (ofPairs ctx pairs).outcome = .ok ws) :
    Forall₂ (fun p q => q.1 = p.1 ∧ (ofNode ctx p.2).outcome = .ok q.2) pairs ws := by
  induction pairs generalizing ws with
  | nil =>
    cases h
    exact .nil
  | cons p rest ih =>
    obtain ⟨w, hw, h⟩ := outcome_bind_eq_ok_iff.1 h
    obtain ⟨ws, hws, h⟩ := outcome_bind_eq_ok_iff.1 h
    cases h
    exact .cons ⟨rfl, hw⟩ (ih hws)

/-- The validator of a target is that of its definition. -/
lemma lookup_ofDocument {ctx : Context} {includeRoutes : Bool} {t : Validators}
    (h : (ofDocument ctx includeRoutes).outcome = .ok t) {target : String} :
    (∀ {node}, ctx.doc.definitions.lookup target = some node →
      ∃ w, t.definitions.lookup target = some w ∧ (ofNode ctx node).outcome = .ok w) ∧
    ∀ {w}, t.definitions.lookup target = some w →
      ∃ node, ctx.doc.definitions.lookup target = some node ∧ (ofNode ctx node).outcome = .ok w := by
  obtain ⟨definitions, hdefinitions, h⟩ := outcome_bind_eq_ok_iff.1 h
  obtain ⟨routes, -, h⟩ := outcome_bind_eq_ok_iff.1 h
  cases h
  exact lookup_of_forall₂ (forall₂_of_ofPairs hdefinitions) target

end Validator

/-- The validator of a schema accepts every value that satisfies the schema: a reference stands for
the validator of its target. -/
theorem Validators.accepts_of_satisfies {lib : Library} {doc : Resolved}
    {formats : Format.Registry} {includeRoutes : Bool} {t : Validators} {node : Node}
    {w : Validator} (hdoc : (Schema.resolve lib).outcome = .ok doc)
    (ht : (Validator.ofDocument ⟨doc, formats⟩ includeRoutes).outcome = .ok t)
    (hnode : doc.Contains node) (hw : (Validator.ofNode ⟨doc, formats⟩ node).outcome = .ok w)
    (basis : Basis) (v : Value) (hv : doc.Satisfies basis formats node v) :
    t.Accepts basis w v := by
  have hproper := Schema.isProper_of_resolve hdoc
  -- What meets the definition of a target, as told through `n` definitions, is accepted by its
  -- validator, as told through `n` references.
  have href (n : Nat) : ∀ {target v}, doc.TargetMeets basis formats doc.joint n none target v →
      t.TargetAccepts basis n target v := by
    induction n with
    | zero => exact fun h => h.elim
    | succ n ih =>
      rintro target v ⟨node, hlookup, hmeets⟩
      obtain ⟨w, hw, hof⟩ := (Validator.lookup_ofDocument ht).1 hlookup
      refine ⟨w, hw, ?_⟩
      exact Validator.accepts_of_ofNodeWithin hproper Resolved.TargetMeets.exists_meets ih
        _ node (.definition (mem_of_lookup hlookup)) hof hmeets
  obtain ⟨n, hmeets⟩ := hv.jointly
  exact ⟨n, Validator.accepts_of_ofNodeWithin hproper Resolved.TargetMeets.exists_meets (href n)
    _ node hnode hw hmeets⟩

/-! ### A recursive conjunction -/

section Chain

open Schema

/-- The target of the one definition of the document below. -/
def chainTarget : String := "#/components/schemas/Chain"

/-- A positive number, and maybe a chain behind it; or a tag beside it, by the second object. -/
def chainSchema : Value :=
  .object [("allOf", .list [
    .object [
      ("properties", .object [
        ("n", .object [("type", .str "integer"), ("exclusiveMinimum", .int 0)]),
        ("next", .object [("$ref", .str chainTarget)])]),
      ("required", .list [.str "n"]),
      ("additionalProperties", .bool false)],
    .object [("properties", .object [
      ("n", .object [("enum", .list [.int 1, .int 2])]),
      ("tag", .object [("type", .str "string")])])]])]

def chainRoot : Value :=
  .object [("components", .object [("schemas", .object [("Chain", chainSchema)])])]

def chainLibrary : Library :=
  .ofTable "" chainRoot []

def chainNumber : Node :=
  .number ⟨chainTarget ++ "/" ++ "allOf" ++ "/" ++ "0" ++ "/properties" ++ "/" ++ "n", false⟩ true
    { exclusiveMinimum := some (.int 0) }

def chainNext : Node :=
  .reference
    ⟨chainTarget ++ "/" ++ "allOf" ++ "/" ++ "0" ++ "/properties" ++ "/" ++ "next", false⟩
    chainTarget

def chainFirst : Node :=
  .object ⟨chainTarget ++ "/" ++ "allOf" ++ "/" ++ "0", false⟩
    [("n", chainNumber), ("next", chainNext)] ["n"] .forbidden {}

def chainEnum : Node :=
  .enum ⟨chainTarget ++ "/" ++ "allOf" ++ "/" ++ "1" ++ "/properties" ++ "/" ++ "n", false⟩
    [.int 1, .int 2]

def chainTag : Node :=
  .string ⟨chainTarget ++ "/" ++ "allOf" ++ "/" ++ "1" ++ "/properties" ++ "/" ++ "tag", false⟩ {}

def chainSecond : Node :=
  .object ⟨chainTarget ++ "/" ++ "allOf" ++ "/" ++ "1", false⟩
    [("n", chainEnum), ("tag", chainTag)] [] .unstated {}

def chainNode : Node :=
  .allOf ⟨chainTarget ++ "/" ++ "allOf", false⟩ [chainFirst, chainSecond]

def chainDocument : Resolved where
  definitions := [(chainTarget, chainNode)]
  names := [(chainTarget, "Chain")]
  routes := []
  cyclic := [chainTarget]

/-- Where resolving the document ends. -/
def chainWalk : Walk where
  names := [(chainTarget, "Chain")]
  definitions := [(chainTarget, chainNode)]
  cyclic := [chainTarget]

lemma locate_chain (referrer : String) :
    chainLibrary.locate chainTarget "" referrer =
      .ok ⟨chainTarget, "", "/components/schemas/Chain"⟩ := by
  have hcut : Text.cutAt '#' chainTarget.toList =
      ([], some "/components/schemas/Chain".toList) := by decide +kernel
  have hslash : Text.hasPrefix "/" "/components/schemas/Chain" = true := by decide +kernel
  unfold Library.locate
  rw [hcut]
  simp [chainLibrary, Library.ofTable, hslash, chainTarget]

lemma lookup_chain (referrer : String) :
    chainLibrary.lookup chainTarget "" "/components/schemas/Chain" referrer =
      ⟨[], .ok chainSchema⟩ := by
  have htokens : Pointer.tokens "/components/schemas/Chain" = ["components", "schemas", "Chain"] := by
    decide +kernel
  simp [Library.lookup, Library.document, chainLibrary, Library.ofTable, htokens, Pointer.follow,
    Pointer.step, chainRoot, Value.object, Value.find?, Scalar.same, Scalar.number?]

lemma read_chain : Schema.read chainLibrary "" chainSchema chainTarget =
    ⟨[.schema ⟨chainTarget, "", chainTarget,
      chainTarget ++ "/" ++ "allOf" ++ "/" ++ "0" ++ "/properties" ++ "/" ++ "next"⟩],
      .ok chainNode⟩ := by
  have hzero : Nat.repr 0 = "0" := by decide +kernel
  have hone : Nat.repr 1 = "1" := by decide +kernel
  have hn : Pointer.escape "n" = "n" := by decide +kernel
  have hnext : Pointer.escape "next" = "next" := by decide +kernel
  have htag : Pointer.escape "tag" = "tag" := by decide +kernel
  have htwo : (Number.int 2).same (.int 1) = false := by decide
  simp [Schema.read, readWithin, readLayer, readMapping, findUnsupported, unsupportedKeywords, hasAny,
    typedKeywords, objectKeywords, arrayKeywords, stringKeywords, numberKeywords, typeNames,
    declaredTypes, readCombination, readBranches, readBase, readShape, readUntyped, readTyped,
    readTypeName, readObject, readProperties, readAdditional, addRequired, readCountRules,
    readNumberRules, readStringRules, readListed, readScalars, dropTwins, twins, readBound, readExclusive, given, Schema.isTrue, readReference, locate_chain,
    chainSchema, chainNode, chainFirst, chainSecond, chainNumber, chainNext, chainEnum, chainTag,
    Value.object, Value.depth, Value.depthEntries, Value.depthItems,
    Value.get, Value.get?, Value.has, Value.find?, Value.entries, Value.isNull, Value.isEmpty,
    Value.number?, Value.display, Scalar.same, Scalar.number?, Scalar.display, Text.distinct,
    Traced.ofExcept, Traced.note, Traced.andThen, bind, Except.bind, pure, Except.pure, hzero,
    hone, hn, hnext, htag, htwo]

variable (w : Walk)

lemma run_get : (get : Resolving Walk).run w = (.ok w, w) := rfl

lemma run_modify (f : Walk → Walk) : (modify f : Resolving Unit).run w = (.ok (), f w) := rfl

/-- The definition refers to itself, and so is found on a cycle. -/
lemma define_chain :
    (define chainLibrary ⟨chainTarget, "", chainTarget, ""⟩).run
        (Walk.introduce chainTarget "Chain" {}) =
      (.ok (), chainWalk) := by
  have hlimit : chainLibrary.limit = 2 := by
    simp [chainLibrary, Library.ofTable, chainRoot, chainSchema, Library.countRefs,
      Library.countRefsEntries, Library.countRefsItems, Value.object, Value.get, Value.get?,
      Value.find?, Value.entries, Scalar.same, Scalar.number?]
  have hname : targetName ⟨chainTarget, "", "/components/schemas/Chain"⟩ = "Chain" := by
    decide +kernel
  simp [define, hlimit, defineWithin, meet, Traced.ofExcept, locate_chain, lookup_chain,
    read_chain, hname, Walk.isDefined, Walk.markCyclic, Walk.introduce, Walk.record, Text.distinct, chainWalk,
    run_bind_of_ok (run_get _), run_bind_of_ok (run_modify _ _), run_modify, -ExceptT.run_bind]

lemma resolve_chain : (resolve chainLibrary).outcome = .ok chainDocument := by
  have hroot : chainLibrary.root = chainRoot := rfl
  have hbase : chainLibrary.base = "" := rfl
  have htarget : componentTarget "Chain" = chainTarget := by decide +kernel
  have hcomponents : components chainRoot = .ok [(.str "Chain", chainSchema)] := by
    simp [components, mappingAt, chainRoot, Value.object, Value.get, Value.get?, Value.find?,
      Value.entries, Scalar.same, Scalar.number?]
  have hroutes : readRoutes chainLibrary = ⟨[], .ok []⟩ := by
    simp [readRoutes, hroot, mappingAt, chainRoot, Value.object, Value.get, Value.get?, Value.find?,
      Value.entries, Scalar.same, Scalar.number?, Traced.ofExcept, Value.isEmpty]
  have hmap : chainRoot.isMap = true := rfl
  have hrun : (resolveAll chainLibrary).run {} = (.ok [], chainWalk) := by
    simp only [resolveAll, hroot, hmap, hcomponents, hroutes, hbase, htarget, meet, Traced.ofExcept,
      Scalar.display, map_cons, map_nil, forM_eq_forM, forM_cons,
      forM_nil, Bool.not_true, Bool.false_eq_true, if_false, pure_bind, bind_assoc]
    rw [run_bind_of_ok (run_modify _ _)]
    rw [run_bind_of_ok define_chain]
    rfl
  simp [resolve, hrun, Except.map, Walk.inOrder, chainWalk, chainDocument]

def chainValidator : Validator :=
  .object [
    ⟨"n", .intersection
      [.number true { exclusiveMinimum := some (.int 0) }, .literal [.int 1, .int 2]], true⟩,
    ⟨"next", .ref chainTarget, false⟩, ⟨"tag", .string {} none none, false⟩] true none {}

def chainValidators : Validators where
  definitions := [(chainTarget, chainValidator)]
  routes := []

lemma ofNode_chain : Validator.ofNode ⟨chainDocument, {}⟩ chainNode = ⟨[], .ok chainValidator⟩ := by
  cbv

lemma ofDocument_chain :
    (Validator.ofDocument ⟨chainDocument, {}⟩ true).outcome = .ok chainValidators := by
  cbv

/-- A link of a chain, without a tag. -/
lemma meets_chain {scope : List Node → Option (List String)}
    {ref : Option (List String) → String → Value → Prop} {known : Option (List String)}
    {es : List (Scalar × Value)} {i : Int} (hi : i = 1 ∨ i = 2)
    (hn : Value.find? (.str "n") es = some (.int i))
    (hnext : ∀ x, Value.find? (.str "next") es = some x → ref none chainTarget x)
    (htag : Value.find? (.str "tag") es = none) (hkeys : ∀ e ∈ es, ¬ e.1.Lacks ["n", "next"]) :
    chainNode.Meets lenient {} scope ref known (.map es) := by
  have hpos : 0 < i := by omega
  have hrules : NumberRules.Holds { exclusiveMinimum := some (.int 0) } (.int i) := by
    constructor <;> simp [Number.lt, Number.value, ExtRat.lt, hpos]
  have hinteger : ∃ j : Int, (Number.int i).value = .rat j := ⟨i, rfl⟩
  have hlisted : Value.IsListed [.int 1, .int 2] (.int i) :=
    ⟨.int i, rfl, by rcases hi with rfl | rfl <;> decide⟩
  have hforbidden (names : List String) (k : Scalar) (v : Value) (he : (k, v) ∈ es) :
      ¬ k.Lacks ("n" :: "next" :: names) := fun h => hkeys (k, v) he (h.mono (by simp))
  simpa [chainNode, chainFirst, chainSecond, chainNumber, chainNext, chainEnum, chainTag, Node.Meets, Node.MeetsAll, Node.MeetsProperties,
    Node.MeetsAdditional, hn, htag, hrules, lenient, hinteger, hlisted, Validator.countOf,
    Extent.Holds, Value.number?] using ⟨hnext, hforbidden _⟩

/-- A chain of two links. -/
def chainValue : Value :=
  .object [("n", .int 1), ("next", .object [("n", .int 2)])]

lemma satisfies_chain : chainDocument.Satisfies lenient {} chainNode chainValue := by
  have hlast : chainDocument.TargetMeets lenient {} Resolved.apart 1 none chainTarget
      (.object [("n", .int 2)]) := by
    refine ⟨chainNode, rfl, meets_chain (i := 2) (.inr rfl) rfl ?_ rfl ?_⟩
    · rintro x ⟨⟩
    · simp [Scalar.Lacks]
  refine ⟨1, meets_chain (i := 1) (.inl rfl) rfl ?_ rfl ?_⟩
  · rintro x ⟨⟩
    exact hlast
  · simp [Scalar.Lacks]

/-- A chain of two links is accepted. -/
theorem Validators.chain_accepts_two :
    (resolve chainLibrary).outcome = .ok chainDocument ∧
      (Validator.ofDocument ⟨chainDocument, {}⟩ true).outcome = .ok chainValidators ∧
      chainDocument.Contains chainNode ∧
      (Validator.ofNode ⟨chainDocument, {}⟩ chainNode).outcome = .ok chainValidator ∧
      chainDocument.Satisfies lenient {} chainNode chainValue ∧
      chainValidators.Accepts lenient chainValidator chainValue :=
  have hcontains : chainDocument.Contains chainNode := .definition (mem_singleton_self _)
  have hvalidator := congrArg Traced.outcome ofNode_chain
  ⟨resolve_chain, ofDocument_chain, hcontains, hvalidator, satisfies_chain,
    accepts_of_satisfies resolve_chain ofDocument_chain hcontains hvalidator lenient chainValue
      satisfies_chain⟩

end Chain

end ApiSchema
