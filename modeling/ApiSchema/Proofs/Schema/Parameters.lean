import ApiSchema.Proofs.Schema.Routing

/-!
# Parameters of an operation

Parameters are declared by a path item and by the operations in it, and the same one may be declared
again. Main statement: the request data of an operation has one property for each name declared in a
location, in the order of first declaration, and the last declaration says what it is like; one by
the operation counts as later than those by the path item.
-/

namespace ApiSchema

open List Traced

namespace Schema.Parameter

variable {p q : Parameter} {ps earlier shared own : List Parameter} {location name : String}

/-- Two declarations are of the same parameter. -/
def Same (p q : Parameter) : Prop :=
  p.name = q.name ∧ p.location = q.location

/-- The last declaration of its parameter in a list. -/
def IsLast (ps : List Parameter) (p : Parameter) : Prop :=
  ∃ before after, ps = before ++ p :: after ∧ ∀ q ∈ after, ¬ Same q p

/-- The declaration that counts: the last one of an operation, or else the last one of the path
item. -/
inductive Counts (shared own : List Parameter) (p : Parameter) : Prop
  | own (h : IsLast own p)
  | shared (h : IsLast shared p) (hown : ∀ q ∈ own, ¬ Same q p)

/-- The names that are declared in a location. -/
def namesIn (location : String) (ps : List Parameter) : List String :=
  (ps.filter (·.location == location)).map (·.name)

lemma isLast_cons : IsLast (q :: ps) p ↔ IsLast ps p ∨ p = q ∧ ∀ r ∈ ps, ¬ Same r p := by
  constructor
  · rintro ⟨before, after, heq, hafter⟩
    cases before with
    | nil =>
      cases heq
      exact .inr ⟨rfl, hafter⟩
    | cons _ before =>
      cases heq
      exact .inl ⟨before, after, rfl, hafter⟩
  · rintro (⟨before, after, rfl, hafter⟩ | ⟨rfl, hafter⟩)
    · exact ⟨q :: before, after, rfl, hafter⟩
    · exact ⟨[], ps, rfl, hafter⟩

lemma mem_put (h : Distinct ps) : q ∈ p.put ps ↔ q = p ∨ q ∈ ps ∧ ¬ Same q p := by
  induction ps with
  | nil => simp [put]
  | cons r ps ih =>
    obtain ⟨hr, hps⟩ := pairwise_cons.1 h
    rw [put]
    split
    next heq =>
      have hne (hq : q ∈ ps) : ¬ Same q p :=
        fun hsame => hr q hq (heq.1.trans hsame.1.symm) (heq.2.trans hsame.2.symm)
      have hsame (hq : q = r) : Same q p := hq ▸ heq
      grind
    next hne =>
      have hnot (hq : q = r) : ¬ Same q p := hq ▸ hne
      rw [mem_cons, ih hps, mem_cons]
      tauto

/-- The order of declarations decides which of them stay in a merge. -/
lemma mem_merge (h : Distinct earlier) : p ∈ merge earlier ps ↔
      IsLast ps p ∨ p ∈ earlier ∧ ∀ q ∈ ps, ¬ Same q p := by
  induction ps generalizing earlier with
  | nil => simp [merge, IsLast]
  | cons q ps ih =>
    have hsame : Same q p ↔ Same p q := and_congr eq_comm eq_comm
    have hput : Distinct (q.put earlier) := (merge_spec h [q]).2
    have hstep : merge earlier (q :: ps) = merge (q.put earlier) ps := rfl
    rw [hstep, ih hput, mem_put h, isLast_cons, forall_mem_cons, hsame]
    tauto

lemma namesIn_cons : namesIn location (p :: ps) =
    if p.location = location then p.name :: namesIn location ps else namesIn location ps := by
  by_cases h : p.location = location <;> simp [namesIn, h]

lemma namesIn_put : namesIn location (p.put ps) =
    if p.location = location ∧ p.name ∉ namesIn location ps then namesIn location ps ++ [p.name]
    else namesIn location ps := by
  induction ps with
  | nil => by_cases h : p.location = location <;> simp [put, namesIn, h]
  | cons q ps ih =>
    rw [put]
    split <;> grind [namesIn_cons]

/-- A merge has the names of the earlier list, and then those that are new. -/
lemma namesIn_merge : namesIn location (merge earlier ps) = (namesIn location ps).foldl
    (fun seen x => if seen.contains x then seen else seen ++ [x]) (namesIn location earlier) := by
  induction ps generalizing earlier with
  | nil => rfl
  | cons p ps ih =>
    have hstep : merge earlier (p :: ps) = merge (p.put earlier) ps := rfl
    rw [hstep, ih, namesIn_put, namesIn_cons]
    grind

lemma mem_namesIn : name ∈ namesIn location ps ↔
    ∃ p ∈ ps, p.location = location ∧ p.name = name := by
  simp [namesIn, and_assoc]

/-- The parameters of an operation by location: those of its path item go first. -/
lemma namesIn_merge_merge : namesIn location (merge (merge [] shared) (merge [] own)) =
    Text.distinct (namesIn location (shared ++ own)) := by
  have happend : namesIn location (shared ++ own) =
      namesIn location shared ++ namesIn location own := by simp [namesIn]
  have hnil : namesIn location [] = [] := rfl
  rw [namesIn_merge, namesIn_merge, namesIn_merge, hnil, happend, Text.distinct, foldl_append]
  exact Text.foldl_distinct_distinct _ _

/-- A merge has parameters in a location exactly where some are declared there. -/
lemma exists_mem_merge_merge :
    (∃ p ∈ merge (merge [] shared) (merge [] own), p.location = location) ↔
      ∃ p ∈ shared ++ own, p.location = location := by
  have hnames (ps : List Parameter) :
      (∃ p ∈ ps, p.location = location) ↔ ∃ name, name ∈ namesIn location ps := by
    simp [mem_namesIn]
  simp only [hnames, namesIn_merge_merge, Text.mem_distinct]

lemma counts_of_mem (h : p ∈ merge (merge [] shared) (merge [] own)) : Counts shared own p := by
  have hlast {ps : List Parameter} {q : Parameter} : q ∈ merge [] ps ↔ IsLast ps q := by
    simp [mem_merge (List.Pairwise.nil : Distinct [])]
  have hdistinct : Distinct (merge [] shared) := (merge_spec .nil shared).2
  rcases (mem_merge hdistinct).1 h with ⟨before, after, hown, -⟩ | ⟨hshared, hown⟩
  · refine .own (hlast.1 ?_)
    simp [hown]
  · refine .shared (hlast.1 hshared) fun q hq hsame => ?_
    -- The last declaration of the parameter that `q` declares has stayed.
    have hname : q.name ∈ namesIn q.location (merge [] own) := by
      rw [namesIn_merge]
      exact Text.mem_distinct.2 (mem_namesIn.2 ⟨q, hq, rfl, rfl⟩)
    obtain ⟨r, hr, hlocation, hname⟩ := mem_namesIn.1 hname
    exact hown r hr ⟨hname.trans hsame.1, hlocation.trans hsame.2⟩

lemma isRequired_iff : p.isRequired ↔
    p.location = "path" ∨ p.part.raw.get "required" = .bool true := by
  have htrue (v : Value) : isTrue v ↔ v = .bool true := by
    unfold isTrue
    split
    · simp [Value.bool]
    next h => simpa using fun hv => h true hv
  simp [isRequired, htrue]

end Schema.Parameter

namespace Schema

open Parameter

variable {lib : Library} {shared own : List Parameter} {location pointer : String} {node : Node}

/-- The object that the parameters of one location make, by their declarations. -/
inductive Gathers (lib : Library) (shared own : List Parameter) (location : String) : Node → Prop
  | intro {site : Site} {properties : List (String × Node)} {required : List String}
    (hnames : properties.map (·.1) = Text.distinct (namesIn location (shared ++ own)))
    (hproperties : ∀ property ∈ properties, ∃ p, Counts shared own p ∧ p.location = location ∧
      p.name = property.1 ∧
      (read lib p.part.doc (if p.schema.1.isNull then .map [] else p.schema.1) p.schema.2).outcome =
        .ok property.2 ∧
      (property.1 ∈ required ↔ location = "path" ∨ p.part.raw.get "required" = .bool true))
    (hrequired : required ⊆ properties.map (·.1)) :
    Gathers lib shared own location (.object site properties required .unstated {})

lemma IsGroup.gathers
    (h : IsGroup lib (merge (merge [] shared) (merge [] own)) pointer location node) :
    Gathers lib shared own location node := by
  obtain @⟨properties, h⟩ := h
  have hdistinct : Distinct (merge (merge [] shared) (merge [] own)) :=
    (merge_spec (merge_spec .nil shared).2 _).2
  generalize hps : merge (merge [] shared) (merge [] own) = ps at h hdistinct
  have hnames : properties.map (·.1) = namesIn location ps := map_eq_map_of_forall₂ h And.left
  refine .intro (by rw [hnames, ← hps, namesIn_merge_merge]) (fun property hproperty => ?_) ?_
  · obtain ⟨p, hp, hname, hread⟩ := exists_left_of_forall₂ h hproperty
    obtain ⟨hmem, hlocation⟩ := mem_filter.1 hp
    have hlocation := beq_iff_eq.1 hlocation
    refine ⟨p, counts_of_mem (hps ▸ hmem), hlocation, hname.symm, hread, ?_⟩
    rw [← hlocation, ← isRequired_iff, hname, mem_map]
    constructor
    · rintro ⟨q, hq, heq⟩
      obtain ⟨hq, hrequired⟩ := mem_filter.1 hq
      rwa [← inj_on_of_nodup_map (hdistinct.nodup_names _) hq (hlocation ▸ hp) heq]
    · exact fun hrequired => ⟨p, mem_filter.2 ⟨hlocation ▸ hp, hrequired⟩, rfl⟩
  · rw [hnames]
    exact map_subset _ (filter_subset_self _)

end Schema

namespace Operation

open Schema Schema.Parameter

variable {lib : Library} {o : Operation} {r : Route Node} {routes : List (Route Node)}

/-- The parameters that are declared by the path item of an operation, and by itself. -/
structure Declares (lib : Library) (o : Operation) (shared own : List Parameter) : Prop where
  shared : List.Forall₂ (IsEntry lib o.item.doc o.item.pointer)
    (listed (o.item.raw.get "parameters")).zipIdx shared
  own : List.Forall₂ (IsEntry lib o.item.doc o.pointer) (listed (o.raw.get "parameters")).zipIdx own

/-- The request data of a route is that of the declared parameters, and the body. -/
structure Assembles (lib : Library) (o : Operation) (shared own : List Parameter)
    (request : List (String × Node)) : Prop where
  kinds : (request.map (·.1)).Sublist (Route.locations.map (·.2) ++ ["body"])
  kind_iff : ∀ l ∈ Route.locations,
    (l.2 ∈ request.map (·.1) ↔ ∃ p ∈ shared ++ own, p.location = l.1)
  groups : ∀ l ∈ Route.locations, ∀ node, (l.2, node) ∈ request → Gathers lib shared own l.1 node
  body : ∀ node, ("body", node) ∈ request → ∃ part schema place, o.Body lib part ∧
    part.Content schema place ∧ (read lib part.doc schema place).outcome = .ok node

/-- What is folded over has been gone through. -/
lemma exists_of_foldlM {α β : Type} {f : α → β → Reading α} {bs : List β} {b : β} {a a' : α}
    (h : (bs.foldlM f a).outcome = .ok a') (hb : b ∈ bs) : ∃ c c', (f c b).outcome = .ok c' := by
  induction bs generalizing a with
  | nil => cases hb
  | cons b' bs ih =>
    rw [foldlM_cons] at h
    obtain ⟨c, hc, h⟩ := outcome_bind_eq_ok_iff.1 h
    rcases mem_cons.1 hb with rfl | hb
    · exact ⟨a, c, hc⟩
    · exact ih h hb

/-- The parameters of all operations have been read. -/
lemma exists_merges (h : (readRoutes lib).outcome = .ok routes) (ho : o.IsOf lib) :
    ∃ ps, o.Merges lib ps := by
  obtain ⟨⟨key, entry, hentry, hpath, hitem⟩, hmethod, hmap⟩ := ho
  rw [raw] at hmap
  obtain ⟨entries, hentries, h⟩ := outcome_bind_eq_ok_iff.1 h
  obtain ⟨_, hfold, -⟩ := outcome_bind_eq_ok_iff.1 h
  rw [← entries_of_mappingAt hentries] at hentry
  obtain ⟨acc, acc', hread⟩ := exists_of_foldlM hfold hentry
  obtain ⟨item, hderef, hread⟩ := outcome_bind_eq_ok_iff.1 hread
  obtain rfl : o.item = item := (hpath ▸ Part.leadsTo_of_deref hderef).unique hitem
  split at hread
  next hnot =>
    cases hraw : o.item.raw with
    | map es => simp [hraw, Value.isMap] at hnot
    | scalar _ | list _ | tuple _ => cases hraw ▸ hmap
  next =>
    obtain ⟨shared, hshared, hread⟩ := outcome_bind_eq_ok_iff.1 hread
    obtain ⟨acc, acc', hread⟩ := exists_of_foldlM hread hmethod
    unfold readOperation at hread
    extract_lets operation key pointer next at hread
    rw [if_neg (by simpa [operation] using hmap)] at hread
    split at hread
    next => cases hread
    next =>
      obtain ⟨own, hown, -⟩ := outcome_bind_eq_ok_iff.1 hread
      exact ⟨_, shared, own, lists_of_readParameters hshared, lists_of_readParameters hown, rfl⟩

lemma Describes.assembles {ps : List Parameter} (h : o.Describes lib r) (hps : o.Merges lib ps) :
    ∃ shared own, o.Declares lib shared own ∧ o.Assembles lib shared own r.request := by
  obtain ⟨_, _, ⟨shared, hshared, rfl⟩, ⟨own, hown, rfl⟩, rfl⟩ := id hps
  have hkinds : ∀ l ∈ Route.locations, l.2 ≠ "body" ∧
      ∀ l' ∈ Route.locations, l'.2 = l.2 → l'.1 = l.1 := by decide
  refine ⟨shared, own, ⟨hshared, hown⟩, h.kinds, fun l hl => ?_, fun l hl node hnode => ?_,
    fun node hnode => ?_⟩
  · rw [h.carries, ← exists_mem_merge_merge]
    constructor
    · intro hcarries
      generalize hkind : l.2 = kind at hcarries
      cases hcarries with
      | parameter hl' hps' hp hlocation =>
        have hlocation := hlocation.trans ((hkinds l hl).2 _ hl' hkind.symm)
        exact ⟨_, hps.unique hps' ▸ hp, hlocation⟩
      | body => exact absurd hkind (hkinds l hl).1
    · rintro ⟨p, hp, hlocation⟩
      exact .parameter hl hps hp hlocation
  · have hrequest := h.request _ hnode
    generalize hkind : l.2 = kind at hrequest
    cases hrequest with
    | parameters hl' hps' hgroup =>
      obtain rfl := (hkinds l hl).2 _ hl' hkind.symm
      exact (hps.unique hps' ▸ hgroup).gathers
    | body => exact absurd hkind (hkinds l hl).1
  · have hrequest := h.request _ hnode
    generalize hkind : "body" = kind at hrequest
    cases hrequest with
    | parameters hl' => exact absurd hkind.symm (hkinds _ hl').1
    | body hbody hschema hread => exact ⟨_, _, _, hbody, hschema, hread⟩

end Operation

/-- Each operation of a resolved document has the request data that its parameters are declared
with. -/
theorem assembles_of_resolve {lib : Library} {doc : Resolved}
    (h : (Schema.resolve lib).outcome = .ok doc) :
    ∃ ops : List Operation, (∀ o, o ∈ ops ↔ o.IsOf lib) ∧
      List.Forall₂ (fun o r => r.path = o.path ∧ r.method = o.method.2 ∧
        ∃ shared own, o.Declares lib shared own ∧ o.Assembles lib shared own r.request)
        ops doc.routes := by
  have hroutes := Schema.readRoutes_of_resolve h
  obtain ⟨ops, hdescribes, hops, -⟩ := Schema.describes_of_readRoutes hroutes
  refine ⟨ops, hops, forall₂_imp_of_mem hdescribes fun o ho r hr => ?_⟩
  obtain ⟨ps, hps⟩ := Operation.exists_merges hroutes ((hops o).1 ho)
  exact ⟨hr.path, hr.method, hr.assembles hps⟩

/-- A document where an operation declares parameters of its path item again, one of them twice. -/
def pagesLibrary : Library :=
  let declared (name location : String) (required : Bool) (type : String) : Value :=
    .object [("name", .str name), ("in", .str location), ("required", .bool required),
      ("schema", .object [("type", .str type)])]
  Library.ofTable ""
    (.object [("paths", .object [("/pages/\x7bid\x7d", .object [
        ("parameters", .list [.object [("$ref", .str "#/page")],
          declared "id" "path" false "string", declared "id" "query" true "string",
          declared "token" "cookie" true "string"]),
        ("get", .object [("parameters", .list [declared "size" "query" false "string",
          declared "page" "query" false "string", declared "size" "query" true "integer"])])])]),
      ("page", declared "page" "query" true "integer")])
    []

/-- The names of properties, and the required ones. -/
def Node.names : Node → List String × List String
  | .object _ properties required _ _ => (properties.map (·.1), required)
  | _ => ([], [])

theorem pages_assembles :
    ∃ doc, (Schema.resolve pagesLibrary).outcome = .ok doc ∧
      doc.routes.map (fun r => r.request.map (Prod.map id Node.names)) =
        [[("params", ["id"], ["id"]), ("query", ["page", "id", "size"], ["id", "size"])]] ∧
      ∃ ops : List Operation, (∀ o, o ∈ ops ↔ o.IsOf pagesLibrary) ∧
        List.Forall₂ (fun o r => r.path = o.path ∧ r.method = o.method.2 ∧
          ∃ shared own, o.Declares pagesLibrary shared own ∧
            o.Assembles pagesLibrary shared own r.request) ops doc.routes := by
  have hok : (Schema.resolve pagesLibrary).outcome.map
      (fun doc => doc.routes.map fun r => r.request.map (Prod.map id Node.names)) =
      .ok [[("params", ["id"], ["id"]), ("query", ["page", "id", "size"], ["id", "size"])]] := by
    decide +kernel
  obtain ⟨doc, hdoc, hnames⟩ := Except.map_eq_ok_iff.1 hok
  exact ⟨doc, hdoc, hnames, assembles_of_resolve hdoc⟩

end ApiSchema
