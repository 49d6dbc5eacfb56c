import ApiSchema.Proofs.Declaration.Equivalence
import ApiSchema.Proofs.Module.Failure
import ApiSchema.Proofs.Schema.Routing

/-!
# Lookup tables are complete

Main statement: where a module with routes is made of a document, both of its tables have one row
for each operation of the document and no other rows. The row of a request has the kinds of data
that the operation has, the row of responses has its statuses, and every name in them is declared,
with what was made of the schema that the document says.
-/

namespace ApiSchema

open List Traced

/-! ### Tables -/

namespace Module

namespace Table

/-- The rows of a table, each with its path. -/
def rows (t : Table) : List (String × String × List (String × String)) :=
  t.flatMap fun group => group.2.map (group.1, ·)

/-- The path and the method of each row. -/
def keys (t : Table) : List (String × String) :=
  t.rows.map fun row => (row.1, row.2.1)

/-- The row of a path and a method. -/
def row? (t : Table) (path method : String) : Option (List (String × String)) :=
  (t.lookup path).bind (·.lookup method)

/-- A table finds its rows, if no path and no row has a double. -/
lemma row?_of_mem {t : Table} (hpaths : (t.map (·.1)).Nodup) (hkeys : t.keys.Nodup)
    {path method : String} {names : List (String × String)}
    (h : (path, method, names) ∈ t.rows) : t.row? path method = some names := by
  obtain ⟨group, hgroup, hrow⟩ := mem_flatMap.1 h
  obtain ⟨row, hrow, heq⟩ := mem_map.1 hrow
  cases heq
  have hinner : (group.2.map (·.1)).Nodup := by
    rw [keys, rows, map_flatMap] at hkeys
    have hgroupKeys := (nodup_flatMap.1 hkeys).1 group hgroup
    rw [map_map] at hgroupKeys
    refine List.Nodup.of_map (Prod.mk group.1) ?_
    rwa [map_map]
  rw [row?, lookup_of_mem hpaths hgroup]
  exact lookup_of_mem hinner hrow

end Table

namespace Lookup

variable {l : List (String × String)}

lemma map_fst_addRow (path : String) (row : String × List (String × String)) (t : Table) :
    (addRow path row t).map (·.1) =
      if path ∈ t.map (·.1) then t.map (·.1) else t.map (·.1) ++ [path] := by
  induction t with
  | nil => simp [addRow]
  | cons group t ih =>
    rw [addRow]
    split
    next h => simp [h]
    next h =>
      rw [map_cons, ih, map_cons]
      have hne : path ≠ group.1 := Ne.symm h
      by_cases hmem : path ∈ t.map (·.1)
      · rw [if_pos hmem, if_pos (mem_cons_of_mem _ hmem)]
      · rw [if_neg hmem, if_neg fun h => (mem_cons.1 h).elim hne hmem]
        rfl

lemma rows_addRow_perm (path : String) (row : String × List (String × String)) (t : Table) :
    (addRow path row t).rows.Perm (t.rows ++ [(path, row)]) := by
  induction t with
  | nil => exact .refl _
  | cons group t ih =>
    rw [addRow]
    split
    next h =>
      subst h
      rw [Table.rows, Table.rows, flatMap_cons, flatMap_cons, map_append,
        append_assoc, append_assoc]
      exact perm_append_comm.append_left _
    next =>
      rw [Table.rows, Table.rows, flatMap_cons, flatMap_cons, append_assoc]
      exact ih.append_left _

/-- A table of rows has these rows, and each path once. -/
lemma table_of_rows (rows : List (String × String × List (String × String))) :
    let t : Table := rows.foldl (fun t r => addRow r.1 r.2 t) []
    (t.map (·.1)).Nodup ∧ t.rows.Perm rows := by
  have hfold (t : Table) (ht : (t.map (·.1)).Nodup) :
      ((rows.foldl (fun t r => addRow r.1 r.2 t) t).map (·.1)).Nodup ∧
        (Table.rows (rows.foldl (fun t r => addRow r.1 r.2 t) t)).Perm (t.rows ++ rows) := by
    induction rows generalizing t with
    | nil => exact ⟨ht, by simp⟩
    | cons r rows ih =>
      have hpaths : ((addRow r.1 r.2 t).map (·.1)).Nodup := by
        rw [map_fst_addRow]
        split
        next => exact ht
        next hnew => exact nodup_append.2 ⟨ht, by simp, by grind⟩
      obtain ⟨hnodup, hperm⟩ := ih (addRow r.1 r.2 t) hpaths
      refine ⟨hnodup, hperm.trans ?_⟩
      rw [append_cons]
      exact (rows_addRow_perm r.1 r.2 t).append_right rows
  exact hfold [] nodup_nil

/-- The table of routes has a row for each of them, if no two have one path and one method. -/
lemma table_of_routes {routes : List (Route String)}
    (hkeys : (routes.map fun r => (r.path, r.method)).Nodup)
    (names : Route String → List (String × String)) :
    let t : Table := routes.foldl (fun t r => addRow r.path (r.method, names r) t) []
    (t.map (·.1)).Nodup ∧ t.keys.Perm (routes.map fun r => (r.path, r.method)) ∧
      ∀ r ∈ routes, t.row? r.path r.method = some (names r) := by
  intro t
  obtain ⟨hpaths, hrows⟩ := table_of_rows (routes.map fun r => (r.path, r.method, names r))
  rw [foldl_map] at hpaths hrows
  have hperm : t.keys.Perm (routes.map fun r => (r.path, r.method)) := by
    have := hrows.map fun row => (row.1, row.2.1)
    rwa [map_map] at this
  refine ⟨hpaths, hperm, fun r hr => Table.row?_of_mem hpaths (hperm.nodup_iff.2 hkeys) ?_⟩
  exact hrows.mem_iff.2 (mem_map_of_mem hr)

/-- Looking up keys in their order gives back an association list with keys in that order. -/
lemma filterMap_lookup_eq {keys : List String} (hkeys : keys.Nodup) (h : (l.map (·.1)).Sublist keys) :
    keys.filterMap (fun key => (l.lookup key).map (key, ·)) = l := by
  induction keys generalizing l with
  | nil =>
    rw [map_eq_nil_iff.1 (sublist_nil.1 h)]
    rfl
  | cons k keys ih =>
    obtain ⟨hk, hrest⟩ := nodup_cons.1 hkeys
    rcases sublist_cons_iff.1 h with h | ⟨r, hr, h⟩
    · have hnone : l.lookup k = none := by
        rw [← Option.not_isSome_iff_eq_none, isSome_lookup_iff]
        exact fun hmem => hk (h.subset hmem)
      rw [filterMap_cons_none (by rw [hnone]; rfl)]
      exact ih hrest h
    · obtain ⟨p, rest, rfl, rfl, rfl⟩ := map_eq_cons_iff.1 hr
      rw [filterMap_cons_some (by rw [lookup_cons_self]; rfl)]
      refine congrArg _ ((filterMap_congr fun key hkey => ?_).trans (ih hrest h))
      have hne : key ≠ p.1 := fun heq => hk (heq ▸ hkey)
      rw [lookup_cons, beq_eq_false_iff_ne.2 hne]

lemma lookup_reverse (h : (l.map (·.1)).Nodup) (key : String) :
    l.reverse.lookup key = l.lookup key := by
  have hreverse : (l.reverse.map (·.1)).Nodup := by
    rwa [map_reverse, nodup_reverse]
  cases hlookup : l.lookup key with
  | some name => exact lookup_of_mem hreverse (mem_reverse.2 (mem_of_lookup hlookup))
  | none =>
    rw [← Option.not_isSome_iff_eq_none, isSome_lookup_iff, map_reverse, mem_reverse,
      ← isSome_lookup_iff, hlookup]
    exact Bool.false_ne_true

/-- Picking the names of kinds in order changes nothing where they are in order. -/
lemma byKind_eq {request : List (String × String)}
    (h : (request.map (·.1)).Sublist kinds) : byKind request = request := by
  have hkinds : kinds.Nodup := by decide
  rw [byKind]
  simp only [lookup_reverse (h.nodup hkinds)]
  exact filterMap_lookup_eq hkinds h

lemma methodName_eq {method : String × String} (h : method ∈ Route.methods) :
    methodName method.2 = method.2 := by
  revert method
  decide +kernel

/-- The tables hold the names of routes as they are, where methods and kinds are in order. -/
lemma ofDeclarations_eq {d : Declarations} {tables : Lookup}
    (hroutes : ∀ r ∈ d.routes, methodName r.method = r.method ∧ byKind r.request = r.request)
    (h : ofDeclarations d = .ok tables) :
    tables.request = d.routes.foldl (fun t r => addRow r.path (r.method, r.request) t) [] ∧
      tables.response =
        d.routes.foldl (fun t r => addRow r.path (r.method, r.responses) t) [] := by
  obtain ⟨_, -, h⟩ := Except.bind_eq_ok_iff.1 h
  cases h
  constructor
  · exact foldl_ext _ _ _ fun t r hr => by rw [(hroutes r hr).1, (hroutes r hr).2]
  · exact foldl_ext _ _ _ fun t r hr => by rw [(hroutes r hr).1]

end Lookup

end Module

/-! ### Names of operations -/

section

variable (lib : Library) (built : Node → String → Prop)

/-- The names for the data of an operation: for the kinds of request data it has, in the order of
kinds, and for its responses in document order. Each of them is built from its schema. -/
structure Operation.Names (o : Operation) (request response : List (String × String)) : Prop where
  kinds : (request.map (·.1)).Sublist Module.Lookup.kinds
  carries : ∀ kind, kind ∈ request.map (·.1) ↔ o.Carries lib kind
  request : ∀ p ∈ request, ∃ node, o.Request lib p.1 node ∧ built node p.2
  response : List.Forall₂ (fun entry p => p.1 = entry.1.display ∧
    ∃ node, Operation.Response lib ⟨entry.2, o.item.doc,
      o.pointer ++ "/responses/" ++ Pointer.escape entry.1.display⟩ node ∧ built node p.2)
    (o.raw.get "responses").entries response

/-- Tables have exactly the operations of a document as their rows. -/
structure Module.Lookup.IsComplete (tables : Module.Lookup) : Prop where
  paths : (tables.request.map (·.1)).Nodup ∧ (tables.response.map (·.1)).Nodup
  nodup : tables.request.keys.Nodup ∧ tables.response.keys.Nodup
  mem_iff : ∀ path method, ((path, method) ∈ tables.request.keys ↔
      ∃ o : Operation, o.IsOf lib ∧ o.path = path ∧ o.method.2 = method) ∧
    ((path, method) ∈ tables.response.keys ↔
      ∃ o : Operation, o.IsOf lib ∧ o.path = path ∧ o.method.2 = method)
  /-- No two operations differ only in the names of path parameters. -/
  apart : ∀ o o' : Operation, o.IsOf lib → o'.IsOf lib → o.method.2 = o'.method.2 →
    Route.template o.path = Route.template o'.path → o = o'
  names : ∀ o : Operation, o.IsOf lib → ∃ request response,
    tables.request.row? o.path o.method.2 = some request ∧
      tables.response.row? o.path o.method.2 = some response ∧ o.Names lib built request response

variable {lib built}

lemma Operation.Describes.names {o : Operation} {r : Route Node} {s : Route String}
    (h : o.Describes lib r) (hs : r.InStep built s) :
    s.path = o.path ∧ s.method = o.method.2 ∧ o.Names lib built s.request s.responses := by
  have hkeys : s.request.map (·.1) = r.request.map (·.1) :=
    map_eq_map_of_forall₂ hs.request And.left
  refine ⟨hs.path.trans h.path, hs.method.trans h.method, ?_, fun kind => ?_, fun p hp => ?_, ?_⟩
  · rw [hkeys]
    exact h.kinds
  · rw [hkeys]
    exact h.carries kind
  · obtain ⟨q, hq, hkind, hbuilt⟩ := exists_left_of_forall₂ hs.request hp
    exact ⟨q.2, hkind ▸ h.request q hq, hbuilt⟩
  · refine forall₂_trans h.responses hs.responses fun entry q p hentry hp => ?_
    exact ⟨hp.1.trans hentry.1, q.2, hentry.2, hp.2⟩

/-- Tables of routes that describe the operations of a document are complete. -/
lemma Module.Lookup.isComplete_of_routes {d : Declarations} {tables : Module.Lookup}
    {ops : List Operation} {routes : List (Route Node)} (hops : ∀ o, o ∈ ops ↔ o.IsOf lib)
    (hdescribes : Forall₂ (Operation.Describes lib) ops routes)
    (hkeys : (routes.map Schema.routeKey).Nodup)
    (hnamed : Forall₂ (Route.InStep built) routes d.routes)
    (h : ofDeclarations d = .ok tables) : tables.IsComplete lib built := by
  have hall : Forall₂ (fun o s => s.path = o.path ∧ s.method = o.method.2 ∧
      Operation.Names lib built o s.request s.responses) ops d.routes :=
    forall₂_trans hdescribes hnamed fun _ _ _ hdescribes => hdescribes.names
  have hpairs : (d.routes.map fun s => (s.path, s.method)) =
      ops.map fun o => (o.path, o.method.2) :=
    map_eq_map_of_forall₂ hall fun ⟨hpath, hmethod, _⟩ => by rw [hpath, hmethod]
  have hdistinct : (ops.map fun o => (Route.template o.path, o.method.2)).Nodup := by
    have hsame : routes.map Schema.routeKey =
        ops.map fun o => (Route.template o.path, o.method.2) :=
      map_eq_map_of_forall₂ hdescribes fun h => by rw [Schema.routeKey, h.path, h.method]
    rwa [← hsame]
  have hnodup : (d.routes.map fun s => (s.path, s.method)).Nodup := by
    rw [hpairs]
    refine List.Nodup.of_map (fun p => (Route.template p.1, p.2)) ?_
    rwa [map_map]
  have hroute (s : Route String) (hs : s ∈ d.routes) :
      methodName s.method = s.method ∧ byKind s.request = s.request := by
    obtain ⟨o, ho, -, hmethod, hnames⟩ := exists_left_of_forall₂ hall hs
    rw [hmethod]
    exact ⟨methodName_eq ((hops o).1 ho).method, byKind_eq hnames.kinds⟩
  obtain ⟨hrequest, hresponse⟩ := ofDeclarations_eq hroute h
  obtain ⟨hpaths, hperm, hrow⟩ := table_of_routes hnodup (·.request)
  obtain ⟨hpaths', hperm', hrow'⟩ := table_of_routes hnodup (·.responses)
  rw [← hrequest] at hpaths hperm hrow
  rw [← hresponse] at hpaths' hperm' hrow'
  have hmem (path method : String) : (path, method) ∈ (d.routes.map fun s => (s.path, s.method)) ↔
      ∃ o : Operation, o.IsOf lib ∧ o.path = path ∧ o.method.2 = method := by
    rw [hpairs, mem_map]
    simp only [Prod.mk.injEq, hops]
  refine ⟨⟨hpaths, hpaths'⟩, ⟨hperm.nodup_iff.2 hnodup, hperm'.nodup_iff.2 hnodup⟩,
    fun path method => ⟨hperm.mem_iff.trans (hmem path method),
      hperm'.mem_iff.trans (hmem path method)⟩, fun o o' ho ho' hmethod htemplate => ?_,
    fun o ho => ?_⟩
  · refine inj_on_of_nodup_map hdistinct ((hops o).2 ho) ((hops o').2 ho') ?_
    rw [hmethod, htemplate]
  · obtain ⟨s, hs, hpath, hmethod, hnames⟩ := exists_right_of_forall₂ hall ((hops o).2 ho)
    exact ⟨s.request, s.responses, hpath ▸ hmethod ▸ hrow s hs, hpath ▸ hmethod ▸ hrow' s hs,
      hnames⟩

end

/-! ### Modules of documents -/

namespace Generate

lemma lookup_of_module {d : Declarations} {config : Config} {m : Module}
    (hroutes : config.includeRoutes = true) (h : (module d config).outcome = .ok m) :
    ∃ tables, Module.Lookup.ofDeclarations d = .ok tables ∧ m.lookup = some tables := by
  obtain ⟨components, -, h⟩ := outcome_bind_eq_ok_iff.1 h
  rw [if_pos hroutes] at h
  obtain ⟨tables, htables, h⟩ := outcome_bind_eq_ok_iff.1 h
  obtain ⟨lookup, hlookup, h⟩ := outcome_bind_eq_ok_iff.1 h
  cases hlookup
  obtain ⟨m', hm', h⟩ := outcome_bind_eq_ok_iff.1 h
  obtain ⟨_, -, h⟩ := outcome_bind_eq_ok_iff.1 h
  cases h
  obtain ⟨blocks, -, h⟩ := Except.bind_eq_ok_iff.1 hm'
  cases h
  exact ⟨tables, htables, rfl⟩

end Generate

/-- A text is that of a module whose tables are complete: every name in them is declared, and stands
for the validator of its schema. A reference is represented by the declaration of its target, and
any other validator by a declaration made for one with its fingerprint. -/
def HasCompleteLookup (lib : Library) (config : Config) (text : String) : Prop :=
  ∃ doc t d m tables stands, (Schema.resolve lib).outcome = .ok doc ∧
    (Validator.ofDocument ⟨doc, config.formats⟩ true).outcome = .ok t ∧
    (Generate.declarations lib config).outcome = .ok d ∧
    (Generate.module d config).outcome = .ok m ∧ m.text = text ∧ m.lookup = some tables ∧
    d.Represents (fun v w => v.fingerprint = w.fingerprint) t stands ∧
    tables.IsComplete lib fun node name => d.contains name ∧
      ∃ v, (Validator.ofNode ⟨doc, config.formats⟩ node).outcome = .ok v ∧ stands v name

/-- A body or a response with a user, in two media types. -/
def userContent : Value :=
  .object [("content", .object [("text/plain", .object [("schema", .object [])]),
    ("application/hal+json", .object
      [("schema", .object [("$ref", .str "#/components/schemas/User")])])])]

/-- A document with one operation, in a path item that stands elsewhere. -/
def userLibrary : Library :=
  Library.ofTable ""
    (.object [("paths", .object [("/users/\x7bid\x7d", .object [("$ref", .str "#/items/user")])]),
      ("components", .object [("schemas", .object [("User", .object [("type", .str "string")])]),
        ("responses", .object [("Saved", userContent)])]),
      ("items", .object [("user", .object [
        ("parameters", .list [.object [("name", .str "token"), ("in", .str "cookie")]]),
        ("put", .object [("requestBody", userContent), ("responses", .object
          [("200", .object [("$ref", .str "#/components/responses/Saved")]),
            ("default", userContent)])])])])])
    []

end ApiSchema
