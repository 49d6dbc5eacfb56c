import ApiSchema.Proofs.Schema.Location
import ApiSchema.Proofs.Schema.Simulation
import ApiSchema.Proofs.Value.Reordered

/-!
# Resolution in another order

A resolution visits components in the order of the document, and what it finds does not depend on
that order. Main statement: where no target is met in two documents, a document that resolves does so
with its component schemas in any other order, to the same schemas, names and routes.
-/

namespace ApiSchema

open List Schema

namespace Library

/-! ### Targets tell their documents -/

/-- Documents go by uris without a fragment; others are refused. -/
structure IsPlain (lib : Library) : Prop where
  had : ∀ {uri : String} {doc : Value}, lib.fetch uri = .ok doc → '#' ∉ uri.toList
  refused : ∀ {uri : String} {fault : Fault}, lib.fetch uri = .error fault →
    ∃ fault', fault = .schema fault'

variable {lib : Library}

lemma IsPlain.of_meets (h : lib.IsPlain) {target uri : String} (hmeets : lib.Meets target uri) :
    (uri = lib.base ∨ '#' ∉ uri.toList) ∧ ∃ fragment, target = lib.targetAt uri fragment := by
  -- The base may be any text: its targets are named without it.
  let r : Reader :=
    { lib := lib
      known := fun uri _ => uri = lib.base ∨ '#' ∉ uri.toList
      target := fun _ => True
      reason := fun _ => True
      made := fun _ _ => True
      confined := ⟨.inl rfl, fun hfetch => .inr (h.had hfetch), fun hv _ => hv, id,
        fun _ _ _ => trivial⟩
      reasons := isReason_true lib
      forms := forms_true _
      enough := suffices_true lib }
  have hlink {link : Link} (hlink : link.IsIn lib r.known r.target) :
      (link.uri = lib.base ∨ '#' ∉ link.uri.toList) ∧
        ∃ fragment, link.target = lib.targetAt link.uri fragment := by
    obtain ⟨-, doc, _, fragment, hdoc, hplace⟩ := hlink
    obtain ⟨-, -, -, htarget⟩ := locate_eq_ok_iff.1 hplace
    exact ⟨hash_not_mem_of_locate hdoc hplace, fragment, htarget.symm⟩
  cases hmeets with
  | @component name hname =>
    refine ⟨.inl rfl, "/components/schemas/" ++ Pointer.escape name, ?_⟩
    rw [targetAt, if_pos rfl, ← String.append_assoc]
    rfl
  | route hmem => exact hlink (r.reads_readRoutes.noted _ hmem)
  | @inner target uri _ _ hmem => exact hlink ((r.reads_readAt target uri).noted _ hmem)

/-- Targets tell their documents, unless a document without a name is met that is not the base. -/
theorem isUnambiguous_of_isPlain (h : lib.IsPlain)
    (hnamed : lib.base = "" ∨ ∀ target, ¬ lib.Meets target "") : lib.IsUnambiguous := by
  intro target uri uri' hmeets hmeets'
  obtain ⟨huri, fragment, htarget⟩ := h.of_meets hmeets
  obtain ⟨huri', fragment', htarget'⟩ := h.of_meets hmeets'
  have hpart := (parts_targetAt huri fragment).1
  have hpart' := (parts_targetAt huri' fragment').1
  rw [← htarget] at hpart
  rw [← htarget', hpart] at hpart'
  have hempty {other : String} (hother : lib.Meets target other) (hne : other ≠ lib.base) :
      other ≠ "" := by
    rintro rfl
    obtain hbase | hnever := hnamed
    · exact hne hbase.symm
    · exact hnever target hother
  by_cases hbase : uri = lib.base <;> by_cases hbase' : uri' = lib.base
  · rw [hbase, hbase']
  · rw [if_pos hbase, if_neg hbase'] at hpart'
    exact absurd hpart'.symm (hempty hmeets' hbase')
  · rw [if_neg hbase, if_pos hbase'] at hpart'
    exact absurd hpart' (hempty hmeets hbase)
  · rw [if_neg hbase, if_neg hbase'] at hpart'
    exact hpart'.symm

end Library

/-! ### What is met -/

namespace Schema

variable {lib lib' : Library} {R : Role → String → Value → Value → Prop} {doc : Resolved}

section

variable (hlib : lib.Simulates lib' (fun _ => True) R)

variable {target uri : String}

include hlib

lemma readRoutes_of_simulates {routes : List (Route Node)}
    (h : (readRoutes lib).outcome = .ok routes) : readRoutes lib' = readRoutes lib := by
  obtain ⟨_, hroutes, rfl⟩ := carries_readRoutes hlib routes h fun _ _ => trivial
  rw [hroutes, ← h]

lemma readAt_of_simulates (hmeets : lib.Meets target uri) {node : Node}
    (h : (readAt lib target uri).outcome = .ok node) :
    readAt lib' target uri = readAt lib target uri := by
  obtain ⟨_, hread, rfl⟩ := carries_readAt hlib hmeets node h fun _ _ => trivial
  rw [hread, ← h]

variable (hnames : ∀ name, name ∈ lib'.componentNames ↔ name ∈ lib.componentNames)

include hnames

/-- Libraries that stand in for one another meet the same targets in the same documents. -/
lemma meets_iff_of_simulates (hdoc : doc.IsSourced lib) :
    lib'.Meets target uri ↔ lib.Meets target uri := by
  have hroutes := readRoutes_of_simulates hlib hdoc.routes
  constructor
  · intro h
    induction h with
    | component hname =>
      rw [hlib.base]
      exact .component ((hnames _).1 hname)
    | route hlink =>
      rw [hroutes] at hlink
      exact .route hlink
    | inner _ hlink ih =>
      obtain ⟨node, hnode⟩ := hdoc.met _ _ ih
      rw [readAt_of_simulates hlib ih hnode] at hlink
      exact .inner ih hlink
  · intro h
    induction h with
    | component hname =>
      rw [← hlib.base]
      exact .component ((hnames _).2 hname)
    | route hlink =>
      rw [← hroutes] at hlink
      exact .route hlink
    | inner hmeets hlink ih =>
      obtain ⟨node, hnode⟩ := hdoc.met _ _ hmeets
      rw [← readAt_of_simulates hlib hmeets hnode] at hlink
      exact .inner ih hlink

lemma isNameOf_iff_of_simulates {name : String} :
    lib'.IsNameOf target uri name ↔ lib.IsNameOf target uri name := by
  unfold Library.IsNameOf
  rw [locate_of_base hlib.base]
  simp only [hnames]

/-- Resolving does not depend on the order of components. -/
lemma exists_resolve_of_simulates (hunique : lib.IsUnambiguous) (hdoc : doc.IsSourced lib)
    (hmap : lib'.root.isMap) {entries' : List (Scalar × Value)}
    (hentries' : components lib'.root = .ok entries') (hroom : doc.keys.length ≤ lib'.limit) :
    ∃ doc', (resolve lib').outcome = .ok doc' ∧ doc'.IsSourced lib' ∧
      (∀ target, doc'.schema? target = doc.schema? target) ∧
      (∀ target, doc'.names.lookup target = doc.names.lookup target) ∧
      doc'.routes = doc.routes := by
  have hmeets {target uri : String} : lib'.Meets target uri ↔ lib.Meets target uri :=
    meets_iff_of_simulates hlib hnames hdoc
  have hroutes := readRoutes_of_simulates hlib hdoc.routes
  have hread {target uri : String} (h : lib.Meets target uri) :
      readAt lib' target uri = readAt lib target uri := by
    obtain ⟨node, hnode⟩ := hdoc.met target uri h
    exact readAt_of_simulates hlib h hnode
  have hroutes' : (readRoutes lib').outcome = .ok doc.routes := by
    rw [hroutes]
    exact hdoc.routes
  have hmet' (target uri : String) (h : lib'.Meets target uri) :
      ∃ node, (readAt lib' target uri).outcome = .ok node := by
    rw [hread (hmeets.1 h)]
    exact hdoc.met target uri (hmeets.1 h)
  have hkeys (target uri : String) (h : lib'.Meets target uri) : target ∈ doc.keys := by
    obtain ⟨node, hnode⟩ := hdoc.met target uri (hmeets.1 h)
    exact mem_map_of_mem (mem_of_lookup ((hdoc.schema_iff target node).2 ⟨uri, hmeets.1 h, hnode⟩))
  obtain ⟨doc', hresolve⟩ := exists_resolve_of_met hmap hentries' hroutes' hmet' hkeys hroom
  have hunique' : lib'.IsUnambiguous := fun target uri uri' h h' =>
    hunique target uri uri' (hmeets.1 h) (hmeets.1 h')
  have hdoc' := isSourced_of_resolve hunique' hresolve
  refine ⟨doc', hresolve, hdoc', fun target => ?_, fun target => ?_, ?_⟩
  · refine Option.ext fun node => ?_
    rw [hdoc'.schema_iff, hdoc.schema_iff]
    refine exists_congr fun uri => ?_
    rw [hmeets]
    refine and_congr_right fun h => ?_
    rw [hread h]
  · refine Option.ext fun name => ?_
    rw [hdoc'.name_iff, hdoc.name_iff]
    refine exists_congr fun uri => ?_
    rw [hmeets, isNameOf_iff_of_simulates hlib hnames]
  · exact Except.ok.inj (hdoc'.routes.symm.trans hroutes')

end

end Schema

/-! ### Component schemas in another order -/

namespace Library

/-- A library with other entries among its component schemas, and with another limit. -/
def withSchemas (lib : Library) (entries : List (Scalar × Value)) (limit : Nat) : Library :=
  { lib with root := lib.root.withSchemas entries, limit := limit }

/-- A part and what it is in the document with its component schemas in another order. Only what is
read by its keys can have changed. -/
def Reorders (role : Role) (_uri : String) (v v' : Value) : Prop :=
  v' = v ∨ role ∈ Role.schema :: Role.followed ∧ v.ReadsAs v'

lemma option_rel_reorders {role : Role} {uri : String} (found : Option Value) :
    Option.Rel (Reorders role uri) found found := by
  cases found with
  | none => exact .none
  | some v => exact .some (.inl rfl)

variable {lib : Library} {entries entries' : List (Scalar × Value)}
  (hschemas : (lib.root.get "components").get "schemas" = .map entries)
  (hperm : entries.Perm entries') (hkeys : (entries.map (·.1)).Nodup) {n : Nat}

include hschemas hperm hkeys

lemma exists_holds_withSchemas {uri fragment : String} {raw : Value}
    (h : lib.Holds uri fragment raw) :
    ∃ raw', (lib.withSchemas entries' n).Holds uri fragment raw' ∧ raw.ReadsAs raw' := by
  have hagrees := Value.agrees_withSchemas hschemas hperm hkeys
  unfold Holds lookup at h ⊢
  by_cases hbase : uri = lib.base
  · have hdocument : lib.document "" uri "" = pure lib.root := if_pos hbase
    have hdocument' : (lib.withSchemas entries' n).document "" uri "" =
        pure (lib.root.withSchemas entries') := if_pos hbase
    rw [hdocument, pure_bind] at h
    rw [hdocument', pure_bind]
    split at h
    next hempty =>
      cases h
      rw [if_pos hempty]
      exact ⟨_, rfl, (hagrees []).readsAs⟩
    next hempty =>
      rw [if_neg hempty]
      have hfollow := hagrees (Pointer.tokens fragment)
      generalize Pointer.follow lib.root (Pointer.tokens fragment) = found at h hfollow
      generalize Pointer.follow _ (Pointer.tokens fragment) = found' at hfollow ⊢
      cases hfollow with
      | same => exact ⟨raw, h, .refl raw⟩
      | found hv =>
        cases h
        exact ⟨_, rfl, hv⟩
  · have hdocument : (lib.withSchemas entries' n).document "" uri "" = lib.document "" uri "" := by
      unfold document
      rw [if_neg hbase, if_neg (show uri ≠ (lib.withSchemas entries' n).base from hbase)]
      rfl
    rw [hdocument]
    exact ⟨raw, h, .refl raw⟩

lemma simulates_withSchemas (hlimit : lib.limit ≤ n) :
    lib.Simulates (lib.withSchemas entries' n) (fun _ => True) Reorders where
  base := rfl
  limit := hlimit
  base_mem := trivial
  shell := by
    rintro role uri v v' (rfl | ⟨-, hv⟩)
    · rfl
    · obtain rfl | ⟨es, es', rfl, rfl⟩ := hv.kind <;> rfl
  data := by
    rintro uri v v' (rfl | ⟨hrole, -⟩)
    · rfl
    · exact absurd hrole (by decide)
  extra := by
    rintro uri v v' (rfl | ⟨hrole, -⟩)
    · rfl
    · exact absurd hrole (by decide)
  field := by
    rintro role part uri key v v' (rfl | ⟨hrole, hv⟩) hkey
    · exact option_rel_reorders _
    · have hfields : ∀ role ∈ Role.schema :: Role.followed, ∀ field ∈ role.fields,
          field.1 ∉ Value.hiddenKeys := by decide
      rw [hv.get? key (hfields role hrole _ hkey)]
      exact option_rel_reorders _
  member := by
    rintro role part uri es es' (heq | ⟨hrole, -⟩) hpart
    · cases heq
      exact forall₂_same.2 fun e _ => ⟨rfl, .inl rfl⟩
    · have hnone : ∀ role ∈ Role.schema :: Role.followed, role.member? = none := by decide
      cases (hnone role hrole).symm.trans hpart
  element := by
    rintro role part uri xs xs' (heq | ⟨hrole, -⟩) hpart
    · cases heq
      exact forall₂_same.2 fun x _ => .inl rfl
    · have hnone : ∀ role ∈ Role.schema :: Role.followed, role.element? = none := by decide
      cases (hnone role hrole).symm.trans hpart
  paths := by
    have hroot := (Value.agrees_withSchemas hschemas hperm hkeys []).readsAs
    show Option.Rel _ (lib.root.get? "paths") ((lib.root.withSchemas entries').get? "paths")
    rw [hroot.get? "paths" (by decide)]
    exact option_rel_reorders _
  referent := by
    intro role uri ref v v' raw place hrole _ _ _ _ hheld
    obtain ⟨raw', hheld', hraw⟩ := exists_holds_withSchemas hschemas hperm hkeys hheld
    exact ⟨raw', hheld', .inr ⟨mem_cons_of_mem _ hrole, hraw⟩⟩
  target := by
    intro target uri raw place _ _ _ hheld
    obtain ⟨raw', hheld', hraw⟩ := exists_holds_withSchemas hschemas hperm hkeys hheld
    exact ⟨raw', hheld', .inr ⟨mem_cons_self, hraw⟩⟩

end Library

/-- A document that resolves does so with its component schemas in any other order, to the same
schemas, names and routes: for each target that is met the schema that is read where it is met. -/
theorem Schema.resolve_withSchemas {lib : Library} {doc : Resolved}
    {entries entries' : List (Scalar × Value)}
    (hschemas : (lib.root.get "components").get "schemas" = .map entries)
    (hkeys : (entries.map (·.1)).Nodup) (hperm : entries.Perm entries')
    (hunique : lib.IsUnambiguous) (h : (resolve lib).outcome = .ok doc) {n : Nat}
    (hlimit : lib.limit ≤ n) (hroom : doc.keys.length ≤ n) :
    doc.IsSourced lib ∧ ∃ doc', (resolve (lib.withSchemas entries' n)).outcome = .ok doc' ∧
      doc'.IsSourced (lib.withSchemas entries' n) ∧
      (∀ target, doc'.schema? target = doc.schema? target) ∧
      (∀ target, doc'.names.lookup target = doc.names.lookup target) ∧
      doc'.routes = doc.routes := by
  have hdoc := isSourced_of_resolve hunique h
  refine ⟨hdoc, ?_⟩
  have hcomponents (root : Value) (es : List (Scalar × Value))
      (hes : (root.get "components").get "schemas" = .map es) : components root = .ok es := by
    obtain ⟨-, cs, hcs⟩ := Value.exists_entries_of_get hes nofun
    unfold components mappingAt
    rw [hcs] at hes ⊢
    dsimp only
    rw [hes]
  have hentries := hcomponents lib.root entries hschemas
  have hentries' : components (lib.withSchemas entries' n).root = .ok entries' := by
    refine hcomponents _ _ ?_
    show ((lib.root.withSchemas entries').get "components").get "schemas" = .map entries'
    rw [Value.withSchemas, Value.get_set, Value.get_set]
  refine exists_resolve_of_simulates (Library.simulates_withSchemas hschemas hperm hkeys hlimit)
    (fun name => ?_) hunique hdoc rfl hentries' hroom
  rw [Library.componentNames, hentries', Library.componentNames, hentries]
  exact ((hperm.map _).mem_iff).symm

/-- The schemas of the tree come out the same with the root in front. -/
theorem Schema.tree_resolve_withSchemas :
    let entries := ((treeRoot.get "components").get "schemas").entries
    ∃ doc, (resolve treeLibrary).outcome = .ok doc ∧ doc.IsSourced treeLibrary ∧
      ∃ doc', (resolve (treeLibrary.withSchemas entries.reverse 10)).outcome = .ok doc' ∧
        doc'.IsSourced (treeLibrary.withSchemas entries.reverse 10) ∧
        (∀ target, doc'.schema? target = doc.schema? target) ∧
        (∀ target, doc'.names.lookup target = doc.names.lookup target) ∧
        doc'.routes = doc.routes := by
  intro entries
  have hlength : (resolve treeLibrary).outcome.toOption.map (·.keys.length) = some 5 := by
    decide +kernel
  have hfetch {uri : String} {r : Except Fault Value} (h : treeLibrary.fetch uri = r) :
      ∃ fault, r = .error (.schema fault) :=
    ⟨_, h.symm⟩
  have hplain : treeLibrary.IsPlain := by
    constructor
    · intro uri doc h
      obtain ⟨fault, hfault⟩ := hfetch h
      cases hfault
    · intro uri fault h
      obtain ⟨fault', hfault⟩ := hfetch h
      cases hfault
      exact ⟨fault', rfl⟩
  have hunique := Library.isUnambiguous_of_isPlain hplain (.inl rfl)
  obtain ⟨doc, hdoc, hlength⟩ := Except.map_toOption_eq_some_iff.1 hlength
  have hroom : doc.keys.length ≤ 10 := by omega
  exact ⟨doc, hdoc, resolve_withSchemas rfl (by decide) (reverse_perm _).symm hunique hdoc
    (by decide +kernel) hroom⟩

end ApiSchema
