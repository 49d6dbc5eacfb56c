import ApiSchema.Store.Source
import ApiSchema.Proofs.Store.FileTree
import ApiSchema.Proofs.Schema.Simulation
import ApiSchema.Proofs.Module.Failure

/-!
# Generating again

A module that was generated is generated again, with the same events, as long as the documents that
were read are still there; what else happens to the files does not matter.

Main statement: `Source.generate_of_keeps`.
-/

namespace ApiSchema

open List Schema Traced

lemma mem_trace_bind {w e α β : Type} {x : Traced w e α} {f : α → Traced w e β} {event : w}
    (h : event ∈ x.trace) : event ∈ (x >>= f).trace := by
  obtain ⟨trace, outcome⟩ := x
  cases outcome with
  | error err => exact h
  | ok a => exact mem_append_left _ h

/-! ### Libraries with the same documents -/

section

variable {lib : Library} {fetch : String → Except Fault Value}

lemma Library.holds_of_fetch {uri fragment : String} {raw : Value}
    (hfetch : uri = lib.base ∨ ∀ v, lib.fetch uri = .ok v → fetch uri = .ok v)
    (h : lib.Holds uri fragment raw) : { lib with fetch := fetch }.Holds uri fragment raw := by
  obtain ⟨doc, hdoc, hraw⟩ := outcome_bind_eq_ok_iff.1 h
  refine outcome_bind_eq_ok_iff.2 ⟨doc, ?_, hraw⟩
  unfold Library.document at hdoc ⊢
  split at hdoc
  next hbase =>
    rw [if_pos hbase]
    exact hdoc
  next hbase =>
    rw [if_neg hbase]
    obtain ⟨_, hnote, hdoc⟩ := outcome_bind_eq_ok_iff.1 hdoc
    refine outcome_bind_eq_ok_iff.2 ⟨_, hnote, ?_⟩
    split at hdoc
    · next doc' hdoc' =>
      dsimp only
      rw [hfetch.resolve_left hbase doc' hdoc']
      exact hdoc
    · cases hdoc
    · cases hdoc

lemma option_rel_same (x : Option Value) : Option.Rel (fun v v' => v' = v) x x := by
  cases x with
  | none => exact .none
  | some v => exact .some rfl

/-- A library may be replaced by one with the same documents, as far as they are opened. -/
lemma Library.simulates_of_fetch : lib.Simulates { lib with fetch := fetch }
    (fun uri => uri = lib.base ∨ ∀ v, lib.fetch uri = .ok v → fetch uri = .ok v)
    fun _ _ v v' => v' = v where
  base := rfl
  limit := le_rfl
  base_mem := .inl rfl
  shell h := congrArg _ h
  data h := h
  extra h := by rw [h]
  field := by
    rintro _ _ _ key v _ rfl _
    exact option_rel_same _
  member := by
    rintro _ _ _ es _ heq _
    cases heq
    exact forall₂_same.2 fun _ _ => ⟨rfl, rfl⟩
  element := by
    rintro _ _ _ xs _ heq _
    cases heq
    exact forall₂_same.2 fun _ _ => rfl
  paths := option_rel_same _
  referent _ _ _ _ huri hraw := ⟨_, Library.holds_of_fetch huri hraw, rfl⟩
  target _ _ huri hraw := ⟨_, Library.holds_of_fetch huri hraw, rfl⟩

lemma generate_of_resolve {lib' : Library} (h : resolve lib' = resolve lib) (config : Config) :
    generate lib' config = generate lib config := by
  unfold generate Generate.declarations Generate.resolved
  rw [h]

/-- The module of a document is generated again from any library in which the documents that were
opened are the same. -/
lemma generate_of_fetch {config : Config} {text : String}
    (h : (generate lib config).outcome = .ok text)
    (hfetch : ∀ uri v, .opened uri ∈ (generate lib config).trace → lib.fetch uri = .ok v →
      fetch uri = .ok v) :
    generate { lib with fetch := fetch } config = generate lib config := by
  obtain ⟨d, hd, -⟩ := outcome_bind_eq_ok_iff.1 h
  obtain ⟨doc, _, hdoc, -⟩ := Generate.exists_of_declarations hd
  obtain ⟨entries, hentries⟩ := exists_components_of_resolve hdoc
  have hopened (uri : String) (huri : uri ∈ (resolve lib).trace) :
      .opened uri ∈ (generate lib config).trace := by
    unfold generate Generate.declarations Generate.resolved
    exact mem_trace_bind (mem_trace_bind (mem_trace_bind (mem_map_of_mem huri)))
  have hD : ∀ uri ∈ (resolve lib).trace,
      uri = lib.base ∨ ∀ v, lib.fetch uri = .ok v → fetch uri = .ok v := by
    intro uri huri
    exact .inr fun v => hfetch uri v (hopened uri huri)
  have hnames : { lib with fetch := fetch }.componentNames = lib.componentNames := by
    unfold Library.componentNames
    rfl
  have hmap := isMap_of_resolve hdoc
  have hresolve : resolve { lib with fetch := fetch } = resolve lib := by
    exact resolve_of_simulates Library.simulates_of_fetch hdoc hD hmap hentries hnames
  exact generate_of_resolve hresolve config

end

namespace Source

/-! ### Documents of files -/

variable {w : World} {files : FileTree} {P : List String → Prop}

variable {v root : Value} {source base found text : String} {config : Config}

lemma exists_find_of_document {path : Path} (h : ((Cache.document files path).run {}).1 = .ok v) :
    ∃ node, files.find (.absolute (path.resolve files.current)) = .ok node := by
  cases hfind : files.find (.absolute (path.resolve files.current)) with
  | ok node => exact ⟨node, rfl⟩
  | error fault =>
    have hstamp : files.stamp (.absolute (path.resolve files.current)) = .error fault := by
      rw [FileTree.stamp, hfind]
      rfl
    unfold Cache.document at h
    simp only [hstamp] at h
    split at h
    · cases h
    · cases h

lemma document_of_find {path : Path} (hcurrent : files.current = w.files.current)
    (hfind : files.find (.absolute (path.resolve w.files.current)) =
      w.files.find (.absolute (path.resolve w.files.current))) :
    Cache.document files path = Cache.document w.files path := by
  unfold Cache.document Document.ofFile FileTree.stamp FileTree.read
  simp only [hcurrent, hfind]

/-- The place of the file that a source denotes. -/
def place? (files : FileTree) (source : String) : Option (List String) :=
  if isRemote source then none
  else match path source with
    | .ok p => some (p.resolve files.current)
    | .error _ => none

/-- A document is loaded again as long as its file is kept. -/
lemma load_of_keeps (hkeeps : w.files.Keeps P files)
    (hP : ∀ place, place? w.files source = some place → P place) (h : load w source = .ok v) :
    load { w with files := files } source = .ok v := by
  unfold load document at h ⊢
  unfold place? at hP
  split at h
  · next hremote =>
    rw [if_pos hremote]
    exact h
  next hremote =>
  rw [if_neg hremote] at hP ⊢
  split at h
  · next p hp =>
    simp only [hp] at hP ⊢
    obtain ⟨node, hnode⟩ := exists_find_of_document h
    have hreach : P (w.files.reach (.absolute (p.resolve w.files.current))) := by
      rw [FileTree.reach_absolute_resolve]
      exact hP _ rfl
    rw [document_of_find hkeeps.current ((hkeeps.find hreach hnode).trans hnode.symm)]
    exact h
  · cases h

/-! ### Modules -/

/-- The places of the files that are read when a module is generated: that of the document itself
and those of the documents opened. -/
def placesRead (w : World) (source : String) (config : Config) : List (List String) :=
  let opened := (generate w source config).trace.filterMap fun event =>
    match event with
    | .opened uri => some uri
    | _ => none
  (source :: opened).filterMap (place? w.files)

lemma mem_noteFetches {uri : String} (hfound : target base uri = .ok found) {events : List Event}
    (h : .opened uri ∈ events) (fetched : List String) :
    .opened found ∈ noteFetches base fetched events := by
  fun_induction noteFetches base fetched events with
  | case1 => cases h
  | case2 fetched uri' rest fault hfault ih =>
    obtain heq | h := mem_cons.1 h
    · cases heq
      cases hfault.symm.trans hfound
    · exact ih h
  | case3 fetched uri' rest found' hfound' _ ih =>
    obtain heq | h := mem_cons.1 h
    · cases heq
      cases hfound'.symm.trans hfound
      exact mem_cons_self
    · exact mem_cons_of_mem _ (mem_cons_of_mem _ (ih h))
  | case4 fetched uri' rest found' hfound' _ ih =>
    obtain heq | h := mem_cons.1 h
    · cases heq
      cases hfound'.symm.trans hfound
      exact mem_cons_self
    · exact mem_cons_of_mem _ (ih h)
  | case5 fetched event rest hevent ih =>
    obtain heq | h := mem_cons.1 h
    · exact absurd heq.symm (hevent uri)
    · exact mem_cons_of_mem _ (ih h)

lemma generate_eq (hroot : load w source = .ok root) (hbase : baseUri w.files source = .ok base)
    (config : Config) :
    generate w source config =
      let fetched := if isRemote source then [source] else []
      let run := ApiSchema.generate (library w base root) config
      fetched.forM (fun url => Traced.note (.fetched url)) >>= fun _ =>
        ⟨noteFetches base fetched run.trace, run.outcome⟩ := by
  unfold generate
  rw [hroot, hbase]
  rfl

lemma exists_of_generate (h : (generate w source config).outcome = .ok text) :
    ∃ root base, load w source = .ok root ∧ baseUri w.files source = .ok base ∧
      (ApiSchema.generate (library w base root) config).outcome = .ok text := by
  obtain ⟨_, -, h⟩ := outcome_bind_eq_ok_iff.1 h
  obtain ⟨root, hroot, h⟩ := outcome_bind_eq_ok_iff.1 h
  obtain ⟨base, hbase, h⟩ := outcome_bind_eq_ok_iff.1 h
  exact ⟨root, base, hroot, hbase, h⟩

lemma mem_trace_generate (hroot : load w source = .ok root)
    (hbase : baseUri w.files source = .ok base) {uri : String}
    (h : .opened uri ∈ (ApiSchema.generate (library w base root) config).trace)
    (hfound : target base uri = .ok found) : .opened found ∈ (generate w source config).trace := by
  rw [generate_eq hroot hbase]
  dsimp only
  generalize ApiSchema.generate (library w base root) config = run at h ⊢
  split
  · exact mem_cons_of_mem _ (mem_noteFetches hfound h _)
  · exact mem_noteFetches hfound h _

/-- A module that was generated is generated again, with the same events, as long as the files that
were read are kept. -/
theorem generate_of_keeps (h : (generate w source config).outcome = .ok text)
    (hkeeps : w.files.Keeps (· ∈ placesRead w source config) files) :
    generate { w with files := files } source config = generate w source config := by
  obtain ⟨root, base, hroot, hbase, h⟩ := exists_of_generate h
  have hplace {found : String} (hfound : found = source ∨
      .opened found ∈ (generate w source config).trace) (place : List String)
      (hplace : place? w.files found = some place) : place ∈ placesRead w source config := by
    refine mem_filterMap.2 ⟨found, ?_, hplace⟩
    obtain rfl | hfound := hfound
    · exact mem_cons_self
    · exact mem_cons_of_mem _ (mem_filterMap.2 ⟨_, hfound, rfl⟩)
  have hroot' : load { w with files := files } source = .ok root :=
    load_of_keeps hkeeps (hplace (.inl rfl)) hroot
  have hbase' : baseUri files source = .ok base := by
    rw [← hbase, baseUri, baseUri, hkeeps.current]
  have hfetch (uri : String) (v : Value)
      (hopened : .opened uri ∈ (ApiSchema.generate (library w base root) config).trace)
      (hv : target base uri >>= load w = .ok v) :
      target base uri >>= load { w with files := files } = .ok v := by
    obtain ⟨found, hfound, hv⟩ := Except.bind_eq_ok_iff.1 hv
    have hmem := mem_trace_generate hroot hbase hopened hfound
    exact Except.bind_eq_ok_iff.2 ⟨found, hfound, load_of_keeps hkeeps (hplace (.inr hmem)) hv⟩
  have hlib : library { w with files := files } base root =
      { library w base root with fetch := (target base · >>= load { w with files := files }) } :=
    rfl
  rw [generate_eq hroot hbase, generate_eq hroot' hbase', hlib, generate_of_fetch h hfetch]

end Source

end ApiSchema
