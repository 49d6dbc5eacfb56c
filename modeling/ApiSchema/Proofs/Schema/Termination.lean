import ApiSchema.Proofs.Meaning.Same
import ApiSchema.Proofs.Schema.Completeness

/-!
# Resolution comes to an end

References are followed from document to document, and each step allows for one target less. Main
statement: for every document and every table of further documents the limit of the library is
never reached, whatever cycles the references form. A higher limit gives the same resolution, and no
more targets are met than the limit says.
-/

namespace ApiSchema

open List Traced

/-- The same library with another limit. -/
def Library.withLimit (lib : Library) (n : Nat) : Library :=
  { lib with limit := n }

namespace Schema

/-! ### Targets that are met -/

/-- Targets in `M` were met, each of them once. -/
def Walk.Meets (M : String → Prop) (w : Walk) : Prop :=
  (w.names.map (·.1)).Nodup ∧ ∀ target ∈ w.names.map (·.1), M target

lemma Walk.Meets.introduce {M : String → Prop} {w : Walk} (h : w.Meets M) {target : String}
    (htarget : M target) (name : String) : (w.introduce target name).Meets M := by
  rw [Walk.introduce]
  split
  next => exact h
  next hnew =>
    have hnew : target ∉ w.names.map (·.1) := fun hmem => hnew (isSome_lookup_iff.2 hmem)
    refine ⟨?_, fun t ht => ?_⟩
    · rw [map_append]
      exact nodup_append.2 ⟨h.1, by simp, by grind⟩
    · rw [map_append, mem_append] at ht
      rcases ht with ht | ht
      · exact h.2 t ht
      · rwa [mem_singleton.1 ht]

section

variable {lib : Library} {K : String → Value → Prop} {M : String → Prop} {E : Fault → Prop}
  (hlib : lib.Confined K M) (hE : IsReason lib E) (hfuel : lib.Suffices M E)

include hlib hE hfuel

lemma stays_readRoutes :
    Reader.Reads ⟨lib, K, M, E, _, hlib, hE, forms_true K, hfuel⟩
      (fun links routes => Pieces (fun _ _ => True) links (routes.flatMap Route.nodes))
      (readRoutes lib) :=
  Reader.reads_readRoutes _

/-- A resolution meets the targets of its library only, and fails for the reasons that readings
have. -/
lemma steers_resolveAll
    (hcomponents : ∀ entries, components lib.root = .ok entries →
      ∀ entry ∈ entries, M (componentTarget entry.1.display)) :
    Steers (Walk.Meets M) E (fun routes => (readRoutes lib).outcome = .ok routes)
      (resolveAll lib) := by
  let r : Reader := ⟨lib, K, M, E, _, hlib, hE, forms_true K, hfuel⟩
  have hkeeps : r.Keeps (Walk.Meets M) := by
    refine ⟨fun uri w hw => ?_, fun _ _ hw => hw, fun htarget name w hw => ?_, fun _ _ _ _ _ hw => hw⟩
    · rw [Walk.openDocument]
      split <;> exact hw
    · exact hw.introduce htarget name
  exact hkeeps.steers_resolveAll hcomponents

end

/-! ### Higher limits -/

/-- The second reading does what the first one does, unless that comes to no end. -/
def Outlasts {α : Type} (x y : Reading α) : Prop :=
  x.outcome = .error .endless ∨ y = x

section

variable {α β : Type}

lemma outlasts_refl (x : Reading α) : Outlasts x x :=
  .inr rfl

lemma Outlasts.bind {x y : Reading α} {f g : α → Reading β} (hxy : Outlasts x y)
    (hfg : ∀ a, Outlasts (f a) (g a)) : Outlasts (x >>= f) (y >>= g) := by
  obtain ⟨trace, outcome⟩ := x
  rcases hxy with hx | rfl
  · cases hx
    exact .inl rfl
  · cases outcome with
    | error fault => exact .inr rfl
    | ok a =>
      rcases hfg a with ha | ha
      · exact .inl ha
      · refine .inr ?_
        show Traced.mk _ _ = Traced.mk _ _
        rw [ha]

lemma outlasts_foldlM {f g : α → β → Reading α} (hfg : ∀ a b, Outlasts (f a b) (g a b)) (a : α)
    (bs : List β) : Outlasts (bs.foldlM f a) (bs.foldlM g a) := by
  induction bs generalizing a with
  | nil => exact outlasts_refl _
  | cons b bs ih =>
    rw [foldlM_cons, foldlM_cons]
    exact (hfg a b).bind ih

end

section

variable {lib : Library} {l : Nat}

-- Reading a schema takes no account of the limit.
lemma read_withLimit : read (lib.withLimit l) = read lib := by
  have hwithin (doc : String) (n : Nat) :
      readWithin (lib.withLimit l) doc n = readWithin lib doc n := by
    induction n with
    | zero => rfl
    | succ n ih =>
      funext raw pointer
      rw [readWithin, ih]
      rfl
  funext doc raw pointer
  rw [read, hwithin, read]

lemma readParameterSchemas_withLimit :
    readParameterSchemas (lib.withLimit l) = readParameterSchemas lib := by
  funext ps
  induction ps with
  | nil => rfl
  | cons p ps ih => rw [readParameterSchemas, read_withLimit, ih, readParameterSchemas]

lemma readGroups_withLimit : readGroups (lib.withLimit l) = readGroups lib := by
  funext ps pointer locations
  induction locations with
  | nil => rfl
  | cons location locations ih =>
    rw [readGroups, readParameterSchemas_withLimit, ih, readGroups]

lemma outlasts_derefWithin {m n : Nat} (hmn : m ≤ n) (seen : List String) (part : Part) :
    Outlasts (part.derefWithin lib m seen) (part.derefWithin (lib.withLimit l) n seen) := by
  induction m generalizing n seen part with
  | zero => exact .inl rfl
  | succ m ih =>
    obtain ⟨n, rfl⟩ : ∃ k, n = k + 1 := ⟨n - 1, by omega⟩
    unfold Part.derefWithin
    split
    · refine (outlasts_refl _).bind fun place => ?_
      extract_lets next next'
      have hnext (_ : Unit) : Outlasts (next ()) (next' ()) :=
        (outlasts_refl _).bind fun raw => ih (by omega) _ _
      split
      · exact (outlasts_refl _).bind hnext
      · exact hnext ()
    · exact outlasts_refl _

variable (hl : lib.limit ≤ l)

include hl

lemma outlasts_deref (part : Part) : Outlasts (part.deref lib) (part.deref (lib.withLimit l)) :=
  outlasts_derefWithin (Nat.succ_le_succ hl) [] part

lemma outlasts_readParameter (entry : Part) :
    Outlasts (readParameter lib entry) (readParameter (lib.withLimit l) entry) :=
  (outlasts_deref hl entry).bind fun _ => outlasts_refl _

lemma outlasts_readParameterList (doc pointer : String) (i : Nat) (raws : List Value) :
    Outlasts (readParameterList lib doc pointer i raws)
      (readParameterList (lib.withLimit l) doc pointer i raws) := by
  induction raws generalizing i with
  | nil => exact outlasts_refl _
  | cons raw raws ih =>
    refine (outlasts_readParameter hl _).bind fun parameter => ?_
    exact (ih (i + 1)).bind fun _ => outlasts_refl _

lemma outlasts_readParameters (raw : Value) (doc pointer : String) :
    Outlasts (readParameters lib raw doc pointer)
      (readParameters (lib.withLimit l) raw doc pointer) := by
  unfold readParameters
  split
  · exact outlasts_refl _
  · exact (outlasts_readParameterList hl _ _ _ _).bind fun _ => outlasts_refl _
  · exact outlasts_refl _

lemma outlasts_readBody (operation : Value) (doc pointer : String) :
    Outlasts (readBody lib operation doc pointer)
      (readBody (lib.withLimit l) operation doc pointer) := by
  unfold readBody
  rw [read_withLimit]
  split
  · exact outlasts_refl _
  · exact (outlasts_deref hl _).bind fun _ => outlasts_refl _

lemma outlasts_readResponses (doc pointer : String) (entries : List (Scalar × Value)) :
    Outlasts (readResponses lib doc pointer entries)
      (readResponses (lib.withLimit l) doc pointer entries) := by
  induction entries with
  | nil => exact outlasts_refl _
  | cons entry entries ih =>
    have hentry (entry : Part) :
        Outlasts (readResponse lib entry) (readResponse (lib.withLimit l) entry) := by
      unfold readResponse
      rw [read_withLimit]
      exact (outlasts_deref hl entry).bind fun _ => outlasts_refl _
    exact (hentry _).bind fun node => ih.bind fun _ => outlasts_refl _

lemma outlasts_readOperation (path : String) (item : Part) (shared : List Parameter)
    (acc : Routing) (method : String × String) :
    Outlasts (readOperation lib path item shared acc method)
      (readOperation (lib.withLimit l) path item shared acc method) := by
  unfold readOperation
  rw [readGroups_withLimit]
  extract_lets operation key pointer next next'
  have hnext (_ : Unit) : Outlasts (next ()) (next' ()) := by
    refine (outlasts_readParameters hl _ _ _).bind fun own => ?_
    refine (outlasts_refl _).bind fun groups => ?_
    refine (outlasts_readBody hl _ _ _).bind fun body => ?_
    refine (outlasts_refl _).bind fun statuses => ?_
    exact (outlasts_readResponses hl _ _ _).bind fun _ => outlasts_refl _
  split
  · exact outlasts_refl _
  · split
    · exact (outlasts_refl _).bind hnext
    · exact hnext ()

lemma outlasts_readRoutes : Outlasts (readRoutes lib) (readRoutes (lib.withLimit l)) := by
  refine (outlasts_refl _).bind fun paths => ?_
  refine (outlasts_foldlM (fun acc entry => ?_) _ _).bind fun _ => outlasts_refl _
  refine (outlasts_deref hl _).bind fun item => ?_
  split
  · exact outlasts_refl _
  · refine (outlasts_readParameters hl _ _ _).bind fun shared => ?_
    exact outlasts_foldlM (outlasts_readOperation hl _ _ _) _ _

end

/-- The second step does what the first one does, unless that comes to no end. -/
def Outruns {α : Type} (x y : Resolving α) : Prop :=
  ∀ w, (x.run w).1 = .error .endless ∨ y.run w = x.run w

section

variable {α β : Type}

lemma outruns_refl (x : Resolving α) : Outruns x x :=
  fun _ => .inr rfl

lemma Outruns.bind {x y : Resolving α} {f g : α → Resolving β} (hxy : Outruns x y)
    (hfg : ∀ a, Outruns (f a) (g a)) : Outruns (x >>= f) (y >>= g) := by
  intro w
  show (ExceptT.bindCont f (x.run w).1 (x.run w).2).1 = _ ∨
    ExceptT.bindCont g (y.run w).1 (y.run w).2 = ExceptT.bindCont f (x.run w).1 (x.run w).2
  rcases hxy w with hx | hx
  · rw [hx]
    exact .inl rfl
  · rw [hx]
    generalize x.run w = result
    obtain ⟨outcome, w'⟩ := result
    cases outcome with
    | error fault => exact .inr rfl
    | ok a => exact hfg a w'

lemma outruns_forM {f g : α → Resolving Unit} (hfg : ∀ a, Outruns (f a) (g a)) (xs : List α) :
    Outruns (xs.forM f) (xs.forM g) := by
  induction xs with
  | nil => exact outruns_refl _
  | cons x xs ih => exact (hfg x).bind fun _ => ih

lemma outruns_meet {define define' : Link → Resolving Unit}
    (hdefine : ∀ link, Outruns (define link) (define' link)) (reading : Reading α) :
    Outruns (meet define reading) (meet define' reading) := by
  refine (outruns_forM (fun demand => ?_) _).bind fun _ => outruns_refl _
  cases demand with
  | document uri => exact outruns_refl _
  | schema link => exact hdefine link

end

lemma outruns_defineWithin {lib : Library} {l m n : Nat} (hmn : m ≤ n) (stack : List String)
    (link : Link) :
    Outruns (defineWithin lib m stack link) (defineWithin (lib.withLimit l) n stack link) := by
  induction m generalizing n stack link with
  | zero => exact fun _ => .inl rfl
  | succ m ih =>
    obtain ⟨n, rfl⟩ : ∃ k, n = k + 1 := ⟨n - 1, by omega⟩
    unfold defineWithin
    rw [read_withLimit]
    refine (outruns_refl _).bind fun w => ?_
    split
    · exact outruns_refl _
    · split
      · exact outruns_refl _
      · refine (outruns_refl _).bind fun place => ?_
        refine (outruns_refl _).bind fun raw => ?_
        refine (outruns_refl _).bind fun _ => ?_
        exact (outruns_meet (fun link => ih (by omega) _ link) _).bind fun _ => outruns_refl _

/-- A resolution that comes to an end is the same with any higher limit. -/
lemma resolve_withLimit {lib : Library} {l : Nat} (hl : lib.limit ≤ l)
    (hroutes : (readRoutes lib).outcome ≠ .error .endless)
    (hresolve : (resolve lib).outcome ≠ .error .endless) :
    resolve (lib.withLimit l) = resolve lib := by
  have hdefine (link : Link) : Outruns (define lib link) (define (lib.withLimit l) link) :=
    outruns_defineWithin (Nat.succ_le_succ hl) [] link
  have hsame : readRoutes (lib.withLimit l) = readRoutes lib :=
    (outlasts_readRoutes hl).resolve_left hroutes
  have hall : Outruns (resolveAll lib) (resolveAll (lib.withLimit l)) := by
    have hroot : (lib.withLimit l).root = lib.root := rfl
    unfold resolveAll
    rw [hsame, hroot]
    extract_lets next next'
    have hnext (_ : Unit) : Outruns (next ()) (next' ()) := by
      refine (outruns_refl _).bind fun entries => ?_
      refine (outruns_refl _).bind fun _ => ?_
      exact (outruns_forM (fun name => hdefine _) _).bind fun _ => outruns_meet hdefine _
    split
    · exact (outruns_refl _).bind hnext
    · exact hnext ()
  have hrun := (hall {}).resolve_left fun h => hresolve (outcome_resolve_eq_error_iff.2 h)
  rw [resolve, hrun, resolve]

end Schema

/-! ### Tables of documents -/

namespace Library

/-- The reference that an entry of a mapping holds, as written. -/
def ownRef (key : Scalar) : Value → List String
  | .str text => if key = .str "$ref" then [text] else []
  | _ => []

mutual

/-- The references in a value, as written. -/
def refTexts : Value → List String
  | .scalar _ => []
  | .list xs => refTextsItems xs
  | .tuple xs => refTextsItems xs
  | .map es => refTextsEntries es

def refTextsItems : List Value → List String
  | [] => []
  | x :: xs => refTexts x ++ refTextsItems xs

def refTextsEntries : List (Scalar × Value) → List String
  | [] => []
  | (k, v) :: rest => ownRef k v ++ refTexts v ++ refTextsEntries rest

end

lemma length_ownRef_le (key : Scalar) (v : Value) :
    (ownRef key v).length ≤ if key = .str "$ref" then 1 else 0 := by
  unfold ownRef
  split
  · split <;> simp
  · exact Nat.zero_le _

lemma length_refTexts_le (v : Value) : (refTexts v).length ≤ countRefs v := by
  induction v using Value.parts_induction with
  | step v ih =>
    have hitems {xs : List Value} (h : ∀ x ∈ xs, (refTexts x).length ≤ countRefs x) :
        (refTextsItems xs).length ≤ countRefsItems xs := by
      induction xs with
      | nil => exact le_rfl
      | cons x xs ih =>
        rw [refTextsItems, countRefsItems, length_append]
        exact Nat.add_le_add (h x mem_cons_self)
          (ih fun y hy => h y (mem_cons_of_mem _ hy))
    have hentries {es : List (Scalar × Value)}
        (h : ∀ x ∈ es.map (·.2), (refTexts x).length ≤ countRefs x) :
        (refTextsEntries es).length ≤ countRefsEntries es := by
      induction es with
      | nil => exact le_rfl
      | cons e es ih =>
        rw [refTextsEntries, countRefsEntries, length_append, length_append]
        refine Nat.add_le_add ?_ (ih fun y hy => h y (mem_cons_of_mem _ hy))
        exact Nat.add_le_add (length_ownRef_le e.1 e.2) (h e.2 mem_cons_self)
    cases v with
    | scalar s => exact Nat.zero_le _
    | list xs | tuple xs => exact hitems ih
    | map es => exact hentries ih

lemma refTexts_subset_of_mem_parts {v c : Value} (h : c ∈ v.parts) : refTexts c ⊆ refTexts v := by
  have hitems {xs : List Value} (h : c ∈ xs) : refTexts c ⊆ refTextsItems xs := by
    induction xs with
    | nil => cases h
    | cons x xs ih =>
      rw [refTextsItems]
      rcases mem_cons.1 h with rfl | h
      · exact subset_append_left _ _
      · exact subset_append_of_subset_right _ (ih h)
  have hentries {es : List (Scalar × Value)} (h : c ∈ es.map (·.2)) :
      refTexts c ⊆ refTextsEntries es := by
    induction es with
    | nil => cases h
    | cons e es ih =>
      rw [refTextsEntries]
      rcases mem_cons.1 h with rfl | h
      · exact subset_append_of_subset_left _ (subset_append_right _ _)
      · exact subset_append_of_subset_right _ (ih h)
  cases v with
  | scalar s => cases h
  | list xs | tuple xs => exact hitems h
  | map es => exact hentries h

lemma mem_refTexts {v : Value} {text : String} (h : v.get? "$ref" = some (.str text)) :
    text ∈ refTexts v := by
  have hentries {es : List (Scalar × Value)} (h : Value.find? (.str "$ref") es = some (.str text)) :
      text ∈ refTextsEntries es := by
    induction es with
    | nil => cases h
    | cons e es ih =>
      obtain ⟨k, v⟩ := e
      rw [Value.find?] at h
      split at h
      next hk =>
        obtain rfl := Option.some.inj h
        simp [refTextsEntries, ownRef, (Scalar.eq_str_iff_of_same hk).2 rfl]
      next =>
        rw [refTextsEntries]
        exact mem_append_right _ (ih h)
  cases v with
  | map es => exact hentries h
  | scalar _ | list _ | tuple _ => cases h

section

variable (base : String) (root : Value) (table : List (String × Value))

/-- The documents of a table. -/
def uris : List String :=
  base :: table.map (·.1)

/-- The references in the documents of a table. -/
def allTexts : List String :=
  refTexts root ++ table.flatMap fun entry => refTexts entry.2

/-- The targets that the documents of a table can refer to. -/
def allTargets : List String :=
  ((allTexts root table).flatMap fun text => (uris base table).filterMap fun uri =>
    ((ofTable base root table).locate text uri "").toOption.map (·.target)) ++
    ((root.get "components").get "schemas").entries.map fun entry =>
      Schema.componentTarget entry.1.display

/-- A value whose references are among those of a table. -/
def IsKnown (uri : String) (v : Value) : Prop :=
  uri ∈ uris base table ∧ refTexts v ⊆ allTexts root table

lemma length_allTargets_le :
    (allTargets base root table).length ≤ (ofTable base root table).limit := by
  have htexts : (allTexts root table).length ≤
      countRefs root + (table.map fun entry => countRefs entry.2).sum := by
    rw [allTexts, length_append, length_flatMap]
    refine Nat.add_le_add (length_refTexts_le root) (sum_le_sum fun entry _ => ?_)
    exact length_refTexts_le entry.2
  have hlocated : ((allTexts root table).flatMap fun text => (uris base table).filterMap fun uri =>
      ((ofTable base root table).locate text uri "").toOption.map (·.target)).length ≤
        (allTexts root table).length * (table.length + 1) := by
    rw [length_flatMap]
    have heach : ∀ n ∈ (allTexts root table).map (fun text =>
        ((uris base table).filterMap fun uri =>
          ((ofTable base root table).locate text uri "").toOption.map (·.target)).length),
        n ≤ table.length + 1 := by
      intro n hn
      obtain ⟨text, -, rfl⟩ := mem_map.1 hn
      refine (length_filterMap_le _ _).trans ?_
      simp [uris]
    simpa using sum_le_card_nsmul _ _ heach
  rw [allTargets, length_append, length_map]
  exact Nat.add_le_add (hlocated.trans (Nat.mul_le_mul_right _ htexts)) le_rfl

lemma confined_ofTable :
    (ofTable base root table).Confined (IsKnown base root table)
      (· ∈ allTargets base root table) where
  root := ⟨mem_cons_self, subset_append_left _ _⟩
  fetch := by
    intro uri doc h
    have hmem : (uri, doc) ∈ table := by
      simp only [ofTable] at h
      split at h
      next hlookup =>
        cases h
        exact mem_of_lookup hlookup
      next => cases h
    refine ⟨mem_cons_of_mem _ (mem_map.2 ⟨_, hmem, rfl⟩), ?_⟩
    intro text htext
    exact mem_append_right _ (mem_flatMap.2 ⟨_, hmem, htext⟩)
  part hv hc := ⟨hv.1, List.Subset.trans (refTexts_subset_of_mem_parts hc) hv.2⟩
  empty hv := ⟨hv.1, nil_subset _⟩
  target := by
    intro uri ref referrer v place hv href hplace
    refine mem_append_left _ (mem_flatMap.2 ⟨ref, hv.2 (mem_refTexts href), ?_⟩)
    refine mem_filterMap.2 ⟨uri, hv.1, ?_⟩
    rw [locate_referrer hplace]
    rfl

end

end Library

namespace Schema

variable {root : Value}

lemma mem_entries_of_components {entries : List (Scalar × Value)}
    (h : components root = .ok entries) {entry : Scalar × Value} (hentry : entry ∈ entries) :
    entry ∈ ((root.get "components").get "schemas").entries := by
  unfold components at h
  split at h
  next es hes =>
    rw [hes]
    unfold mappingAt at h
    split at h
    next hschemas =>
      cases h
      rwa [hschemas]
    next =>
      split at h <;> cases h
      cases hentry
  next =>
    cases h
    cases hentry

lemma schema_of_fetch {base : String} {table : List (String × Value)} {uri : String} {fault : Fault}
    (h : (Library.ofTable base root table).fetch uri = .error fault) : ∃ f, fault = .schema f := by
  simp only [Library.ofTable] at h
  split at h
  · cases h
  · cases h
    exact ⟨_, rfl⟩

/-- Readings of a table fail for many reasons, but they come to an end. -/
lemma isReason_ofTable (base : String) (root : Value) (table : List (String × Value)) :
    IsReason (Library.ofTable base root table) (· ≠ .endless) := by
  refine ⟨nofun, nofun, nofun, nofun, nofun, fun h => ?_⟩
  obtain ⟨f, rfl⟩ := schema_of_fetch h
  exact nofun

/-- Every resolution comes to an end: the limit of a library is never reached, a higher limit gives
the same resolution, and no more targets are met than the limit says. -/
theorem resolve_ofTable_ends (base : String) (root : Value) (table : List (String × Value)) :
    let lib := Library.ofTable base root table
    (resolve lib).outcome ≠ .error .endless ∧
      (∀ n, resolve (lib.withLimit (lib.limit + n)) = resolve lib) ∧
      ((resolveAll lib).run {}).2.names.length ≤ lib.limit := by
  intro lib
  have hlib := Library.confined_ofTable base root table
  have hE := isReason_ofTable base root table
  have hlimit := Library.length_allTargets_le base root table
  have hfuel : lib.Suffices (· ∈ Library.allTargets base root table) (· ≠ .endless) :=
    .inr ⟨_, fun _ => id, hlimit⟩
  have hcomponents (entries : List (Scalar × Value)) (h : components root = .ok entries)
      (entry : Scalar × Value) (hentry : entry ∈ entries) :
      componentTarget entry.1.display ∈ Library.allTargets base root table :=
    mem_append_right _ (mem_map.2 ⟨entry, mem_entries_of_components h hentry, rfl⟩)
  obtain ⟨⟨hnodup, hmet⟩, hfails, -⟩ :=
    steers_resolveAll hlib hE hfuel hcomponents {} ⟨nodup_nil, nofun⟩
  have hends : (resolve lib).outcome ≠ .error .endless := fun h =>
    hfails .endless (outcome_resolve_eq_error_iff.1 h) rfl
  have hroutes : (readRoutes lib).outcome ≠ .error .endless := fun h =>
    (stays_readRoutes hlib hE hfuel).failed .endless h rfl
  refine ⟨hends, fun n => resolve_withLimit (Nat.le_add_right _ n) hroutes hends, ?_⟩
  have hlength := (hnodup.subperm hmet).length_le
  rw [length_map] at hlength
  exact hlength.trans hlimit

end Schema

end ApiSchema
