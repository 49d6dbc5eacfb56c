import ApiSchema.Schema.Resolve
import ApiSchema.Proofs.Uri.Join

/-!
# Where references lead

A reference is located from the document it stands in. When its schema is read, the target is
located once more, from the document it was found in, while a reference to a part of a route is
looked up where it was located. Main statement: the second location is the first one exactly where
the uri of the document is joined to itself without change, which is so for all that is reached from
an absolute base in its scheme and for plain names of files, and not for a relative path with a
directory in it.
-/

namespace ApiSchema

open List

namespace Library

/-! ### Parts of a reference -/

/-- The document that a reference names, as written. -/
def documentPart (ref : String) : String :=
  String.ofList (Text.cutAt '#' ref.toList).1

/-- The fragment of a reference. -/
def fragmentPart (ref : String) : String :=
  String.ofList ((Text.cutAt '#' ref.toList).2.getD [])

/-- The document that a name denotes in another one. -/
def documentBeside (doc part : String) : Except String String :=
  if part = "" then .ok doc else if doc = "" then .ok part else Uri.join doc part

/-- The name of a target by its document and fragment. -/
def targetAt (lib : Library) (uri fragment : String) : String :=
  if uri = lib.base then "#" ++ fragment else uri ++ "#" ++ fragment

variable {lib : Library} {ref doc uri fragment referrer : String} {place : Location}

lemma locate_eq (lib : Library) (ref doc referrer : String) : lib.locate ref doc referrer =
    match documentBeside doc (documentPart ref) with
    | .error problem => .error (.malformedUri problem)
    | .ok uri =>
      if !(fragmentPart ref).isEmpty && !Text.hasPrefix "/" (fragmentPart ref) then
        .error (.unresolved ref referrer)
      else .ok ⟨lib.targetAt uri (fragmentPart ref), uri, fragmentPart ref⟩ := by
  have hbeside : documentBeside doc (documentPart ref) =
      if (Text.cutAt '#' ref.toList).1.isEmpty then .ok doc
      else if doc.isEmpty then .ok (String.ofList (Text.cutAt '#' ref.toList).1)
      else Uri.join doc (String.ofList (Text.cutAt '#' ref.toList).1) := by
    simp [documentBeside, documentPart]
  rw [hbeside]
  rfl

lemma locate_eq_ok_iff : lib.locate ref doc referrer = .ok place ↔
    documentBeside doc (documentPart ref) = .ok place.uri ∧ fragmentPart ref = place.fragment ∧
      (place.fragment = "" ∨ Text.hasPrefix "/" place.fragment) ∧
      lib.targetAt place.uri place.fragment = place.target := by
  rw [locate_eq]
  obtain ⟨target, uri, fragment⟩ := place
  cases documentBeside doc (documentPart ref) with
  | error problem => simp
  | ok found =>
    dsimp only
    constructor
    · intro h
      split at h
      next => cases h
      next hallowed =>
        cases h
        refine ⟨rfl, rfl, ?_, rfl⟩
        simpa [or_iff_not_imp_left] using hallowed
    · rintro ⟨⟨⟩, rfl, hallowed, rfl⟩
      rw [if_neg]
      simpa [or_iff_not_imp_left] using hallowed

lemma hash_not_mem_documentPart (ref : String) : '#' ∉ (documentPart ref).toList := by
  rw [documentPart, String.toList_ofList]
  obtain ⟨hnot, hcut⟩ | ⟨before, after, hnot, -, hcut⟩ := Text.cutAt_cases '#' ref.toList
  · rwa [hcut]
  · rwa [hcut]

lemma parts_targetAt (huri : uri = lib.base ∨ '#' ∉ uri.toList) (fragment : String) :
    documentPart (lib.targetAt uri fragment) = (if uri = lib.base then "" else uri) ∧
      fragmentPart (lib.targetAt uri fragment) = fragment := by
  have hcut : Text.cutAt '#' (lib.targetAt uri fragment).toList =
      ((if uri = lib.base then "" else uri).toList, some fragment.toList) := by
    unfold targetAt
    split
    next =>
      rw [String.toList_append]
      exact Text.cutAt_append not_mem_nil _
    next hbase =>
      rw [String.toList_append, String.toList_append, append_assoc]
      exact Text.cutAt_append (huri.resolve_left hbase) _
  constructor
  · rw [documentPart, hcut, String.ofList_toList]
  · rw [fragmentPart, hcut]
    exact String.ofList_toList

/-- A document whose targets are located in it again. -/
def IsFirm (lib : Library) (uri : String) : Prop :=
  uri = lib.base ∨ uri = "" ∨ Uri.join uri uri = .ok uri

lemma locate_target_iff (huri : place.uri = lib.base ∨ '#' ∉ place.uri.toList)
    (h : lib.locate ref doc referrer = .ok place) (referrer' : String) :
    lib.locate place.target place.uri referrer' = .ok place ↔ lib.IsFirm place.uri := by
  obtain ⟨-, -, hfragment, htarget⟩ := locate_eq_ok_iff.1 h
  obtain ⟨hdocument, hfragment'⟩ := parts_targetAt huri place.fragment
  rw [locate_eq_ok_iff, ← htarget, hdocument, hfragment']
  have hrest : place.fragment = place.fragment ∧
      (place.fragment = "" ∨ Text.hasPrefix "/" place.fragment) ∧
      lib.targetAt place.uri place.fragment = lib.targetAt place.uri place.fragment :=
    ⟨rfl, hfragment, rfl⟩
  rw [and_iff_left hrest, documentBeside, IsFirm]
  by_cases hbase : place.uri = lib.base
  · simp [hbase]
  · by_cases hempty : place.uri = ""
    · simp [hempty]
    · simp [hbase, hempty]

/-! ### Reachable documents -/

/-- The documents that references lead to from the base, as long as `follows` holds of the document
that a reference stands in and the document it names. -/
inductive Reaches (lib : Library) (follows : String → String → Prop) : String → Prop
  | base : Reaches lib follows lib.base
  | step {doc ref referrer : String} {place : Location} (hdoc : Reaches lib follows doc)
      (hfollows : follows doc (documentPart ref))
      (hplace : lib.locate ref doc referrer = .ok place) : Reaches lib follows place.uri

lemma hash_not_mem_of_locate (hdoc : doc = lib.base ∨ '#' ∉ doc.toList)
    (h : lib.locate ref doc referrer = .ok place) :
    place.uri = lib.base ∨ '#' ∉ place.uri.toList := by
  obtain ⟨hbeside, -⟩ := locate_eq_ok_iff.1 h
  have hpart := hash_not_mem_documentPart ref
  unfold documentBeside at hbeside
  split at hbeside
  · cases hbeside
    exact hdoc
  next hne =>
    split at hbeside
    next =>
      rw [← Except.ok.inj hbeside]
      exact .inr hpart
    next hdoc => exact .inr (Uri.hash_not_mem_join hdoc hne hpart hbeside)

lemma Reaches.hash_not_mem {follows : String → String → Prop} (h : lib.Reaches follows uri) :
    uri = lib.base ∨ '#' ∉ uri.toList := by
  induction h with
  | base => exact .inl rfl
  | step _ _ hplace ih => exact hash_not_mem_of_locate ih hplace

/-- A document part that names a document the way its own document is named: not at all, by the
plain name of a file beside another one, or in the scheme of an absolute uri; or one that is itself
absolute, in another scheme. -/
inductive Keeps (doc : String) : String → Prop
  | inside : Keeps doc ""
  | file {part : String} (hdoc : doc = "" ∨ Uri.IsFileName doc) (hpart : Uri.IsFileName part) :
      Keeps doc part
  | scheme {part : String} {b r : Uri} (hb : Uri.split doc "" = .ok b) (habsolute : b.IsAbsolute)
      (hr : Uri.split part b.scheme = .ok r) (hscheme : r.scheme = b.scheme) : Keeps doc part
  | elsewhere {u : Uri} (hu : u.IsAnchor) (hwritten : u.scheme ≠ "")
      (hscheme : ∀ b, Uri.split doc "" = .ok b → b.scheme ≠ u.scheme) : Keeps doc u.text

lemma isFirm_of_keeps {part : String} (hdoc : lib.IsFirm doc) (hkeeps : Keeps doc part)
    (hhash : '#' ∉ part.toList) (h : documentBeside doc part = .ok uri) : lib.IsFirm uri := by
  unfold documentBeside at h
  split at h
  · cases h
    exact hdoc
  next hne =>
    refine .inr (.inr ?_)
    cases hkeeps with
    | inside => exact absurd rfl hne
    | file hdoc hpart =>
      have hjoin {base : String} (hbase : Uri.IsFileName base) : Uri.join base part = .ok part :=
        @Uri.join_relative part [] [] base (by simpa using hbase) (by simpa using hpart)
      have heq : part = uri := by
        split at h
        next => exact Except.ok.inj h
        next hempty => exact Except.ok.inj ((hjoin (hdoc.resolve_left hempty)).symm.trans h)
      exact heq ▸ hjoin hpart
    | scheme hb habsolute hr hscheme =>
      rw [if_neg (habsolute.ne_empty hb)] at h
      obtain ⟨u, hu, hjoin⟩ := Uri.exists_isAnchor_of_join hb habsolute hr hscheme hhash hne
      cases hjoin.symm.trans h
      exact hu.join_self
    | @elsewhere u hu hwritten hscheme =>
      have heq : u.text = uri := by
        split at h
        next => exact Except.ok.inj h
        next hempty =>
          obtain ⟨b, r, hb, -⟩ := Uri.exists_split_of_join hempty hne h
          exact Except.ok.inj ((hu.join_of_ne hwritten hempty hb (hscheme b hb)).symm.trans h)
      exact heq ▸ hu.join_self

lemma Reaches.isFirm (h : lib.Reaches Keeps doc) : lib.IsFirm doc := by
  induction h with
  | base => exact .inl rfl
  | step _ hkeeps hplace ih =>
    exact isFirm_of_keeps ih hkeeps (hash_not_mem_documentPart _) (locate_eq_ok_iff.1 hplace).1

/-- A relative path is joined to itself without change just if it is the plain name of a file. -/
lemma isFirm_relative_iff {segments : List String} {file : String}
    (h : ∀ s ∈ segments ++ [file], Uri.IsFileName s) :
    lib.IsFirm (Text.join "/" (segments ++ [file])) ↔
      Text.join "/" (segments ++ [file]) = lib.base ∨ segments = [] := by
  have hne (l : List String) : l ++ [file] ≠ [] := by simp
  have hempty := Uri.join_ne_empty_of_segments h (hne _)
  have hjoin := Uri.join_relative h h
  refine or_congr_right ⟨fun hfirm => ?_, fun hnil => .inr ?_⟩
  · have heq : Text.join "/" (segments ++ segments ++ [file]) = Text.join "/" (segments ++ [file]) :=
      Except.ok.inj (hjoin.symm.trans (hfirm.resolve_left hempty))
    have hall : ∀ s ∈ segments ++ segments ++ [file], Uri.IsFileName s := by
      simpa using h
    have hsegments : segments ++ segments ++ [file] = segments ++ [file] := by
      rw [← Uri.split_segments hall (hne _), heq, Uri.split_segments h (hne _)]
    simpa using hsegments
  · rw [hjoin, hnil]
    rfl

end Library

/-! ### Reading where a reference leads -/

namespace Schema

open Library

/-- Read the schema at a place, of a target that is neither read nor being read. -/
def defineAt (lib : Library) (n : Nat) (stack : List String) (ref referrer : String)
    (place : Location) : Resolving Unit := do
  let ref := if ref.isEmpty then place.target else ref
  let raw ← meet (fun _ => pure ()) (lib.lookup ref place.uri place.fragment referrer)
  modify (Walk.introduce place.target (targetName place))
  let node ← meet (defineWithin lib n (stack ++ [place.target]))
    (read lib place.uri raw place.target)
  modify (Walk.record place.target node)

variable {lib : Library} {ref doc referrer : String} {place : Location}

lemma defineWithin_eq_defineAt {stack : List String} {walk : Walk} (n : Nat)
    (hplace : lib.locate place.target place.uri referrer = .ok place)
    (hdefined : walk.isDefined place.target = false) (hstack : place.target ∉ stack) :
    (defineWithin lib (n + 1) stack ⟨place.target, place.uri, ref, referrer⟩).run walk =
      (defineAt lib n stack ref referrer place).run walk := by
  change (if walk.isDefined place.target = true then pure ()
    else if stack.contains place.target = true then _
    else _ : Resolving Unit).run walk = _
  rw [if_neg (by simp [hdefined]), if_neg (by simpa using hstack), hplace]
  rfl

/-- Where a reference leads: the target is located again at its place just if its document is firm.
Then the schema is read from what stands at the place, which is also what a reference to a part of a
route comes to. All documents that are named the way their referrers are named are firm; of relative
paths, only plain names of files are. -/
theorem target_relocates_iff (hdoc : lib.Reaches (fun _ _ => True) doc)
    (hplace : lib.locate ref doc referrer = .ok place) :
    (lib.locate place.target place.uri referrer = .ok place ↔ lib.IsFirm place.uri) ∧
    (lib.IsFirm place.uri → ∀ (n : Nat) (stack : List String) (walk : Walk),
      walk.isDefined place.target = false → place.target ∉ stack →
      (defineWithin lib (n + 1) stack ⟨place.target, place.uri, ref, referrer⟩).run walk =
        (defineAt lib n stack ref referrer place).run walk) ∧
    (∀ (n : Nat) (seen : List String) (raw : Value), raw.get? "$ref" = some (.str ref) →
      place.target ∉ seen → Part.derefWithin lib (n + 1) seen ⟨raw, doc, referrer⟩ = do
        let raw ← lib.lookup ref place.uri place.fragment referrer
        Part.derefWithin lib n (place.target :: seen) ⟨raw, place.uri, place.target⟩) ∧
    (lib.Reaches Keeps doc → Keeps doc (documentPart ref) → lib.IsFirm place.uri) ∧
    ∀ (segments : List String) (file : String), (∀ s ∈ segments ++ [file], Uri.IsFileName s) →
      place.uri = Text.join "/" (segments ++ [file]) →
      (lib.IsFirm place.uri ↔ place.uri = lib.base ∨ segments = []) := by
  have hrelocates := locate_target_iff (hash_not_mem_of_locate hdoc.hash_not_mem hplace) hplace
  refine ⟨hrelocates referrer, ?_, ?_, ?_, ?_⟩
  · intro hfirm n stack walk hdefined hstack
    exact defineWithin_eq_defineAt n ((hrelocates referrer).2 hfirm) hdefined hstack
  · intro n seen raw href hseen
    have hnot : seen.contains place.target = false := by simpa using hseen
    simp only [Part.derefWithin, href, hplace, Traced.ofExcept, Traced.bind_ok, hnot,
      Bool.false_eq_true, if_false, nil_append]
  · intro hreaches hkeeps
    exact (Reaches.step hreaches hkeeps hplace).isFirm
  · intro segments file hnames heq
    rw [heq]
    exact isFirm_relative_iff hnames

/-- From a document on the web, a file in a directory beside it is located again at its place. -/
theorem web_target_relocates :
    let lib := ofTable "https://host/api/root.yaml" (.map []) []
    let place : Location := ⟨"https://host/api/models/pet.yaml#/Pet",
      "https://host/api/models/pet.yaml", "/Pet"⟩
    lib.locate "models/pet.yaml#/Pet" "https://host/api/root.yaml" "" = .ok place ∧
      lib.locate place.target place.uri "" = .ok place := by
  have hplace : (ofTable "https://host/api/root.yaml" (.map []) []).locate "models/pet.yaml#/Pet"
      "https://host/api/root.yaml" "" = .ok ⟨"https://host/api/models/pet.yaml#/Pet",
        "https://host/api/models/pet.yaml", "/Pet"⟩ := by
    rfl
  have hkeeps : Keeps "https://host/api/root.yaml" (documentPart "models/pet.yaml#/Pet") := by
    have hb : Uri.split "https://host/api/root.yaml" "" =
        .ok ⟨"https", "host", "/api/root.yaml", "", "", ""⟩ := rfl
    have hr : Uri.split "models/pet.yaml" "https" =
        .ok ⟨"https", "", "models/pet.yaml", "", "", ""⟩ := rfl
    have hpart : documentPart "models/pet.yaml#/Pet" = "models/pet.yaml" := by decide +kernel
    have hwritten : "host" ≠ "" := by decide
    rw [hpart]
    exact .scheme hb ⟨by decide, by decide, .inl hwritten, fun h => absurd h hwritten⟩ hr rfl
  have hfirm := (target_relocates_iff .base hplace).2.2.2.1 .base hkeeps
  exact ⟨hplace, (target_relocates_iff .base hplace).1.2 hfirm⟩

-- Without a base, a file in a directory is sought in a directory of that directory.
example : Uri.join "models/pet.yaml" "models/pet.yaml" = .ok "models/models/pet.yaml" := by
  decide +kernel

end Schema

end ApiSchema
