import ApiSchema.Proofs.Uri.Path

/-!
# Joining references

A reference that was joined to a base may be joined to itself later. Main statements: that changes
nothing where the base has a place for an authority and the reference stays in its scheme, and where
both are plain names of files.
-/

namespace ApiSchema.Uri

open List Text

variable {u b r : Uri} {ref uri name : String}

/-! ### Rooted paths -/

/-- The components with the slash that text puts in front of the path. -/
def rooted (u : Uri) : Uri :=
  if (u.path.isEmpty && u.params.isEmpty) || hasPrefix "/" u.path then u
  else { u with path := "/" ++ u.path }

lemma isRooted_rooted (u : Uri) : u.rooted.IsRooted := by
  unfold rooted
  split
  next h =>
    rw [IsRooted]
    simpa using h
  next => exact .inr (hasPrefix_slash_iff.2 ⟨u.path.toList, by simp⟩)

lemma lastPart_cons (sep : Char) (cs : List Char) : lastPart sep (sep :: cs) = lastPart sep cs := by
  obtain ⟨hnot, heq⟩ | ⟨before, last, hnot, rfl, heq⟩ := lastPart_cases sep cs
  · rw [heq]
    exact lastPart_append hnot []
  · rw [heq]
    exact lastPart_append hnot (sep :: before)

lemma IsSound.rooted (h : u.IsSound) : u.rooted.IsSound := by
  unfold Uri.rooted
  split
  next => exact h
  next =>
    refine ⟨fun c hc => ?_, h.authority, h.problem, ?_, h.params, h.query, ?_, h.bare⟩
    · have hblank := h.blank c
      simp only [String.toList_append, mem_append] at hc hblank
      obtain hc | (hc | hc) | hc := hc
      · exact hblank (.inl hc)
      · rw [mem_singleton.1 hc]
        decide
      · exact hblank (.inr (.inl hc))
      · exact hblank (.inr (.inr hc))
    · simpa using h.path
    · intro hscheme
      have hlast := h.last hscheme
      simpa [lastPart_cons] using hlast

lemma text_rooted (hwrites : u.WritesAuthority) : u.rooted.text = u.text := by
  unfold rooted
  split
  next => rfl
  next hnot =>
    have hslash (s : String) : hasPrefix "/" ("/" ++ s) = true :=
      hasPrefix_slash_iff.2 ⟨s.toList, by simp⟩
    simp only [Bool.or_eq_true, not_or] at hnot
    simp only [text, hwrites.writes, Bool.true_or, if_true]
    have hpath : hasPrefix "/" u.path = false := by simpa using hnot.2
    by_cases hparams : u.params = ""
    · have hne : u.path.isEmpty = false := by simpa [hparams] using hnot.1
      simp [hparams, hslash, hne, hpath]
    · have hlong : hasPrefix "/" (u.path ++ (";" ++ u.params)) = false := by
        cases hcs : u.path.toList with
        | nil => simp [hasPrefix, hcs, List.isPrefixOf]
        | cons c cs => simpa [hasPrefix, hcs, List.isPrefixOf] using hpath
      simp [hparams, hslash, hlong, String.append_assoc]

/-! ### Components of a joined reference -/

/-- The authority of the base, where the scheme has one. -/
def authorityBeside (b r : Uri) : String :=
  if authoritySchemes.contains r.scheme then b.authority else r.authority

/-- The components that a reference denotes, beside those of its base. -/
def beside (b r : Uri) : Uri :=
  if authoritySchemes.contains r.scheme && !r.authority.isEmpty then r
  else if r.path.isEmpty && r.params.isEmpty then
    { r with
      authority := b.authorityBeside r
      path := b.path
      params := b.params
      query := if r.query.isEmpty then b.query else r.query }
  else { r with authority := b.authorityBeside r, path := joinPath b.path r.path }

lemma join_of_split {base : String} (hbase : base ≠ "") (href : ref ≠ "")
    (hb : split base "" = .ok b) (hr : split ref b.scheme = .ok r) :
    join base ref = .ok (if r.scheme ≠ b.scheme ∨ r.scheme ∉ relativeSchemes then ref
      else (b.beside r).text) := by
  have hbase : base.isEmpty = false := by simpa using hbase
  have href : ref.isEmpty = false := by simpa using href
  have hcontains : (!relativeSchemes.contains r.scheme) = true ↔ r.scheme ∉ relativeSchemes := by
    simp
  unfold join
  simp only [hbase, href, hb, hr, hcontains, bind, Except.bind, pure, Except.pure, beside,
    authorityBeside, Bool.false_eq_true, if_false]
  split
  · rfl
  · split
    · rfl
    · split
      · rfl
      · rfl

lemma exists_split_of_join {base : String} (hbase : base ≠ "") (href : ref ≠ "")
    (h : join base ref = .ok uri) : ∃ b r, split base "" = .ok b ∧ split ref b.scheme = .ok r := by
  have hbase : base.isEmpty = false := by simpa using hbase
  have href : ref.isEmpty = false := by simpa using href
  unfold join at h
  cases hb : split base "" with
  | error problem => simp [hb, hbase, href, bind, Except.bind] at h
  | ok b =>
    cases hr : split ref b.scheme with
    | error problem => simp [hb, hr, hbase, href, bind, Except.bind] at h
    | ok r => exact ⟨b, r, rfl, hr⟩

lemma fragment_beside (b r : Uri) : (b.beside r).fragment = r.fragment := by
  unfold beside
  split
  · rfl
  · split
    · rfl
    · rfl

lemma scheme_beside (b r : Uri) : (b.beside r).scheme = r.scheme := by
  unfold beside
  split
  · rfl
  · split
    · rfl
    · rfl

lemma IsSound.beside (hb : b.IsSound) (hr : r.IsSound) (hscheme : r.scheme = b.scheme) :
    (b.beside r).IsSound := by
  unfold Uri.beside
  have hbb := hb.blank
  have hrb := hr.blank
  simp only [forall_mem_append] at hbb hrb
  obtain ⟨hblank, hinside, hproblem⟩ : (∀ c ∈ (b.authorityBeside r).toList, ¬ isBlank c) ∧
      (∀ c ∈ (b.authorityBeside r).toList, isInside c) ∧
      authorityProblem? (b.authorityBeside r).toList = none := by
    unfold authorityBeside
    split
    · exact ⟨hbb.1, hb.authority, hb.problem⟩
    · exact ⟨hrb.1, hr.authority, hr.problem⟩
  split
  · exact hr
  split
  · have hquery : ∀ c ∈ (if r.query.isEmpty then b.query else r.query).toList,
        ¬ isBlank c ∧ c ≠ '#' := by
      intro c hc
      split at hc
      · exact ⟨hbb.2.2.2 c hc, fun h => hb.query (h ▸ hc)⟩
      · exact ⟨hrb.2.2.2 c hc, fun h => hr.query (h ▸ hc)⟩
    refine ⟨?_, hinside, hproblem, hb.path, hb.params, fun h => (hquery _ h).2 rfl, ?_, ?_⟩
    · simp only [forall_mem_append]
      exact ⟨hblank, hbb.2.1, hbb.2.2.1, fun c hc => (hquery c hc).1⟩
    · exact hscheme ▸ hb.last
    · exact hscheme ▸ hb.bare
  · refine ⟨?_, hinside, hproblem, ⟨fun h => ?_, fun h => ?_⟩, hr.params, hr.query, ?_, hr.bare⟩
    · simp only [forall_mem_append]
      refine ⟨hblank, fun c hc => ?_, hrb.2.2⟩
      obtain rfl | hc | hc := mem_joinPath hc
      · decide
      · exact hbb.2.1 c hc
      · exact hrb.2.1 c hc
    · obtain h | h | h := mem_joinPath h
      · cases h
      · exact hb.path.1 h
      · exact hr.path.1 h
    · obtain h | h | h := mem_joinPath h
      · cases h
      · exact hb.path.2 h
      · exact hr.path.2 h
    · exact fun hparam hmem => hr.last hparam (lastPart_joinPath _ _ hmem)

/-! ### References with a place for an authority -/

/-- Components that say where a document is without a base: relative references start from them,
their text has a place for an authority, and their path is tidy where the authority is empty. -/
structure IsAbsolute (u : Uri) : Prop where
  relative : u.scheme ∈ relativeSchemes
  authority : u.scheme ∈ authoritySchemes
  written : u.authority ≠ "" ∨ u.scheme ≠ ""
  tidy : u.authority = "" → IsTidy u.path

lemma IsAbsolute.writesAuthority (h : u.IsAbsolute) : u.WritesAuthority :=
  h.written.imp_right fun hscheme => ⟨hscheme, h.authority⟩

lemma IsAbsolute.beside (hb : b.IsAbsolute) (hscheme : r.scheme = b.scheme) :
    (b.beside r).IsAbsolute := by
  have hcontains : authoritySchemes.contains r.scheme = true := by
    simpa [hscheme] using hb.authority
  have hrelative : r.scheme ∈ relativeSchemes := hscheme ▸ hb.relative
  have hauthority : r.scheme ∈ authoritySchemes := hscheme ▸ hb.authority
  unfold Uri.beside authorityBeside
  rw [hcontains, if_pos rfl]
  split
  next hwritten =>
    have hne : r.authority ≠ "" := by simpa using hwritten
    exact ⟨hrelative, hauthority, .inl hne, fun h => absurd h hne⟩
  · split
    · exact ⟨hrelative, hauthority, hscheme ▸ hb.written, hb.tidy⟩
    · exact ⟨hrelative, hauthority, hscheme ▸ hb.written, fun _ => isTidy_joinPath _ _⟩

lemma IsAbsolute.ne_empty {base : String} (h : b.IsAbsolute) (hb : split base "" = .ok b) :
    base ≠ "" := by
  rintro rfl
  cases hb
  exact h.written.elim (fun h => h rfl) fun h => h rfl

/-- Sound components that say where a document is without a base, with no fragment. -/
structure IsAnchor (u : Uri) : Prop where
  sound : u.IsSound
  absolute : u.IsAbsolute
  fragment : u.fragment = ""

lemma isTidy_slash {path : String} (h : IsTidy path) : IsTidy ("/" ++ path) := by
  intro s hs
  rw [Text.split, String.toList_append, mem_map] at hs
  obtain ⟨cs, hcs, rfl⟩ := hs
  obtain rfl | hcs := mem_cons.1 hcs
  · decide
  · exact h _ (mem_map_of_mem hcs)

lemma IsAnchor.rooted (h : u.IsAnchor) : u.rooted.IsAnchor := by
  refine ⟨h.sound.rooted, ?_, ?_⟩
  · unfold Uri.rooted
    split
    · exact h.absolute
    · obtain ⟨hrelative, hauthority, hwritten, htidy⟩ := h.absolute
      exact ⟨hrelative, hauthority, hwritten, fun hempty => isTidy_slash (htidy hempty)⟩
  · unfold Uri.rooted
    split
    · exact h.fragment
    · exact h.fragment

lemma IsAnchor.text_ne_empty (h : u.IsAnchor) : u.text ≠ "" := by
  intro hempty
  have htext := toList_text h.rooted.absolute.writesAuthority (isRooted_rooted u) h.rooted.fragment
  rw [text_rooted h.absolute.writesAuthority, hempty] at htext
  simp at htext

/-- The components of an anchor's text, with the slash in front of the path. -/
lemma IsAnchor.split_text (h : u.IsAnchor) {defaultScheme : String}
    (hdefault : u.rooted.scheme = "" → defaultScheme = "") :
    split u.text defaultScheme = .ok u.rooted := by
  rw [← text_rooted h.absolute.writesAuthority]
  exact Uri.split_text h.rooted.sound h.rooted.absolute.relative h.rooted.absolute.writesAuthority
    (isRooted_rooted u) h.rooted.fragment hdefault

lemma beside_self (habsolute : u.IsAbsolute) (hrooted : u.IsRooted) : u.beside u = u := by
  have hauthority : u.authorityBeside u = u.authority := by
    unfold authorityBeside
    split
    · rfl
    · rfl
  unfold beside
  rw [hauthority]
  split
  · rfl
  next hempty =>
    have hempty : u.authority = "" := by simpa [habsolute.authority] using hempty
    split
    next => simp
    next hpath =>
      have hslash : hasPrefix "/" u.path :=
        hrooted.resolve_left fun h => hpath (by simp [h.1, h.2])
      rw [joinPath_of_tidy _ hslash (habsolute.tidy hempty)]

/-- Joining an anchor to itself changes nothing. -/
theorem IsAnchor.join_self (h : u.IsAnchor) : join u.text u.text = .ok u.text := by
  have hsplit := h.split_text (fun _ => rfl)
  rw [join_of_split h.text_ne_empty h.text_ne_empty hsplit (h.split_text id), if_neg,
    beside_self h.rooted.absolute (isRooted_rooted u), text_rooted h.absolute.writesAuthority]
  simpa using h.rooted.absolute.relative

/-- An anchor in another scheme than the base stays as it is. -/
lemma IsAnchor.join_of_ne (h : u.IsAnchor) (hwritten : u.scheme ≠ "") {base : String}
    (hbase : base ≠ "") (hb : split base "" = .ok b) (hne : b.scheme ≠ u.scheme) :
    join base u.text = .ok u.text := by
  have hscheme : u.rooted.scheme = u.scheme := by
    unfold Uri.rooted
    split
    · rfl
    · rfl
  have hr : split u.text b.scheme = .ok u.rooted :=
    h.split_text fun hempty => absurd (hscheme ▸ hempty) hwritten
  rw [join_of_split hbase h.text_ne_empty hb hr, if_pos]
  exact .inl (hscheme ▸ hne.symm)

/-- What stays in the scheme of an absolute base is joined to an anchor. -/
theorem exists_isAnchor_of_join {base : String} (hb : split base "" = .ok b)
    (habsolute : b.IsAbsolute) (hr : split ref b.scheme = .ok r) (hscheme : r.scheme = b.scheme)
    (hhash : '#' ∉ ref.toList) (href : ref ≠ "") :
    ∃ u : Uri, u.IsAnchor ∧ join base ref = .ok u.text := by
  refine ⟨b.beside r, ⟨?_, habsolute.beside hscheme, ?_⟩, ?_⟩
  · exact (isSound_of_split hb).beside (isSound_of_split hr) hscheme
  · rw [fragment_beside, fragment_of_split hr hhash]
  · rw [join_of_split (habsolute.ne_empty hb) href hb hr, if_neg]
    simp [hscheme, habsolute.relative]

/-! ### Relative paths -/

/-- A plain name of a file or a directory. -/
def IsFileName (s : String) : Prop :=
  s ≠ "" ∧ s ≠ "." ∧ s ≠ ".." ∧
    ∀ c ∈ s.toList, 32 < c.toNat ∧ c ∉ ['/', ':', ';', '?', '#']

instance (s : String) : Decidable (IsFileName s) :=
  inferInstanceAs (Decidable (_ ∧ _))

variable {segments base own : List String} {file : String}

lemma split_segments (h : ∀ s ∈ segments, IsFileName s) (hne : segments ≠ []) :
    Text.split '/' (Text.join "/" segments) = segments :=
  split_join hne fun s hs hmem => ((h s hs).2.2.2 _ hmem).2 (by decide)

lemma exists_head_of_segments (h : ∀ s ∈ segments, IsFileName s) (hne : segments ≠ []) :
    ∃ c cs, (Text.join "/" segments).toList = c :: cs ∧ c ≠ '/' ∧ 32 < c.toNat := by
  obtain ⟨first, rest, rfl⟩ := exists_cons_of_ne_nil hne
  have hfirst := h first mem_cons_self
  obtain ⟨c, cs, hcs⟩ := exists_cons_of_ne_nil (mt String.toList_eq_nil_iff.1 hfirst.1)
  obtain ⟨hlarge, hnot⟩ := hfirst.2.2.2 c (hcs ▸ mem_cons_self)
  obtain ⟨tail, htail⟩ : ∃ tail, (Text.join "/" (first :: rest)).toList = first.toList ++ tail := by
    rw [Text.join]
    by_cases hrest : rest = []
    · exact ⟨[], by simp [hrest]⟩
    · rw [String.intercalate_cons_of_ne_nil hrest, String.append_assoc, String.toList_append]
      exact ⟨_, rfl⟩
  refine ⟨c, cs ++ tail, by rw [htail, hcs, cons_append], ?_, hlarge⟩
  rintro rfl
  exact hnot (by decide)

lemma join_ne_empty_of_segments (h : ∀ s ∈ segments, IsFileName s) (hne : segments ≠ []) :
    Text.join "/" segments ≠ "" := by
  obtain ⟨c, cs, hcs, -⟩ := exists_head_of_segments h hne
  intro hempty
  rw [hempty] at hcs
  cases hcs

lemma not_hasPrefix_of_segments (h : ∀ s ∈ segments, IsFileName s) (hne : segments ≠ [])
    (more : List Char) :
    hasPrefix (String.ofList ('/' :: more)) (Text.join "/" segments) = false := by
  obtain ⟨c, cs, hcs, hslash, -⟩ := exists_head_of_segments h hne
  rw [hasPrefix, hcs, String.toList_ofList]
  simp [List.isPrefixOf, hslash.symm]

lemma split_relative (h : ∀ s ∈ segments, IsFileName s) (hne : segments ≠ []) :
    split (Text.join "/" segments) "" = .ok ⟨"", "", Text.join "/" segments, "", "", ""⟩ := by
  obtain ⟨first, rest, hcs, hslash, hlarge⟩ := exists_head_of_segments h hne
  set path := Text.join "/" segments with hpath
  have hchars (c : Char) (hc : c ∈ path.toList) : 32 < c.toNat ∧ c ∉ [':', ';', '?', '#'] := by
    obtain rfl | ⟨s, hs, hc⟩ := mem_join hc
    · decide
    · exact ((h s hs).2.2.2 c hc).imp_right fun hnot hmem => hnot (mem_cons_of_mem _ hmem)
  have hnot {c : Char} (hc : c ∈ [':', ';', '?', '#']) : c ∉ path.toList :=
    fun hmem => (hchars c hmem).2 hc
  have hclean : clean path = path.toList := by
    refine clean_of_head hcs hlarge fun c hc hblank => ?_
    simp only [isBlank, Bool.or_eq_true, beq_iff_eq] at hblank
    obtain (rfl | rfl) | rfl := hblank
    all_goals exact absurd (hchars _ hc).1 (by decide)
  have hauthority : cutAuthority path.toList = ([], path.toList) := by
    unfold cutAuthority
    split
    next heq => exact absurd (List.cons.inj (hcs.symm.trans heq)).1 hslash
    next => rfl
  refine split_eq_ok_iff.2 ⟨path.toList, path.toList, path.toList, path.toList, ?_, hauthority, rfl,
    ?_, ?_, ?_⟩
  · have hcolon : ':' ∉ path.toList := hnot (by decide)
    rw [hclean]
    unfold cutScheme?
    rw [cutAt_of_not_mem hcolon]
    rfl
  · exact cutTail_of_not_mem (hnot (by decide))
  · exact cutTail_of_not_mem (hnot (by decide))
  · rw [cutParamsOf, if_pos (by simp [paramSchemes]), cutParams_of_not_mem]
    · rfl
    · have hsemicolon : ';' ∉ path.toList := hnot (by decide)
      obtain ⟨-, heq⟩ | ⟨before, last, -, hwhole, heq⟩ := lastPart_cases '/' path.toList
      · rwa [heq]
      · rw [heq]
        rw [hwhole] at hsemicolon
        exact fun hmem =>
          hsemicolon (mem_append_right _ (mem_cons_of_mem _ hmem))

lemma squeeze_of_ne_empty (h : ∀ s ∈ segments, s ≠ "") : squeeze segments = segments := by
  match segments with
  | [] => rfl
  | [s] => rfl
  | s :: t :: rest =>
    have hfilter : ((t :: rest).dropLast.filter fun s => !s.isEmpty) = (t :: rest).dropLast :=
      filter_eq_self.2 fun s hs => by
        simpa using h s (mem_cons_of_mem _ (mem_of_mem_dropLast hs))
    have hlast : (t :: rest).getLast? = some ((t :: rest).getLast (cons_ne_nil _ _)) :=
      List.getLast?_eq_some_getLast _
    rw [squeeze, hfilter, hlast, cons_append]
    · exact congrArg _ (dropLast_append_getLast _)
    · exact cons_ne_nil _ _

lemma joinPath_relative (hbase : ∀ s ∈ base ++ [file], IsFileName s)
    (hown : ∀ s ∈ own ++ [name], IsFileName s) :
    joinPath (Text.join "/" (base ++ [file])) (Text.join "/" (own ++ [name])) =
      Text.join "/" (base ++ own ++ [name]) := by
  have hne (l : List String) (s : String) : l ++ [s] ≠ [] := by simp
  have hall : ∀ s ∈ base ++ (own ++ [name]), IsFileName s :=
    forall_mem_append.2 ⟨fun s hs => hbase s (mem_append_left _ hs), hown⟩
  have hfile : IsFileName file := hbase file (by simp)
  have hname : IsFileName name := hown name (by simp)
  have hsegments : segmentsBeside (Text.join "/" (base ++ [file])) (Text.join "/" (own ++ [name])) =
      base ++ (own ++ [name]) := by
    have hprefix := not_hasPrefix_of_segments hown (hne _ _) []
    rw [segmentsBeside, split_segments hbase (hne _ _), split_segments hown (hne _ _)]
    simp only [List.getLast?_concat, dropLast_concat]
    rw [if_neg (by simpa using hprefix), if_neg (by simpa using hfile.1),
      squeeze_of_ne_empty fun s hs => (hall s hs).1]
  have hresolved : resolveDots (base ++ (own ++ [name])) = base ++ (own ++ [name]) := by
    rw [resolveDots, removeDots_of_tidy fun s hs => ⟨(hall s hs).2.1, (hall s hs).2.2.1⟩]
    simp [← append_assoc, hname.2.1, hname.2.2.1]
  rw [joinPath_eq, hsegments, hresolved, if_neg, append_assoc]
  simpa using join_ne_empty_of_segments hall (by simp)

/-- A relative path beside another one: its file is sought from the directory of the other. -/
theorem join_relative (hbase : ∀ s ∈ base ++ [file], IsFileName s)
    (hown : ∀ s ∈ own ++ [name], IsFileName s) :
    join (Text.join "/" (base ++ [file])) (Text.join "/" (own ++ [name])) =
      .ok (Text.join "/" (base ++ own ++ [name])) := by
  have hne (l : List String) (s : String) : l ++ [s] ≠ [] := by simp
  have hall : ∀ s ∈ base ++ own ++ [name], IsFileName s := by
    rw [append_assoc]
    exact forall_mem_append.2 ⟨fun s hs => hbase s (mem_append_left _ hs), hown⟩
  have hempty := join_ne_empty_of_segments hown (hne _ _)
  have hslashes : hasPrefix "//" (Text.join "/" (base ++ own ++ [name])) = false :=
    not_hasPrefix_of_segments hall (hne _ _) ['/']
  rw [join_of_split (join_ne_empty_of_segments hbase (hne _ _)) hempty
    (split_relative hbase (hne _ _)) (split_relative hown (hne _ _)), if_neg]
  · have hbeside : beside ⟨"", "", Text.join "/" (base ++ [file]), "", "", ""⟩
        ⟨"", "", Text.join "/" (own ++ [name]), "", "", ""⟩ =
        ⟨"", "", Text.join "/" (base ++ own ++ [name]), "", "", ""⟩ := by
      simp [beside, authorityBeside, joinPath_relative hbase hown, hempty]
    rw [hbeside]
    generalize Text.join "/" (base ++ own ++ [name]) = path at hslashes ⊢
    simp [text, hslashes]
  · simp [relativeSchemes]

/-! ### Fragments -/

lemma hash_not_mem_text (h : u.IsSound) (hscheme : u.scheme ∈ relativeSchemes)
    (hfragment : u.fragment = "") : '#' ∉ u.text.toList := by
  have hall : ∀ s ∈ relativeSchemes, '#' ∉ s.toList := by decide
  have hauthority : '#' ∉ u.authority.toList := fun hmem => absurd (h.authority _ hmem) (by decide)
  have happend {s t : String} : '#' ∉ (s ++ t).toList ↔ '#' ∉ s.toList ∧ '#' ∉ t.toList := by
    simp
  have hite {p : Prop} [Decidable p] {s t : String} (hs : '#' ∉ s.toList) (ht : '#' ∉ t.toList) :
      '#' ∉ (if p then s else t).toList := by
    split
    · exact hs
    · exact ht
  have hpath : '#' ∉ (if u.params.isEmpty then u.path else u.path ++ ";" ++ u.params).toList :=
    hite h.path.2 (happend.2 ⟨happend.2 ⟨h.path.2, by decide⟩, h.params.2.1⟩)
  unfold text
  refine happend.2 ⟨happend.2 ⟨happend.2 ⟨?_, ?_⟩, ?_⟩, ?_⟩
  · exact hite (by decide) (happend.2 ⟨hall _ hscheme, by decide⟩)
  · refine hite (happend.2 ⟨happend.2 ⟨by decide, hauthority⟩, ?_⟩) hpath
    exact hite hpath (happend.2 ⟨by decide, hpath⟩)
  · exact hite (by decide) (happend.2 ⟨by decide, h.query⟩)
  · rw [hfragment]
    decide

/-- A joined reference has no fragment, unless the reference had. -/
lemma hash_not_mem_join {base : String} (hbase : base ≠ "") (href : ref ≠ "")
    (hhash : '#' ∉ ref.toList) (h : join base ref = .ok uri) : '#' ∉ uri.toList := by
  obtain ⟨b, r, hb, hr⟩ := exists_split_of_join hbase href h
  rw [join_of_split hbase href hb hr] at h
  split at h
  next =>
    cases h
    exact hhash
  next hstays =>
    cases h
    simp only [not_or, not_not] at hstays
    refine hash_not_mem_text ?_ ?_ ?_
    · exact (isSound_of_split hb).beside (isSound_of_split hr) hstays.1
    · rw [scheme_beside]
      exact hstays.2
    · rw [fragment_beside, fragment_of_split hr hhash]

end ApiSchema.Uri
