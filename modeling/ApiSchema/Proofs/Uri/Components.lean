import Mathlib
import ApiSchema.Uri.Basic

/-!
# Components of references

What a split gives, and what the components give back. Main statement: the text of components that
could come from a split, with an authority, splits into these components again.
-/

namespace ApiSchema

open List

namespace Text

variable {sep : Char} {cs : List Char}

/-! ### Cutting -/

lemma cutAt_of_not_mem (h : sep ∉ cs) : cutAt sep cs = (cs, none) := by
  induction cs with
  | nil => rfl
  | cons c cs ih =>
    rw [mem_cons, not_or] at h
    rw [cutAt, if_neg (Ne.symm h.1), ih h.2]

lemma cutAt_append {before : List Char} (h : sep ∉ before) (after : List Char) :
    cutAt sep (before ++ sep :: after) = (before, some after) := by
  induction before with
  | nil => simp [cutAt]
  | cons c before ih =>
    rw [mem_cons, not_or] at h
    rw [cons_append, cutAt, if_neg (Ne.symm h.1), ih h.2]

/-- There is no separator, or there is a first one. -/
lemma cutAt_cases (sep : Char) (cs : List Char) :
    (sep ∉ cs ∧ cutAt sep cs = (cs, none)) ∨ ∃ before after, sep ∉ before ∧
      cs = before ++ sep :: after ∧ cutAt sep cs = (before, some after) := by
  by_cases h : sep ∈ cs
  · obtain ⟨before, after, rfl, hnot⟩ := eq_append_cons_of_mem h
    exact .inr ⟨before, after, hnot, rfl, cutAt_append hnot after⟩
  · exact .inl ⟨h, cutAt_of_not_mem h⟩

lemma lastPart_of_not_mem (h : sep ∉ cs) : lastPart sep cs = cs := by
  rw [lastPart, takeWhile_eq_self_iff.2, reverse_reverse]
  intro c hc
  have hne : c ≠ sep := by
    rintro rfl
    exact h (mem_reverse.1 hc)
  simpa using hne

lemma lastPart_append {last : List Char} (h : sep ∉ last) (before : List Char) :
    lastPart sep (before ++ sep :: last) = last := by
  have hall : ∀ c ∈ last.reverse, (c != sep) = true := by
    intro c hc
    have hne : c ≠ sep := by
      rintro rfl
      exact h (mem_reverse.1 hc)
    simpa using hne
  simp [lastPart, takeWhile_append_of_pos hall]

/-- There is no separator, or there is a last one. -/
lemma lastPart_cases (sep : Char) (cs : List Char) :
    (sep ∉ cs ∧ lastPart sep cs = cs) ∨ ∃ before last, sep ∉ last ∧ cs = before ++ sep :: last ∧
      lastPart sep cs = last := by
  by_cases h : sep ∈ cs
  · obtain ⟨after, before, heq, hnot⟩ := eq_append_cons_of_mem (mem_reverse.2 h)
    have hcs : cs = before.reverse ++ sep :: after.reverse := by
      rw [← reverse_reverse cs, heq]
      simp
    have hnot' : sep ∉ after.reverse := by simpa using hnot
    exact .inr ⟨before.reverse, after.reverse, hnot', hcs, by rw [hcs, lastPart_append hnot']⟩
  · exact .inl ⟨h, lastPart_of_not_mem h⟩

end Text

namespace Uri

open Text

variable {text defaultScheme s : String} {u : Uri} {mark c : Char} {cs : List Char}

/-! ### Splitting -/

/-- The characters of a text that a split looks at. -/
def clean (text : String) : List Char :=
  (text.toList.dropWhile fun c => c.toNat ≤ 32).filter fun c => c != '\t' && c != '\r' && c != '\n'

/-- A character that an authority may hold. -/
def isInside (c : Char) : Bool :=
  c != '/' && c != '?' && c != '#'

/-- The authority in front of a path, if one is written. -/
def cutAuthority (rest : List Char) : List Char × List Char :=
  match rest with
  | '/' :: '/' :: after => (after.takeWhile isInside, after.dropWhile isInside)
  | _ => ([], rest)

/-- The path and the parameters of a scheme, as far as it has parameters. -/
def cutParamsOf (scheme : String) (cs : List Char) : List Char × List Char :=
  if paramSchemes.contains scheme then cutParams cs else (cs, [])

lemma split_eq (text defaultScheme : String) : split text defaultScheme =
    let (scheme, rest) := (cutScheme? (clean text)).getD (defaultScheme.toList, clean text)
    let (authority, rest) := cutAuthority rest
    match authorityProblem? authority with
    | some problem => .error problem
    | none =>
      let (rest, fragment) := cutTail '#' rest
      let (path, query) := cutTail '?' rest
      let (path, params) := cutParamsOf (String.ofList scheme) path
      .ok ⟨String.ofList scheme, String.ofList authority, String.ofList path, String.ofList params,
        String.ofList query, String.ofList fragment⟩ := by
  rfl

lemma split_eq_ok_iff :
    split text defaultScheme = .ok u ↔ ∃ rest tail front path,
      (cutScheme? (clean text)).getD (defaultScheme.toList, clean text) = (u.scheme.toList, rest) ∧
      cutAuthority rest = (u.authority.toList, tail) ∧
      authorityProblem? u.authority.toList = none ∧
      cutTail '#' tail = (front, u.fragment.toList) ∧
      cutTail '?' front = (path, u.query.toList) ∧
      cutParamsOf u.scheme path = (u.path.toList, u.params.toList) := by
  rw [split_eq]
  constructor
  · generalize (cutScheme? _).getD _ = cut
    obtain ⟨scheme, rest⟩ := cut
    dsimp only
    intro h
    split at h
    next => cases h
    next hproblem =>
      cases h
      simp only [String.toList_ofList]
      exact ⟨_, _, _, _, rfl, rfl, hproblem, rfl, rfl, rfl⟩
  · rintro ⟨rest, tail, front, path, hscheme, hauthority, hproblem, hfragment, hquery, hparams⟩
    simp only [hscheme, hauthority, hproblem, hfragment, hquery, String.ofList_toList, hparams]

lemma cutTail_spec (mark : Char) (cs : List Char) :
    (cutTail mark cs).1 ⊆ cs ∧ (cutTail mark cs).2 ⊆ cs ∧ mark ∉ (cutTail mark cs).1 := by
  rw [cutTail]
  obtain ⟨hnot, hcut⟩ | ⟨before, after, hnot, rfl, hcut⟩ := cutAt_cases mark cs <;> rw [hcut]
  · exact ⟨List.Subset.refl _, nil_subset _, hnot⟩
  · exact ⟨by simp, by simp, hnot⟩

lemma cutTail_of_not_mem (h : mark ∉ cs) : cutTail mark cs = (cs, []) := by
  rw [cutTail, cutAt_of_not_mem h]
  rfl

lemma cutTail_append {before : List Char} (h : mark ∉ before) (after : List Char) :
    cutTail mark (before ++ mark :: after) = (before, after) := by
  rw [cutTail, cutAt_append h]
  rfl

lemma cutScheme?_subset {scheme rest : List Char} (h : cutScheme? cs = some (scheme, rest)) :
    rest ⊆ cs := by
  unfold cutScheme? at h
  split at h
  next before after c tail hcut =>
    split at h
    · obtain ⟨hnot, hcut'⟩ | ⟨before', after', -, heq, hcut'⟩ := cutAt_cases ':' (c :: tail)
      · cases hcut.symm.trans hcut'
      · cases hcut.symm.trans hcut'
        cases h
        rw [heq]
        simp
    · cases h
  next => cases h

lemma cutAuthority_spec (rest : List Char) :
    (cutAuthority rest).1 ⊆ rest ∧ (cutAuthority rest).2 ⊆ rest ∧
      ∀ c ∈ (cutAuthority rest).1, isInside c := by
  unfold cutAuthority
  split
  next after =>
    refine ⟨fun c hc => ?_, fun c hc => ?_, fun c hc => mem_takeWhile_imp hc⟩
    · simp [(takeWhile_sublist _).subset hc]
    · simp [(dropWhile_suffix _).subset hc]
  next => exact ⟨nil_subset _, List.Subset.refl _, nofun⟩

/-- Parameters are behind the first semicolon of the last segment. -/
lemma cutParams_append {path params : List Char} (hpath : ';' ∉ lastPart '/' path)
    (hparams : '/' ∉ params) : cutParams (path ++ ';' :: params) = (path, params) := by
  have hnot {last : List Char} (h : '/' ∉ last) : '/' ∉ last ++ ';' :: params := by
    simp [h, hparams]
  obtain ⟨hslash, heq⟩ | ⟨before, last, hslash, rfl, heq⟩ := lastPart_cases '/' path
  · rw [heq] at hpath
    rw [cutParams, lastPart_of_not_mem (hnot hslash), cutAt_append hpath]
    simp
  · rw [heq] at hpath
    rw [cutParams, append_assoc, cons_append, lastPart_append (hnot hslash),
      cutAt_append hpath]
    have hlength : (before ++ '/' :: (last ++ ';' :: params)).length -
        (last ++ ';' :: params).length = before.length + 1 := by
      simp only [length_append, length_cons]
      omega
    show (List.take (_ - _) _ ++ last, params) = _
    rw [hlength]
    simp [take_append]

lemma cutParams_of_not_mem {path : List Char} (hpath : ';' ∉ lastPart '/' path) :
    cutParams path = (path, []) := by
  rw [cutParams, cutAt_of_not_mem hpath]

/-- Either there are no parameters, or they are cut off. -/
lemma cutParams_cases (cs : List Char) :
    (cutParams cs = (cs, []) ∧ ';' ∉ lastPart '/' cs) ∨ ∃ path params, cs = path ++ ';' :: params ∧
      cutParams cs = (path, params) ∧ ';' ∉ lastPart '/' path ∧ '/' ∉ params := by
  obtain ⟨hnot, hcut⟩ | ⟨before, after, hnot, heq, hcut⟩ := cutAt_cases ';' (lastPart '/' cs)
  · exact .inl ⟨cutParams_of_not_mem hnot, hnot⟩
  · right
    obtain ⟨hslash, hlast⟩ | ⟨start, last, hslash, rfl, hlast⟩ := lastPart_cases '/' cs
    · rw [hlast] at heq
      subst heq
      have hparams : '/' ∉ before ∧ '/' ∉ after := by simpa [not_or] using hslash
      have hbefore : ';' ∉ lastPart '/' before := by rwa [lastPart_of_not_mem hparams.1]
      exact ⟨before, after, rfl, cutParams_append hbefore hparams.2, hbefore, hparams.2⟩
    · rw [hlast] at heq
      subst heq
      have hparams : '/' ∉ before ∧ '/' ∉ after := by simpa [not_or] using hslash
      have hbefore : ';' ∉ lastPart '/' (start ++ '/' :: before) := by
        rwa [lastPart_append hparams.1]
      refine ⟨start ++ '/' :: before, after, by simp, ?_, hbefore, hparams.2⟩
      rw [← cutParams_append hbefore hparams.2, append_assoc, cons_append]

/-! ### Sound components -/

lemma cutParamsOf_spec (scheme : String) (cs : List Char) :
    (cutParamsOf scheme cs).1 ⊆ cs ∧ (cutParamsOf scheme cs).2 ⊆ cs ∧
      '/' ∉ (cutParamsOf scheme cs).2 ∧
      (paramSchemes.contains scheme → ';' ∉ lastPart '/' (cutParamsOf scheme cs).1) ∧
      (¬ paramSchemes.contains scheme → (cutParamsOf scheme cs).2 = []) := by
  unfold cutParamsOf
  by_cases hscheme : paramSchemes.contains scheme
  · rw [if_pos hscheme]
    obtain ⟨hcut, hlast⟩ | ⟨path, params, rfl, hcut, hlast, hslash⟩ := cutParams_cases cs <;>
      rw [hcut]
    · exact ⟨List.Subset.refl _, nil_subset _, not_mem_nil, fun _ => hlast, fun _ => rfl⟩
    · exact ⟨by simp, by simp, hslash, fun _ => hlast, fun h => absurd hscheme h⟩
  · rw [if_neg hscheme]
    exact ⟨List.Subset.refl _, nil_subset _, not_mem_nil, fun h => absurd h hscheme,
      fun _ => rfl⟩

/-- A character that splitting takes out of a text. -/
def isBlank (c : Char) : Bool :=
  c == '\t' || c == '\r' || c == '\n'

/-- Components that could come from a split. -/
structure IsSound (u : Uri) : Prop where
  blank : ∀ c ∈ u.authority.toList ++ (u.path.toList ++ (u.params.toList ++ u.query.toList)),
    ¬ isBlank c
  authority : ∀ c ∈ u.authority.toList, isInside c
  problem : authorityProblem? u.authority.toList = none
  path : '?' ∉ u.path.toList ∧ '#' ∉ u.path.toList
  params : '?' ∉ u.params.toList ∧ '#' ∉ u.params.toList ∧ '/' ∉ u.params.toList
  query : '#' ∉ u.query.toList
  last : paramSchemes.contains u.scheme → ';' ∉ lastPart '/' u.path.toList
  bare : ¬ paramSchemes.contains u.scheme → u.params = ""

lemma not_isBlank_of_mem_clean (h : c ∈ clean text) : ¬ isBlank c := by
  have hc := (mem_filter.1 h).2
  simp_all [isBlank]

lemma rest_subset (text defaultScheme : String) :
    ((cutScheme? (clean text)).getD (defaultScheme.toList, clean text)).2 ⊆ clean text := by
  cases hcut : cutScheme? (clean text) with
  | none => exact List.Subset.refl _
  | some cut => exact cutScheme?_subset hcut

theorem isSound_of_split (h : split text defaultScheme = .ok u) : u.IsSound := by
  obtain ⟨rest, tail, front, path, hscheme, hauthority, hproblem, hfragment, hquery, hparams⟩ :=
    split_eq_ok_iff.1 h
  obtain ⟨hauthority₁, htail, hinside⟩ := hauthority ▸ cutAuthority_spec rest
  obtain ⟨hfront, -, hhash⟩ := hfragment ▸ cutTail_spec '#' tail
  obtain ⟨hpath, hquery₁, hmark⟩ := hquery ▸ cutTail_spec '?' front
  obtain ⟨hown, hparams₁, hslash, hlast, hbare⟩ := hparams ▸ cutParamsOf_spec u.scheme path
  have hrest {c : Char} (hc : c ∈ rest) : ¬ isBlank c :=
    not_isBlank_of_mem_clean (rest_subset text defaultScheme (hscheme ▸ hc))
  refine ⟨fun c hc => ?_, hinside, hproblem, ⟨?_, ?_⟩, ⟨?_, ?_, hslash⟩, ?_, hlast, fun hnot => ?_⟩
  · simp only [mem_append] at hc
    obtain hc | hc | hc | hc := hc
    · exact hrest (hauthority₁ hc)
    · exact hrest (htail (hfront (hpath (hown hc))))
    · exact hrest (htail (hfront (hpath (hparams₁ hc))))
    · exact hrest (htail (hfront (hquery₁ hc)))
  · exact fun hc => hmark (hown hc)
  · exact fun hc => hhash (hpath (hown hc))
  · exact fun hc => hmark (hparams₁ hc)
  · exact fun hc => hhash (hpath (hparams₁ hc))
  · exact fun hc => hhash (hquery₁ hc)
  · exact String.toList_inj.1 (hbare hnot)

/-- A text without a hash has no fragment. -/
lemma fragment_of_split (h : split text defaultScheme = .ok u) (htext : '#' ∉ text.toList) :
    u.fragment = "" := by
  obtain ⟨rest, tail, front, path, hscheme, hauthority, -, hfragment, -, -⟩ := split_eq_ok_iff.1 h
  have hhash : '#' ∉ tail := by
    intro hc
    have hrest : '#' ∈ rest := (hauthority ▸ cutAuthority_spec rest).2.1 hc
    have hclean : '#' ∈ clean text := rest_subset text defaultScheme (hscheme ▸ hrest)
    exact htext ((dropWhile_suffix _).subset (mem_filter.1 hclean).1)
  rw [cutTail_of_not_mem hhash] at hfragment
  exact String.toList_inj.1 (Prod.mk.inj hfragment).2.symm

/-! ### Text of components -/

/-- The path stands as it is behind an authority. -/
def IsRooted (u : Uri) : Prop :=
  u.path = "" ∧ u.params = "" ∨ hasPrefix "/" u.path

/-- The text of components has a place for the authority, which may be empty there. -/
def WritesAuthority (u : Uri) : Prop :=
  u.authority ≠ "" ∨ u.scheme ≠ "" ∧ u.scheme ∈ authoritySchemes

/-- What stands behind the authority in the text of components. -/
def tailText (u : Uri) : List Char :=
  (u.path.toList ++ if u.params = "" then [] else ';' :: u.params.toList) ++
    if u.query = "" then [] else '?' :: u.query.toList

lemma hasPrefix_slash_iff : hasPrefix "/" s ↔ ∃ cs, s.toList = '/' :: cs := by
  rw [hasPrefix, isPrefixOf_iff_prefix]
  constructor
  · rintro ⟨cs, hcs⟩
    exact ⟨cs, hcs.symm⟩
  · rintro ⟨cs, hcs⟩
    exact ⟨cs, hcs.symm⟩

lemma WritesAuthority.writes (h : u.WritesAuthority) :
    (!u.authority.isEmpty || (!u.scheme.isEmpty && authoritySchemes.contains u.scheme)) = true := by
  simpa [WritesAuthority] using h

lemma toList_text (hwrites : u.WritesAuthority) (hrooted : u.IsRooted) (hfragment : u.fragment = "") :
    u.text.toList = (if u.scheme = "" then [] else u.scheme.toList ++ [':']) ++
      '/' :: '/' :: (u.authority.toList ++ u.tailText) := by
  have hslashes : "//".toList = ['/', '/'] := rfl
  have hpath : (let path := if u.params.isEmpty then u.path else u.path ++ ";" ++ u.params
      if path.isEmpty || hasPrefix "/" path then path else "/" ++ path).toList =
      u.path.toList ++ if u.params = "" then [] else ';' :: u.params.toList := by
    obtain ⟨hpath, hparams⟩ | hprefix := hrooted
    · simp [hpath, hparams]
    · obtain ⟨cs, hcs⟩ := hasPrefix_slash_iff.1 hprefix
      by_cases hparams : u.params = ""
      · simp [hparams, hprefix]
      · have hlong : hasPrefix "/" (u.path ++ ";" ++ u.params) :=
          hasPrefix_slash_iff.2 ⟨cs ++ ';' :: u.params.toList, by simp [hcs]⟩
        simp [hparams, hlong]
  have hwritten := hwrites.writes
  dsimp only at hpath
  rw [text]
  simp only [hwritten, Bool.true_or, if_true, String.toList_append, hpath, hfragment, tailText]
  by_cases hscheme : u.scheme = "" <;> by_cases hquery : u.query = "" <;> simp [hscheme, hquery]

/-- A scheme as it stands in texts: a small letter, and small letters, digits and signs. -/
def isPlainScheme (cs : List Char) : Bool :=
  cs.all (fun c => c != ':' && isSchemeChar c && c.toLower == c && !isBlank c) &&
    cs.head?.any fun c => c.isAlpha && 32 < c.toNat

lemma isPlainScheme_of_mem (hs : s ∈ relativeSchemes) (hne : s ≠ "") : isPlainScheme s.toList := by
  have hall : ∀ s ∈ relativeSchemes, s = "" ∨ isPlainScheme s.toList := by decide +kernel
  exact (hall s hs).resolve_left hne

lemma clean_of_head (htext : text.toList = c :: cs) (hc : 32 < c.toNat)
    (hblank : ∀ c ∈ text.toList, ¬ isBlank c) : clean text = text.toList := by
  have hdrop : (text.toList.dropWhile fun c => c.toNat ≤ 32) = text.toList := by
    rw [htext, dropWhile_cons_of_neg (by simpa using hc)]
  rw [clean, hdrop, filter_eq_self]
  intro c hc
  have hnot := hblank c hc
  simp_all [isBlank]

lemma chars_of_isPlainScheme (h : isPlainScheme cs) :
    ∀ c ∈ cs, c ≠ ':' ∧ isSchemeChar c ∧ c.toLower = c ∧ ¬ isBlank c := by
  intro c hc
  simp only [isPlainScheme, Bool.and_eq_true, all_eq_true] at h
  have hc := h.1 c hc
  simp_all

lemma head_of_isPlainScheme (h : isPlainScheme cs) :
    ∃ c rest, cs = c :: rest ∧ c.isAlpha ∧ 32 < c.toNat := by
  cases cs with
  | nil => cases h
  | cons c rest => exact ⟨c, rest, rfl, by simp_all [isPlainScheme]⟩

lemma cutScheme?_append {scheme : List Char} (hscheme : isPlainScheme scheme) (rest : List Char) :
    cutScheme? (scheme ++ ':' :: rest) = some (scheme, rest) := by
  have hall := chars_of_isPlainScheme hscheme
  have hcolon : ':' ∉ scheme := fun hmem => (hall ':' hmem).1 rfl
  have hcut := cutAt_append hcolon rest
  have hlower : scheme.map Char.toLower = scheme := by
    rw [map_congr_left fun d hd => (hall d hd).2.2.1, map_id']
  have hchars : scheme.all isSchemeChar := by simpa using fun d hd => (hall d hd).2.1
  obtain ⟨c, cs, rfl, halpha, -⟩ := head_of_isPlainScheme hscheme
  rw [cons_append] at hcut ⊢
  unfold cutScheme?
  simp only [hcut, halpha, hlower, hchars, isEmpty_cons, Bool.not_false, Bool.and_self,
    if_true]

lemma cutScheme?_slash (rest : List Char) : cutScheme? ('/' :: rest) = none := by
  unfold cutScheme?
  split
  next before after c tail hcut heq =>
    cases heq
    rw [if_neg (by simp)]
  next => rfl

lemma tailText_head (hrooted : u.IsRooted) :
    u.tailText = [] ∨ ∃ c cs, u.tailText = c :: cs ∧ ¬ isInside c := by
  obtain ⟨hpath, hparams⟩ | hprefix := hrooted
  · by_cases hquery : u.query = ""
    · exact .inl (by simp [tailText, hpath, hparams, hquery])
    · exact .inr ⟨'?', u.query.toList, by simp [tailText, hpath, hparams, hquery], by decide⟩
  · obtain ⟨cs, hcs⟩ := hasPrefix_slash_iff.1 hprefix
    exact .inr ⟨'/', _, by rw [tailText, hcs, cons_append, cons_append], by decide⟩

lemma cutAuthority_append {authority tail : List Char} (hauthority : ∀ c ∈ authority, isInside c)
    (htail : tail = [] ∨ ∃ c cs, tail = c :: cs ∧ ¬ isInside c) :
    cutAuthority ('/' :: '/' :: (authority ++ tail)) = (authority, tail) := by
  have hends : tail.takeWhile isInside = [] ∧ tail.dropWhile isInside = tail := by
    obtain rfl | ⟨c, cs, rfl, hc⟩ := htail
    · exact ⟨rfl, rfl⟩
    · exact ⟨takeWhile_cons_of_neg hc, dropWhile_cons_of_neg hc⟩
  rw [cutAuthority, takeWhile_append_of_pos hauthority, dropWhile_append_of_pos hauthority,
    hends.1, hends.2, append_nil]

lemma not_isBlank_of_mem_text (h : u.IsSound) (hscheme : u.scheme ∈ relativeSchemes)
    (htext : u.text.toList = (if u.scheme = "" then [] else u.scheme.toList ++ [':']) ++
      '/' :: '/' :: (u.authority.toList ++ u.tailText)) : ∀ c ∈ u.text.toList, ¬ isBlank c := by
  have hplain : ∀ c ∈ (if u.scheme = "" then [] else u.scheme.toList ++ [':']), ¬ isBlank c := by
    intro c hc
    split at hc
    next => cases hc
    next hempty =>
      rcases mem_append.1 hc with hc | hc
      · exact (chars_of_isPlainScheme (isPlainScheme_of_mem hscheme hempty) c hc).2.2.2
      · rw [mem_singleton.1 hc]
        decide
  have htail : ∀ c ∈ u.tailText, ¬ isBlank c := by
    intro c hc
    have hblank := h.blank c
    simp only [tailText, mem_append] at hc hblank
    obtain (hc | hc) | hc := hc
    · exact hblank (.inr (.inl hc))
    · split at hc
      · cases hc
      · rcases mem_cons.1 hc with rfl | hc
        · decide
        · exact hblank (.inr (.inr (.inl hc)))
    · split at hc
      · cases hc
      · rcases mem_cons.1 hc with rfl | hc
        · decide
        · exact hblank (.inr (.inr (.inr hc)))
  intro c hc
  rw [htext] at hc
  simp only [mem_append, mem_cons] at hc
  obtain hc | rfl | rfl | hc | hc := hc
  · exact hplain c hc
  · decide
  · decide
  · exact h.blank c (mem_append_left _ hc)
  · exact htail c hc

/-- The text of sound components with a place for the authority splits into these again. -/
theorem split_text (h : u.IsSound) (hscheme : u.scheme ∈ relativeSchemes)
    (hwrites : u.WritesAuthority) (hrooted : u.IsRooted) (hfragment : u.fragment = "")
    (hdefault : u.scheme = "" → defaultScheme = "") : split u.text defaultScheme = .ok u := by
  have htext := toList_text hwrites hrooted hfragment
  have hclean : clean u.text = u.text.toList := by
    have hblank := not_isBlank_of_mem_text h hscheme htext
    by_cases hempty : u.scheme = ""
    · rw [if_pos hempty, nil_append] at htext
      exact clean_of_head htext (by decide) hblank
    · obtain ⟨c, cs, hcs, -, hc⟩ := head_of_isPlainScheme (isPlainScheme_of_mem hscheme hempty)
      rw [if_neg hempty, hcs] at htext
      exact clean_of_head htext hc hblank
  have hpath : '?' ∉ u.path.toList ++ if u.params = "" then [] else ';' :: u.params.toList := by
    have hpath := h.path
    have hparams := h.params
    split <;> simp [hpath, hparams]
  have hhash : '#' ∉ u.tailText := by
    have hpath := h.path
    have hparams := h.params
    have hquery := h.query
    unfold tailText
    split <;> split <;> simp [hpath, hparams, hquery]
  refine split_eq_ok_iff.2 ⟨'/' :: '/' :: (u.authority.toList ++ u.tailText), u.tailText, u.tailText,
    u.path.toList ++ (if u.params = "" then [] else ';' :: u.params.toList), ?_,
    cutAuthority_append h.authority (tailText_head hrooted), h.problem, ?_, ?_, ?_⟩
  · rw [hclean, htext]
    by_cases hempty : u.scheme = ""
    · simp [hempty, hdefault hempty, cutScheme?_slash]
    · rw [if_neg hempty, append_assoc, singleton_append,
        cutScheme?_append (isPlainScheme_of_mem hscheme hempty)]
      rfl
  · rw [cutTail_of_not_mem hhash, hfragment]
    rfl
  · by_cases hquery : u.query = ""
    · simp [tailText, hquery, cutTail_of_not_mem hpath]
    · rw [tailText, if_neg hquery, cutTail_append hpath]
  · unfold cutParamsOf
    by_cases hcontains : paramSchemes.contains u.scheme
    · by_cases hparams : u.params = ""
      · simp [hparams, cutParams_of_not_mem (h.last hcontains)]
      · rw [if_pos hcontains, if_neg hparams, cutParams_append (h.last hcontains) h.params.2.2]
    · rw [if_neg hcontains, h.bare hcontains]
      simp

end Uri

end ApiSchema
