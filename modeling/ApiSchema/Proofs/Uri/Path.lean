import ApiSchema.Proofs.Name.Identifier
import ApiSchema.Proofs.Uri.Components

/-!
# Joining paths

The path of a reference is put beside the path of its base segment by segment, and dot segments are
worked off. Main statements: no dot segment is left, nothing but slashes is in the outcome that was
in neither path, and its last segment is that of the reference or empty.
-/

namespace ApiSchema

open List

namespace Text

variable {sep : Char} {parts : List String}

/-! ### Segments -/

lemma subset_of_mem_splitOn {cs part : List Char} (h : part ∈ cs.splitOn sep) : part ⊆ cs := by
  induction cs generalizing part with
  | nil =>
    rw [splitOn_nil, mem_singleton] at h
    rw [h]
    exact List.Subset.refl _
  | cons c cs ih =>
    rw [splitOn_cons_eq_if_modifyHead] at h
    split at h
    · rcases mem_cons.1 h with rfl | h
      · exact nil_subset _
      · exact subset_cons_of_subset _ (ih h)
    · obtain ⟨first, rest, hsplit⟩ := exists_cons_of_ne_nil (splitOn_ne_nil sep cs)
      rw [hsplit, modifyHead_cons] at h
      rcases mem_cons.1 h with rfl | h
      · exact cons_subset_cons _ (ih (hsplit ▸ mem_cons_self))
      · exact subset_cons_of_subset _ (ih (hsplit ▸ mem_cons_of_mem _ h))

lemma mem_of_mem_split {s part : String} (hpart : part ∈ split sep s) :
    sep ∉ part.toList ∧ part.toList ⊆ s.toList := by
  obtain ⟨cs, hcs, rfl⟩ := mem_map.1 hpart
  rw [String.toList_ofList]
  refine ⟨fun hmem => ?_, subset_of_mem_splitOn hcs⟩
  rw [splitOn_eq_splitOnP] at hcs
  exact absurd (Name.eq_false_of_mem_splitOnP hcs hmem) (by simp)

/-- The last of the parts between separators is the last part. -/
lemma exists_split_eq (sep : Char) (s : String) :
    ∃ parts, split sep s = parts ++ [String.ofList (lastPart sep s.toList)] := by
  rw [split]
  obtain ⟨hnot, heq⟩ | ⟨before, last, hnot, hs, heq⟩ := lastPart_cases sep s.toList
  · exact ⟨[], by rw [heq, splitOn_eq_singleton hnot]; rfl⟩
  · refine ⟨(before.splitOn sep).map String.ofList, ?_⟩
    rw [heq, hs, splitOn_append_cons_self, splitOn_eq_singleton hnot, map_append]
    rfl

lemma mem_join {c : Char} (h : c ∈ (join "/" parts).toList) :
    c = '/' ∨ ∃ part ∈ parts, c ∈ part.toList := by
  rw [join] at h
  induction parts with
  | nil => simp at h
  | cons part parts ih =>
    by_cases hparts : parts = []
    · subst hparts
      exact .inr ⟨part, mem_singleton_self _, by simpa using h⟩
    · rw [String.intercalate_cons_of_ne_nil hparts, String.toList_append, String.toList_append,
        mem_append, mem_append] at h
      obtain (h | h) | h := h
      · exact .inr ⟨part, mem_cons_self, h⟩
      · exact .inl (mem_singleton.1 h)
      · obtain hc | ⟨other, hother, hc⟩ := ih h
        · exact .inl hc
        · exact .inr ⟨other, mem_cons_of_mem _ hother, hc⟩

lemma lastPart_join (parts : List String) {last : String} (hlast : '/' ∉ last.toList) :
    lastPart '/' (join "/" (parts ++ [last])).toList = last.toList := by
  rw [join]
  by_cases hparts : parts = []
  · subst hparts
    simp [lastPart_of_not_mem hlast]
  · rw [String.intercalate_append_of_ne_nil hparts (cons_ne_nil _ _),
      String.intercalate_singleton, String.toList_append, String.toList_append, append_assoc]
    exact lastPart_append hlast _

lemma join_split (s : String) : join "/" (split '/' s) = s := by
  rw [← String.toList_inj, join, String.toList_intercalate, split]
  simp

lemma split_join (hne : parts ≠ []) (h : ∀ part ∈ parts, '/' ∉ part.toList) :
    split '/' (join "/" parts) = parts := by
  have hsplit : List.splitOn '/' (['/'].intercalate (parts.map String.toList)) =
      parts.map String.toList :=
    splitOn_intercalate '/' (by simpa using h) (by simpa using hne)
  rw [split, join, String.toList_intercalate]
  simp [hsplit]

end Text

namespace Uri

open Text

variable {done segments : List String} {s base path : String}

/-! ### Dot segments -/

lemma mem_of_mem_removeDots (h : s ∈ removeDots done segments) : s ∈ done ∨ s ∈ segments := by
  induction segments generalizing done with
  | nil => exact .inl (mem_reverse.1 h)
  | cons seg rest ih =>
    rw [removeDots] at h
    split at h
    · obtain h | h := ih h
      · exact .inl (mem_of_mem_tail h)
      · exact .inr (mem_cons_of_mem _ h)
    · split at h
      · exact (ih h).imp_right (mem_cons_of_mem _)
      · obtain h | h := ih h
        · rcases mem_cons.1 h with rfl | h
          · exact .inr mem_cons_self
          · exact .inl h
        · exact .inr (mem_cons_of_mem _ h)

lemma removeDots_append {last : String} (hdot : last ≠ ".") (hdots : last ≠ "..")
    (done segments : List String) :
    removeDots done (segments ++ [last]) = removeDots done segments ++ [last] := by
  induction segments generalizing done with
  | nil => simp [removeDots, hdot, hdots]
  | cons seg rest ih =>
    rw [cons_append, removeDots, removeDots]
    split
    · exact ih _
    · split
      · exact ih _
      · exact ih _

lemma exists_squeeze_eq (segments : List String) (last : String) :
    ∃ rest, squeeze (segments ++ [last]) = rest ++ [last] ∧ rest ⊆ segments := by
  cases segments with
  | nil => exact ⟨[], rfl, List.Subset.refl _⟩
  | cons seg rest =>
    refine ⟨seg :: rest.filter (fun t => !t.isEmpty), ?_, ?_⟩
    · have hlong : rest ++ [last] ≠ [] := append_ne_nil_of_right_ne_nil _ (cons_ne_nil _ _)
      rw [cons_append, squeeze]
      · rw [dropLast_concat, List.getLast?_concat]
        rfl
      · exact fun h => hlong h
    · exact cons_subset_cons _ (fun t ht => mem_of_mem_filter ht)

/-- The segments that a path denotes beside the path of the base, with the dots in them. -/
def segmentsBeside (base path : String) : List String :=
  let parts := Text.split '/' base
  let parts := if parts.getLast? == some "" then parts else parts.dropLast
  let own := Text.split '/' path
  if hasPrefix "/" path then own else squeeze (parts ++ own)

/-- The segments without dots; where the last one was a dot segment, an empty one stands for it. -/
def resolveDots (segments : List String) : List String :=
  let last := segments.getLast?
  removeDots [] segments ++ (if last == some "." || last == some ".." then [""] else [])

lemma joinPath_eq (base path : String) :
    joinPath base path =
      if (Text.join "/" (resolveDots (segmentsBeside base path))).isEmpty then "/"
      else Text.join "/" (resolveDots (segmentsBeside base path)) := rfl

lemma exists_segmentsBeside_eq (base path : String) : ∃ front,
    segmentsBeside base path = front ++ [String.ofList (lastPart '/' path.toList)] ∧
    ∀ s ∈ front, s ∈ Text.split '/' base ∨ s ∈ Text.split '/' path := by
  obtain ⟨own, hown⟩ := exists_split_eq '/' path
  have hmem (s : String) (hs : s ∈ own) : s ∈ Text.split '/' path :=
    hown ▸ mem_append_left _ hs
  simp only [segmentsBeside]
  split
  · exact ⟨own, hown, fun s hs => .inr (hmem s hs)⟩
  · rw [hown, ← append_assoc]
    obtain ⟨front, hfront, hsub⟩ := exists_squeeze_eq _ (String.ofList (lastPart '/' path.toList))
    refine ⟨front, hfront, fun s hs => ?_⟩
    obtain h | h := mem_append.1 (hsub hs)
    · refine .inl ?_
      split at h
      · exact h
      · exact mem_of_mem_dropLast h
    · exact .inr (mem_append_left _ h)

lemma exists_resolveDots_eq (front : List String) (last : String) : ∃ done final,
    resolveDots (front ++ [last]) = done ++ [final] ∧ (final = "" ∨ final = last) ∧
    done ⊆ front ++ [last] := by
  rw [resolveDots, List.getLast?_concat]
  by_cases hdots : last = "." ∨ last = ".."
  · refine ⟨removeDots [] (front ++ [last]), "", ?_, .inl rfl, fun s hs => ?_⟩
    · rw [if_pos (by simpa using hdots)]
    · exact (mem_of_mem_removeDots hs).resolve_left not_mem_nil
  · refine ⟨removeDots [] front, last, ?_, .inr rfl, fun s hs => ?_⟩
    · rw [if_neg (by simpa using hdots), append_nil]
      exact removeDots_append (fun h => hdots (.inl h)) (fun h => hdots (.inr h)) _ _
    · exact mem_append_left _ ((mem_of_mem_removeDots hs).resolve_left not_mem_nil)

/-- The segments of a joined path. -/
lemma exists_resolved_eq (base path : String) : ∃ done final,
    resolveDots (segmentsBeside base path) = done ++ [final] ∧
    (final = "" ∨ final = String.ofList (lastPart '/' path.toList)) ∧
    ∀ s ∈ done ++ [final], s = "" ∨ s ∈ Text.split '/' base ∨ s ∈ Text.split '/' path := by
  obtain ⟨front, hfront, hsegments⟩ := exists_segmentsBeside_eq base path
  obtain ⟨done, final, hdone, hfinal, hsub⟩ :=
    exists_resolveDots_eq front (String.ofList (lastPart '/' path.toList))
  obtain ⟨own, hown⟩ := exists_split_eq '/' path
  have hlast : String.ofList (lastPart '/' path.toList) ∈ Text.split '/' path :=
    hown ▸ mem_append_right _ (mem_singleton_self _)
  refine ⟨done, final, hfront ▸ hdone, hfinal, fun s hs => ?_⟩
  obtain hs | hs := mem_append.1 hs
  · obtain hs | hs := mem_append.1 (hsub hs)
    · exact .inr (hsegments s hs)
    · exact .inr (.inr (mem_singleton.1 hs ▸ hlast))
  · rw [mem_singleton.1 hs]
    exact hfinal.imp_right fun h : final = _ => .inr (h ▸ hlast)

lemma mem_joinPath {c : Char} (hc : c ∈ (joinPath base path).toList) :
    c = '/' ∨ c ∈ base.toList ∨ c ∈ path.toList := by
  obtain ⟨done, final, hresolved, -, hmem⟩ := exists_resolved_eq base path
  rw [joinPath_eq, hresolved] at hc
  split at hc
  · exact .inl (by simpa using hc)
  · refine (mem_join hc).imp_right ?_
    rintro ⟨s, hs, hc⟩
    obtain rfl | hs | hs := hmem s hs
    · simp at hc
    · exact .inl ((mem_of_mem_split hs).2 hc)
    · exact .inr ((mem_of_mem_split hs).2 hc)

lemma not_slash_mem_resolved (hs : s ∈ resolveDots (segmentsBeside base path)) :
    '/' ∉ s.toList := by
  obtain ⟨done, final, hresolved, -, hmem⟩ := exists_resolved_eq base path
  obtain rfl | hs | hs := hmem s (hresolved ▸ hs)
  · simp
  · exact (mem_of_mem_split hs).1
  · exact (mem_of_mem_split hs).1

/-- The last segment of a joined path is that of the reference, or empty. -/
lemma lastPart_joinPath (base path : String) :
    lastPart '/' (joinPath base path).toList ⊆ lastPart '/' path.toList := by
  obtain ⟨done, final, hresolved, hfinal, -⟩ := exists_resolved_eq base path
  have hslash : '/' ∉ final.toList :=
    not_slash_mem_resolved (hresolved ▸ mem_append_right _ (mem_singleton_self _))
  rw [joinPath_eq, hresolved]
  split
  · rw [show lastPart '/' ("/" : String).toList = [] from by decide]
    exact nil_subset _
  · rw [lastPart_join _ hslash]
    obtain rfl | rfl := hfinal
    · exact nil_subset _
    · rw [String.toList_ofList]
      exact List.Subset.refl _

/-- No segment of the path is a dot segment. -/
def IsTidy (path : String) : Prop :=
  ∀ s ∈ Text.split '/' path, s ≠ "." ∧ s ≠ ".."

lemma removeDots_tidy (hdone : ∀ s ∈ done, s ≠ "." ∧ s ≠ "..") :
    ∀ s ∈ removeDots done segments, s ≠ "." ∧ s ≠ ".." := by
  induction segments generalizing done with
  | nil => exact fun s hs => hdone s (mem_reverse.1 hs)
  | cons seg rest ih =>
    rw [removeDots]
    split
    · exact ih fun s hs => hdone s (mem_of_mem_tail hs)
    next hdots =>
      split
      · exact ih hdone
      next hdot => exact ih (forall_mem_cons.2 ⟨⟨hdot, hdots⟩, hdone⟩)

lemma removeDots_of_tidy (h : ∀ s ∈ segments, s ≠ "." ∧ s ≠ "..") (done : List String) :
    removeDots done segments = done.reverse ++ segments := by
  induction segments generalizing done with
  | nil => rw [removeDots, append_nil]
  | cons seg rest ih =>
    obtain ⟨⟨hdot, hdots⟩, hrest⟩ := forall_mem_cons.1 h
    rw [removeDots, if_neg hdots, if_neg hdot, ih hrest, reverse_cons, append_assoc,
      singleton_append]

lemma isTidy_joinPath (base path : String) : IsTidy (joinPath base path) := by
  obtain ⟨done, final, hresolved, -, -⟩ := exists_resolved_eq base path
  have htidy : ∀ s ∈ resolveDots (segmentsBeside base path), s ≠ "." ∧ s ≠ ".." := by
    intro s hs
    rw [resolveDots] at hs
    obtain hs | hs := mem_append.1 hs
    · exact removeDots_tidy (fun _ h => absurd h not_mem_nil) s hs
    · split at hs
      · rw [mem_singleton.1 hs]
        decide
      · cases hs
  rw [joinPath_eq]
  split
  · unfold IsTidy
    decide
  · rw [IsTidy, split_join (by rw [hresolved]; simp) fun s hs => not_slash_mem_resolved hs]
    exact htidy

lemma joinPath_of_tidy (base : String) (hslash : hasPrefix "/" path) (htidy : IsTidy path) :
    joinPath base path = path := by
  obtain ⟨own, hown⟩ := exists_split_eq '/' path
  have hlast := htidy (String.ofList (lastPart '/' path.toList))
    (hown ▸ mem_append_right _ (mem_singleton_self _))
  have hresolved : resolveDots (segmentsBeside base path) = Text.split '/' path := by
    rw [segmentsBeside, if_pos hslash, resolveDots, removeDots_of_tidy htidy, hown,
      List.getLast?_concat]
    simp [hlast.1, hlast.2]
  rw [joinPath_eq, hresolved, join_split, if_neg]
  obtain ⟨cs, hcs⟩ := hasPrefix_slash_iff.1 hslash
  intro hempty
  rw [String.isEmpty_iff] at hempty
  rw [hempty] at hcs
  cases hcs

end Uri

end ApiSchema
