import Mathlib
import ApiSchema.Name.Identifier
import ApiSchema.Name.Route
import ApiSchema.Schema.Route

/-!
# Names that are identifiers

Names are put together from words, all of whose characters may stand inside of an identifier. Main
statements: a name made from the name of a schema or from a route is an identifier, but for the
roles of responses whose status has no letter and no digit.
-/

open List

namespace ApiSchema.Name

open Unicode

variable {cs w : List Char} {c : Char}

/-- A text of characters that may stand inside of an identifier. -/
def IsWord (s : String) : Prop :=
  s.toList.all isIdentifierPart

instance (s : String) : Decidable (IsWord s) :=
  inferInstanceAs (Decidable (_ = true))

section

variable {s t : String}

lemma isIdentifierPart_of_isAlphanum {c : Char} (h : c.isAlphanum) : isIdentifierPart c := by
  rw [Char.isAlphanum, Bool.or_eq_true] at h
  rcases h with h | h <;> simp [isIdentifierPart, isIdentifierStart, h]

lemma isWord_iff : IsWord s ↔ ∀ c ∈ s.toList, isIdentifierPart c :=
  all_eq_true

lemma isWord_append : IsWord (s ++ t) ↔ IsWord s ∧ IsWord t := by
  simp only [isWord_iff, String.toList_append, mem_append, or_imp, forall_and]

lemma isWord_toString (n : Nat) : IsWord (toString n) := by
  refine isWord_iff.2 fun c hc => ?_
  rw [Nat.toString_eq_repr, Nat.toList_repr] at hc
  have hdigit : c.isDigit := Nat.isDigit_of_mem_toDigits (by norm_num) (by norm_num) hc
  simp [isIdentifierPart, hdigit]

lemma isIdentifier_iff : isIdentifier s ↔ IsWord s ∧ ∃ c ∈ s.toList.head?, isIdentifierStart c := by
  rw [isIdentifier, isWord_iff]
  cases s.toList with
  | nil => simp [Unicode.isIdentifier]
  | cons c cs =>
    have hpart : isIdentifierStart c → isIdentifierPart c := by
      intro h
      simp [isIdentifierPart, h]
    simp only [Unicode.isIdentifier, Bool.and_eq_true, all_eq_true, List.head?_cons,
      Option.mem_some_iff, exists_eq_left', forall_mem_cons]
    tauto

/-- Only words may follow an identifier. -/
lemma isIdentifier_append (hs : isIdentifier s) : isIdentifier (s ++ t) ↔ IsWord t := by
  obtain ⟨hword, c, hc, hstart⟩ := isIdentifier_iff.1 hs
  have hhead : (s ++ t).toList.head? = some c := by
    rw [String.toList_append, List.head?_append, hc]
    rfl
  rw [isIdentifier_iff, isWord_append, hhead]
  constructor
  · exact fun h => h.1.2
  · exact fun ht => ⟨⟨hword, ht⟩, c, rfl, hstart⟩

lemma IsWord.of_isIdentifier (hs : isIdentifier s) : IsWord s :=
  (isIdentifier_iff.1 hs).1

/-- An identifier before an identifier makes one, and so does nothing. -/
lemma isIdentifier_append_of_isIdentifier (hs : s.isEmpty || isIdentifier s) (ht : isIdentifier t) :
    isIdentifier (s ++ t) := by
  rcases Bool.or_eq_true_iff.1 hs with hs | hs
  · rw [String.isEmpty_iff.1 hs, String.empty_append]
    exact ht
  · exact (isIdentifier_append hs).2 (.of_isIdentifier ht)

end

/-! ### Pascal case -/

/-- The parts that a text is split into hold no separators. -/
lemma eq_false_of_mem_splitOnP {p : Char → Bool} (hw : w ∈ cs.splitOnP p) (hc : c ∈ w) :
    p c = false := by
  induction cs generalizing w with
  | nil =>
    rw [splitOnP_nil, mem_singleton] at hw
    rw [hw] at hc
    cases hc
  | cons d ds ih =>
    rw [splitOnP_cons_eq_if_modifyHead] at hw
    split at hw
    next =>
      rcases mem_cons.1 hw with rfl | hw
      · cases hc
      · exact ih hw hc
    next hd =>
      obtain ⟨first, rest, hsplit⟩ := exists_cons_of_ne_nil (splitOnP_ne_nil p ds)
      rw [hsplit, modifyHead_cons] at hw
      rcases mem_cons.1 hw with rfl | hw
      · rcases mem_cons.1 hc with rfl | hc
        · simpa using hd
        · exact ih (hsplit ▸ mem_cons_self) hc
      · exact ih (hsplit ▸ mem_cons_of_mem _ hw) hc

lemma isAlphanum_of_mem_words (hw : w ∈ words cs) (hc : c ∈ w) : c.isAlphanum := by
  simpa using eq_false_of_mem_splitOnP (mem_filter.1 hw).1 hc

lemma isAlphanum_toUpper (h : c.isAlphanum) : c.toUpper.isAlphanum := by
  rw [Char.isAlphanum, Bool.or_eq_true] at h ⊢
  rcases h with h | h
  · exact .inl (c.isAlpha_toUpper_eq_isAlpha.trans h)
  · by_cases hlower : c.isLower
    · left
      simp [Char.isAlpha, hlower]
    · rw [Char.toUpper_eq_of_not_isLower hlower]
      exact .inr h

lemma isAlphanum_toLower (h : c.isAlphanum) : c.toLower.isAlphanum := by
  rw [Char.isAlphanum, Bool.or_eq_true] at h ⊢
  rcases h with h | h
  · exact .inl (c.isAlpha_toLower_eq_isAlpha.trans h)
  · by_cases hupper : c.isUpper
    · left
      simp [Char.isAlpha, hupper]
    · rw [Char.toLower_eq_of_not_isUpper hupper]
      exact .inr h

/-- Pascal case has letters and digits only. -/
lemma isAlphanum_of_mem_pascal {s : String} (hc : c ∈ (pascal s).toList) : c.isAlphanum := by
  rw [pascal, String.toList_ofList, mem_flatMap] at hc
  obtain ⟨w, hw, hc⟩ := hc
  cases w with
  | nil => cases hc
  | cons d rest =>
    rcases mem_cons.1 hc with rfl | hc
    · exact isAlphanum_toUpper (isAlphanum_of_mem_words hw mem_cons_self)
    · obtain ⟨e, he, rfl⟩ := mem_map.1 hc
      exact isAlphanum_toLower (isAlphanum_of_mem_words hw (mem_cons_of_mem _ he))

lemma isWord_pascal (s : String) : IsWord (pascal s) :=
  isWord_iff.2 fun _ hc => isIdentifierPart_of_isAlphanum (isAlphanum_of_mem_pascal hc)

/-- Every name becomes an identifier. -/
theorem isIdentifier_identifier (s : String) : isIdentifier (identifier s) := by
  unfold identifier
  split
  next h => exact (Bool.and_eq_true_iff.1 h).1
  next =>
    extract_lets name
    split
    next => decide
    next hname =>
      split
      next c rest hcs =>
        split
        next => exact (isIdentifier_append (by decide)).2 (isWord_pascal s)
        next hdigit =>
          -- A letter or a digit that is not a digit may begin an identifier.
          refine isIdentifier_iff.2 ⟨isWord_pascal s, c, by rw [hcs]; rfl, ?_⟩
          have hc := isAlphanum_of_mem_pascal (s := s) (hcs ▸ mem_cons_self)
          simp_all [Char.isAlphanum, isIdentifierStart]
      next hcs => exact absurd (String.isEmpty_iff.2 (String.toList_eq_nil_iff.1 hcs)) hname

/-! ### Routes -/

lemma isWord_join {parts : List String} (h : ∀ s ∈ parts, IsWord s) : IsWord (Text.join "" parts) := by
  rw [Text.join]
  induction parts with
  | nil => decide
  | cons s rest ih =>
    obtain ⟨hs, hrest⟩ := forall_mem_cons.1 h
    cases rest with
    | nil => rwa [String.intercalate_singleton]
    | cons t rest =>
      rw [String.intercalate_cons_cons, String.append_empty]
      exact isWord_append.2 ⟨hs, ih hrest⟩

lemma isWord_pathStem (path : String) : IsWord (pathStem path) := by
  refine isWord_join fun s hs => ?_
  obtain ⟨segment, -, rfl⟩ := mem_map.1 hs
  exact isWord_pascal segment

/-- A name made from a route is an identifier if its role is a word. -/
theorem isIdentifier_routeStem {method : String × String} (h : method ∈ Route.methods)
    (path suffix : String) : isIdentifier (routeStem path method.2 suffix) ↔ IsWord suffix := by
  have hmethod : ∀ m ∈ Route.methods,
      isIdentifier (String.ofList (capitalize m.2.toList)) := by decide +kernel
  have hstem : isIdentifier (String.ofList (capitalize method.2.toList) ++ pathStem path) :=
    (isIdentifier_append (hmethod method h)).2 (isWord_pathStem path)
  exact isIdentifier_append hstem

/-- A status that has no letter and no digit, and holds something that no identifier holds. -/
structure IsOddStatus (status : String) : Prop where
  pascal : pascal status = ""
  word : ¬ IsWord status

instance (status : String) : Decidable (IsOddStatus status) :=
  decidable_of_iff (Name.pascal status = "" ∧ ¬ IsWord status)
    ⟨fun h => ⟨h.1, h.2⟩, fun h => ⟨h.1, h.2⟩⟩

/-- The role of a response is a word unless its status is odd. -/
theorem isWord_statusSuffix (status : String) :
    IsWord (statusSuffix status) ↔ ¬ IsOddStatus status := by
  have hresponse : IsWord "Response" ∧ IsWord "ErrorResponse" := by decide
  unfold statusSuffix
  split
  next h =>
    subst h
    decide
  next =>
    extract_lets name label
    have hlabel : IsWord label ↔ ¬ IsOddStatus status := by
      by_cases hname : name.isEmpty
      · have hempty : pascal status = "" := String.isEmpty_iff.1 hname
        rw [show label = status from if_pos hname]
        exact ⟨fun hword hodd => hodd.word hword, fun hodd => by_contra fun h => hodd ⟨hempty, h⟩⟩
      · rw [show label = name from if_neg hname]
        exact ⟨fun _ hodd => hname (String.isEmpty_iff.2 hodd.pascal), fun _ => isWord_pascal status⟩
    split
    · rw [isWord_append, hlabel, and_iff_left hresponse.1]
    · rw [isWord_append, hlabel, and_iff_left hresponse.2]

example : IsOddStatus "-" ∧ ¬ IsOddStatus "2XX" ∧ ¬ IsOddStatus "default" := by
  decide

/-! ### Reserved words -/

/-- No reserved word holds the letter that ends of names begin with. -/
lemma not_isKeyword_of_mem {s : String} (h : 'S' ∈ s.toList) : ¬ isKeyword s := by
  have hkeywords : ∀ k ∈ keywords, 'S' ∉ k.toList := by decide
  intro hs
  exact hkeywords s (contains_iff_mem.1 hs) h

end ApiSchema.Name

namespace ApiSchema.Text

lemma hasPrefix_iff {start s : String} : hasPrefix start s ↔ ∃ rest, s = start ++ rest := by
  rw [hasPrefix, isPrefixOf_iff_prefix]
  constructor
  · rintro ⟨rest, hrest⟩
    exact ⟨String.ofList rest, by rw [← String.toList_inj]; simp [hrest]⟩
  · rintro ⟨rest, rfl⟩
    exact ⟨rest.toList, String.toList_append.symm⟩

end ApiSchema.Text
