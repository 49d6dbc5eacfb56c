import ApiSchema.Proofs.Module.Words
import ApiSchema.Proofs.Pointwise
import ApiSchema.Proofs.Text.Phrase

/-!
# Expressions as phrases

The text of an expression is that of a phrase. Main statement: expressions that are built as those
of validators are, and that have the same text, spell the same phrase. What a phrase says can be read
back from it: the type and the remarks on it, the arguments in a remark, and the value of each.
-/

namespace ApiSchema

open List

/-- Lists with equal images are equal if the map tells their members apart. -/
lemma eq_of_map_eq_map {α β : Type} {f : α → β} {xs ys : List α}
    (hf : ∀ x ∈ xs, ∀ y ∈ ys, f x = f y → x = y) (h : xs.map f = ys.map f) : xs = ys := by
  rw [← forall₂_eq_eq_eq]
  exact forall₂_imp_of_mem_of_mem (forall₂_of_map_eq h) hf

namespace Module.Expr

open Text

variable {known : List String} {P : Value → Prop} {e : Expr} {front front' : String} {s t : Scalar}

/-! ### Values -/

/-- The phrase of a value behind a word. -/
def spelled (front : String) : Value → Phrase
  | .scalar (.str s) => .quoted front s
  | v => .word (front ++ v.literal)

lemma text_spelled (front : String) (v : Value) :
    (spelled front v).text = front.toList ++ v.literal.toList := by
  unfold spelled
  split
  · rw [Phrase.text, Value.literal, Scalar.literal, Text.quote, String.toList_ofList]
  · rw [Phrase.text, String.toList_append]

lemma isSpelling_literal : Scalar.IsSpelling fun s => s.literal.toList where
  numeral _ _ h := (Scalar.text_of_numeral? h).symm
  word := by decide +kernel
  letter := by decide +kernel
  distinct := by decide +kernel

lemma spelled_cases (front : String) (s : Scalar) :
    (∃ t, s = .str t ∧ spelled front (.scalar s) = .quoted front t) ∨
      (∀ t, s ≠ .str t) ∧ spelled front (.scalar s) = .word (front ++ s.literal) := by
  cases s <;> simp [spelled, Value.literal]

lemma isProper_spelled (hfront : IsUnbroken front) (s : Scalar) :
    (spelled front (.scalar s)).IsProper := by
  obtain ⟨t, -, h⟩ | ⟨hs, h⟩ := spelled_cases front s <;> rw [h]
  · exact .quoted hfront
  · refine .word (by simp [isSpelling_literal.ne_nil hs]) fun c hc => ?_
    rw [String.toList_append] at hc
    rcases mem_append.1 hc with hc | hc
    · exact hfront c hc
    · intro hstop
      have hword := isSpelling_literal.isWordChar_of_mem hs hc
      simp only [stops, mem_cons, not_mem_nil, or_false] at hstop
      rcases hstop with rfl | rfl | rfl | rfl | rfl | rfl | rfl <;> cases hword

/-- A scalar that can be written so that it is read back. -/
def IsWritten (v : Value) : Prop :=
  ∃ s : Scalar, v = .scalar s ∧ ∀ x ∈ s.floats, x.IsBinary64

/-- The phrase of a value behind a word tells the word and the value, if words are told apart. -/
lemma spelled_inj {v w : Value} (hv : IsWritten v) (hw : IsWritten w)
    (hfront : ∀ text text', front ++ text = front' ++ text' → front = front')
    (h : spelled front v = spelled front' w) : front = front' ∧ v = w := by
  obtain ⟨s, rfl, hs⟩ := hv
  obtain ⟨t, rfl, ht⟩ := hw
  obtain ⟨text, rfl, hquoted⟩ | ⟨hword, hs'⟩ := spelled_cases front s
  · obtain ⟨text', rfl, hquoted'⟩ | ⟨-, ht'⟩ := spelled_cases front' t
    · rw [hquoted, hquoted'] at h
      cases h
      exact ⟨rfl, rfl⟩
    · rw [hquoted, ht'] at h
      cases h
  · obtain ⟨text', rfl, hquoted'⟩ | ⟨hword', ht'⟩ := spelled_cases front' t
    · rw [hs', hquoted'] at h
      cases h
    · rw [hs', ht'] at h
      have htext := Phrase.word.inj h
      obtain rfl := hfront _ _ htext
      have hliteral := String.append_right_inj front |>.1 htext
      exact ⟨rfl, congrArg _ (isSpelling_literal.injective hword hword' hs ht
        (congrArg String.toList hliteral))⟩

/-! ### Phrases -/

/-- An argument by name as a phrase. -/
def argument (arg : String × Value) : Phrase :=
  spelled (arg.1 ++ "=") arg.2

/-- The phrase that an expression spells. -/
def phrase : Expr → Phrase
  | symbol s => .word s.name
  | builtin b => .word b.name
  | name n => .word n
  | literal v => spelled "" v
  | index head args => .applied .square (text head) (args.map phrase)
  | call head args named => .applied .round (text head) (args.map phrase ++ named.map argument)

lemma toList_text (e : Expr) : e.text.toList = e.phrase.text := by
  match e with
  | symbol _ | builtin _ | name _ => rw [text, phrase, Phrase.text]
  | literal v => simp [text, phrase, text_spelled]
  | index head args =>
    have hargs : args.map (fun e => e.text.toList) = args.map fun e => e.phrase.text :=
      map_congr_left fun e _ => toList_text e
    simp [text, phrase, Phrase.text, texts_eq, Text.join, Bracket.opening, Bracket.closing,
      String.toList_intercalate, Function.comp_def, hargs]
  | call head args named =>
    have hargs : args.map (fun e => e.text.toList) = args.map fun e => e.phrase.text :=
      map_congr_left fun e _ => toList_text e
    simp [text, phrase, Phrase.text, texts_eq, Text.join, Bracket.opening, Bracket.closing,
      String.toList_intercalate, Function.comp_def, hargs, argument, namedArgument, text_spelled]

lemma isUnbroken_of_isIdentifier {name : String} (h : Name.isIdentifier name) :
    IsUnbroken name ∧ name.toList ≠ [] := by
  obtain ⟨c, text, hname, -⟩ := Scan.exists_toList_of_isIdentifier h
  refine ⟨fun c hc hstop => ?_, by simp [hname]⟩
  have hpart := Name.isWord_iff.1 (Name.isIdentifier_iff.1 h).1 c hc
  simp only [stops, mem_cons, not_mem_nil, or_false] at hstop
  rcases hstop with rfl | rfl | rfl | rfl | rfl | rfl | rfl <;> revert hpart <;> decide

/-- Where names are identifiers and values are scalars, all that an expression holds can be told
from what stands around it. -/
lemma IsBuilt.isProper (h : IsBuilt known P e) (hknown : ∀ n ∈ known, Name.isIdentifier n)
    (hP : ∀ v, P v → ∃ s : Scalar, v = .scalar s) : e.phrase.IsProper := by
  have hname {n : String} (hn : Name.isIdentifier n) : (Phrase.word n).IsProper :=
    .word (isUnbroken_of_isIdentifier hn).2 (isUnbroken_of_isIdentifier hn).1
  have hvalue {front : String} (hfront : IsUnbroken front) {v : Value} (hv : P v) :
      (spelled front v).IsProper := by
    obtain ⟨s, rfl⟩ := hP v hv
    exact isProper_spelled hfront s
  have happlied {bracket : Bracket} {head : Expr} {parts : List Phrase} (hhead : IsHead head)
      (hparts : ∀ p ∈ parts, p.IsProper) : (Phrase.applied bracket head.text parts).IsProper := by
    have hid : Name.isIdentifier head.text := by
      cases hhead with
      | symbol s => exact isIdentifier_symbol s
      | builtin b => exact (by cases b <;> decide)
    exact .applied (isUnbroken_of_isIdentifier hid).2 (isUnbroken_of_isIdentifier hid).1 hparts
  induction h with
  | symbol s =>
    rw [phrase]
    exact hname (isIdentifier_symbol s)
  | builtin b =>
    rw [phrase]
    exact hname ((by cases b <;> decide))
  | name h =>
    rw [phrase]
    exact hname (hknown _ h)
  | literal h =>
    rw [phrase]
    exact hvalue (by simp [IsUnbroken]) h
  | index hhead _ ih =>
    rw [phrase]
    exact happlied hhead (forall_mem_map.2 ih)
  | call hhead _ hnamed ih =>
    rw [phrase]
    refine happlied hhead (forall_mem_append.2 ⟨forall_mem_map.2 ih, forall_mem_map.2 ?_⟩)
    intro arg harg
    refine hvalue (fun c hc => ?_) (hnamed arg harg).2
    rw [String.toList_append] at hc
    rcases mem_append.1 hc with hc | hc
    · exact (isUnbroken_of_isIdentifier (hnamed arg harg).1.1).1 c hc
    · rw [mem_singleton.1 hc]
      decide

/-- Expressions with the same text spell the same phrase. -/
theorem phrase_eq_of_text_eq {e' : Expr} (h : IsBuilt known P e) (h' : IsBuilt known P e')
    (hknown : ∀ n ∈ known, Name.isIdentifier n) (hP : ∀ v, P v → ∃ s : Scalar, v = .scalar s)
    (htext : e.text = e'.text) : e.phrase = e'.phrase := by
  refine Phrase.text_injective (h.isProper hknown hP) (h'.isProper hknown hP) ?_
  rw [← toList_text, ← toList_text, htext]

/-! ### Types and remarks -/

/-- The type that a phrase says, and the remarks on it. -/
def typed : Phrase → Phrase × List Phrase
  | .applied bracket front (type :: remarks) =>
    if front = Symbol.annotated.name then (type, remarks)
    else (.applied bracket front (type :: remarks), [])
  | p => (p, [])

lemma typed_annotated {type : Expr} (h : type.phrase.front ≠ Symbol.annotated.name)
    (remarks : List Expr) :
    typed (annotated type remarks).phrase = (type.phrase, remarks.map phrase) := by
  unfold annotated
  cases remarks with
  | nil =>
    change typed type.phrase = (type.phrase, [])
    unfold typed
    split
    next heq =>
      rw [heq] at h ⊢
      exact if_neg h
    next => rfl
  | cons r rs =>
    rw [if_neg (by simp), phrase, map_cons, text, typed, if_pos rfl]

/-- The parts of those phrases that start with the name of a symbol. -/
def among (s : Symbol) (ps : List Phrase) : List Phrase :=
  (ps.filter fun p => p.front == s.name).flatMap Phrase.parts

lemma among_append (s : Symbol) (ps qs : List Phrase) :
    among s (ps ++ qs) = among s ps ++ among s qs := by
  simp [among]

lemma among_constrained (s s' : Symbol) (args : List (String × Value)) :
    among s ((constrained s' args).map phrase) =
      if s'.name = s.name then args.map argument else [] := by
  unfold constrained
  split
  next h => simp [among, List.isEmpty_iff.1 h]
  next =>
    by_cases hs : s'.name = s.name <;>
      simp [among, phrase, text, Phrase.front, Phrase.parts, hs]

end Module.Expr

end ApiSchema
