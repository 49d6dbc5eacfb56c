import ApiSchema.Proofs.Text.Scan

/-!
# Phrases

A phrase is a word, a word with a string literal at its end, or a word with phrases in brackets
behind it, parted by commas. Main statement: the text of a phrase is read in one way, whatever stands
inside of its string literals and behind it.
-/

namespace ApiSchema.Text

open List

open Scan (quoteFor_cases)

/-! ### String literals -/

section

variable {quote : Char}

lemma readChar?_quoteChar (hquote : quote = '\'' ∨ quote = '"') (c : Char) (rest : List Char) :
    readChar? (quoteChar quote c ++ rest) = some (c, rest) := by
  unfold quoteChar
  split_ifs with hspecial hnewline hreturn htab hprintable hbyte hplane
  · obtain rfl | rfl := hspecial
    · obtain rfl | rfl := hquote <;> rfl
    · rfl
  · rw [hnewline]
    rfl
  · rw [hreturn]
    rfl
  · rw [htab]
    rfl
  · exact readChar?_of_ne (fun h => hspecial (.inr h)) rest
  · rw [cons_append, cons_append, readChar?, hexNumber_take_hex (by simpa using hbyte),
      drop_left' (length_hex _ _), Char.ofNat_toNat]
  · exact readChar?_code hplane rest
  · have hwide : c.toNat < 16 ^ 8 := lt_of_lt_of_eq c.val.toNat_lt (by norm_num)
    rw [cons_append, cons_append, readChar?, hexNumber_take_hex hwide, drop_left' (length_hex _ _),
      Char.ofNat_toNat]

/-- No character inside of quotes is written with the quote first. -/
lemma head?_quoteChar_ne (hquote : quote = '\'' ∨ quote = '"') (c : Char) (rest : List Char) :
    (quoteChar quote c ++ rest).head? ≠ some quote := by
  have hslash : '\\' ≠ quote := by
    obtain rfl | rfl := hquote <;> decide
  unfold quoteChar
  split_ifs with hspecial
  case pos => simp [hslash]
  all_goals simp_all

/-- A string literal is read in one way, whatever stands behind it. -/
lemma quoteChars_append_inj {cs ds rest rest' : List Char}
    (h : quoteChars cs ++ rest = quoteChars ds ++ rest') : cs = ds ∧ rest = rest' := by
  simp only [quoteChars, cons_append, append_assoc, nil_append, List.cons.injEq] at h
  obtain ⟨hquote, h⟩ := h
  rw [← hquote] at h
  have hcode {c d : Char} {rest rest' : List Char}
      (h : quoteChar (quoteFor cs) c ++ rest = quoteChar (quoteFor cs) d ++ rest') :
      c = d ∧ rest = rest' := by
    have hread := congrArg readChar? h
    rw [readChar?_quoteChar (quoteFor_cases cs), readChar?_quoteChar (quoteFor_cases cs)] at hread
    simpa using hread
  obtain ⟨hchars, hrest⟩ := flatMap_append_inj (fun rest => rest.head? = some (quoteFor cs))
    (head?_quoteChar_ne (quoteFor_cases cs)) hcode rfl rfl h
  exact ⟨hchars, (List.cons.inj hrest).2⟩

end

/-! ### Words -/

/-- The characters that end a word. -/
def stops : List Char :=
  [',', '[', ']', '(', ')', '\'', '"']

/-- The characters that end a phrase. -/
def closers : List Char :=
  [',', ']', ')']

/-- A text without such characters. -/
def IsUnbroken (word : String) : Prop :=
  ∀ c ∈ word.toList, c ∉ stops

/-- A text that can stand behind a phrase. -/
def Closes (rest : List Char) : Prop :=
  ∀ c ∈ rest.head?, c ∈ closers

lemma closes_cons {c : Char} (hc : c ∈ closers) (rest : List Char) : Closes (c :: rest) := by
  rintro _ ⟨⟩
  exact hc

/-! ### Phrases -/

inductive Bracket where
  | square
  | round

namespace Bracket

def opening : Bracket → Char
  | square => '['
  | round => '('

def closing : Bracket → Char
  | square => ']'
  | round => ')'

end Bracket

/-- A piece of source: a word, a word with a string literal, or a word with phrases in brackets. -/
inductive Phrase where
  | word (front : String)
  | quoted (front text : String)
  | applied (bracket : Bracket) (front : String) (parts : List Phrase)

namespace Phrase

def text : Phrase → List Char
  | word front => front.toList
  | quoted front text => front.toList ++ quoteChars text.toList
  | applied bracket front parts => front.toList ++
    bracket.opening :: ([',', ' '].intercalate (parts.map text) ++ [bracket.closing])

/-- The word that a phrase starts with. -/
def front : Phrase → String
  | word front | quoted front _ | applied _ front _ => front

/-- The phrases in brackets. -/
def parts : Phrase → List Phrase
  | applied _ _ parts => parts
  | _ => []

/-- What stands behind the first word of a phrase. -/
def behind (rest : List Char) : Phrase → List Char
  | word _ => rest
  | quoted _ text => quoteChars text.toList ++ rest
  | applied bracket _ parts =>
    bracket.opening :: ([',', ' '].intercalate (parts.map text) ++ bracket.closing :: rest)

/-- The character that opens what stands behind the first word. -/
def opening? : Phrase → Option Char
  | word _ => none
  | quoted _ text => some (quoteFor text.toList)
  | applied bracket _ _ => some bracket.opening

/-- The words of the phrase can be told from what stands around them. -/
inductive IsProper : Phrase → Prop
  | word {front : String} (hne : front.toList ≠ []) (h : IsUnbroken front) : IsProper (.word front)
  | quoted {front text : String} (h : IsUnbroken front) : IsProper (.quoted front text)
  | applied {bracket : Bracket} {front : String} {parts : List Phrase} (hne : front.toList ≠ [])
    (h : IsUnbroken front) (hparts : ∀ p ∈ parts, IsProper p) :
    IsProper (.applied bracket front parts)

lemma text_append (p : Phrase) (rest : List Char) :
    p.text ++ rest = p.front.toList ++ p.behind rest := by
  cases p <;> simp [text, front, behind]

lemma IsProper.front {p : Phrase} (hp : p.IsProper) : IsUnbroken p.front := by
  cases hp with
  | word _ h | quoted h | applied _ h _ => exact h

/-- A quote ends a word, but not a phrase. -/
lemma quoteFor_mem_stops (cs : List Char) : quoteFor cs ∈ stops ∧ quoteFor cs ∉ closers := by
  obtain h | h := quoteFor_cases cs <;> rw [h] <;> decide

/-- Behind its first word a phrase is closed, or something is opened. -/
lemma mem_stops_of_behind (p : Phrase) {rest : List Char} (hrest : Closes rest) :
    ∀ c ∈ (p.behind rest).head?, c ∈ stops := by
  have hsub : closers ⊆ stops := by decide
  cases p with
  | word _ => exact fun c hc => hsub (hrest c hc)
  | quoted _ text =>
    rintro c ⟨⟩
    exact (quoteFor_mem_stops _).1
  | applied bracket _ _ =>
    rintro c ⟨⟩
    cases bracket <;> decide

lemma filter_head?_behind (p : Phrase) {rest : List Char} (hrest : Closes rest) :
    (p.behind rest).head?.filter (· ∉ closers) = p.opening? := by
  cases p with
  | word _ =>
    refine Option.filter_eq_none_iff.2 fun c hc => ?_
    simpa using hrest c hc
  | quoted _ text => exact Option.filter_some_pos (by simpa using (quoteFor_mem_stops _).2)
  | applied bracket _ _ => cases bracket <;> rfl

section

variable {p q : Phrase} {rest rest' : List Char}

/-- The first word of a phrase is read in one way, and so is what opens behind it. -/
lemma IsProper.front_eq (hp : p.IsProper) (hq : q.IsProper) (hrest : Closes rest)
    (hrest' : Closes rest') (h : p.text ++ rest = q.text ++ rest') :
    p.front = q.front ∧ p.behind rest = q.behind rest' ∧ p.opening? = q.opening? := by
  rw [text_append, text_append] at h
  obtain ⟨hfront, hbehind⟩ := append_inj_of_stop hp.front hq.front (p.mem_stops_of_behind hrest)
    (q.mem_stops_of_behind hrest') h
  refine ⟨String.toList_inj.1 hfront, hbehind, ?_⟩
  rw [← p.filter_head?_behind hrest, ← q.filter_head?_behind hrest', hbehind]

/-- A phrase does not start with what ends one. -/
lemma IsProper.text_append_ne (hp : p.IsProper) {c : Char} (hc : c ∈ closers)
    (rest rest' : List Char) : p.text ++ rest ≠ c :: rest' := by
  rw [text_append]
  intro h
  cases hfront : p.front.toList with
  | cons d ds =>
    rw [hfront] at h
    have hd := hp.front d (hfront ▸ mem_cons_self)
    rw [(List.cons.inj h).1] at hd
    have hsub : closers ⊆ stops := by decide
    exact hd (hsub hc)
  | nil =>
    cases hp with
    | word hne _ | applied hne _ _ => exact hne hfront
    | @quoted _ text _ =>
      rw [hfront] at h
      exact (quoteFor_mem_stops text.toList).2 ((List.cons.inj h).1 ▸ hc)

/-- The text of a phrase is read in one way. -/
theorem text_append_inj (hp : p.IsProper) (hq : q.IsProper) (hrest : Closes rest)
    (hrest' : Closes rest') (h : p.text ++ rest = q.text ++ rest') : p = q ∧ rest = rest' := by
  have hquote (text : String) (b : Bracket) : quoteFor text.toList ≠ b.opening := by
    obtain h | h := quoteFor_cases text.toList <;> rw [h] <;> cases b <;> decide
  induction hp generalizing q rest rest' with
  | word hne hunbroken =>
    obtain ⟨hfront, hbehind, hopening⟩ := IsProper.front_eq (.word hne hunbroken) hq hrest hrest' h
    cases q with
    | word _ => exact ⟨congrArg word hfront, hbehind⟩
    | quoted _ _ | applied _ _ _ => cases hopening
  | quoted hunbroken =>
    obtain ⟨hfront, hbehind, hopening⟩ := IsProper.front_eq (.quoted hunbroken) hq hrest hrest' h
    cases q with
    | word _ => cases hopening
    | quoted _ _ =>
      obtain ⟨htext, hrest⟩ := quoteChars_append_inj hbehind
      exact ⟨congrArg₂ quoted hfront (String.toList_inj.1 htext), hrest⟩
    | applied b _ _ => exact absurd (Option.some.inj hopening) (hquote _ b)
  | @applied bracket _ parts hne hunbroken hparts ih =>
    obtain ⟨hfront, hbehind, hopening⟩ :=
      IsProper.front_eq (.applied hne hunbroken hparts) hq hrest hrest' h
    cases hq with
    | word _ _ => cases hopening
    | quoted _ => exact absurd (Option.some.inj hopening).symm (hquote _ bracket)
    | @applied bracket' _ parts' _ _ hparts' =>
      obtain rfl : bracket = bracket' := by
        cases bracket <;> cases bracket' <;> simp_all [opening?, Bracket.opening]
      have hclosing : bracket.closing ∈ closers := by cases bracket <;> decide
      obtain ⟨hforall, hrest⟩ := intercalate_append_inj Closes
        (by cases bracket <;> decide) (fun _ => ⟨closes_cons (by decide) _, closes_cons hclosing _⟩)
        (fun p hp => (forall_mem_append.2 ⟨hparts, hparts'⟩ p hp).text_append_ne hclosing)
        (fun p hp q hq _ _ hrest hrest' heq => ih p hp (hparts' q hq) hrest hrest' heq)
        (List.cons.inj hbehind).2
      rw [forall₂_eq_eq_eq] at hforall
      exact ⟨congrArg₂ (applied bracket) hfront hforall, hrest⟩

end

lemma text_injective {p q : Phrase} (hp : p.IsProper) (hq : q.IsProper) (h : p.text = q.text) :
    p = q := by
  have hnil : Closes [] := by simp [Closes]
  exact (text_append_inj hp hq hnil hnil (congrArg (· ++ []) h)).1

end Phrase

end ApiSchema.Text
