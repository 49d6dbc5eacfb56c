import ApiSchema.Proofs.Name.Identifier
import ApiSchema.Proofs.Number.Numeral

/-!
# Names in source text

A scanner goes through a piece of source and tells which names it refers to. It passes over string
literals, over numbers, over names behind a point, and over names in front of an equals sign, which
are those of arguments. The names of attributes and arguments are found as well if all identifiers
are asked for.

Main statement: the literal of a value refers to `None`, `True` and `False` only, but for infinite
numbers, whose text is a name.
-/

open List

namespace ApiSchema

namespace Scan

open Unicode

/-! ### The scanner -/

/-- What is being read. -/
inductive Mode where
  | outside
  /-- Behind a point. -/
  | point
  /-- A name, with the letters read so far. -/
  | word (letters : List Char)
  /-- The name of an attribute. -/
  | attribute
  | number
  | quoted (quote : Char)
  /-- Behind a backslash inside of quotes. -/
  | escaped (quote : Char)

/-- The mode behind a character that starts something new. -/
def enter (c : Char) : Mode :=
  if c = '\'' ∨ c = '"' then .quoted c
  else if isIdentifierStart c then .word [c]
  else if c.isDigit then .number
  else if c = '.' then .point
  else .outside

/-- The mode behind a character, where all identifiers are read or only names that are referred
to. -/
def next (all : Bool) : Mode → Char → Mode
  | .outside, c => enter c
  | .point, c => if isIdentifierStart c ∧ !all then .attribute else enter c
  | .word letters, c => if isIdentifierPart c then .word (letters ++ [c]) else enter c
  | .attribute, c => if isIdentifierPart c then .attribute else enter c
  | .number, c => if isIdentifierPart c ∨ c = '.' then .number else enter c
  | .quoted quote, c =>
    if c = quote then .outside else if c = '\\' then .escaped quote else .quoted quote
  | .escaped quote, _ => .quoted quote

/-- The name that ends in front of a character, if it counts. -/
def ended (all : Bool) : Mode → Char → List String
  | .word letters, c =>
    if isIdentifierPart c ∨ c = '=' ∧ !all then [] else [String.ofList letters]
  | _, _ => []

/-- The names in a text, from a mode on. -/
def scan (all : Bool) : Mode → List Char → List String
  | .word letters, [] => [String.ofList letters]
  | _, [] => []
  | mode, c :: rest => ended all mode c ++ scan all (next all mode c) rest

/-- The names that a text refers to. -/
def names (text : String) : List String :=
  scan false .outside text.toList

/-- All identifiers in a text. -/
def identifiers (text : String) : List String :=
  scan true .outside text.toList

variable {all : Bool}

lemma scan_cons (mode : Mode) (c : Char) (rest : List Char) :
    scan all mode (c :: rest) = ended all mode c ++ scan all (next all mode c) rest := by
  cases mode <;> rfl

lemma scan_outside_cons (c : Char) (rest : List Char) :
    scan all .outside (c :: rest) = scan all (enter c) rest :=
  rfl

/-! ### Texts that can be read apart from what follows -/

/-- The characters that end a name and a number. -/
def marks : List Char :=
  ['[', ']', '(', ')', '\x7b', '\x7d', ',', ':', ' ', '+', '-', '\n']

/-- A text that ends what stands in front of it. -/
def Ends (text : List Char) : Prop :=
  ∀ c ∈ text.head?, c ∈ marks

/-- A text in which these names are found, and nothing is left open, whatever follows. -/
def Reads (all : Bool) (text : List Char) (found : List String) : Prop :=
  ∀ rest, Ends rest → scan all .outside (text ++ rest) = found ++ scan all .outside rest

section

variable {text text' rest : List Char} {found found' : List String} {c : Char}

variable {letters : List Char} {name : String}

lemma enter_of_mem_marks (hc : c ∈ marks) : enter c = .outside := by
  simp only [marks, mem_cons, not_mem_nil, or_false] at hc
  rcases hc with rfl | rfl | rfl | rfl | rfl | rfl | rfl | rfl | rfl | rfl | rfl | rfl <;> rfl

lemma not_isIdentifierPart_of_mem_marks (hc : c ∈ marks) : ¬ isIdentifierPart c := by
  simp only [marks, mem_cons, not_mem_nil, or_false] at hc
  rcases hc with rfl | rfl | rfl | rfl | rfl | rfl | rfl | rfl | rfl | rfl | rfl | rfl <;> decide

lemma ne_of_mem_marks (hc : c ∈ marks) : c ≠ '=' ∧ c ≠ '.' := by
  refine ⟨?_, ?_⟩ <;>
  · rintro rfl
    revert hc
    decide

lemma ends_cons (hc : c ∈ marks) (text : List Char) : Ends (c :: text) := by
  rintro _ ⟨⟩
  exact hc

lemma Ends.append (h : Ends text) (hrest : Ends rest) : Ends (text ++ rest) := by
  cases text with
  | nil => exact hrest
  | cons c text => exact ends_cons (h c rfl) _

lemma Reads.scan_eq (h : Reads all text found) : scan all .outside text = found := by
  have hread := h [] (by simp [Ends])
  rw [append_nil] at hread
  exact hread.trans (append_nil found)

lemma Reads.names {text : String} (h : Reads false text.toList found) : names text = found :=
  h.scan_eq

lemma reads_nil : Reads all [] [] :=
  fun _ _ => rfl

/-- A mark may stand in front. -/
lemma Reads.mark (hc : c ∈ marks) (h : Reads all text found) : Reads all (c :: text) found := by
  intro rest hrest
  rw [cons_append, scan_outside_cons, enter_of_mem_marks hc]
  exact h rest hrest

lemma Reads.append (h : Reads all text found) (h' : Reads all text' found') (hends : Ends text') :
    Reads all (text ++ text') (found ++ found') := by
  intro rest hrest
  rw [append_assoc, h _ (hends.append hrest), h' rest hrest, append_assoc]

/-- A mark may stand behind. -/
lemma Reads.append_mark (h : Reads all text found) (hc : c ∈ marks) : Reads all (text ++ [c]) found := by
  simpa using h.append (reads_nil.mark hc) (ends_cons hc [])

lemma Reads.enclosed {c' : Char} (h : Reads all text found) (hc : c ∈ marks) (hc' : c' ∈ marks) :
    Reads all (c :: text ++ [c']) found :=
  (h.mark hc).append_mark hc'

/-! ### Names and arguments -/

/-- A name goes on with what may stand inside of one. -/
lemma scan_word_append (htext : ∀ c ∈ text, isIdentifierPart c) (rest : List Char) :
    scan all (.word letters) (text ++ rest) = scan all (.word (letters ++ text)) rest := by
  induction text generalizing letters with
  | nil => rw [nil_append, append_nil]
  | cons c text ih =>
    have hpart : isIdentifierPart c := htext c mem_cons_self
    rw [cons_append, scan_cons, ended, if_pos (.inl hpart), next, if_pos hpart,
      ih fun d hd => htext d (mem_cons_of_mem _ hd)]
    simp

lemma scan_word (letters : List Char) (hrest : Ends rest) :
    scan all (.word letters) rest = String.ofList letters :: scan all .outside rest := by
  cases rest with
  | nil => rfl
  | cons c rest =>
    have hc := hrest c rfl
    have hpart := not_isIdentifierPart_of_mem_marks hc
    simp [scan_cons, ended, next, hpart, (ne_of_mem_marks hc).1, enter_of_mem_marks hc]

lemma enter_of_isIdentifierStart (hc : isIdentifierStart c) : enter c = .word [c] := by
  rw [enter, if_neg, if_pos hc]
  rintro (rfl | rfl) <;> exact absurd hc (by decide)

/-- An identifier is a character that may start one and more that may stand inside of it. -/
lemma exists_toList_of_isIdentifier (h : Name.isIdentifier name) :
    ∃ c text, name.toList = c :: text ∧ isIdentifierStart c ∧ ∀ d ∈ text, isIdentifierPart d := by
  obtain ⟨hword, c, hc, hstart⟩ := Name.isIdentifier_iff.1 h
  obtain ⟨text, htext⟩ := List.head?_eq_some_iff.1 hc
  refine ⟨c, text, htext, hstart, fun d hd => Name.isWord_iff.1 hword d ?_⟩
  rw [htext]
  exact mem_cons_of_mem _ hd

lemma scan_identifier (h : Name.isIdentifier name) (rest : List Char) :
    scan all .outside (name.toList ++ rest) = scan all (.word name.toList) rest := by
  obtain ⟨c, text, hname, hstart, htext⟩ := exists_toList_of_isIdentifier h
  rw [hname, cons_append, scan_outside_cons, enter_of_isIdentifierStart hstart,
    scan_word_append htext]
  rfl

lemma reads_identifier (h : Name.isIdentifier name) : Reads all name.toList [name] := by
  intro rest hrest
  rw [scan_identifier h, scan_word _ hrest, String.ofList_toList]
  rfl

/-- The name of an argument is no reference. -/
lemma Reads.argument (hname : Name.isIdentifier name) (h : Reads all text found) :
    Reads all (name.toList ++ '=' :: text) ((if all then [name] else []) ++ found) := by
  intro rest hrest
  have hpart : isIdentifierPart '=' = false := by decide
  have henter : enter '=' = .outside := rfl
  rw [append_assoc, cons_append, scan_identifier hname, scan_cons, append_assoc,
    ← h rest hrest]
  cases all <;> simp [ended, next, hpart, henter]

/-- The name of an attribute is an identifier of its own. -/
lemma Reads.attribute (hname : Name.isIdentifier name) (h : Reads true text found)
    (hne : text ≠ []) : Reads true (name.toList ++ '.' :: text) (name :: found) := by
  obtain ⟨c, text, rfl⟩ := exists_cons_of_ne_nil hne
  intro rest hrest
  have hpart : isIdentifierPart '.' = false := by decide
  have henter : enter '.' = .point := rfl
  have hfound := h rest hrest
  rw [cons_append] at hfound
  rw [append_assoc, scan_identifier hname, cons_append, cons_append, cons_append,
    ← hfound]
  simp [scan_cons, ended, next, hpart, henter]

/-! ### Lists -/

lemma forall₂_reads {α : Type} {as : List α} {f : α → String} {g : α → List String}
    (h : ∀ a ∈ as, Reads all (f a).toList (g a)) :
    Forall₂ (fun text found => Reads all text.toList found) (as.map f) (as.map g) := by
  rw [forall₂_map_left_iff, forall₂_map_right_iff]
  exact forall₂_same.2 h

/-- Texts with a comma and a blank between them. -/
lemma reads_join {texts : List String} {founds : List (List String)}
    (h : Forall₂ (fun text found => Reads all text.toList found) texts founds) :
    Reads all (Text.join ", " texts).toList founds.flatten := by
  induction h with
  | nil => exact reads_nil
  | @cons text found texts founds htext htexts ih =>
    rw [flatten_cons, Text.join]
    cases htexts with
    | nil => simpa using htext
    | cons _ _ =>
      rw [String.intercalate_cons_of_ne_nil (cons_ne_nil _ _), String.append_assoc,
        String.toList_append, String.toList_append]
      refine htext.append ((ih.mark (c := ' ') (by decide)).mark (c := ',') (by decide)) ?_
      exact ends_cons (by decide) _

end

/-! ### Numbers -/

section

variable {text rest : List Char} {c : Char}

lemma enter_of_isDigit (hc : c.isDigit) : enter c = .number := by
  have hrange : 48 ≤ c.toNat ∧ c.toNat ≤ 57 := by simpa [Char.isDigit, UInt32.le_iff_toNat_le] using hc
  have hstart : isIdentifierStart c = false := by
    have halpha : c.isAlpha = false := by
      simp [Char.isAlpha, Char.isUpper, Char.isLower, UInt32.le_iff_toNat_le]
      have : c.val.toNat = c.toNat := rfl
      omega
    have hne : c ≠ '_' := by
      rintro rfl
      exact absurd hc (by decide)
    simp only [isIdentifierStart, halpha, Bool.false_or, Bool.or_eq_false_iff, beq_eq_false_iff_ne,
      Bool.and_eq_false_iff, decide_eq_false_iff_not]
    exact ⟨hne, .inl (by omega)⟩
  rw [enter, if_neg, if_neg (by simp [hstart]), if_pos hc]
  rintro (rfl | rfl) <;> exact absurd hc (by decide)

lemma scan_number (htext : ∀ c ∈ text, isIdentifierPart c ∨ c = '.') (hrest : Ends rest) :
    scan all .number (text ++ rest) = scan all .outside rest := by
  induction text with
  | nil =>
    cases rest with
    | nil => rfl
    | cons c rest =>
      have hc := hrest c rfl
      have hpart := not_isIdentifierPart_of_mem_marks hc
      simp [scan_cons, ended, next, hpart, (ne_of_mem_marks hc).2]
  | cons c text ih =>
    rw [cons_append, scan_cons, next, if_pos (htext c mem_cons_self)]
    exact ih fun d hd => htext d (mem_cons_of_mem _ hd)

/-- A digit, and what may stand behind it in a number. -/
lemma reads_number (hc : c.isDigit) (htext : ∀ d ∈ text, isIdentifierPart d ∨ d = '.') :
    Reads all (c :: text) [] := by
  intro rest hrest
  rw [cons_append, scan_outside_cons, enter_of_isDigit hc, scan_number htext hrest]
  rfl

lemma isIdentifierPart_of_isDigit (hc : c.isDigit) : isIdentifierPart c := by
  simp [isIdentifierPart, hc]

/-- Digits alone. -/
lemma reads_digits (hne : text ≠ []) (htext : ∀ d ∈ text, d.isDigit) : Reads all text [] := by
  obtain ⟨c, text, rfl⟩ := exists_cons_of_ne_nil hne
  refine reads_number (htext c mem_cons_self) fun d hd => .inl ?_
  exact isIdentifierPart_of_isDigit (htext d (mem_cons_of_mem _ hd))

/-- A numeral refers to nothing. -/
lemma reads_numeral {n : Numeral} (hn : n.IsProper) : Reads all n.text [] := by
  have hmantissa : ∀ d ∈ n.whole ++ Numeral.behind '.' n.fraction, isIdentifierPart d ∨ d = '.' := by
    refine forall_mem_append.2 ⟨fun d hd => ?_, fun d hd => ?_⟩
    · exact .inl (isIdentifierPart_of_isDigit (hn.whole d hd))
    · obtain rfl | hd := Numeral.mem_behind hd
      · exact .inr rfl
      · exact .inl (isIdentifierPart_of_isDigit (hn.fraction d hd))
  have hmagnitude : Reads all n.magnitude [] := by
    obtain ⟨c, cs, hwhole⟩ := exists_cons_of_ne_nil hn.whole_ne_nil
    have hc : c.isDigit := hn.whole c (by rw [hwhole]; exact mem_cons_self)
    rw [hwhole, cons_append] at hmantissa
    replace hmantissa := fun d hd => hmantissa d (mem_cons_of_mem c hd)
    rw [Numeral.magnitude, hwhole]
    obtain hnil | ⟨sign, ds, hpower, hsign, hne, hds⟩ := hn.power
    · rw [hnil]
      simpa [Numeral.behind] using reads_number hc hmantissa
    · have hmark : sign ∈ marks := by
        rcases mem_pair.1 hsign with rfl | rfl <;> decide
      have hfront : Reads all (c :: (cs ++ Numeral.behind '.' n.fraction ++ ['e'])) [] := by
        refine reads_number hc (forall_mem_append.2 ⟨hmantissa, ?_⟩)
        exact forall_mem_singleton.2 (.inl (by decide))
      have hread := hfront.append ((reads_digits hne hds).mark hmark) (ends_cons hmark ds)
      simpa [hpower, Numeral.behind] using hread
  unfold Numeral.text
  split
  · exact hmagnitude.mark (by decide)
  · exact hmagnitude

/-- The text of an infinite number is a name. -/
lemma reads_infinite (negative : Bool) :
    Reads all (Double.text (.infinite negative)).toList ["inf"] := by
  have hname : Reads all "inf".toList ["inf"] := reads_identifier (by decide)
  cases negative with
  | false => exact hname
  | true => exact hname.mark (c := '-') (by decide)

end

/-! ### String literals -/

section

variable {quote c : Char} {text rest : List Char}

/-- Inside of quotes nothing happens before the next quote or backslash. -/
lemma scan_quoted (htext : ∀ c ∈ text, c ≠ quote ∧ c ≠ '\\') :
    scan all (.quoted quote) (text ++ rest) = scan all (.quoted quote) rest := by
  induction text with
  | nil => rfl
  | cons c text ih =>
    obtain ⟨hquote, hslash⟩ := htext c mem_cons_self
    rw [cons_append, scan_cons, next, if_neg hquote, if_neg hslash]
    exact ih fun d hd => htext d (mem_cons_of_mem _ hd)

/-- A backslash takes the next character with it. -/
lemma scan_escaped (hquote : quote ≠ '\\') (c : Char) (htext : ∀ c ∈ text, c ≠ quote ∧ c ≠ '\\') :
    scan all (.quoted quote) ('\\' :: c :: text ++ rest) = scan all (.quoted quote) rest := by
  rw [cons_append, cons_append, scan_cons, next, if_neg hquote.symm, if_pos rfl, scan_cons]
  exact scan_quoted htext

lemma digitChar_ne {n : Nat} (hn : n < 16) {q : Char} (hq : q = '\'' ∨ q = '"' ∨ q = '\\') :
    Nat.digitChar n ≠ q := by
  interval_cases n <;> rcases hq with rfl | rfl | rfl <;> decide

lemma ne_of_mem_hex (hquote : quote = '\'' ∨ quote = '"') {width n : Nat}
    (hc : c ∈ Text.hex width n) : c ≠ quote ∧ c ≠ '\\' := by
  induction width generalizing n with
  | zero => cases hc
  | succ width ih =>
    rcases mem_append.1 hc with hc | hc
    · exact ih hc
    · rw [mem_singleton.1 hc]
      have hlt : n % 16 < 16 := Nat.mod_lt _ (by norm_num)
      exact ⟨digitChar_ne hlt (hquote.imp_right .inl), digitChar_ne hlt (.inr (.inr rfl))⟩

lemma scan_quoteChar (hquote : quote = '\'' ∨ quote = '"') (c : Char) :
    scan all (.quoted quote) (Text.quoteChar quote c ++ rest) = scan all (.quoted quote) rest := by
  have hslash : quote ≠ '\\' := by
    rcases hquote with rfl | rfl <;> decide
  have hnone : ∀ c ∈ ([] : List Char), c ≠ quote ∧ c ≠ '\\' := by simp
  have hhex (width n : Nat) : ∀ c ∈ Text.hex width n, c ≠ quote ∧ c ≠ '\\' :=
    fun _ => ne_of_mem_hex hquote
  unfold Text.quoteChar
  split_ifs with hspecial
  · exact scan_escaped hslash c hnone
  · exact scan_escaped hslash 'n' hnone
  · exact scan_escaped hslash 'r' hnone
  · exact scan_escaped hslash 't' hnone
  · exact scan_quoted (by simpa [not_or] using hspecial)
  · exact scan_escaped hslash 'x' (hhex 2 _)
  · exact scan_escaped hslash 'u' (hhex 4 _)
  · exact scan_escaped hslash 'U' (hhex 8 _)

lemma quoteFor_cases (cs : List Char) : Text.quoteFor cs = '\'' ∨ Text.quoteFor cs = '"' := by
  unfold Text.quoteFor
  split_ifs
  · exact .inr rfl
  · exact .inl rfl

/-- A string literal refers to nothing. -/
lemma reads_quote (s : String) : Reads all (Text.quote s).toList [] := by
  intro rest _
  have hquote := quoteFor_cases s.toList
  have hinside (cs : List Char) :
      scan all (.quoted (Text.quoteFor s.toList))
          (cs.flatMap (Text.quoteChar (Text.quoteFor s.toList)) ++ Text.quoteFor s.toList :: rest) =
        scan all .outside rest := by
    induction cs with
    | nil =>
      rw [flatMap_nil, nil_append, scan_cons, next, if_pos rfl]
      rfl
    | cons c cs ih => rw [flatMap_cons, append_assoc, scan_quoteChar hquote, ih]
  have henter : enter (Text.quoteFor s.toList) = .quoted (Text.quoteFor s.toList) := if_pos hquote
  rw [Text.quote, String.toList_ofList, Text.quoteChars, append_assoc, cons_append,
    scan_outside_cons, henter]
  exact hinside s.toList

end

end Scan

open Scan

variable {all : Bool}

/-! ### Values -/

/-- The names that the literal of a scalar refers to. -/
def Scalar.words : Scalar → List String
  | .null => ["None"]
  | .bool b => [if b then "True" else "False"]
  | .float (.infinite _) => ["inf"]
  | _ => []

lemma Scalar.reads_literal (s : Scalar) : Reads all s.literal.toList s.words := by
  match s with
  | .null => exact reads_identifier (by decide)
  | .bool true | .bool false => exact reads_identifier (by decide)
  | .int i => exact Numeral.text_ofInt i ▸ reads_numeral (Numeral.isProper_ofInt i)
  | .float (.infinite negative) => exact reads_infinite negative
  | .float (.finite negative m e) =>
    exact Numeral.text_ofFinite.symm ▸ reads_numeral Numeral.isProper_ofFinite
  | .str text => exact reads_quote text

namespace Value

mutual

/-- The scalars in a value, keys included. -/
def scalars : Value → List Scalar
  | .scalar s => [s]
  | .list xs => scalarsItems xs
  | .tuple xs => scalarsItems xs
  | .map es => scalarsEntries es

def scalarsItems : List Value → List Scalar
  | [] => []
  | x :: xs => scalars x ++ scalarsItems xs

def scalarsEntries : List (Scalar × Value) → List Scalar
  | [] => []
  | (k, v) :: rest => k :: scalars v ++ scalarsEntries rest

end

/-- The names that the literal of a value refers to. -/
def words (v : Value) : List String :=
  v.scalars.flatMap Scalar.words

lemma literalItems_eq (xs : List Value) : literalItems xs = xs.map literal := by
  induction xs with
  | nil => rfl
  | cons x xs ih => rw [literalItems, ih, map_cons]

lemma literalEntries_eq (es : List (Scalar × Value)) :
    literalEntries es = es.map fun e => e.1.literal ++ ": " ++ e.2.literal := by
  induction es with
  | nil => rfl
  | cons e es ih => rw [literalEntries, ih, map_cons]

lemma flatten_map_words (xs : List Value) :
    (xs.map words).flatten = (scalarsItems xs).flatMap Scalar.words := by
  induction xs with
  | nil => rfl
  | cons x xs ih =>
    rw [map_cons, flatten_cons, ih, scalarsItems, flatMap_append]
    rfl

lemma flatten_map_entryWords (es : List (Scalar × Value)) :
    (es.map fun e => e.1.words ++ e.2.words).flatten =
      (scalarsEntries es).flatMap Scalar.words := by
  induction es with
  | nil => rfl
  | cons e es ih =>
    rw [map_cons, flatten_cons, ih, scalarsEntries, flatMap_append,
      flatMap_cons]
    rfl

/-- The literal of a value refers to what the literals of its scalars refer to. -/
theorem reads_literal (v : Value) : Reads all v.literal.toList v.words := by
  induction v using parts_induction with
  | step v ih =>
    cases v with
    | scalar s =>
      rw [literal, words, scalars, flatMap_singleton]
      exact s.reads_literal
    | list xs =>
      have hitems := reads_join (@forall₂_reads all Value xs literal words ih)
      rw [words, scalars, ← flatten_map_words, literal, literalItems_eq]
      simpa using hitems.enclosed (by decide) (by decide)
    | tuple xs =>
      have hitems := reads_join (@forall₂_reads all Value xs literal words ih)
      rw [words, scalars, ← flatten_map_words]
      -- A tuple of one item has a comma behind it.
      rcases xs with _ | ⟨x, _ | ⟨y, xs⟩⟩
      · exact (reads_nil.mark (by decide)).mark (by decide)
      · have hitem : Reads all x.literal.toList x.words := ih x (by simp [parts])
        rw [literal]
        simpa using (hitem.append_mark (by decide)).enclosed (by decide) (by decide)
      · rw [literal, literalItems_eq]
        · simpa using hitems.enclosed (by decide) (by decide)
        · simp
    | map es =>
      have hentry (e : Scalar × Value) (he : e ∈ es) :
          Reads all (e.1.literal ++ ": " ++ e.2.literal).toList (e.1.words ++ e.2.words) := by
        have hvalue := ((ih e.2 (mem_map_of_mem he)).mark (c := ' ') (by decide)).mark (c := ':')
          (by decide)
        simpa using e.1.reads_literal.append hvalue (ends_cons (by decide) _)
      have hentries := reads_join (forall₂_reads hentry)
      rw [words, scalars, ← flatten_map_entryWords, literal, literalEntries_eq]
      simpa using hentries.enclosed (by decide) (by decide)

end Value

end ApiSchema
