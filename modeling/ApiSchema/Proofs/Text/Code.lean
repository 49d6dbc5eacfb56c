import Mathlib
import ApiSchema.Text.Basic

/-!
# Codes

Texts that are put together from pieces and can be cut into them again in one way only: code words
of which none starts another one, words that end at a stop, and hexadecimal digits.
-/

namespace ApiSchema.Text

open List

/-- Where no code word can be taken for the beginning of another one, nor for the end of a message,
a message is read in one way, up to its end. -/
lemma flatMap_append_inj {α β : Type} {code : α → List β} (ends : List β → Prop)
    (hends : ∀ a rest, ¬ ends (code a ++ rest))
    (hcode : ∀ {a b : α} {rest rest' : List β},
      code a ++ rest = code b ++ rest' → a = b ∧ rest = rest')
    {message message' : List α} {rest rest' : List β} (hrest : ends rest) (hrest' : ends rest')
    (h : message.flatMap code ++ rest = message'.flatMap code ++ rest') :
    message = message' ∧ rest = rest' := by
  induction message generalizing message' with
  | nil =>
    cases message' with
    | nil => exact ⟨rfl, h⟩
    | cons b message' =>
      rw [flatMap_nil, nil_append, flatMap_cons, append_assoc] at h
      exact absurd (h ▸ hrest) (hends b _)
  | cons a message ih =>
    rw [flatMap_cons, append_assoc] at h
    cases message' with
    | nil =>
      rw [flatMap_nil, nil_append] at h
      exact absurd (h ▸ hrest') (hends a _)
    | cons b message' =>
      rw [flatMap_cons, append_assoc] at h
      obtain ⟨rfl, hmore⟩ := hcode h
      obtain ⟨rfl, rfl⟩ := ih hmore
      exact ⟨rfl, rfl⟩

/-- Two texts are cut in one way where the first stop comes. -/
lemma append_inj_of_stop {stop : Char → Prop} {word word' rest rest' : List Char}
    (hword : ∀ c ∈ word, ¬ stop c) (hword' : ∀ c ∈ word', ¬ stop c)
    (hrest : ∀ c ∈ rest.head?, stop c) (hrest' : ∀ c ∈ rest'.head?, stop c)
    (h : word ++ rest = word' ++ rest') : word = word' ∧ rest = rest' := by
  induction word generalizing word' with
  | nil =>
    cases word' with
    | nil => exact ⟨rfl, h⟩
    | cons c word' =>
      rw [nil_append, cons_append] at h
      exact absurd (hrest c (by rw [h]; rfl)) (hword' c mem_cons_self)
  | cons c word ih =>
    cases word' with
    | nil =>
      rw [nil_append, cons_append] at h
      exact absurd (hrest' c (by rw [← h]; rfl)) (hword c mem_cons_self)
    | cons d word' =>
      rw [forall_mem_cons] at hword hword'
      rw [cons_append, cons_append, List.cons.injEq] at h
      obtain ⟨rfl, rfl⟩ := ih hword.2 hword'.2 h.2
      exact ⟨by rw [h.1], rfl⟩

/-- Members in a row, parted by separators, are read one by one up to what closes the row, if each is
told from what stands behind it. -/
lemma intercalate_append_inj {α : Type} {r : α → α → Prop} {code : α → List Char}
    (ends : List Char → Prop) {mark close : Char} {sep rest rest' : List Char} {as bs : List α}
    (hne : mark ≠ close) (hends : ∀ rest, ends (mark :: rest) ∧ ends (close :: rest))
    (hstart : ∀ a ∈ as ++ bs, ∀ rest rest', code a ++ rest ≠ close :: rest')
    (hcode : ∀ a ∈ as, ∀ b ∈ bs, ∀ {rest rest'}, ends rest → ends rest' →
      code a ++ rest = code b ++ rest' → r a b ∧ rest = rest')
    (h : (mark :: sep).intercalate (as.map code) ++ close :: rest =
      (mark :: sep).intercalate (bs.map code) ++ close :: rest') :
    Forall₂ r as bs ∧ rest = rest' := by
  have hfirst (a : α) (as : List α) (rest : List Char) :
      ∃ behind, (mark :: sep).intercalate ((a :: as).map code) ++ rest = code a ++ behind := by
    cases as <;> simp [intercalate_cons_cons]
  induction as generalizing bs with
  | nil =>
    cases bs with
    | nil => exact ⟨.nil, (List.cons.inj h).2⟩
    | cons b bs =>
      obtain ⟨behind, hb⟩ := hfirst b bs (close :: rest')
      exact absurd (hb.symm.trans h.symm) (hstart b (by simp) _ _)
  | cons a as ih =>
    cases bs with
    | nil =>
      obtain ⟨behind, ha⟩ := hfirst a as (close :: rest)
      exact absurd (ha.symm.trans h) (hstart a (by simp) _ _)
    | cons b bs =>
      have hab := @hcode a mem_cons_self b mem_cons_self
      -- One row cannot be closed where the other one goes on.
      rcases as with _ | ⟨a', as⟩ <;> rcases bs with _ | ⟨b', bs⟩ <;>
        simp only [map_cons, map_nil, intercalate_singleton, intercalate_cons_cons, append_assoc,
          cons_append] at h
      · obtain ⟨hab, hrest⟩ := hab (hends _).2 (hends _).2 h
        exact ⟨.cons hab .nil, (List.cons.inj hrest).2⟩
      · exact absurd (List.cons.inj (hab (hends _).2 (hends _).1 h).2).1 hne.symm
      · exact absurd (List.cons.inj (hab (hends _).1 (hends _).2 h).2).1 hne
      · obtain ⟨hab, hrest⟩ := hab (hends _).1 (hends _).1 h
        have hmore := append_cancel_left (List.cons.inj hrest).2
        obtain ⟨hforall, hend⟩ := ih (fun c hc => hstart c (by grind))
          (fun c hc d hd => hcode c (mem_cons_of_mem _ hc) d (mem_cons_of_mem _ hd)) hmore
        exact ⟨.cons hab hforall, hend⟩

/-! ### Hexadecimal digits -/

lemma hexValue?_digitChar {n : Nat} (hn : n < 16) : hexValue? (Nat.digitChar n) = some n := by
  interval_cases n <;> decide

/-- The number that hexadecimal digits denote. -/
def hexNumber (cs : List Char) : Nat :=
  cs.foldl (fun n c => 16 * n + (hexValue? c).getD 0) 0

@[simp] lemma length_hex (width n : Nat) : (hex width n).length = width := by
  induction width generalizing n with
  | zero => rfl
  | succ width ih => simp [hex, ih]

lemma hexNumber_hex {width n : Nat} (hn : n < 16 ^ width) : hexNumber (hex width n) = n := by
  induction width generalizing n with
  | zero => simp_all [hex, hexNumber]
  | succ width ih =>
    have hhigh : n / 16 < 16 ^ width := by
      rw [pow_succ] at hn
      omega
    have hlow : n % 16 < 16 := Nat.mod_lt _ (by norm_num)
    rw [hex, hexNumber, foldl_append, ← hexNumber, ih hhigh]
    simp only [foldl_cons, foldl_nil, hexValue?_digitChar hlow, Option.getD_some]
    omega

/-! ### Characters inside of quotes -/

/-- The first character inside of quotes, read from how it is written: by itself, by a letter behind
a backslash, or by its code, where two halves of a pair make one character. -/
def readChar? : List Char → Option (Char × List Char)
  | '\\' :: 'b' :: rest => some ('\x08', rest)
  | '\\' :: 'f' :: rest => some ('\x0c', rest)
  | '\\' :: 'n' :: rest => some ('\n', rest)
  | '\\' :: 'r' :: rest => some ('\r', rest)
  | '\\' :: 't' :: rest => some ('\t', rest)
  | '\\' :: 'x' :: rest => some (Char.ofNat (hexNumber (rest.take 2)), rest.drop 2)
  | '\\' :: 'u' :: rest =>
    let code := hexNumber (rest.take 4)
    if 0xD800 ≤ code ∧ code < 0xDC00 then
      let low := hexNumber ((rest.drop 6).take 4)
      some (Char.ofNat (0x10000 + (code - 0xD800) * 0x400 + (low - 0xDC00)), rest.drop 10)
    else some (Char.ofNat code, rest.drop 4)
  | '\\' :: 'U' :: rest => some (Char.ofNat (hexNumber (rest.take 8)), rest.drop 8)
  | '\\' :: c :: rest => some (c, rest)
  | c :: rest => some (c, rest)
  | [] => none

lemma readChar?_of_ne {c : Char} (hc : c ≠ '\\') (rest : List Char) :
    readChar? (c :: rest) = some (c, rest) := by
  rw [readChar?]
  all_goals simp [hc]

lemma hexNumber_take_hex {width n : Nat} (hn : n < 16 ^ width) (rest : List Char) :
    hexNumber ((hex width n ++ rest).take width) = n := by
  rw [take_left' (length_hex _ _), hexNumber_hex hn]

/-- A character of one unit is read from its code. -/
lemma readChar?_code {c : Char} (hc : c.toNat < 0x10000) (rest : List Char) :
    readChar? ('\\' :: 'u' :: (hex 4 c.toNat ++ rest)) = some (c, rest) := by
  -- No character is half a pair.
  have hvalid : c.toNat < 0xD800 ∨ 0xDFFF < c.toNat ∧ c.toNat < 0x110000 := c.valid
  rw [readChar?, hexNumber_take_hex hc, drop_left' (length_hex _ _), Char.ofNat_toNat]
  exact if_neg (by omega)

/-- A character of two units is read from the codes of the pair. -/
lemma readChar?_pair {c : Char} {high low : Nat} (hhigh : high < 0x400) (hlow : low < 0x400)
    (hc : c.toNat = 0x10000 + high * 0x400 + low) (rest : List Char) :
    readChar? ('\\' :: 'u' :: (hex 4 (0xD800 + high) ++
      '\\' :: 'u' :: (hex 4 (0xDC00 + low) ++ rest))) = some (c, rest) := by
  set more := '\\' :: 'u' :: (hex 4 (0xDC00 + low) ++ rest) with hmore
  have hbehind (k : Nat) : (hex 4 (0xD800 + high) ++ more).drop (4 + k) = more.drop k := by
    rw [← drop_drop, drop_left' (length_hex _ _)]
  have hrest : (hex 4 (0xDC00 + low) ++ rest).drop 4 = rest := drop_left' (length_hex _ _)
  have hcode : hexNumber ((hex 4 (0xDC00 + low) ++ rest).take 4) = 0xDC00 + low :=
    hexNumber_take_hex (by omega) rest
  rw [readChar?, hexNumber_take_hex (by omega), hbehind 2, hbehind 6, hmore]
  simp only [drop_succ_cons, drop_zero, hcode, hrest, Nat.add_sub_cancel_left, ← hc,
    Char.ofNat_toNat]
  exact if_pos (by omega)

end ApiSchema.Text
