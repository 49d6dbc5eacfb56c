import ApiSchema.Proofs.Number.Numeral
import ApiSchema.Value.Json

/-!
# JSON text

The text of a value is told from whatever stands behind it. Main statement: where the texts of two
lists agree, the texts of their items do, and where those of two mappings agree, their keys and the
texts of their members do.
-/

namespace ApiSchema.Json

open List Text

variable {text text' rest rest' : List Char}

/-- The floating-point numbers of a value are of the binary64 format. -/
def Fits (v : Value) : Prop :=
  ∀ x ∈ v.floats, x.IsBinary64

lemma Fits.part {v w : Value} (h : Fits v) (hw : w ∈ v.parts) : Fits w :=
  fun x hx => h x (Value.mem_floats_iff.2 (.inr ⟨w, hw, hx⟩))

/-! ### Strings -/

/-- One character is read back, whichever way it is escaped. -/
lemma readChar?_writeChar (c : Char) (rest : List Char) :
    readChar? (writeChar c ++ rest) = some (c, rest) := by
  unfold writeChar
  split_ifs with hquote hback hn hr ht hb hf hplain hunit
  iterate 7
    · subst_vars
      rfl
  · exact readChar?_of_ne hback rest
  · exact readChar?_code hunit rest
  · have hvalid : c.toNat < 0xD800 ∨ 0xDFFF < c.toNat ∧ c.toNat < 0x110000 := c.valid
    extract_lets offset
    rw [cons_append, cons_append, append_assoc]
    refine readChar?_pair (Nat.div_lt_of_lt_mul ?_) (Nat.mod_lt _ (by norm_num)) ?_ rest <;> omega

lemma head?_writeChar_ne (c : Char) (rest : List Char) :
    (writeChar c ++ rest).head? ≠ some '"' := by
  unfold writeChar
  split_ifs <;> simp_all

lemma writeString_append (s : String) (rest : List Char) :
    writeString s ++ rest = '"' :: (s.toList.flatMap writeChar ++ '"' :: rest) := by
  simp [writeString]

/-- A string ends at its quote. -/
lemma writeString_append_inj {s t : String} (h : writeString s ++ rest = writeString t ++ rest') :
    s = t ∧ rest = rest' := by
  rw [writeString_append, writeString_append] at h
  have hcode {c d : Char} {rest rest' : List Char}
      (h : writeChar c ++ rest = writeChar d ++ rest') : c = d ∧ rest = rest' := by
    have hread := congrArg readChar? h
    rw [readChar?_writeChar, readChar?_writeChar] at hread
    simpa using hread
  obtain ⟨hchars, hrest⟩ := flatMap_append_inj (fun rest => rest.head? = some '"')
    head?_writeChar_ne hcode rfl rfl (List.cons.inj h).2
  exact ⟨String.toList_inj.1 hchars, (List.cons.inj hrest).2⟩

/-! ### Scalars -/

lemma isSpelling_writeScalar : Scalar.IsSpelling writeScalar where
  numeral s n h := by
    rw [Scalar.text_of_numeral? h]
    match s, h with
    | .int i, _ | .float (.finite negative m e), _ => rfl
  word := by decide +kernel
  letter := by decide +kernel
  distinct := by decide +kernel

/-- What may stand behind a value: nothing, or what ends it. -/
def Delimited (text : List Char) : Prop :=
  ∀ c ∈ text.head?, c = ',' ∨ c = ']' ∨ c = '\x7d'

lemma delimited_cons {c : Char} (hc : c = ',' ∨ c = ']' ∨ c = '\x7d') (text : List Char) :
    Delimited (c :: text) := by
  rintro d ⟨⟩
  exact hc

/-- A scalar starts with a quote if it is a string, and with a character of a word otherwise. -/
lemma exists_head_writeScalar (s : Scalar) : ∃ c rest, writeScalar s = c :: rest ∧
    ((∃ t, s = .str t) ∧ c = '"' ∨ (∀ t, s ≠ .str t) ∧ Scalar.isWordChar c) := by
  by_cases hs : ∃ t, s = .str t
  · obtain ⟨t, rfl⟩ := hs
    exact ⟨'"', _, rfl, .inl ⟨⟨t, rfl⟩, rfl⟩⟩
  · have hs := not_exists.1 hs
    obtain ⟨c, rest, hrest⟩ := exists_cons_of_ne_nil (isSpelling_writeScalar.ne_nil hs)
    refine ⟨c, rest, hrest, .inr ⟨hs, ?_⟩⟩
    exact isSpelling_writeScalar.isWordChar_of_mem hs (hrest ▸ mem_cons_self)

lemma writeScalar_append_inj {s t : Scalar} (hs : ∀ x ∈ s.floats, x.IsBinary64)
    (ht : ∀ x ∈ t.floats, x.IsBinary64) (htext : Delimited text) (htext' : Delimited text')
    (h : writeScalar s ++ text = writeScalar t ++ text') : s = t ∧ text = text' := by
  have hword {s : Scalar} (hs : ∀ u, s ≠ .str u) :
      ∀ c ∈ writeScalar s, ¬ (c = ',' ∨ c = ']' ∨ c = '\x7d') := by
    intro c hc hstop
    have := isSpelling_writeScalar.isWordChar_of_mem hs hc
    rcases hstop with rfl | rfl | rfl <;> cases this
  obtain ⟨c, _, hc, ⟨⟨u, rfl⟩, rfl⟩ | ⟨hs', hword'⟩⟩ := exists_head_writeScalar s
  · obtain ⟨d, _, hd, ⟨⟨u', rfl⟩, -⟩ | ⟨-, hword⟩⟩ := exists_head_writeScalar t
    · obtain ⟨rfl, htext⟩ := writeString_append_inj h
      exact ⟨rfl, htext⟩
    · rw [hc, hd] at h
      rw [← (List.cons.inj h).1] at hword
      cases hword
  · obtain ⟨d, _, hd, ⟨-, rfl⟩ | ⟨ht', -⟩⟩ := exists_head_writeScalar t
    · rw [hc, hd] at h
      rw [(List.cons.inj h).1] at hword'
      cases hword'
    · obtain ⟨h, htext⟩ := append_inj_of_stop (hword hs') (hword ht') htext htext' h
      exact ⟨isSpelling_writeScalar.injective hs' ht' hs ht h, htext⟩

/-- The text of a key. -/
def keyText : Scalar → String
  | .str s => s
  | s => String.ofList (writeScalar s)

/-- A key is written as the string of its text. -/
lemma writeKey_eq (s : Scalar) : writeKey s = writeString (keyText s) := by
  have hplain {c : Char} (hc : Scalar.isWordChar c) : writeChar c = [c] := by
    have hrange : 32 ≤ c.toNat ∧ c.toNat < 127 := by
      simp only [Scalar.isWordChar, Char.isAlphanum, Char.isAlpha, Char.isUpper, Char.isLower,
        Char.isDigit, UInt32.le_iff_toNat_le, Bool.or_eq_true, Bool.and_eq_true, decide_eq_true_eq,
        contains_iff_mem, mem_cons, not_mem_nil, or_false] at hc
      have : c.val.toNat = c.toNat := rfl
      obtain ((hc | hc) | hc) | rfl | rfl | rfl := hc <;> simp_all <;> omega
    have hne {d : Char} (hd : Scalar.isWordChar d = false) : c ≠ d := by
      rintro rfl
      rw [hc] at hd
      cases hd
    rw [writeChar, if_neg (hne rfl), if_neg (hne rfl), if_neg (hne rfl), if_neg (hne rfl),
      if_neg (hne rfl), if_neg (hne rfl), if_neg (hne rfl), if_pos hrange]
  have hword {cs : List Char} (h : ∀ c ∈ cs, Scalar.isWordChar c) : cs.flatMap writeChar = cs := by
    rw [flatMap_congr fun c hc => hplain (h c hc), flatMap_singleton']
  cases s with
  | str s => rfl
  | null | bool _ | int _ | float _ =>
    simp only [writeKey, writeString, keyText, String.toList_ofList]
    rw [hword fun c => isSpelling_writeScalar.isWordChar_of_mem (by simp)]

/-! ### Values -/

/-- The text of a member of a mapping. -/
def writeMember (e : Scalar × Value) : List Char :=
  writeKey e.1 ++ ':' :: writeValue e.2

mutual

lemma writeBefore_eq (text : List Char) (v : Value) : writeBefore text v = writeValue v ++ text := by
  match v with
  | .scalar s => simp [writeValue, writeBefore]
  | .list xs | .tuple xs =>
    simp [writeValue, writeBefore, writeItems_eq _ xs]
  | .map es => simp [writeValue, writeBefore, writeMembers_eq _ es]

lemma writeItems_eq (text : List Char) (xs : List Value) :
    writeItems text xs = [','].intercalate (xs.map writeValue) ++ text := by
  match xs with
  | [] => rfl
  | [x] => simp [writeItems, writeBefore_eq _ x]
  | x :: y :: xs =>
    simp [writeItems, writeBefore_eq _ x, writeItems_eq _ (y :: xs), intercalate_cons_cons]

lemma writeMembers_eq (text : List Char) (es : List (Scalar × Value)) :
    writeMembers text es = [','].intercalate (es.map writeMember) ++ text := by
  match es with
  | [] => rfl
  | [(k, v)] => simp [writeMembers, writeMember, writeBefore_eq _ v]
  | (k, v) :: e :: es =>
    simp [writeMembers, writeMember, writeBefore_eq _ v, writeMembers_eq _ (e :: es),
      intercalate_cons_cons]

end

lemma writeValue_list (xs : List Value) :
    writeValue (.list xs) = '[' :: ([','].intercalate (xs.map writeValue) ++ [']']) := by
  rw [writeValue, writeBefore, writeItems_eq]

lemma writeValue_map (es : List (Scalar × Value)) :
    writeValue (.map es) = '\x7b' :: ([','].intercalate (es.map writeMember) ++ ['\x7d']) := by
  rw [writeValue, writeBefore, writeMembers_eq]

/-- A value is told from the text behind it. -/
def Told (v : Value) : Prop :=
  ∀ {w : Value} {text text' : List Char}, Fits w → Delimited text → Delimited text' →
    writeValue v ++ text = writeValue w ++ text' → writeValue v = writeValue w ∧ text = text'

/-- The bracket that opens a value. -/
def opening : Value → Option Char
  | .scalar _ => none
  | .list _ | .tuple _ => some '['
  | .map _ => some '\x7b'

/-- The first character of a value tells whether it is a bracket, and which. -/
lemma exists_head_writeValue (v : Value) :
    ∃ c rest, writeValue v = c :: rest ∧ c ≠ ']' ∧
      opening v = if c = '[' ∨ c = '\x7b' then some c else none := by
  cases v with
  | scalar s =>
    obtain ⟨c, rest, hc, ⟨-, rfl⟩ | ⟨-, hword⟩⟩ := exists_head_writeScalar s
    · exact ⟨'"', rest, by rw [writeValue, writeBefore, hc, append_nil], by decide, rfl⟩
    · have hne {d : Char} (hd : Scalar.isWordChar d = false) : c ≠ d := by
        rintro rfl
        rw [hword] at hd
        cases hd
      refine ⟨c, rest, by rw [writeValue, writeBefore, hc, append_nil], hne rfl, ?_⟩
      rw [if_neg (not_or.2 ⟨hne rfl, hne rfl⟩)]
      rfl
  | list xs | tuple xs => exact ⟨'[', _, rfl, by decide, rfl⟩
  | map es => exact ⟨'\x7b', _, rfl, by decide, rfl⟩

lemma opening_eq_of_writeValue_append_eq {v w : Value}
    (h : writeValue v ++ text = writeValue w ++ text') : opening v = opening w := by
  obtain ⟨c, more, hc, -, hv⟩ := exists_head_writeValue v
  obtain ⟨d, more', hd, -, hw⟩ := exists_head_writeValue w
  rw [hc, hd] at h
  rw [hv, hw, (List.cons.inj h).1]

/-- Lists with the same text have items with the same text. -/
theorem forall₂_of_writeValue_list {xs ys : List Value} (hxs : ∀ x ∈ xs, Told x)
    (hys : ∀ y ∈ ys, Fits y) (h : writeValue (.list xs) ++ text = writeValue (.list ys) ++ text') :
    Forall₂ (fun x y => writeValue x = writeValue y) xs ys ∧ text = text' := by
  simp only [writeValue_list, cons_append, append_assoc, nil_append, List.cons.injEq,
    true_and] at h
  refine intercalate_append_inj Delimited (by decide) (fun rest => ⟨?_, ?_⟩)
    (fun x _ rest rest' heq => ?_) (fun x hx y hy _ _ => hxs x hx (hys y hy)) h
  · exact delimited_cons (by simp) rest
  · exact delimited_cons (by simp) rest
  · obtain ⟨c, more, hc, hne, -⟩ := exists_head_writeValue x
    rw [hc] at heq
    exact hne (List.cons.inj heq).1

/-- Mappings with the same text have the same keys, and members with the same text. -/
theorem forall₂_of_writeValue_map {es fs : List (Scalar × Value)} (hes : ∀ e ∈ es, Told e.2)
    (hfs : ∀ f ∈ fs, Fits f.2) (h : writeValue (.map es) ++ text = writeValue (.map fs) ++ text') :
    Forall₂ (fun e f => keyText e.1 = keyText f.1 ∧ writeValue e.2 = writeValue f.2) es fs ∧
      text = text' := by
  simp only [writeValue_map, cons_append, append_assoc, nil_append, List.cons.injEq,
    true_and] at h
  have hmember (e : Scalar × Value) (rest : List Char) : writeMember e ++ rest =
      writeString (keyText e.1) ++ ':' :: (writeValue e.2 ++ rest) := by
    rw [writeMember, writeKey_eq, append_assoc, cons_append]
  refine intercalate_append_inj Delimited (by decide) (fun rest => ⟨?_, ?_⟩)
    (fun e _ rest rest' heq => ?_) (fun e he f hf _ _ hrest hrest' heq => ?_) h
  · exact delimited_cons (by simp) rest
  · exact delimited_cons (by simp) rest
  · rw [hmember] at heq
    cases heq
  · rw [hmember, hmember] at heq
    obtain ⟨hkey, heq⟩ := writeString_append_inj heq
    obtain ⟨hvalue, hrest⟩ := hes e he (hfs f hf) hrest hrest' (List.cons.inj heq).2
    exact ⟨⟨hkey, hvalue⟩, hrest⟩

/-- The text of a value is told from what stands behind it. -/
theorem told_of_fits (v : Value) (hv : Fits v) : Told v := by
  induction v using Value.parts_induction with
  | step v ih =>
    intro w text text' hw htext htext' h
    have hparts (x : Value) (hx : x ∈ v.parts) : Told x := ih x hx (hv.part hx)
    have hopening := opening_eq_of_writeValue_append_eq h
    suffices hrest : text = text' by
      rw [hrest] at h
      exact ⟨append_cancel_right h, hrest⟩
    match v, w, hopening with
    | .scalar s, .scalar s', _ =>
      simp only [writeValue, writeBefore, append_nil] at h
      exact (writeScalar_append_inj hv hw htext htext' h).2
    | .list xs, .list ys, _ | .list xs, .tuple ys, _ | .tuple xs, .list ys, _
    | .tuple xs, .tuple ys, _ =>
      exact (forall₂_of_writeValue_list hparts (fun _ => hw.part) h).2
    | .map es, .map fs, _ =>
      refine (forall₂_of_writeValue_map (fun e he => ?_) (fun f hf => ?_) h).2
      · exact hparts e.2 (mem_map_of_mem he)
      · exact hw.part (mem_map_of_mem hf)

end ApiSchema.Json
