import ApiSchema.Proofs.Schema.Walk
import ApiSchema.Proofs.Value.Names

/-!
# Pointers into documents

A path of keys and positions is written as a pointer, and a pointer is followed token by token. Main
statement: following the pointer of a path leads where the path does unless a key of it has a percent
sign before two hexadecimal digits, which are read as a byte, or it begins with an empty key and goes
on, since leading slashes are dropped; and so the target of a component leads to the schema of the
component unless its name has such digits.
-/

namespace ApiSchema

open List

/-! ### Percent decoding -/

namespace Percent

variable {c : Char} {cs : List Char} {x : Nat}

/-- Somewhere in a text there is a percent sign before two hexadecimal digits. -/
def HasByte (cs : List Char) : Prop :=
  ∃ a b, ['%', a, b] <:+: cs ∧ Text.isHex a ∧ Text.isHex b

lemma hasByte_cons :
    HasByte (c :: cs) ↔
      (c = '%' ∧ ∃ a b rest, cs = a :: b :: rest ∧ Text.isHex a ∧ Text.isHex b) ∨ HasByte cs := by
  constructor
  · rintro ⟨a, b, hin, hhex⟩
    rcases infix_cons_iff.1 hin with ⟨rest, hrest⟩ | hin
    · cases hrest
      exact .inl ⟨rfl, a, b, rest, rfl, hhex⟩
    · exact .inr ⟨a, b, hin, hhex⟩
  · rintro (⟨rfl, a, b, rest, rfl, hhex⟩ | ⟨a, b, hin, hhex⟩)
    · exact ⟨a, b, ⟨[], rest, rfl⟩, hhex⟩
    · exact ⟨a, b, hin.trans (suffix_cons c cs).isInfix, hhex⟩

lemma lt_of_hexValue? (h : Text.hexValue? c = some x) : x < 16 ∧ c.toNat < 128 := by
  unfold Text.hexValue? at h
  split_ifs at h with hdigit hlower hupper <;> cases h
  · have : c.toNat ≤ 57 := (Char.isDigit_iff_toNat.1 hdigit).2
    omega
  · have : c.toNat ≤ 102 := hlower.2
    omega
  · have : c.toNat ≤ 70 := hupper.2
    omega

/-- A character that is not ASCII stands in no byte. -/
lemma hasByte_append_cons (hc : ¬ c.toNat < 128) {xs ys : List Char} :
    HasByte (xs ++ c :: ys) ↔ HasByte xs ∨ HasByte ys := by
  have hne {a : Char} (ha : Text.isHex a) : c ≠ a := by
    rintro rfl
    obtain ⟨x, hx⟩ := Option.isSome_iff_exists.1 ha
    exact hc (lt_of_hexValue? hx).2
  have hpercent : c ≠ '%' := by
    rintro rfl
    exact hc (by decide)
  induction xs with
  | nil =>
    rw [nil_append, hasByte_cons, or_iff_right fun h => hpercent h.1]
    exact (or_iff_right fun ⟨a, b, hin, _⟩ => by simp at hin).symm
  | cons x xs ih =>
    rw [cons_append, hasByte_cons, hasByte_cons, or_assoc]
    refine or_congr (and_congr_right fun _ => ?_) ih
    constructor
    · rintro ⟨a, b, rest, heq, ha, hb⟩
      match xs with
      | [] => exact absurd (List.cons.inj heq).1 (hne ha)
      | [_] => exact absurd (List.cons.inj (List.cons.inj heq).2).1 (hne hb)
      | _ :: _ :: xs =>
        cases heq
        exact ⟨a, b, xs, rfl, ha, hb⟩
    · rintro ⟨a, b, rest, rfl, ha, hb⟩
      exact ⟨a, b, _, rfl, ha, hb⟩

/-- The weight of a character: bytes weigh less than the digits they are read from, and escapes in
tokens as much as what they stand for. -/
def weight (c : Char) : Nat :=
  if c ∈ ['~', '/', '0', '1'] then 0 else if c = '%' then 2 else 1

def byteWeight (b : Nat) : Nat :=
  if b < 128 then weight (Char.ofNat b) else 2

def mass (cs : List Char) : Nat :=
  (cs.map weight).sum

@[simp]
lemma mass_cons (c : Char) (cs : List Char) : mass (c :: cs) = weight c + mass cs := by
  simp [mass]

@[simp]
lemma mass_append (cs ds : List Char) : mass (cs ++ ds) = mass cs + mass ds := by
  simp [mass]

lemma weight_le_two (c : Char) : weight c ≤ 2 := by
  unfold weight
  split_ifs <;> omega

lemma byteWeight_lt {a b : Char} {y : Nat} (ha : Text.hexValue? a = some x)
    (hb : Text.hexValue? b = some y) : byteWeight (16 * x + y) < 2 + weight a + weight b := by
  have hle : byteWeight (16 * x + y) ≤ 2 := by
    unfold byteWeight
    split
    · exact weight_le_two _
    · exact le_rfl
  by_cases hzero : weight a = 0
  · -- The first digit is small, and so the byte is a control character.
    have hx : x < 2 := by
      unfold weight at hzero
      split_ifs at hzero with hmem
      simp only [mem_cons, not_mem_nil, or_false] at hmem
      rcases hmem with rfl | rfl | rfl | rfl <;> cases ha <;> decide
    have hlight : ∀ n < 32, byteWeight n ≤ 1 := by decide
    have := (lt_of_hexValue? hb).1
    have := hlight (16 * x + y) (by omega)
    omega
  · omega

lemma mass_decodeAfter_le (skip : Nat) (bytes : List Nat) :
    mass (Utf8.decodeAfter skip bytes) ≤ (bytes.map byteWeight).sum := by
  induction bytes generalizing skip with
  | nil => simp [Utf8.decodeAfter, mass]
  | cons a rest ih =>
    cases skip with
    | succ skip => exact (ih skip).trans (by simp)
    | zero =>
      have hhead : weight (Utf8.decodeHead a rest).1 ≤ byteWeight a := by
        unfold byteWeight
        split
        next ha => simp [Utf8.decodeHead, ha]
        next => exact weight_le_two _
      simpa [Utf8.decodeAfter] using Nat.add_le_add hhead (ih _)

/-- The bytes of an ASCII text are its characters, unless some are written with digits. -/
lemma toBytes_spec (hcs : ∀ c ∈ cs, c.toNat < 128) :
    (¬ HasByte cs → toBytes cs = cs.map Char.toNat) ∧
      ((toBytes cs).map byteWeight).sum ≤ mass cs ∧
      (HasByte cs → ((toBytes cs).map byteWeight).sum < mass cs) := by
  -- A character that does not begin a byte adds itself.
  have hstep {c : Char} {cs : List Char} {bytes : List Nat} (hc : c.toNat < 128)
      (hbyte : HasByte (c :: cs) ↔ HasByte cs)
      (ih : (¬ HasByte cs → bytes = cs.map Char.toNat) ∧ (bytes.map byteWeight).sum ≤ mass cs ∧
        (HasByte cs → (bytes.map byteWeight).sum < mass cs)) :
      (¬ HasByte (c :: cs) → c.toNat :: bytes = (c :: cs).map Char.toNat) ∧
        ((c.toNat :: bytes).map byteWeight).sum ≤ mass (c :: cs) ∧
        (HasByte (c :: cs) → ((c.toNat :: bytes).map byteWeight).sum < mass (c :: cs)) := by
    have hweight : byteWeight c.toNat = weight c := by
      rw [byteWeight, if_pos hc, Char.ofNat_toNat]
    simp only [hbyte, map_cons, sum_cons, mass_cons, hweight]
    exact ⟨fun h => by rw [ih.1 h], Nat.add_le_add_left ih.2.1 _,
      fun h => Nat.add_lt_add_left (ih.2.2 h) _⟩
  fun_induction toBytes cs with
  | case1 => exact ⟨fun _ => rfl, le_rfl, fun ⟨_, _, hin, _⟩ => by simp at hin⟩
  | case2 a b rest x y hy hx ih =>
    have hlt := byteWeight_lt hx hy
    have hrest := (ih fun c hc => hcs c (by simp [hc])).2.1
    have hpercent : weight '%' = 2 := by decide
    have hbyte : HasByte ('%' :: a :: b :: rest) :=
      hasByte_cons.2 (.inl ⟨rfl, a, b, rest, rfl, by simp [Text.isHex, hx], by simp [Text.isHex, hy]⟩)
    simp only [map_cons, sum_cons, mass_cons, hpercent]
    exact ⟨absurd hbyte, by omega, fun _ => by omega⟩
  | case3 a b rest hhex ih =>
    refine hstep (by decide) (hasByte_cons.trans (or_iff_right ?_))
      (ih fun c hc => hcs c (mem_cons_of_mem _ hc))
    rintro ⟨-, a', b', rest', heq, ha, hb⟩
    cases heq
    obtain ⟨x, hx⟩ := Option.isSome_iff_exists.1 ha
    obtain ⟨y, hy⟩ := Option.isSome_iff_exists.1 hb
    exact hhex x y hx hy
  | case4 c rest hother ih =>
    refine hstep (hcs c mem_cons_self) (hasByte_cons.trans (or_iff_right ?_))
      (ih fun c hc => hcs c (mem_cons_of_mem _ hc))
    rintro ⟨hc, a, b, rest', heq, -⟩
    exact hother a b rest' hc heq

lemma decode_map_toNat (hcs : ∀ c ∈ cs, c.toNat < 128) : Utf8.decode (cs.map Char.toNat) = cs := by
  induction cs with
  | nil => rfl
  | cons c cs ih =>
    have hhead := hcs c mem_cons_self
    have hrest := ih fun d hd => hcs d (mem_cons_of_mem _ hd)
    unfold Utf8.decode at hrest
    simp [Utf8.decode, Utf8.decodeAfter, Utf8.decodeHead, hhead, hrest, Char.ofNat_toNat]

/-- Decoding leaves a text as it is, or makes it lighter where there are bytes in it. -/
lemma decodeRun_spec (run cs : List Char) (hrun : ∀ c ∈ run, c.toNat < 128) :
    (¬ HasByte (run.reverse ++ cs) → decodeRun run cs = run.reverse ++ cs) ∧
      mass (decodeRun run cs) ≤ mass (run.reverse ++ cs) ∧
      (HasByte (run.reverse ++ cs) → mass (decodeRun run cs) < mass (run.reverse ++ cs)) := by
  have hbytes {run : List Char} (hrun : ∀ c ∈ run, c.toNat < 128) :
      (¬ HasByte run.reverse → Utf8.decode (toBytes run.reverse) = run.reverse) ∧
        mass (Utf8.decode (toBytes run.reverse)) ≤ mass run.reverse ∧
        (HasByte run.reverse → mass (Utf8.decode (toBytes run.reverse)) < mass run.reverse) := by
    have hle := mass_decodeAfter_le 0 (toBytes run.reverse)
    have hascii (c : Char) (hc : c ∈ run.reverse) := hrun c (mem_reverse.1 hc)
    obtain ⟨heq, hle', hlt⟩ := toBytes_spec hascii
    exact ⟨fun h => by rw [heq h, decode_map_toNat hascii], hle.trans hle',
      fun h => hle.trans_lt (hlt h)⟩
  fun_induction decodeRun run cs with
  | case1 run => simpa using hbytes hrun
  | case2 run c rest hc ih => simpa using ih (forall_mem_cons.2 ⟨hc, hrun⟩)
  | case3 run c rest hc ih =>
    obtain ⟨heq, hle, hlt⟩ := hbytes hrun
    obtain ⟨heq', hle', hlt'⟩ := ih nofun
    simp only [reverse_nil, nil_append] at heq' hle' hlt'
    simp only [hasByte_append_cons hc, not_or, mass_append, mass_cons]
    refine ⟨fun h => by rw [heq h.1, heq' h.2], by omega, ?_⟩
    rintro (h | h)
    · have := hlt h
      omega
    · have := hlt' h
      omega

end Percent

namespace Pointer

open Percent (HasByte hasByte_cons mass weight)

variable {a b c : Char} {cs : List Char}

/-! ### Escaped tokens are read back -/

/-- A character of a token as it is escaped. -/
def escapeChar (c : Char) : List Char :=
  if c = '~' then ['~', '0'] else if c = '/' then ['~', '1'] else [c]

lemma escapeChars_cons (c : Char) (cs : List Char) :
    escapeChars (c :: cs) = escapeChar c ++ escapeChars cs := by
  unfold escapeChars escapeChar
  simp only [Text.replaceChar, flatMap_cons, flatMap_append]
  split
  · rfl
  · simp

lemma replacePair_cons_of_ne {new : List Char} (hc : c ≠ a) (cs : List Char) :
    Text.replacePair a b new (c :: cs) = c :: Text.replacePair a b new cs := by
  cases cs with
  | nil => rfl
  | cons d rest => rw [Text.replacePair, if_neg fun h => hc h.1]

lemma mass_replacePair (h : weight a + weight b = weight c) (cs : List Char) :
    mass (Text.replacePair a b [c] cs) = mass cs := by
  fun_induction Text.replacePair a b [c] cs with
  | case1 | case2 => rfl
  | case3 _ _ rest heq ih =>
    obtain ⟨rfl, rfl⟩ := heq
    simp [ih, ← h, Nat.add_assoc]
  | case4 _ _ rest _ ih => simpa using ih

lemma mass_escapeChars (cs : List Char) : mass (escapeChars cs) = mass cs := by
  induction cs with
  | nil => rfl
  | cons c cs ih =>
    have hc : mass (escapeChar c) = weight c := by
      unfold escapeChar
      split_ifs with htilde hslash
      · rw [htilde]; decide
      · rw [hslash]; decide
      · simp [mass]
    rw [escapeChars_cons, Percent.mass_append, ih, hc, Percent.mass_cons]

lemma escapeChar_of_isHex (h : Text.isHex c) : escapeChar c = [c] := by
  unfold escapeChar
  split_ifs with htilde hslash
  · exact absurd (htilde ▸ h) (by decide)
  · exact absurd (hslash ▸ h) (by decide)
  · rfl

/-- An escaped token begins with a hexadecimal digit where the token does. -/
lemma escapeChars_eq_cons_iff (ha : Text.isHex a) {rest : List Char} :
    escapeChars cs = a :: rest ↔ ∃ cs', cs = a :: cs' ∧ escapeChars cs' = rest := by
  cases cs with
  | nil => simp [escapeChars, Text.replaceChar]
  | cons c cs =>
    rw [escapeChars_cons]
    constructor
    · intro h
      unfold escapeChar at h
      split_ifs at h
      · exact absurd ((List.cons.inj h).1 ▸ ha) (by decide)
      · exact absurd ((List.cons.inj h).1 ▸ ha) (by decide)
      · cases h
        exact ⟨cs, rfl, rfl⟩
    · rintro ⟨cs', heq, rfl⟩
      cases heq
      rw [escapeChar_of_isHex ha]
      rfl

lemma hasByte_escapeChars : HasByte (escapeChars cs) ↔ HasByte cs := by
  induction cs with
  | nil => rfl
  | cons c cs ih =>
    rw [escapeChars_cons, hasByte_cons]
    by_cases hc : c = '%'
    · rw [show escapeChar c = ['%'] by rw [hc]; rfl, singleton_append, hasByte_cons]
      refine or_congr (and_congr (by simp [hc]) ?_) ih
      constructor
      · rintro ⟨a, b, rest, heq, ha, hb⟩
        obtain ⟨cs, rfl, hcs⟩ := (escapeChars_eq_cons_iff ha).1 heq
        obtain ⟨cs, rfl, -⟩ := (escapeChars_eq_cons_iff hb).1 hcs
        exact ⟨a, b, cs, rfl, ha, hb⟩
      · rintro ⟨a, b, rest, rfl, ha, hb⟩
        refine ⟨a, b, escapeChars rest, ?_, ha, hb⟩
        exact (escapeChars_eq_cons_iff ha).2 ⟨_, rfl, (escapeChars_eq_cons_iff hb).2 ⟨_, rfl, rfl⟩⟩
    · rw [or_iff_right fun h => hc h.1, ← ih]
      unfold escapeChar
      split_ifs <;> simp [hasByte_cons, hc]

lemma replacePair_escapeChars (cs : List Char) :
    Text.replacePair '~' '1' ['/'] (escapeChars cs) = Text.replaceChar '~' ['~', '0'] cs := by
  induction cs with
  | nil => rfl
  | cons c cs ih =>
    rw [escapeChars_cons, Text.replaceChar, flatMap_cons, ← Text.replaceChar, ← ih]
    unfold escapeChar
    split_ifs with htilde hslash
    · show Text.replacePair '~' '1' ['/'] ('~' :: '0' :: escapeChars cs) = _
      rw [Text.replacePair, if_neg (by decide), replacePair_cons_of_ne (by decide)]
      rfl
    · rw [hslash]
      rfl
    · exact replacePair_cons_of_ne htilde _

lemma replacePair_replaceChar (cs : List Char) :
    Text.replacePair '~' '0' ['~'] (Text.replaceChar '~' ['~', '0'] cs) = cs := by
  induction cs with
  | nil => rfl
  | cons c cs ih =>
    rw [Text.replaceChar, flatMap_cons, ← Text.replaceChar]
    split_ifs with htilde
    · rw [htilde]
      exact congrArg _ ih
    · rw [singleton_append, replacePair_cons_of_ne htilde, ih]

lemma escape_injective : Function.Injective escape := by
  intro s t h
  have h := congrArg (fun cs => Text.replacePair '~' '0' ['~'] (Text.replacePair '~' '1' ['/'] cs))
    (String.ofList_injective h)
  simp only [replacePair_escapeChars, replacePair_replaceChar] at h
  exact String.toList_inj.1 h

/-- An escaped token is read back unless there is a byte in it to decode. -/
lemma unescapeChars_escapeChars_iff : unescapeChars (escapeChars cs) = cs ↔ ¬ HasByte cs := by
  obtain ⟨heq, -, hlt⟩ := Percent.decodeRun_spec [] (escapeChars cs) nofun
  simp only [reverse_nil, nil_append, hasByte_escapeChars] at heq hlt
  constructor
  · intro h hbyte
    have hmass := congrArg mass h
    rw [unescapeChars, mass_replacePair (by decide), mass_replacePair (by decide),
      ← mass_escapeChars cs] at hmass
    exact (hlt hbyte).ne hmass
  · intro h
    rw [unescapeChars, Percent.decode, heq h, replacePair_escapeChars, replacePair_replaceChar]

lemma unescape_escape_iff {token : String} :
    unescape (escape token) = token ↔ ¬ HasByte token.toList := by
  rw [← unescapeChars_escapeChars_iff, unescape, escape, String.toList_ofList,
    ← String.toList_inj, String.toList_ofList]

/-! ### Paths -/

/-- A step into a value: by key into a mapping, by position into a list. -/
inductive Step where
  | key (name : String)
  | index (i : Nat)

/-- A step as it stands in a pointer. -/
def Step.text : Step → String
  | key name => escape name
  | index i => toString i

/-- The pointer of a path. -/
def ofPath (path : List Step) : String :=
  "/" ++ "/".intercalate (path.map Step.text)

end Pointer

open Pointer (Step)

/-- The value that a step leads to. -/
def Value.enter : Value → Step → Option Value
  | .map entries, .key name => find? (.str name) entries
  | .list items, .index i => items[i]?
  | _, _ => none

/-- The value at the end of a path. -/
def Value.walk : Value → List Step → Option Value
  | v, [] => some v
  | v, s :: path => (v.enter s).bind fun c => c.walk path

namespace Pointer

open Percent (HasByte)

variable {s first : Step} {rest : List Step} {v c w : Value} {t : String}

/-- Steps that are read as they are written: keys with no byte in them to decode, and positions that
are not too long. -/
def Step.IsPlain : Step → Prop
  | key name => ¬ HasByte name.toList
  | index i => i < 10 ^ digitLimit

/-- Paths whose steps are plain. An empty key that they begin with is all of them. -/
def IsPlain : List Step → Prop
  | [] => True
  | first :: rest => (∀ s ∈ first :: rest, s.IsPlain) ∧ (first = .key "" → rest = [])

lemma isDigit_of_mem_toString {i : Nat} {c : Char} (h : c ∈ (toString i).toList) : c.isDigit := by
  rw [Nat.toString_eq_ofList_toDigits, String.toList_ofList] at h
  exact Nat.isDigit_of_mem_toDigits (by norm_num) le_rfl h

lemma slash_not_mem_text (s : Step) : '/' ∉ s.text.toList := by
  cases s with
  | key name =>
    rw [Step.text, escape, String.toList_ofList]
    induction name.toList with
    | nil => simp [escapeChars, Text.replaceChar]
    | cons c cs ih =>
      rw [escapeChars_cons, mem_append, not_or]
      refine ⟨?_, ih⟩
      unfold escapeChar
      split_ifs with htilde hslash
      · decide
      · decide
      · simpa using Ne.symm hslash
  | index i => exact fun h => absurd (isDigit_of_mem_toString h) (by decide)

lemma unescape_toString (i : Nat) : unescape (toString i) = toString i := by
  have hhex (c : Char) (hc : c ∈ (toString i).toList) : Text.isHex c := by
    simp [Text.isHex, Text.hexValue?, isDigit_of_mem_toString hc]
  have hescape : escapeChars (toString i).toList = (toString i).toList := by
    revert hhex
    induction (toString i).toList with
    | nil => exact fun _ => rfl
    | cons c cs ih =>
      intro hhex
      rw [escapeChars_cons, escapeChar_of_isHex (hhex c mem_cons_self),
        ih fun d hd => hhex d (mem_cons_of_mem _ hd), singleton_append]
  have hbyte : ¬ HasByte (toString i).toList := by
    rintro ⟨a, b, hin, -⟩
    exact absurd (hhex '%' (hin.subset mem_cons_self)) (by decide)
  have h := unescapeChars_escapeChars_iff.2 hbyte
  rw [hescape] at h
  rw [unescape, h, String.ofList_toList]

lemma index?_toString (i : Nat) :
    index? (toString i) = if i < 10 ^ digitLimit then .ok i else .error (.noNumber (toString i)) := by
  have hvalues {cs : List Char} (hcs : ∀ c ∈ cs, c.isDigit) :
      cs.mapM Unicode.decimalValue? = some (cs.map (·.toNat - 48)) := by
    induction cs with
    | nil => rfl
    | cons c cs ih =>
      simp [Unicode.decimalValue?, hcs c mem_cons_self,
        ih fun d hd => hcs d (mem_cons_of_mem _ hd)]
  have hvalue : ((Nat.toDigits 10 i).map (·.toNat - 48)).foldl (fun n d => 10 * n + d) 0 = i := by
    rw [foldl_map]
    exact Nat.ofDigitChars_ten_toDigits
  have hlength : (Nat.toDigits 10 i).length ≤ digitLimit ↔ i < 10 ^ digitLimit :=
    Nat.length_toDigits_le_iff (by norm_num) (by decide)
  rw [index?, hvalues fun c hc => isDigit_of_mem_toString hc]
  simp only [Nat.toString_eq_ofList_toDigits, String.toList_ofList, length_map, hvalue, hlength]

lemma toList_ofPath (path : List Step) :
    (ofPath path).toList = '/' :: ['/'].intercalate (path.map (·.text.toList)) := by
  simp [ofPath, String.toList_intercalate, Function.comp_def]

lemma eq_empty_of_text (h : s.text.toList = []) : s = .key "" := by
  cases s with
  | key name =>
    have hempty : escape "" = "" := by decide
    rw [escape_injective ((String.toList_eq_nil_iff.1 h).trans hempty.symm)]
  | index i =>
    rw [Step.text, Nat.toString_eq_ofList_toDigits, String.toList_ofList] at h
    exact absurd h Nat.toDigits_ne_nil

lemma tokens_ofPath (h : first = .key "" → rest = []) :
    tokens (ofPath (first :: rest)) = (first :: rest).map fun s => unescape s.text := by
  have hdrop : (['/'].intercalate ((first :: rest).map (·.text.toList))).dropWhile (· == '/') =
      ['/'].intercalate ((first :: rest).map (·.text.toList)) := by
    rw [map_cons]
    cases htext : first.text.toList with
    | nil =>
      rw [h (eq_empty_of_text htext)]
      rfl
    | cons c cs =>
      have hc : c ≠ '/' := fun hc =>
        slash_not_mem_text first (by rw [htext, hc]; exact mem_cons_self)
      rw [intercalate_cons_cons_left, dropWhile_cons_of_neg (by simpa using hc)]
  have hslash (cs : List Char) (hcs : cs ∈ (first :: rest).map (·.text.toList)) : '/' ∉ cs := by
    obtain ⟨s, -, rfl⟩ := mem_map.1 hcs
    exact slash_not_mem_text s
  rw [tokens, toList_ofPath, dropWhile_cons_of_pos (by simp), hdrop,
    splitOn_intercalate '/' hslash (by simp), map_map]
  rfl

lemma tokens_ofPath_cons_empty (h : rest ≠ []) :
    tokens (ofPath (.key "" :: rest)) = tokens (ofPath rest) := by
  have hempty : (Step.key "").text.toList = [] := by simp [Step.text, escape, escapeChars,
    Text.replaceChar]
  rw [tokens, tokens, toList_ofPath, toList_ofPath, map_cons, hempty,
    intercalate_cons_of_ne_nil (by simpa using h)]
  simp

lemma length_tokens_ofPath_le {path : List Step} (h : path ≠ []) :
    (tokens (ofPath path)).length ≤ path.length := by
  induction path with
  | nil => exact absurd rfl h
  | cons first rest ih =>
    by_cases hfirst : first = .key "" → rest = []
    · rw [tokens_ofPath hfirst, length_map]
    · obtain ⟨rfl, hne⟩ := Classical.not_imp.1 hfirst
      rw [tokens_ofPath_cons_empty hne]
      exact (ih hne).trans (by simp)

lemma step_of_enter (hplain : s.IsPlain) (h : v.enter s = some c) :
    step v (unescape s.text) = .ok (some c) := by
  cases s with
  | key name =>
    rw [Step.text, unescape_escape_iff.2 hplain]
    cases v with
    | map entries => exact congrArg _ h
    | scalar _ | list _ | tuple _ => cases h
  | index i =>
    rw [Step.text, unescape_toString]
    cases v with
    | list items =>
      have hdigits : (toString i).toList.all Unicode.isDigit := all_eq_true.2 fun c hc => by
        simp [Unicode.isDigit, Unicode.isDecimal, Unicode.decimalValue?, isDigit_of_mem_toString hc]
      have hne : (toString i).isEmpty = false := by
        simp
      rw [step, hne, hdigits, index?_toString, if_pos (show i < 10 ^ digitLimit from hplain)]
      exact congrArg Except.ok h
    | scalar _ | map _ | tuple _ => cases h

/-- Following the tokens of plain steps leads where the steps do. -/
lemma follow_of_walk {path : List Step} (hplain : ∀ s ∈ path, s.IsPlain) (h : v.walk path = some w) :
    follow v (path.map fun s => unescape s.text) = .ok (some w) := by
  induction path generalizing v with
  | nil => exact congrArg _ h
  | cons s path ih =>
    obtain ⟨c, hc, h⟩ := Option.bind_eq_some_iff.1 h
    rw [map_cons, follow, step_of_enter (hplain s mem_cons_self) hc]
    exact ih (fun s hs => hplain s (mem_cons_of_mem _ hs)) h

/-! ### Documents that tell paths apart -/

/-- A document that has nothing but the value at the end of a path. -/
def document : List Step → Value
  | [] => .scalar (.bool true)
  | .key name :: path => .object [(name, document path)]
  | .index i :: path => .list (List.replicate i (.scalar .null) ++ [document path])

lemma walk_document (path : List Step) : (document path).walk path = some (document []) := by
  induction path with
  | nil => rfl
  | cons s path ih =>
    cases s with
    | key name => simpa [document, Value.walk, Value.enter, Value.object, Value.find?,
        Value.same_str] using ih
    | index i => simpa [document, Value.walk, Value.enter] using ih

lemma hasNames_document (path : List Step) : (document path).HasNames := by
  induction path with
  | nil => exact Value.hasNames_scalar _
  | cons s path ih =>
    cases s with
    | key name => simpa [document] using ih
    | index i =>
      refine Value.hasNames_list.2 fun c hc => ?_
      rcases mem_append.1 hc with hc | hc
      · rw [eq_of_mem_replicate hc]
        exact Value.hasNames_scalar _
      · rwa [mem_singleton.1 hc]

lemma of_step_object {name : String} (h : step (.object [(name, v)]) t = .ok (some c)) :
    t = name ∧ c = v := by
  simp only [Value.object, map_cons, map_nil, step, Value.find?, Value.same_str] at h
  by_cases hname : name = t
  · simp only [hname, beq_self_eq_true, if_true] at h
    cases h
    exact ⟨hname.symm, rfl⟩
  · simp [hname] at h

lemma of_step_list {items : List Value} (h : step (.list items) t = .ok (some c)) :
    ∃ j, index? t = .ok j ∧ items[j]? = some c := by
  rw [step] at h
  split_ifs at h
  · cases h
  · exact Except.map_eq_ok_iff.1 h

/-- Tokens that lead to the end of a path are those of its steps. -/
lemma of_follow_document {path : List Step} {tokens : List String}
    (h : follow (document path) tokens = .ok (some (document []))) :
    Forall₂ (fun s t => match s with
      | .key name => t = name
      | .index i => index? t = .ok i) path tokens := by
  induction path generalizing tokens with
  | nil =>
    cases tokens with
    | nil => exact .nil
    | cons t ts => cases h
  | cons s path ih =>
    cases tokens with
    | nil => cases s <;> cases h
    | cons t ts =>
      rw [follow] at h
      split at h
      next c hstep =>
        cases s with
        | key name =>
          obtain ⟨rfl, rfl⟩ := of_step_object hstep
          exact .cons rfl (ih h)
        | index i =>
          obtain ⟨j, hj, hc⟩ := of_step_list hstep
          -- Only the last item leads on to the end.
          have hnull : c ≠ .scalar .null := by
            rintro rfl
            cases ts <;> cases h
          rcases lt_trichotomy j i with hlt | rfl | hgt
          · rw [List.getElem?_append_left (by simpa using hlt)] at hc
            simp [hlt, hnull.symm] at hc
          · rw [List.getElem?_append_right (by simp)] at hc
            simp at hc
            exact .cons hj (ih (hc ▸ h))
          · rw [List.getElem?_eq_none (by simpa using hgt)] at hc
            cases hc
      next => cases h
      next => cases h

lemma isPlain_of_follow_document
    (h : follow (document (first :: rest)) (tokens (ofPath (first :: rest))) =
      .ok (some (document []))) : IsPlain (first :: rest) := by
  have hmatch := of_follow_document h
  have hfirst : first = .key "" → rest = [] := by
    rintro rfl
    by_contra hne
    have hle := length_tokens_ofPath_le hne
    have hlength := hmatch.length_eq
    rw [tokens_ofPath_cons_empty hne, length_cons] at hlength
    omega
  refine ⟨fun s hs => ?_, hfirst⟩
  rw [tokens_ofPath hfirst, forall₂_map_right_iff, forall₂_same] at hmatch
  have hs := hmatch s hs
  cases s with
  | key name => exact unescape_escape_iff.1 hs
  | index i =>
    simp only [Step.text, unescape_toString, index?_toString] at hs
    split_ifs at hs with hlt
    exact hlt

lemma follow_tokens_of_isPlain (hplain : IsPlain (first :: rest))
    (h : v.walk (first :: rest) = some w) :
    follow v (tokens (ofPath (first :: rest))) = .ok (some w) := by
  rw [tokens_ofPath hplain.2]
  exact follow_of_walk hplain.1 h

/-! ### Looking up -/

lemma outcome_lookup_iff {lib : Library} {ref uri fragment referrer : String} {root : Value}
    (hroot : (lib.document ref uri referrer).outcome = .ok root) (hfragment : fragment ≠ "") :
    (lib.lookup ref uri fragment referrer).outcome = .ok v ↔
      follow root (tokens fragment) = .ok (some v) := by
  have hempty : fragment.isEmpty = false := by simpa using hfragment
  rw [Library.lookup, Traced.outcome_bind_eq_ok_iff]
  simp only [hroot, Except.ok.injEq, exists_eq_left', hempty, Bool.false_eq_true, if_false]
  cases follow root (tokens fragment) with
  | error fault => exact ⟨nofun, nofun⟩
  | ok found =>
    cases found with
    | none => exact ⟨nofun, nofun⟩
    | some w => simp [pure]

lemma ofPath_ne_empty (path : List Step) : ofPath path ≠ "" := by
  intro h
  have := toList_ofPath path
  rw [h] at this
  cases this

/-- The path of a component. -/
def componentPath (name : String) : List Step :=
  [.key "components", .key "schemas", .key name]

lemma componentTarget_eq (name : String) :
    Schema.componentTarget name = "#" ++ ofPath (componentPath name) := by
  have hcomponents : escape "components" = "components" := by decide +kernel
  have hschemas : escape "schemas" = "schemas" := by decide +kernel
  have hprefix : "#" ++ ("/" ++ ("components" ++ ("/" ++ ("schemas" ++ "/")))) =
      "#/components/schemas/" := by decide +kernel
  calc
    Schema.componentTarget name =
        "#" ++ ("/" ++ ("components" ++ ("/" ++ ("schemas" ++ "/")))) ++ escape name :=
      congrArg (· ++ escape name) hprefix.symm
    _ = "#" ++ ofPath (componentPath name) := by
      simp only [ofPath, componentPath, map_cons, map_nil, Step.text, hcomponents,
        hschemas, String.intercalate_cons_cons, String.intercalate_singleton, String.append_assoc]

lemma locate_component (lib : Library) (name : String) :
    lib.locate (Schema.componentTarget name) lib.base "" =
      .ok ⟨Schema.componentTarget name, lib.base, ofPath (componentPath name)⟩ := by
  have hcut : Text.cutAt '#' (Schema.componentTarget name).toList =
      ([], some (ofPath (componentPath name)).toList) := by
    rw [componentTarget_eq, String.toList_append]
    rfl
  have hslash : Text.hasPrefix "/" (ofPath (componentPath name)) = true := by
    simp [Text.hasPrefix, toList_ofPath]
  rw [Library.locate, hcut]
  simp [hslash, componentTarget_eq]

lemma isPlain_componentPath {name : String} (h : ¬ HasByte name.toList) :
    IsPlain (componentPath name) := by
  have hplain {key : String} (hkey : '%' ∉ key.toList) : ¬ HasByte key.toList :=
    fun ⟨_, _, hin, _⟩ => hkey (hin.subset mem_cons_self)
  refine ⟨?_, by simp⟩
  simp only [forall_mem_cons]
  exact ⟨hplain (by decide +kernel), hplain (by decide +kernel), h, nofun⟩

/-- In every document with string keys, looking up the pointer of a path gives the value at its
end. -/
def RoundTrips (path : List Step) : Prop :=
  ∀ {lib : Library} {ref uri referrer : String} {root v : Value}, root.HasNames →
    (lib.document ref uri referrer).outcome = .ok root → root.walk path = some v →
      (lib.lookup ref uri (ofPath path) referrer).outcome = .ok v

/-- In every document with string keys that has a component of this name, the target of the component
leads to its schema. -/
def LocatesOwn (name : String) : Prop :=
  ∀ {lib : Library} {schema : Value}, lib.root.HasNames →
    lib.root.walk (componentPath name) = some schema →
      ∃ place, lib.Finds (Schema.componentTarget name) lib.base place schema

/-- Pointers lead back to where they were made for plain paths, and for no other ones. The targets of
components do for names with no byte in them to decode. -/
theorem roundTrips_iff (first : Step) (rest : List Step) (name : String) :
    (RoundTrips (first :: rest) ↔ IsPlain (first :: rest)) ∧
      (LocatesOwn name ↔ ¬ HasByte name.toList) := by
  refine ⟨⟨fun h => ?_, fun h => ?_⟩, fun h => ?_, fun h => ?_⟩
  · have hlookup := @h (.ofTable "" (document (first :: rest)) []) "" "" "" _ _
      (hasNames_document _) rfl (walk_document _)
    exact isPlain_of_follow_document ((outcome_lookup_iff rfl (ofPath_ne_empty _)).1 hlookup)
  · intro lib ref uri referrer root v _ hroot hwalk
    exact (outcome_lookup_iff hroot (ofPath_ne_empty _)).2 (follow_tokens_of_isPlain h hwalk)
  · obtain ⟨place, hplace, hheld⟩ := @h (.ofTable "" (document (componentPath name)) []) _
      (hasNames_document _) (walk_document _)
    cases (locate_component _ name).symm.trans hplace
    have hplain := isPlain_of_follow_document ((outcome_lookup_iff rfl (ofPath_ne_empty _)).1 hheld)
    exact hplain.1 (.key name) (by simp)
  · intro lib schema _ hwalk
    refine ⟨_, locate_component lib name, ?_⟩
    exact (outcome_lookup_iff (by simp [Library.document, pure]) (ofPath_ne_empty _)).2
      (follow_tokens_of_isPlain (isPlain_componentPath h) hwalk)

end Pointer

end ApiSchema
