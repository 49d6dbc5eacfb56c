import ApiSchema.Proofs.Number.Decimal
import ApiSchema.Proofs.Text.Code
import ApiSchema.Proofs.Value.Parts

/-!
# Numerals

A numeral is a number as it is written: a sign, digits, more of them behind a point, and an
exponent. Main statement: scalars that are written as numerals are told apart by their texts, as
far as their floating-point numbers are of the binary64 format.
-/

namespace ApiSchema

open List

namespace Double

/-! ### Digits -/

lemma digitsValue_append (cs ds : List Char) :
    digitsValue (cs ++ ds) = 10 ^ ds.length * digitsValue cs + digitsValue ds := by
  induction ds using List.reverseRecOn with
  | nil => simp [digitsValue]
  | append_singleton ds d ih =>
    rw [← append_assoc]
    unfold digitsValue at ih ⊢
    rw [foldl_concat, foldl_concat, ih, length_append, length_singleton]
    ring

lemma digitsValue_toDigits (n : Nat) : digitsValue (Nat.toDigits 10 n) = n :=
  Nat.ofDigitChars_ten_toDigits

lemma digitsValue_zeros (n : Nat) : digitsValue (List.replicate n '0') = 0 := by
  have hzeros : Nat.ofDigitChars 10 (List.replicate n '0') 0 = 10 ^ n * 0 :=
    Nat.ofDigitChars_replicate_zero
  exact hzeros.trans (mul_zero _)

lemma isDigit_of_mem_toDigits {n : Nat} : ∀ c ∈ Nat.toDigits 10 n, c.isDigit :=
  fun _ hc => Nat.isDigit_of_mem_toDigits (by norm_num) le_rfl hc

lemma isDigit_of_mem_zeros {n : Nat} : ∀ c ∈ List.replicate n '0', c.isDigit := by
  intro c hc
  rw [eq_of_mem_replicate hc]
  rfl

/-- The sign of a decimal is that of the number. -/
lemma ofDecimal_eq_finite {digits m : Nat} {exponent e : Int}
    (h : ofDecimal false digits exponent = .finite false m e) (negative : Bool) :
    ofDecimal negative digits exponent = .finite negative m e := by
  have hratio {n d : Nat} (h : ofRatio false n d = .finite false m e) :
      ofRatio negative n d = .finite negative m e := by
    simp only [ofRatio, ofDyadic] at h ⊢
    split_ifs at h ⊢ <;> simp_all
  simp only [ofDecimal] at h ⊢
  split_ifs at h ⊢
  · simp_all
  · simp_all
  · exact hratio h
  · exact hratio h

lemma exists_eq_dropTrailingZeros_append (digits : List Char) :
    ∃ k, digits = dropTrailingZeros digits ++ List.replicate k '0' := by
  refine ⟨(digits.reverse.takeWhile (· == '0')).length, ?_⟩
  have hzeros : digits.reverse.takeWhile (· == '0') =
      List.replicate (digits.reverse.takeWhile (· == '0')).length '0' := by
    refine eq_replicate_iff.2 ⟨rfl, fun c hc => ?_⟩
    simpa using mem_takeWhile_imp hc
  rw [← reverse_replicate, ← hzeros, dropTrailingZeros, ← reverse_append,
    takeWhile_append_dropWhile, reverse_reverse]

end Double

open Double

/-- A number as it is written. The exponent stands with its sign. -/
structure Numeral where
  negative : Bool
  whole : List Char
  fraction : List Char
  power : List Char

namespace Numeral

/-- A part of a numeral with its mark, or nothing. -/
def behind (mark : Char) (part : List Char) : List Char :=
  if part.isEmpty then [] else mark :: part

/-- The text but for the sign. -/
def magnitude (n : Numeral) : List Char :=
  n.whole ++ (behind '.' n.fraction ++ behind 'e' n.power)

def text (n : Numeral) : List Char :=
  if n.negative then '-' :: n.magnitude else n.magnitude

/-- All parts are made of digits, and there is one in front and one behind the sign of an
exponent. -/
structure IsProper (n : Numeral) : Prop where
  whole_ne_nil : n.whole ≠ []
  whole : ∀ c ∈ n.whole, c.isDigit
  fraction : ∀ c ∈ n.fraction, c.isDigit
  power : n.power = [] ∨ ∃ sign ds, n.power = sign :: ds ∧ sign ∈ ['-', '+'] ∧ ds ≠ [] ∧
    ∀ c ∈ ds, c.isDigit

def exponent (n : Numeral) : Int :=
  match n.power with
  | [] => 0
  | sign :: ds => if sign = '-' then -digitsValue ds else digitsValue ds

def digits (n : Numeral) : Nat :=
  digitsValue (n.whole ++ n.fraction)

/-- The value of a numeral but for its sign. -/
def value (n : Numeral) : ℚ :=
  n.digits * 10 ^ (n.exponent - n.fraction.length)

/-- The scalar that a numeral stands for: an integer if it has neither a fraction nor an
exponent. -/
def scalar (n : Numeral) : Scalar :=
  if n.fraction = [] ∧ n.power = [] then .int (if n.negative then -n.digits else n.digits)
  else .float (ofDecimal n.negative n.digits (n.exponent - n.fraction.length))

variable {n n' : Numeral} {c : Char} {digits : List Char} {power : Int} {negative : Bool}

/-! ### Texts of numerals -/

lemma behind_injective {mark : Char} {part part' : List Char}
    (h : behind mark part = behind mark part') : part = part' := by
  cases part <;> cases part' <;> simp_all [behind]

lemma mem_behind {mark : Char} {part : List Char} (hc : c ∈ behind mark part) :
    c = mark ∨ c ∈ part := by
  cases part with
  | nil => cases hc
  | cons d part => exact mem_cons.1 hc

lemma eq_of_mem_head?_behind {mark : Char} {part : List Char} (hc : c ∈ (behind mark part).head?) :
    c = mark := by
  cases part with
  | nil => cases hc
  | cons d part => exact (Option.some.inj hc).symm

lemma mem_text : c ∈ n.text ↔ n.negative ∧ c = '-' ∨ c ∈ n.magnitude := by
  unfold text
  split <;> simp_all

/-- Digits, the point, the mark of an exponent and the signs. -/
def isNumeralChar (c : Char) : Bool :=
  c.isDigit || ['.', 'e', '-', '+'].contains c

lemma IsProper.of_mem_text (hn : n.IsProper) (hc : c ∈ n.text) : isNumeralChar c := by
  have hdigit {c : Char} (hc : c.isDigit) : isNumeralChar c := by simp [isNumeralChar, hc]
  obtain ⟨-, rfl⟩ | hc := mem_text.1 hc
  · rfl
  rcases mem_append.1 hc with hc | hc
  · exact hdigit (hn.whole c hc)
  rcases mem_append.1 hc with hc | hc
  · rcases mem_behind hc with rfl | hc
    · rfl
    · exact hdigit (hn.fraction c hc)
  · rcases mem_behind hc with rfl | hc
    · rfl
    obtain hnil | ⟨sign, ds, hpower, hsign, -, hds⟩ := hn.power
    · simp [hnil] at hc
    · rw [hpower] at hc
      rcases mem_cons.1 hc with rfl | hc
      · rcases mem_pair.1 hsign with rfl | rfl <;> rfl
      · exact hdigit (hds c hc)

lemma IsProper.exists_isDigit (hn : n.IsProper) : ∃ c ∈ n.text, c.isDigit := by
  obtain ⟨c, hc⟩ := exists_mem_of_ne_nil _ hn.whole_ne_nil
  exact ⟨c, mem_text.2 (.inr (mem_append_left _ hc)), hn.whole c hc⟩

lemma IsProper.magnitude_ne_minus (hn : n.IsProper) (rest : List Char) :
    n.magnitude ≠ '-' :: rest := by
  obtain ⟨c, cs, hwhole⟩ := exists_cons_of_ne_nil hn.whole_ne_nil
  intro h
  rw [magnitude, hwhole] at h
  have hc := hn.whole c (by rw [hwhole]; exact mem_cons_self)
  rw [(List.cons.inj h).1] at hc
  cases hc

/-- Each part of a numeral ends where the mark of the next one comes. -/
lemma IsProper.parts_eq (hn : n.IsProper) (hn' : n'.IsProper) (h : n.magnitude = n'.magnitude) :
    n.whole = n'.whole ∧ n.fraction = n'.fraction ∧ n.power = n'.power := by
  have hmark {n : Numeral} : ∀ c ∈ (behind '.' n.fraction ++ behind 'e' n.power).head?,
      ¬ c.isDigit := by
    intro c hc
    rw [head?_append] at hc
    rcases Option.or_eq_some_iff.1 hc with hc | ⟨-, hc⟩ <;>
      rw [eq_of_mem_head?_behind hc] <;> decide
  have hfraction {n : Numeral} (hn : n.IsProper) : ∀ c ∈ behind '.' n.fraction, c ≠ 'e' := by
    rintro c hc rfl
    rcases mem_behind hc with hc | hc
    · cases hc
    · cases hn.fraction _ hc
  obtain ⟨hwhole, h⟩ := Text.append_inj_of_stop (fun c hc => not_not.2 (hn.whole c hc))
    (fun c hc => not_not.2 (hn'.whole c hc)) hmark hmark h
  obtain ⟨hpoint, hpower⟩ := Text.append_inj_of_stop (hfraction hn) (hfraction hn')
    (fun c => eq_of_mem_head?_behind) (fun c => eq_of_mem_head?_behind) h
  exact ⟨hwhole, behind_injective hpoint, behind_injective hpower⟩

/-- A numeral is told from its text. -/
theorem text_injective (hn : n.IsProper) (hn' : n'.IsProper) (h : n.text = n'.text) : n = n' := by
  obtain ⟨hnegative, hmagnitude⟩ : n.negative = n'.negative ∧ n.magnitude = n'.magnitude := by
    unfold text at h
    split_ifs at h with hneg hneg' hneg'
    · exact ⟨hneg.trans hneg'.symm, (List.cons.inj h).2⟩
    · exact absurd h.symm (hn'.magnitude_ne_minus _)
    · exact absurd h (hn.magnitude_ne_minus _)
    · exact ⟨by simp_all, h⟩
  obtain ⟨hwhole, hfraction, hpower⟩ := hn.parts_eq hn' hmagnitude
  cases n
  cases n'
  simp_all

/-! ### Integers -/

def ofInt (i : Int) : Numeral :=
  ⟨decide (i < 0), Nat.toDigits 10 i.natAbs, [], []⟩

lemma isProper_ofInt (i : Int) : (ofInt i).IsProper :=
  ⟨Nat.toDigits_ne_nil, isDigit_of_mem_toDigits, nofun, .inl rfl⟩

lemma text_ofInt (i : Int) : (ofInt i).text = (toString i).toList := by
  rw [Int.toString_eq_repr]
  cases i with
  | ofNat n => simp [text, magnitude, ofInt, behind, Int.repr, Nat.toList_repr]
  | negSucc n => simp [text, magnitude, ofInt, behind, Int.repr, Nat.toList_repr, Int.negSucc_lt_zero]

lemma scalar_ofInt (i : Int) : (ofInt i).scalar = .int i := by
  rw [scalar, if_pos ⟨rfl, rfl⟩, Numeral.digits]
  simp only [ofInt, append_nil, digitsValue_toDigits, decide_eq_true_eq, Scalar.int.injEq]
  split <;> omega

/-! ### Layouts of digits -/

/-- The digits of an exponent, two at least, with its sign. -/
def powerText (power : Int) : List Char :=
  (if power < 0 then '-' else '+') :: (if (Nat.toDigits 10 power.natAbs).length < 2
    then '0' :: Nat.toDigits 10 power.natAbs else Nat.toDigits 10 power.natAbs)

/-- Digits with the power of ten of the first one. -/
def ofDigits (negative : Bool) (digits : List Char) (power : Int) : Numeral :=
  if -4 ≤ power ∧ power < 16 then
    if power < 0 then
      ⟨negative, ['0'], List.replicate (-power - 1).toNat '0' ++ digits, []⟩
    else if digits.length ≤ power.toNat + 1 then
      ⟨negative, digits ++ List.replicate (power.toNat + 1 - digits.length) '0', ['0'], []⟩
    else ⟨negative, digits.take (power.toNat + 1), digits.drop (power.toNat + 1), []⟩
  else ⟨negative, digits.take 1, digits.drop 1, powerText power⟩

lemma magnitude_ofDigits (hne : digits ≠ []) :
    (ofDigits negative digits power).magnitude = writeDigits digits power := by
  unfold ofDigits writeDigits
  extract_lets whole fraction width padded
  have hfraction : behind '.' (digits.drop 1) = fraction := by
    cases digits with
    | nil => rfl
    | cons d ds => cases ds <;> simp [behind, fraction]
  split_ifs with hrange hneg hlength
  · simp [magnitude, behind, hne]
  · simp [magnitude, behind, whole]
  · simp [magnitude, behind, whole, hlength]
  all_goals
    rw [magnitude, hfraction]
    simp [behind, powerText, padded, width, *]

lemma negative_ofDigits : (ofDigits negative digits power).negative = negative := by
  unfold ofDigits
  split_ifs <;> rfl

lemma isProper_ofDigits (hne : digits ≠ []) (hdigits : ∀ c ∈ digits, c.isDigit) :
    (ofDigits negative digits power).IsProper := by
  have hpower : ∃ sign ds, powerText power = sign :: ds ∧ sign ∈ ['-', '+'] ∧ ds ≠ [] ∧
      ∀ c ∈ ds, c.isDigit := by
    refine ⟨_, _, rfl, ?_, ?_, ?_⟩
    · split <;> decide
    · split <;> simp
    · split
      · exact forall_mem_cons.2 ⟨rfl, isDigit_of_mem_toDigits⟩
      · exact isDigit_of_mem_toDigits
  unfold ofDigits
  split_ifs
  · exact ⟨by simp, by simp, forall_mem_append.2 ⟨isDigit_of_mem_zeros, hdigits⟩, .inl rfl⟩
  · exact ⟨by simp [hne], forall_mem_append.2 ⟨hdigits, isDigit_of_mem_zeros⟩, by simp, .inl rfl⟩
  · exact ⟨by simp [hne], fun c hc => hdigits c (mem_of_mem_take hc),
      fun c hc => hdigits c (mem_of_mem_drop hc), .inl rfl⟩
  · exact ⟨by simp [hne], fun c hc => hdigits c (mem_of_mem_take hc),
      fun c hc => hdigits c (mem_of_mem_drop hc), .inr hpower⟩

lemma exponent_powerText {whole fraction : List Char} :
    (⟨negative, whole, fraction, powerText power⟩ : Numeral).exponent = power := by
  have hdigits : digitsValue (if (Nat.toDigits 10 power.natAbs).length < 2
      then '0' :: Nat.toDigits 10 power.natAbs else Nat.toDigits 10 power.natAbs) =
      power.natAbs := by
    split
    · rw [← singleton_append, digitsValue_append, digitsValue_toDigits]
      simp [digitsValue, digitValue]
    · exact digitsValue_toDigits _
  simp only [exponent, powerText, hdigits]
  split_ifs <;> first | omega | simp_all

/-- However digits are laid out, the value is theirs. -/
lemma value_ofDigits (hne : digits ≠ []) : (ofDigits negative digits power).value =
    digitsValue digits * 10 ^ (power + 1 - digits.length) := by
  have hlength : 0 < digits.length := length_pos_iff.2 hne
  unfold ofDigits
  split_ifs with hrange hneg hle
  · have hzeros : digitsValue (['0'] ++ (List.replicate (-power - 1).toNat '0' ++ digits)) =
        digitsValue digits := by
      rw [← append_assoc, singleton_append, ← replicate_succ, digitsValue_append,
        digitsValue_zeros, mul_zero, zero_add]
    simp only [value, Numeral.digits, hzeros, exponent, length_append, length_replicate]
    congr 2
    omega
  · obtain ⟨k, rfl⟩ := Int.eq_ofNat_of_zero_le (not_lt.1 hneg)
    obtain ⟨j, hj⟩ := Nat.exists_eq_add_of_le hle
    have hzeros : digitsValue (digits ++ List.replicate j '0' ++ ['0']) =
        10 ^ (j + 1) * digitsValue digits := by
      rw [append_assoc, ← replicate_succ', digitsValue_append, digitsValue_zeros,
        length_replicate, add_zero]
    have hpower : (k + 1 - digits.length : Int) = j := by
      simp only [Int.toNat_natCast] at hj
      omega
    rw [show (k : Int).toNat + 1 - digits.length = j by omega, hpower]
    simp only [value, Numeral.digits, hzeros, exponent, length_singleton]
    push_cast
    rw [zpow_natCast, zpow_neg_one, pow_succ]
    ring
  · simp only [value, Numeral.digits, take_append_drop, exponent, length_drop]
    congr 2
    omega
  · simp only [value, exponent_powerText, Numeral.digits, take_append_drop, length_drop]
    congr 2
    omega

lemma fraction_or_power_ne_nil (hne : digits ≠ []) :
    ¬ ((ofDigits negative digits power).fraction = [] ∧
      (ofDigits negative digits power).power = []) := by
  unfold ofDigits
  split_ifs with hrange hneg hle <;> simp_all [powerText]

/-! ### Floating-point numbers -/

/-- The digits of a positive number, less the zeros at their end. -/
lemma dropTrailingZeros_ne_nil {n : Nat} (hn : 0 < n) :
    dropTrailingZeros (Nat.toDigits 10 n) ≠ [] := by
  intro hnil
  obtain ⟨k, hk⟩ := exists_eq_dropTrailingZeros_append (Nat.toDigits 10 n)
  rw [hnil, nil_append] at hk
  have hvalue := digitsValue_toDigits n
  rw [hk, digitsValue_zeros] at hvalue
  omega

lemma isDigit_of_mem_dropTrailingZeros (h : ∀ c ∈ digits, c.isDigit) :
    ∀ c ∈ dropTrailingZeros digits, c.isDigit := by
  obtain ⟨k, hk⟩ := exists_eq_dropTrailingZeros_append digits
  rw [hk] at h
  exact fun c hc => h c (mem_append_left _ hc)

/-- The numeral of a decimal. -/
def ofDecimal (negative : Bool) (decimal : Decimal) : Numeral :=
  ofDigits negative (dropTrailingZeros (Nat.toDigits 10 decimal.digits))
    (decimal.exponent + (Nat.toDigits 10 decimal.digits).length - 1)

/-- Zeros at the end count nothing. -/
lemma value_ofDecimal {decimal : Decimal} (hpos : 0 < decimal.digits) :
    (ofDecimal negative decimal).value = decimal.value := by
  obtain ⟨k, hk⟩ := exists_eq_dropTrailingZeros_append (Nat.toDigits 10 decimal.digits)
  have hne := dropTrailingZeros_ne_nil hpos
  rw [ofDecimal, value_ofDigits hne, Decimal.value]
  set kept := dropTrailingZeros (Nat.toDigits 10 decimal.digits)
  have hvalue : decimal.digits = 10 ^ k * digitsValue kept := by
    rw [← digitsValue_toDigits decimal.digits, hk, digitsValue_append, digitsValue_zeros,
      length_replicate, add_zero]
  have hpower : decimal.exponent + ((Nat.toDigits 10 decimal.digits).length : Int) - 1 + 1 -
      kept.length = decimal.exponent + k := by
    rw [hk, length_append, length_replicate]
    push_cast
    ring
  rw [hpower, hvalue, zpow_add₀ (by norm_num), zpow_natCast]
  push_cast
  ring

def ofFinite (negative : Bool) (m : Nat) (e : Int) : Numeral :=
  if m = 0 then ⟨negative, ['0'], ['0'], []⟩ else ofDecimal negative (shortest m e)

variable {m : Nat} {e : Int}

lemma isProper_ofFinite : (ofFinite negative m e).IsProper := by
  unfold ofFinite
  split_ifs with hm
  · exact ⟨by simp, by simp, by simp, .inl rfl⟩
  · exact isProper_ofDigits
      (dropTrailingZeros_ne_nil (digits_shortest_pos (Nat.pos_of_ne_zero hm) e))
      (isDigit_of_mem_dropTrailingZeros isDigit_of_mem_toDigits)

lemma text_ofFinite : (ofFinite negative m e).text = (Double.finite negative m e).text.toList := by
  unfold ofFinite
  split_ifs with hm
  · cases negative <;> simp [text, magnitude, behind, Double.text, hm]
  · have hne := dropTrailingZeros_ne_nil (digits_shortest_pos (Nat.pos_of_ne_zero hm) e)
    rw [text, ofDecimal, magnitude_ofDigits hne, negative_ofDigits, Double.text, if_neg hm,
      String.toList_ofList]

/-- A number of the format is what its numeral stands for. -/
lemma scalar_ofFinite (h : (Double.finite negative m e).IsBinary64) :
    (ofFinite negative m e).scalar = .float (.finite negative m e) := by
  obtain ⟨rfl, rfl⟩ | hnormal := h
  · rfl
  have hpos := digits_shortest_pos hnormal.pos e
  let n := ofDecimal negative (shortest m e)
  have hnegative : n.negative = negative := negative_ofDigits
  have hpart : ¬ (n.fraction = [] ∧ n.power = []) :=
    fraction_or_power_ne_nil (dropTrailingZeros_ne_nil hpos)
  have hvalue : n.value = (shortest m e).value := value_ofDecimal hpos
  have hdigits : 0 < n.digits := by
    rw [Nat.pos_iff_ne_zero]
    intro hzero
    rw [value, hzero, Nat.cast_zero, zero_mul, Decimal.value] at hvalue
    have : (0 : ℚ) < (shortest m e).digits * 10 ^ (shortest m e).exponent := by positivity
    linarith
  rw [ofFinite, if_neg hnormal.pos.ne', scalar, if_neg hpart, hnegative,
    ofDecimal_congr hdigits hpos hvalue, ofDecimal_eq_finite (ofDecimal_shortest hnormal)]

end Numeral

/-! ### Scalars -/

namespace Scalar

variable {s t : Scalar} {n : Numeral}

/-- How an integer or a finite number is written. -/
def numeral? : Scalar → Option Numeral
  | .int i => some (.ofInt i)
  | .float (.finite negative m e) => some (.ofFinite negative m e)
  | _ => none

lemma isProper_of_numeral? (h : s.numeral? = some n) : n.IsProper := by
  match s, h with
  | .int i, rfl => exact Numeral.isProper_ofInt i
  | .float (.finite negative m e), rfl => exact Numeral.isProper_ofFinite

lemma text_of_numeral? (h : s.numeral? = some n) : n.text = s.literal.toList := by
  match s, h with
  | .int i, rfl => exact Numeral.text_ofInt i
  | .float (.finite negative m e), rfl => exact Numeral.text_ofFinite

lemma scalar_of_numeral? (h : s.numeral? = some n) (hs : ∀ x ∈ s.floats, x.IsBinary64) :
    n.scalar = s := by
  match s, h with
  | .int i, rfl => exact Numeral.scalar_ofInt i
  | .float (.finite negative m e), rfl => exact Numeral.scalar_ofFinite (hs _ mem_cons_self)

/-- The scalars that are written as words. -/
def constants : List Scalar :=
  [.null, .bool true, .bool false, .float (.infinite true), .float (.infinite false)]

lemma mem_constants (hs : s.numeral? = none) (hstr : ∀ text, s ≠ .str text) : s ∈ constants := by
  match s with
  | .str text => exact absurd rfl (hstr text)
  | .null | .bool true | .bool false | .float (.infinite true) | .float (.infinite false) => decide

/-- The characters of words and of numerals. -/
def isWordChar (c : Char) : Bool :=
  c.isAlphanum || ['.', '-', '+'].contains c

/-- A way to write scalars other than strings: numbers as numerals, and the others as words that are
no numerals. -/
structure IsSpelling (spell : Scalar → List Char) : Prop where
  numeral : ∀ s n, s.numeral? = some n → spell s = n.text
  word : ∀ s ∈ constants, (spell s).all isWordChar = true
  letter : ∀ s ∈ constants, (spell s).all Numeral.isNumeralChar = false
  distinct : ∀ s ∈ constants, ∀ t ∈ constants, spell s = spell t → s = t

section

variable {spell : Scalar → List Char} (hspell : IsSpelling spell) (hs : ∀ text, s ≠ .str text)

include hspell hs

lemma IsSpelling.ne_nil : spell s ≠ [] := by
  cases hn : s.numeral? with
  | none =>
    intro hnil
    have hletter := hspell.letter s (mem_constants hn hs)
    rw [hnil] at hletter
    cases hletter
  | some n =>
    obtain ⟨c, hc, -⟩ := (isProper_of_numeral? hn).exists_isDigit
    rw [hspell.numeral s n hn]
    exact ne_nil_of_mem hc

lemma IsSpelling.isWordChar_of_mem {c : Char} (hc : c ∈ spell s) : isWordChar c := by
  cases hn : s.numeral? with
  | none => exact all_eq_true.1 (hspell.word s (mem_constants hn hs)) c hc
  | some n =>
    rw [hspell.numeral s n hn] at hc
    have hchar := (isProper_of_numeral? hn).of_mem_text hc
    simp only [Numeral.isNumeralChar, Bool.or_eq_true, contains_iff_mem, mem_cons, not_mem_nil,
      or_false] at hchar
    obtain hdigit | rfl | rfl | rfl | rfl := hchar
    · simp [isWordChar, Char.isAlphanum, hdigit]
    all_goals rfl

/-- Scalars that are spelled alike are the same. -/
lemma IsSpelling.injective (ht : ∀ text, t ≠ .str text) (hfits : ∀ x ∈ s.floats, x.IsBinary64)
    (hfits' : ∀ x ∈ t.floats, x.IsBinary64) (h : spell s = spell t) : s = t := by
  have hne {s t : Scalar} {n : Numeral} (hs : s ∈ constants) (hn : t.numeral? = some n) :
      spell s ≠ spell t := by
    intro h
    have hletter := hspell.letter s hs
    rw [h, hspell.numeral t n hn,
      all_eq_true.2 fun c => (isProper_of_numeral? hn).of_mem_text] at hletter
    cases hletter
  cases hn : s.numeral? with
  | none =>
    have hs := mem_constants hn hs
    cases hm : t.numeral? with
    | none => exact hspell.distinct s hs t (mem_constants hm ht) h
    | some m => exact absurd h (hne hs hm)
  | some n =>
    cases hm : t.numeral? with
    | none => exact absurd h.symm (hne (mem_constants hm ht) hn)
    | some m =>
      rw [hspell.numeral s n hn, hspell.numeral t m hm] at h
      obtain rfl := Numeral.text_injective (isProper_of_numeral? hn) (isProper_of_numeral? hm) h
      rw [← scalar_of_numeral? hn hfits, ← scalar_of_numeral? hm hfits']

end

end Scalar

end ApiSchema
