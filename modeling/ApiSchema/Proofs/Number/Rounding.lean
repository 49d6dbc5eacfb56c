import Mathlib
import ApiSchema.Number.Double

/-!
# Rounding

What `Double.ofRatio` gives depends only on the ratio it is given. Main statement: a ratio that lies
close enough to a number of the format, and not below the power of two at or below that number, is
rounded to it.
-/

namespace ApiSchema.Double

variable {b n d n' d' : Nat}

/-! ### Powers against ratios -/

lemma zpow_le_div_iff (hb : 0 < b) (hd : 0 < d) (k : Int) :
    (b : ℚ) ^ k ≤ n / d ↔ if 0 ≤ k then d * b ^ k.toNat ≤ n else d ≤ n * b ^ (-k).toNat := by
  have hb' : (0 : ℚ) < b := by exact_mod_cast hb
  have hd' : (0 : ℚ) < d := by exact_mod_cast hd
  rw [le_div_iff₀ hd']
  split
  next hk =>
    obtain ⟨j, rfl⟩ := Int.eq_ofNat_of_zero_le hk
    rw [zpow_natCast, Int.toNat_natCast, mul_comm]
    exact_mod_cast Iff.rfl
  next hk =>
    obtain ⟨j, rfl⟩ := Int.exists_eq_neg_ofNat (le_of_not_ge hk)
    rw [zpow_neg, zpow_natCast, neg_neg, Int.toNat_natCast, inv_mul_le_iff₀ (by positivity),
      mul_comm]
    exact_mod_cast Iff.rfl

/-- The quotient of `n / d` by a power, as a ratio of naturals again. -/
lemma div_div_zpow (hb : 0 < b) (n d : Nat) (e : Int) :
    (n / d / (b : ℚ) ^ e : ℚ) = if 0 ≤ e then (n : ℚ) / (d * b ^ e.toNat : Nat)
      else (n * b ^ (-e).toNat : Nat) / (d : ℚ) := by
  have hb' : (b : ℚ) ≠ 0 := by exact_mod_cast hb.ne'
  split
  next he =>
    obtain ⟨j, rfl⟩ := Int.eq_ofNat_of_zero_le he
    rw [zpow_natCast, Int.toNat_natCast, div_div]
    push_cast
    rfl
  next he =>
    obtain ⟨j, rfl⟩ := Int.exists_eq_neg_ofNat (le_of_not_ge he)
    rw [zpow_neg, zpow_natCast, neg_neg, Int.toNat_natCast, div_inv_eq_mul]
    push_cast
    ring

/-! ### The power of two below a ratio -/

/-- The logarithms of two naturals bound that of their ratio. -/
lemma log_div_mem (hn : 0 < n) (hd : 0 < d) :
    (n.log2 : Int) - d.log2 - 1 ≤ Int.log 2 (n / d : ℚ) ∧
      Int.log 2 (n / d : ℚ) ≤ (n.log2 : Int) - d.log2 := by
  have hd' : (0 : ℚ) < d := by exact_mod_cast hd
  have hratio : (0 : ℚ) < n / d := by positivity
  have hn₁ : (2 : ℚ) ^ n.log2 ≤ n := by exact_mod_cast Nat.log2_self_le hn.ne'
  have hn₂ : (n : ℚ) < 2 ^ (n.log2 + 1) := by exact_mod_cast Nat.lt_log2_self
  have hd₁ : (2 : ℚ) ^ d.log2 ≤ d := by exact_mod_cast Nat.log2_self_le hd.ne'
  have hd₂ : (d : ℚ) < 2 ^ (d.log2 + 1) := by exact_mod_cast Nat.lt_log2_self
  constructor
  · apply (Int.zpow_le_iff_le_log one_lt_two hratio).1
    rw [le_div_iff₀ hd']
    calc ((2 : Nat) : ℚ) ^ ((n.log2 : Int) - d.log2 - 1) * d
        ≤ ((2 : Nat) : ℚ) ^ ((n.log2 : Int) - d.log2 - 1) * 2 ^ (d.log2 + 1) := by gcongr
      _ = 2 ^ n.log2 := by
        rw [← zpow_natCast, ← zpow_natCast, Nat.cast_two, ← zpow_add₀ two_ne_zero]
        congr 1
        push_cast
        ring
      _ ≤ n := hn₁
  · apply Int.lt_add_one_iff.1
    apply (Int.lt_zpow_iff_log_lt one_lt_two hratio).1
    rw [div_lt_iff₀ hd']
    calc (n : ℚ) < 2 ^ (n.log2 + 1) := hn₂
      _ = ((2 : Nat) : ℚ) ^ ((n.log2 : Int) - d.log2 + 1) * 2 ^ d.log2 := by
        rw [← zpow_natCast, ← zpow_natCast, Nat.cast_two, ← zpow_add₀ two_ne_zero]
        congr 1
        push_cast
        ring
      _ ≤ ((2 : Nat) : ℚ) ^ ((n.log2 : Int) - d.log2 + 1) * d := by gcongr

lemma floorLog2_eq_log (hn : 0 < n) (hd : 0 < d) : floorLog2 n d = Int.log 2 (n / d : ℚ) := by
  have hratio : (0 : ℚ) < n / d := by positivity
  obtain ⟨hlow, hhigh⟩ := log_div_mem hn hd
  have hreached := zpow_le_div_iff (b := 2) two_pos hd (n := n) ((n.log2 : Int) - d.log2)
  unfold floorLog2
  simp only [Nat.pow_eq]
  by_cases h : ((2 : Nat) : ℚ) ^ ((n.log2 : Int) - d.log2) ≤ n / d
  · have := (Int.zpow_le_iff_le_log one_lt_two hratio).1 h
    rw [if_pos (hreached.1 h)]
    omega
  · have := mt (Int.zpow_le_iff_le_log one_lt_two hratio).2 h
    rw [if_neg (mt hreached.2 h)]
    omega

/-! ### Rounding to an integer -/

lemma roundHalfEven_mul_right (n d : Nat) {c : Nat} (hc : 0 < c) :
    roundHalfEven (n * c) (d * c) = roundHalfEven n d := by
  have hlt : 2 * (n % d * c) < d * c ↔ 2 * (n % d) < d := by
    rw [← mul_assoc, Nat.mul_lt_mul_right hc]
  have hgt : d * c < 2 * (n % d * c) ↔ d < 2 * (n % d) := by
    rw [← mul_assoc, Nat.mul_lt_mul_right hc]
  simp only [roundHalfEven, Nat.mul_div_mul_right n d hc, Nat.mul_mod_mul_right, hlt, hgt]

/-- Rounding depends on the ratio only. -/
lemma roundHalfEven_eq_of_mul_eq (hd : 0 < d) (hd' : 0 < d') (h : n * d' = n' * d) :
    roundHalfEven n d = roundHalfEven n' d' := by
  rw [← roundHalfEven_mul_right n d hd', h, mul_comm d d', roundHalfEven_mul_right n' d' hd]

/-- An integer at less than a half from the ratio is the one it is rounded to. -/
lemma roundHalfEven_eq {m : Nat} (hd : 0 < d) (h : |(n / d : ℚ) - m| < 1 / 2) :
    roundHalfEven n d = m := by
  have hd' : (0 : ℚ) < d := by exact_mod_cast hd
  obtain ⟨hlow, hhigh⟩ := abs_lt.1 h
  have hlow' : 2 * (d * m) < 2 * n + d := by
    have : (2 * (d * m) : ℚ) < 2 * n + d := by
      have := (lt_div_iff₀ hd').1 (by linarith : (m - 1 / 2 : ℚ) < n / d)
      linarith
    exact_mod_cast this
  have hhigh' : 2 * n < 2 * (d * m) + d := by
    have : (2 * n : ℚ) < 2 * (d * m) + d := by
      have := (div_lt_iff₀ hd').1 (by linarith : (n / d : ℚ) < m + 1 / 2)
      linarith
    exact_mod_cast this
  have hdiv := Nat.div_add_mod n d
  have hmod := Nat.mod_lt n hd
  have hm : m = n / d ∨ m = n / d + 1 := by
    have hge : n / d ≤ m := by
      by_contra hlt
      have := Nat.mul_le_mul_left d (not_le.1 hlt)
      rw [Nat.mul_succ] at this
      omega
    have hle : m ≤ n / d + 1 := by
      by_contra hgt
      have := Nat.mul_le_mul_left d (not_le.1 hgt)
      rw [Nat.mul_succ, Nat.mul_succ] at this
      omega
    omega
  simp only [roundHalfEven]
  obtain rfl | rfl := hm
  · rw [if_pos (by omega)]
  · rw [Nat.mul_succ] at hlow' hhigh'
    rw [if_neg (by omega), if_pos (by omega)]

/-! ### Odd mantissas -/

lemma shiftOut_mul_two_pow {m j fuel : Nat} (hm : m % 2 = 1) (hj : j ≤ fuel) (e : Int) :
    shiftOut fuel (m * 2 ^ j) e = (m, e + j) := by
  induction fuel generalizing j e with
  | zero =>
    obtain rfl : j = 0 := by omega
    simp [shiftOut]
  | succ fuel ih =>
    cases j with
    | zero => simp [shiftOut, hm]
    | succ j =>
      have heven : m * 2 ^ (j + 1) % 2 = 0 := by
        rw [pow_succ, ← mul_assoc]
        exact Nat.mul_mod_left _ 2
      have hhalf : m * 2 ^ (j + 1) / 2 = m * 2 ^ j := by
        rw [pow_succ, ← mul_assoc, Nat.mul_div_cancel _ two_pos]
      rw [shiftOut, if_pos heven, hhalf, ih (by omega)]
      simp only [Prod.mk.injEq, true_and]
      push_cast
      ring

lemma ofDyadic_mul_two_pow {m : Nat} (hm : m % 2 = 1) (j : Nat) (negative : Bool) (e : Int) :
    ofDyadic negative (m * 2 ^ j) e = .finite negative m (e + j) := by
  have hpos : 0 < m := by omega
  have hj : j ≤ (m * 2 ^ j).log2 := by
    rw [Nat.le_log2 (by positivity)]
    exact Nat.le_mul_of_pos_left _ hpos
  rw [ofDyadic, if_neg (by positivity), shiftOut_mul_two_pow hm hj]

/-! ### The numbers of the format -/

/-- A finite number of the binary64 format, its mantissa odd: at most 53 bits, and within the range
of exponents. -/
structure IsNormal (m : Nat) (e : Int) : Prop where
  odd : m % 2 = 1
  lt : m < 2 ^ precision
  le : leastExponent ≤ e
  range : e + m.log2 < overflowExponent

/-- The numbers of the binary64 format: zeros, numbers with an odd mantissa, and infinities. -/
def IsBinary64 : Double → Prop
  | .finite _ m e => m = 0 ∧ e = 0 ∨ IsNormal m e
  | .infinite _ => True

/-! ### Rounding to the format -/

/-- A ratio in units of a power of two, rounded to an integer. -/
def roundUnits (n d : Nat) (e : Int) : Nat :=
  if 0 ≤ e then roundHalfEven n (d * 2 ^ e.toNat) else roundHalfEven (n * 2 ^ (-e).toNat) d

lemma ofRatio_eq_roundUnits (hn : 0 < n) (negative : Bool) {e : Int}
    (he : e = max (floorLog2 n d - (precision - 1 : Nat)) leastExponent) {m : Nat}
    (hm : m = roundUnits n d e) :
    ofRatio negative n d = if m = 0 then .finite negative 0 0
      else if overflowExponent ≤ e + m.log2 then .infinite negative
      else ofDyadic negative m e := by
  subst he hm
  rw [ofRatio, if_neg hn.ne']
  rfl

lemma roundUnits_eq {m : Nat} (hd : 0 < d) {e : Int} (h : |(n / d / 2 ^ e : ℚ) - m| < 1 / 2) :
    roundUnits n d e = m := by
  have hratio := div_div_zpow two_pos n d e
  rw [Nat.cast_two] at hratio
  rw [hratio] at h
  unfold roundUnits
  split at h
  next he =>
    rw [if_pos he]
    exact roundHalfEven_eq (by positivity) h
  next he =>
    rw [if_neg he]
    exact roundHalfEven_eq hd h

namespace IsNormal

variable {m : Nat} {e : Int} (h : IsNormal m e)

include h

lemma pos : 0 < m := by
  have := h.odd
  omega

lemma log2_le : m.log2 ≤ precision - 1 := by
  have := (Nat.log2_lt h.pos.ne').2 h.lt
  omega

/-- The unit in which a number is written is not less than that of 53 bits. -/
lemma unit_le : (2 : ℚ) ^ (e + m.log2 - 52) ≤ 2 ^ e := by
  have := h.log2_le
  rw [precision] at this
  exact zpow_le_zpow_right₀ one_le_two (by omega)

lemma le_value : (2 : ℚ) ^ (e + m.log2) ≤ m * 2 ^ e := by
  have : (2 : ℚ) ^ m.log2 ≤ m := by exact_mod_cast Nat.log2_self_le h.pos.ne'
  rw [add_comm, zpow_add₀ two_ne_zero, zpow_natCast]
  gcongr

/-- A number that is no power of two lies a unit above the power of two below it. -/
lemma add_le_value (hm : m ≠ 1) :
    (2 : ℚ) ^ (e + m.log2) + 2 ^ (e + m.log2 - 52) ≤ m * 2 ^ e := by
  have hlt : 2 ^ m.log2 + 1 ≤ m := by
    refine lt_of_le_of_ne (Nat.log2_self_le h.pos.ne') fun heq => hm ?_
    have hodd := h.odd
    rw [← heq] at hodd ⊢
    cases hlog : m.log2 with
    | zero => rfl
    | succ k =>
      rw [hlog, pow_succ, Nat.mul_mod_left] at hodd
      cases hodd
  have hlt' : (2 : ℚ) ^ m.log2 + 1 ≤ m := by exact_mod_cast hlt
  calc (2 : ℚ) ^ (e + m.log2) + 2 ^ (e + m.log2 - 52) ≤ 2 ^ (e + m.log2) + 2 ^ e := by
        linarith [h.unit_le]
    _ = (2 ^ m.log2 + 1) * 2 ^ e := by
        rw [add_comm e, zpow_add₀ two_ne_zero, zpow_natCast]
        ring
    _ ≤ m * 2 ^ e := by gcongr

/-- A number of the format lies a unit below the next power of two. -/
lemma value_le : (m * 2 ^ e : ℚ) ≤ 2 ^ (e + m.log2 + 1) - 2 ^ (e + m.log2 - 52) := by
  have hm : (m : ℚ) ≤ 2 ^ (m.log2 + 1) - 1 := by
    have : m + 1 ≤ 2 ^ (m.log2 + 1) := Nat.lt_log2_self
    rw [le_sub_iff_add_le]
    exact_mod_cast this
  have hpow : (2 ^ (m.log2 + 1) * 2 ^ e : ℚ) = 2 ^ (e + m.log2 + 1) := by
    rw [← zpow_natCast, ← zpow_add₀ two_ne_zero]
    congr 1
    push_cast
    ring
  calc (m * 2 ^ e : ℚ) ≤ (2 ^ (m.log2 + 1) - 1) * 2 ^ e := by gcongr
    _ = 2 ^ (e + m.log2 + 1) - 2 ^ e := by rw [sub_mul, hpow, one_mul]
    _ ≤ 2 ^ (e + m.log2 + 1) - 2 ^ (e + m.log2 - 52) := by linarith [h.unit_le]

/-- What lies near a number of the format is below the next power of two as well. -/
lemma lt_of_near {q : ℚ} (hnear : |q - m * 2 ^ e| < 2 ^ (e + m.log2 - 53)) :
    q < 2 ^ (e + m.log2 + 1) := by
  have hunit : (2 : ℚ) ^ (e + m.log2 - 53) ≤ 2 ^ (e + m.log2 - 52) :=
    zpow_le_zpow_right₀ one_le_two (by omega)
  linarith [h.value_le, (abs_lt.1 hnear).2]

end IsNormal

lemma log_eq {q : ℚ} (hq : 0 < q) {k : Int} (hle : (2 : ℚ) ^ k ≤ q) (hlt : q < 2 ^ (k + 1)) :
    Int.log 2 q = k := by
  have h₁ := (Int.zpow_le_iff_le_log one_lt_two hq).1 (by exact_mod_cast hle)
  have h₂ := (Int.lt_zpow_iff_log_lt one_lt_two hq).1 (by exact_mod_cast hlt)
  omega

/-- A ratio near a number of the format, and not below its power of two, is rounded to it. -/
theorem ofRatio_eq_of_near {m : Nat} {e : Int} (hd : 0 < d) (h : IsNormal m e)
    (hle : (2 : ℚ) ^ (e + m.log2) ≤ n / d)
    (hnear : |(n / d : ℚ) - m * 2 ^ e| < 2 ^ (e + m.log2 - 53)) (negative : Bool) :
    ofRatio negative n d = .finite negative m e := by
  have hratio : (0 : ℚ) < n / d := (by positivity : (0 : ℚ) < 2 ^ (e + m.log2)).trans_le hle
  have hn : 0 < n := by
    rcases Nat.eq_zero_or_pos n with rfl | hn
    · simp at hratio
    · exact hn
  have hlog : floorLog2 n d = e + m.log2 := by
    rw [floorLog2_eq_log hn hd, log_eq hratio hle (h.lt_of_near hnear)]
  set unit : Int := max (floorLog2 n d - (precision - 1 : Nat)) leastExponent with hunit
  have hlow := h.le
  have hbits := h.log2_le
  obtain ⟨j, hj⟩ : ∃ j : Nat, e = unit + j := Int.exists_add_of_le (by omega)
  have hround : roundUnits n d unit = m * 2 ^ j := by
    apply roundUnits_eq hd
    have hpos : (0 : ℚ) < 2 ^ unit := by positivity
    have hvalue : (m * 2 ^ e : ℚ) = m * 2 ^ j * 2 ^ unit := by
      rw [hj, zpow_add₀ two_ne_zero, zpow_natCast]
      ring
    have hdist : (n / d / 2 ^ unit : ℚ) - (m * 2 ^ j : Nat) = (n / d - m * 2 ^ e) / 2 ^ unit := by
      rw [hvalue, sub_div, mul_div_cancel_right₀ _ hpos.ne']
      push_cast
      rfl
    rw [hdist, abs_div, abs_of_pos hpos, div_lt_iff₀ hpos]
    calc |(n / d : ℚ) - m * 2 ^ e| < 2 ^ (e + m.log2 - 53) := hnear
      _ ≤ 2 ^ (unit - 1) := by
        rw [precision] at hunit
        exact zpow_le_zpow_right₀ one_le_two (by omega)
      _ = 1 / 2 * 2 ^ unit := by
        rw [zpow_sub₀ two_ne_zero, zpow_one]
        ring
  have hm := h.pos
  have hlog2 : (m * 2 ^ j).log2 = m.log2 + j := by
    rw [Nat.log2_eq_iff (by positivity), pow_add, add_right_comm, pow_add]
    exact ⟨Nat.mul_le_mul_right _ (Nat.log2_self_le hm.ne'),
      Nat.mul_lt_mul_of_pos_right Nat.lt_log2_self (by positivity)⟩
  rw [ofRatio_eq_roundUnits hn negative hunit hround.symm, if_neg (by positivity), if_neg,
    ofDyadic_mul_two_pow h.odd, hj]
  have := h.range
  rw [hlog2]
  push_cast
  omega

/-- Rounding depends on the ratio only. -/
theorem ofRatio_congr (hd : 0 < d) (hd' : 0 < d') (hratio : (n / d : ℚ) = n' / d') (negative : Bool) :
    ofRatio negative n d = ofRatio negative n' d' := by
  have h : n * d' = n' * d := by
    rw [div_eq_div_iff (by positivity) (by positivity)] at hratio
    exact_mod_cast hratio
  rcases Nat.eq_zero_or_pos n with rfl | hn
  · obtain rfl : n' = 0 := by simpa [hd.ne'] using h.symm
    simp [ofRatio]
  have hn' : 0 < n' := by
    rcases Nat.eq_zero_or_pos n' with rfl | hn'
    · rw [zero_mul] at h
      exact absurd h (by positivity)
    · exact hn'
  have hlog : floorLog2 n d = floorLog2 n' d' := by
    rw [floorLog2_eq_log hn hd, floorLog2_eq_log hn' hd', hratio]
  have hround (e : Int) : roundUnits n d e = roundUnits n' d' e := by
    unfold roundUnits
    split
    · exact roundHalfEven_eq_of_mul_eq (by positivity) (by positivity) (by
        rw [← mul_assoc, h, mul_assoc])
    · exact roundHalfEven_eq_of_mul_eq hd hd' (by
        rw [mul_right_comm, h, mul_right_comm])
  rw [ofRatio_eq_roundUnits hn negative rfl rfl, ofRatio_eq_roundUnits hn' negative rfl rfl, hlog,
    hround]

end ApiSchema.Double
