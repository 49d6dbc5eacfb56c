import ApiSchema.Number.Decimal
import ApiSchema.Proofs.Number.Rounding

/-!
# Shortest decimals

Reading a decimal depends on its value only. Main statement: the shortest decimal of a number of the
format reads back as that number, since one of seventeen digits does.
-/

namespace ApiSchema.Double

variable {n digits d m : Nat} {exponent e : Int}

/-! ### Values of decimals -/

/-- The value of a decimal. -/
def Decimal.value (x : Decimal) : ℚ :=
  x.digits * 10 ^ x.exponent

lemma lt_pow_digitCount (n : Nat) : n < 10 ^ digitCount n :=
  (Nat.length_toDigits_le_iff (by norm_num) Nat.length_toDigits_pos).1 le_rfl

lemma pow_digitCount_le (hn : 0 < n) : 10 ^ (digitCount n - 1) ≤ n := by
  have hpos : 0 < digitCount n := Nat.length_toDigits_pos
  rcases Nat.eq_zero_or_pos (digitCount n - 1) with h | h
  · rw [h]
    exact hn
  · by_contra hlt
    have := (Nat.length_toDigits_le_iff (by norm_num) h).2 (not_le.1 hlt)
    rw [digitCount] at *
    omega

lemma log_value (h : 0 < digits) (exponent : Int) :
    Int.log 10 (digits * 10 ^ exponent : ℚ) + 1 = exponent + digitCount digits := by
  have hvalue : (0 : ℚ) < digits * 10 ^ exponent := by positivity
  have hpos : 0 < digitCount digits := Nat.length_toDigits_pos
  have hlow : ((10 : Nat) : ℚ) ^ (exponent + (digitCount digits - 1 : Nat)) ≤
      digits * 10 ^ exponent := by
    have : (10 : ℚ) ^ (digitCount digits - 1) ≤ digits := by exact_mod_cast pow_digitCount_le h
    rw [Nat.cast_ofNat, zpow_add₀ (by norm_num), zpow_natCast, mul_comm]
    gcongr
  have hhigh : (digits * 10 ^ exponent : ℚ) <
      ((10 : Nat) : ℚ) ^ (exponent + digitCount digits) := by
    have : (digits : ℚ) < 10 ^ digitCount digits := by exact_mod_cast lt_pow_digitCount digits
    rw [Nat.cast_ofNat, zpow_add₀ (by norm_num), zpow_natCast, mul_comm]
    gcongr
  have h₁ := (Int.zpow_le_iff_le_log (by norm_num) hvalue).1 hlow
  have h₂ := (Int.lt_zpow_iff_log_lt (by norm_num) hvalue).1 hhigh
  omega

/-- A decimal within range is read as the ratio of its value. -/
lemma ofDecimal_eq_ofRatio (h : 0 < digits) (hd : 0 < d)
    (hvalue : (n / d : ℚ) = digits * 10 ^ exponent)
    (hrange : |Int.log 10 (digits * 10 ^ exponent : ℚ) + 1| ≤ 400) (negative : Bool) :
    ofDecimal negative digits exponent = ofRatio negative n d := by
  rw [log_value h, abs_le] at hrange
  rw [ofDecimal, if_neg h.ne', if_neg (by omega), if_neg (by omega)]
  simp only [Nat.pow_eq]
  split
  next he =>
    obtain ⟨j, rfl⟩ := Int.eq_ofNat_of_zero_le he
    refine ofRatio_congr one_pos hd ?_ negative
    rw [hvalue, zpow_natCast, Int.toNat_natCast]
    push_cast
    ring
  next he =>
    obtain ⟨j, rfl⟩ := Int.exists_eq_neg_ofNat (le_of_not_ge he)
    refine ofRatio_congr (by positivity) hd ?_ negative
    rw [hvalue, zpow_neg, zpow_natCast, neg_neg, Int.toNat_natCast]
    push_cast
    rfl

lemma exists_ratio {q : ℚ} (hq : 0 < q) : ∃ n d : Nat, 0 < d ∧ (n / d : ℚ) = q :=
  ⟨q.num.natAbs, q.den, q.den_pos, by
    rw [Nat.cast_natAbs, abs_of_nonneg (Rat.num_nonneg.2 hq.le), Rat.num_div_den]⟩

/-- Reading depends on the value only. -/
lemma ofDecimal_congr {digits' : Nat} {exponent' : Int} (h : 0 < digits) (h' : 0 < digits')
    (hvalue : (digits * 10 ^ exponent : ℚ) = digits' * 10 ^ exponent') (negative : Bool) :
    ofDecimal negative digits exponent = ofDecimal negative digits' exponent' := by
  set q : ℚ := digits' * 10 ^ exponent' with hq
  have hpos : 0 < q := by positivity
  by_cases hrange : |Int.log 10 q + 1| ≤ 400
  · obtain ⟨n, d, hd, hratio⟩ := exists_ratio hpos
    rw [ofDecimal_eq_ofRatio h hd (hratio.trans hvalue.symm) (by rwa [hvalue]),
      ofDecimal_eq_ofRatio h' hd hratio (by rwa [← hq])]
  · have htop := log_value h exponent
    have htop' := log_value h' exponent'
    rw [hvalue] at htop
    rw [← hq] at htop'
    rw [abs_le] at hrange
    rw [ofDecimal, ofDecimal, if_neg h.ne', if_neg h'.ne', ← htop, ← htop']
    by_cases hlarge : 400 < Int.log 10 q + 1
    · rw [if_pos hlarge, if_pos hlarge]
    · rw [if_neg hlarge, if_neg hlarge, if_pos (by omega), if_pos (by omega)]

/-! ### The power of ten below a ratio -/

lemma zpow_floorLog10_le (hn : 0 < n) (hd : 0 < d) : (10 : ℚ) ^ floorLog10 n d ≤ n / d := by
  rw [floorLog10, le_div_iff₀ (by exact_mod_cast hd)]
  split
  next h =>
    have hpos : 0 < digitCount (n / d) := Nat.length_toDigits_pos
    have hexponent : (digitCount (n / d) - 1 : Int) = (digitCount (n / d) - 1 : Nat) := by omega
    have hle : 10 ^ (digitCount (n / d) - 1) * d ≤ n :=
      (Nat.mul_le_mul_right d (pow_digitCount_le (Nat.div_pos h hd))).trans (Nat.div_mul_le_self n d)
    rw [hexponent, zpow_natCast]
    exact_mod_cast hle
  next h =>
    have hlt : d - 1 < 10 ^ digitCount ((d - 1) / n) * n :=
      (Nat.div_lt_iff_lt_mul hn).1 (lt_pow_digitCount _)
    have hle : d ≤ 10 ^ digitCount ((d - 1) / n) * n := by omega
    rw [zpow_neg, zpow_natCast, inv_mul_le_iff₀ (by positivity)]
    exact_mod_cast hle

/-! ### Decimals near a number -/

lemma ofDecimal_eq_of_near (h : IsNormal m e) {x : Decimal} (hle : (2 : ℚ) ^ (e + m.log2) ≤ x.value)
    (hnear : |x.value - m * 2 ^ e| < 2 ^ (e + m.log2 - 53)) (negative : Bool) :
    ofDecimal negative x.digits x.exponent = .finite negative m e := by
  have hpos : 0 < x.value := (by positivity : (0 : ℚ) < 2 ^ (e + m.log2)).trans_le hle
  have hdigits : 0 < x.digits := by
    rcases Nat.eq_zero_or_pos x.digits with hzero | hdigits
    · simp [Decimal.value, hzero] at hpos
    · exact hdigits
  obtain ⟨n, d, hd, hratio⟩ := exists_ratio hpos
  have hrange : |Int.log 10 x.value + 1| ≤ 400 := by
    have hlow : ((10 : Nat) : ℚ) ^ (-401 : Int) ≤ x.value := by
      have hexponent := h.le
      rw [leastExponent] at hexponent
      have hpow : (2 : ℚ) ^ 1074 ≤ 10 ^ 401 := by
        exact_mod_cast (by decide +kernel : 2 ^ 1074 ≤ 10 ^ 401)
      calc ((10 : Nat) : ℚ) ^ (-401 : Int) ≤ 2 ^ (-1074 : Int) := inv_anti₀ (by positivity) hpow
        _ ≤ 2 ^ (e + m.log2) := zpow_le_zpow_right₀ one_le_two (by omega)
        _ ≤ x.value := hle
    have hhigh : x.value < ((10 : Nat) : ℚ) ^ (399 + 1 : Int) := by
      have hexponent := h.range
      rw [overflowExponent] at hexponent
      have hpow : (2 : ℚ) ^ 1024 ≤ 10 ^ 400 := by
        exact_mod_cast (by decide +kernel : 2 ^ 1024 ≤ 10 ^ 400)
      calc x.value < 2 ^ (e + m.log2 + 1) := h.lt_of_near hnear
        _ ≤ 2 ^ (1024 : Int) := zpow_le_zpow_right₀ one_le_two (by omega)
        _ ≤ ((10 : Nat) : ℚ) ^ (399 + 1 : Int) := hpow
    have h₁ := (Int.zpow_le_iff_le_log (by norm_num) hpos).1 hlow
    have h₂ := (Int.lt_zpow_iff_log_lt (by norm_num) hpos).1 hhigh
    rw [abs_le]
    omega
  rw [ofDecimal_eq_ofRatio hdigits hd hratio hrange]
  rw [← hratio] at hle hnear
  exact ofRatio_eq_of_near hd h hle hnear negative

lemma neighbours_fst (n d count : Nat) :
    (neighbours n d count).1 =
      ⟨⌊(n / d / 10 ^ (floorLog10 n d - (count - 1 : Nat)) : ℚ)⌋₊,
        floorLog10 n d - (count - 1 : Nat)⟩ := by
  have hratio := div_div_zpow (b := 10) (by norm_num) n d (floorLog10 n d - (count - 1 : Nat))
  rw [Nat.cast_ofNat] at hratio
  simp only [neighbours, Nat.pow_eq, Decimal.mk.injEq, and_true]
  rw [hratio]
  split
  · rw [Nat.floor_div_eq_div]
  · rw [Nat.floor_div_eq_div]

/-- The neighbours stand on both sides of the ratio, a unit apart. -/
lemma value_neighbours (n d count : Nat) :
    (neighbours n d count).1.value ≤ n / d ∧ (n / d : ℚ) < (neighbours n d count).2.value ∧
      (neighbours n d count).2.value = (neighbours n d count).1.value +
        10 ^ (floorLog10 n d - (count - 1 : Nat)) := by
  have hsnd : (neighbours n d count).2 =
      ⟨(neighbours n d count).1.digits + 1, (neighbours n d count).1.exponent⟩ := rfl
  rw [hsnd, neighbours_fst]
  set unit : ℚ := 10 ^ (floorLog10 n d - (count - 1 : Nat)) with hunit
  have hpos : 0 < unit := by positivity
  simp only [Decimal.value, ← hunit]
  refine ⟨?_, ?_, ?_⟩
  · rw [← le_div_iff₀ hpos]
    exact Nat.floor_le (by positivity)
  · rw [← div_lt_iff₀ hpos]
    exact_mod_cast Nat.lt_floor_add_one _
  · push_cast
    ring

/-- One of the decimals with seventeen digits is near enough. -/
lemma exists_near_neighbour (hn : 0 < n) (hd : 0 < d) (h : IsNormal m e)
    (hratio : (n / d : ℚ) = m * 2 ^ e) :
    ∃ x, (x = (neighbours n d 17).1 ∨ x = (neighbours n d 17).2) ∧
      (2 : ℚ) ^ (e + m.log2) ≤ x.value ∧ |x.value - m * 2 ^ e| < 2 ^ (e + m.log2 - 53) := by
  obtain ⟨hlow, hhigh, hstep⟩ := value_neighbours n d 17
  have hlt : (n / d : ℚ) < 2 ^ (e + m.log2 + 1) := by
    rw [hratio]
    apply h.lt_of_near
    rw [sub_self, abs_zero]
    positivity
  have hlog := log_eq (by positivity) (hratio ▸ h.le_value) hlt
  have hleast := h.le
  have hgreatest := h.range
  rw [leastExponent] at hleast
  rw [overflowExponent] at hgreatest
  have hten := zpow_floorLog10_le hn hd
  set p : ℚ := 2 ^ (e + m.log2) with hp
  set unit : ℚ := 10 ^ (floorLog10 n d - (17 - 1 : Nat)) with hunit
  have hpos : 0 < p := by positivity
  have hunit' : unit * 10 ^ 16 ≤ n / d := by
    rw [hunit, zpow_sub₀ (by norm_num)]
    simpa using hten
  have hp₁ : (2 : ℚ) ^ (e + m.log2 + 1) = 2 * p := by
    rw [hp, zpow_add₀ two_ne_zero, zpow_one, mul_comm]
  have hp₅₂ : (2 : ℚ) ^ (e + m.log2 - 52) = p / 2 ^ 52 := by
    rw [hp, zpow_sub₀ two_ne_zero]
    rfl
  have hp₅₃ : (2 : ℚ) ^ (e + m.log2 - 53) = p / 2 ^ 53 := by
    rw [hp, zpow_sub₀ two_ne_zero]
    rfl
  rw [hp₁] at hlt
  rw [hp₅₃, ← hratio]
  by_cases hm : m = 1
  · -- Below a power of two the format is denser, so here the upper neighbour is the one to take.
    have hone : (n / d : ℚ) = p := by
      have : Nat.log2 1 = 0 := by decide
      rw [hratio, hp, hm, this]
      simp
    refine ⟨_, .inr rfl, by linarith, ?_⟩
    rw [abs_of_pos (by linarith), lt_div_iff₀ (by positivity)]
    linarith
  · have hge : p + p / 2 ^ 52 ≤ n / d := by
      rw [← hp₅₂, hratio]
      exact h.add_le_value hm
    by_cases hmid : (n / d : ℚ) - (neighbours n d 17).1.value ≤ unit / 2
    · refine ⟨_, .inl rfl, by linarith, ?_⟩
      rw [abs_sub_comm, abs_of_nonneg (by linarith)]
      linarith
    · refine ⟨_, .inr rfl, by linarith, ?_⟩
      rw [abs_of_pos (by linarith)]
      linarith

/-! ### The shortest decimal -/

lemma reads_shortestFrom {x : Double} {steps count : Nat}
    (h : ∃ k < steps, ∃ y, (y = (neighbours n d (count + k)).1 ∨
      y = (neighbours n d (count + k)).2) ∧ ofDecimal false y.digits y.exponent = x) :
    ofDecimal false (shortestFrom x n d steps count).digits
      (shortestFrom x n d steps count).exponent = x := by
  induction steps generalizing count with
  | zero =>
    obtain ⟨k, hk, -⟩ := h
    omega
  | succ steps ih =>
    simp only [shortestFrom]
    split
    next hlow =>
      simp only [Bool.and_eq_true, decide_eq_true_eq] at hlow
      exact hlow.1
    next hlow =>
      split
      next hhigh => exact of_decide_eq_true hhigh
      next hhigh =>
        refine ih ?_
        obtain ⟨k, hk, y, hy, hreads⟩ := h
        cases k with
        | zero =>
          rw [add_zero] at hy
          simp only [Bool.and_eq_true, decide_eq_true_eq] at hlow hhigh
          obtain rfl | rfl := hy
          · simp [hreads, hhigh] at hlow
          · exact absurd hreads hhigh
        | succ k =>
          refine ⟨k, by omega, y, ?_, hreads⟩
          rwa [add_assoc, add_comm 1 k]

/-- Every decimal around a positive ratio has a digit other than zero. -/
lemma digits_neighbours_pos (hn : 0 < n) (hd : 0 < d) (count : Nat) :
    0 < (neighbours n d count).1.digits := by
  rw [neighbours_fst]
  refine Nat.floor_pos.2 ((one_le_div (by positivity)).2 ?_)
  calc (10 : ℚ) ^ (floorLog10 n d - (count - 1 : Nat)) ≤ 10 ^ floorLog10 n d :=
        zpow_le_zpow_right₀ (by norm_num) (by omega)
    _ ≤ n / d := zpow_floorLog10_le hn hd

lemma digits_shortestFrom_pos (hn : 0 < n) (hd : 0 < d) (x : Double) (steps count : Nat) :
    0 < (shortestFrom x n d steps count).digits := by
  induction steps generalizing count with
  | zero => exact digits_neighbours_pos hn hd count
  | succ steps ih =>
    simp only [shortestFrom]
    split_ifs
    · exact digits_neighbours_pos hn hd count
    · exact Nat.succ_pos _
    · exact ih (count + 1)

lemma digits_shortest_pos (hm : 0 < m) (e : Int) : 0 < (shortest m e).digits := by
  unfold shortest
  simp only [Nat.pow_eq]
  split
  · exact digits_shortestFrom_pos (by positivity) one_pos _ _ _
  · exact digits_shortestFrom_pos hm (by positivity) _ _ _

theorem ofDecimal_shortest (h : IsNormal m e) :
    ofDecimal false (shortest m e).digits (shortest m e).exponent = .finite false m e := by
  have hm := h.pos
  have hreads {n d : Nat} (hn : 0 < n) (hd : 0 < d) (hratio : (n / d : ℚ) = m * 2 ^ e) :
      ofDecimal false (shortestFrom (.finite false m e) n d 17 1).digits
        (shortestFrom (.finite false m e) n d 17 1).exponent = .finite false m e := by
    apply reads_shortestFrom
    obtain ⟨y, hy, hle, hnear⟩ := exists_near_neighbour hn hd h hratio
    exact ⟨16, by norm_num, y, hy, ofDecimal_eq_of_near h hle hnear false⟩
  unfold shortest
  simp only [Nat.pow_eq]
  split
  next he =>
    refine hreads (by positivity) one_pos ?_
    obtain ⟨j, rfl⟩ := Int.eq_ofNat_of_zero_le he
    rw [zpow_natCast, Int.toNat_natCast]
    push_cast
    ring
  next he =>
    refine hreads hm (by positivity) ?_
    obtain ⟨j, rfl⟩ := Int.exists_eq_neg_ofNat (le_of_not_ge he)
    rw [zpow_neg, zpow_natCast, neg_neg, Int.toNat_natCast]
    push_cast
    rfl

end ApiSchema.Double
