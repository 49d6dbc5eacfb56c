import ApiSchema.Proofs.Meaning.Basis
import ApiSchema.Proofs.Outcome
import ApiSchema.Proofs.Validator.Parts

/-!
# Bounds of integers

Normalised bounds admit the same integers as the bounds they come from.
-/

namespace ApiSchema

open List Except Option

namespace Number

variable {n b : Number} {i c : Int}

variable {p q : Rat} {a : Number} {x : Double}

lemma le_iff_of_value {b : Number} (ha : a.value = .rat p) (hb : b.value = .rat q) :
    a.le b ↔ p ≤ q := by
  simp [le, lt, ha, hb, ExtRat.lt]

lemma lt_iff_of_value {b : Number} (ha : a.value = .rat p) (hb : b.value = .rat q) :
    a.lt b ↔ p < q := by
  simp [lt, ha, hb, ExtRat.lt]

lemma value_int (j : Int) : (int j).value = .rat j := rfl

lemma value_float (h : x.toRat? = some q) : (float x).value = .rat q := by
  simp [value, Double.value, h]

/-! ### Rounding -/

/-- A number that can be rounded up is finite. -/
lemma exists_of_ceil? (h : b.ceil? = some c) : ∃ q : Rat, b.value = .rat q ∧ q.ceil = c := by
  cases b with
  | int j =>
    simp only [ceil?, Option.some.injEq] at h
    exact ⟨j, rfl, by rw [Rat.ceil_intCast, h]⟩
  | float x =>
    obtain ⟨q, hq, hc⟩ := map_eq_some_iff.1 h
    exact ⟨q, value_float hq, hc⟩

lemma exists_of_floor? (h : b.floor? = some c) : ∃ q : Rat, b.value = .rat q ∧ q.floor = c := by
  cases b with
  | int j =>
    simp only [floor?, Option.some.injEq] at h
    exact ⟨j, rfl, by rw [Rat.floor_intCast, h]⟩
  | float x =>
    obtain ⟨q, hq, hc⟩ := map_eq_some_iff.1 h
    exact ⟨q, value_float hq, hc⟩

/-- A number that is no infinity. -/
def IsFinite (b : Number) : Prop :=
  ∃ q : Rat, b.value = .rat q

lemma isFinite_of_ceil? (h : b.ceil? = some c) : b.IsFinite :=
  (exists_of_ceil? h).imp fun _ => And.left

lemma isFinite_of_floor? (h : b.floor? = some c) : b.IsFinite :=
  (exists_of_floor? h).imp fun _ => And.left

lemma le_iff_of_ceil? (hc : b.ceil? = some c) (hn : n.value = .rat i) : b.le n ↔ c ≤ i := by
  obtain ⟨q, hq, rfl⟩ := exists_of_ceil? hc
  rw [le_iff_of_value hq hn, Rat.ceil_le_iff]

lemma le_iff_of_floor? (hc : b.floor? = some c) (hn : n.value = .rat i) : n.le b ↔ i ≤ c := by
  obtain ⟨q, hq, rfl⟩ := exists_of_floor? hc
  rw [le_iff_of_value hn hq, Rat.le_floor_iff]

/-! ### Integers among numbers -/

lemma value_of_isInteger (h : x.isInteger) (hc : x.truncate? = some c) :
    (float x).value = .rat c := by
  obtain ⟨q, hq, hcut⟩ := map_eq_some_iff.1 hc
  have hden : q.den = 1 := by simpa [Double.isInteger, hq] using h
  rw [value_float hq, ← hcut, hden]
  simp [Rat.den_eq_one_iff q |>.1 hden]

lemma value_of_asInteger? (h : b.asInteger? = .ok (some c)) : b.value = .rat c := by
  cases b with
  | int j =>
    simp only [asInteger?] at h
    split at h
    · cases h
      rfl
    · cases h
  | float x =>
    simp only [asInteger?, Except.ok.injEq] at h
    split at h
    next hx => exact value_of_isInteger hx h
    next => cases h

/-- A number that is found not to be an integer is none. -/
lemma value_ne_of_asInteger? (h : b.asInteger? = .ok none) : b.value ≠ .rat i := by
  intro hi
  cases b with
  | int j =>
    simp only [asInteger?] at h
    split at h <;> cases h
  | float x =>
    cases hq : x.toRat? with
    | none =>
      simp only [value, Double.value, hq] at hi
      split at hi <;> cases hi
    | some q =>
      rw [value_float hq, ExtRat.rat.injEq] at hi
      simp [asInteger?, Double.isInteger, Double.truncate?, hq, hi] at h

/-- Beyond a number that is no integer, exclusive and inclusive bounds agree. -/
lemma lt_iff_le_of_asInteger? (h : b.asInteger? = .ok none) (hn : n.value = .rat i)
    (hq : b.value = .rat q) : (b.lt n ↔ b.le n) ∧ (n.lt b ↔ n.le b) := by
  have hne : q ≠ i := fun hqi => value_ne_of_asInteger? h (hqi ▸ hq)
  rw [lt_iff_of_value hq hn, le_iff_of_value hq hn, lt_iff_of_value hn hq, le_iff_of_value hn hq]
  exact ⟨⟨le_of_lt, fun hle => lt_of_le_of_ne hle hne⟩,
    ⟨le_of_lt, fun hle => lt_of_le_of_ne hle hne.symm⟩⟩

end Number

namespace NumberRules

variable {n : Number} {i : Int}

variable {a b lower upper edge : Option Int} {bound : Option Number} {round? : Number → Option Int}
  {rules normal : NumberRules}

lemma ok_of_orOverflow {o : Option Int} {c : Int} (h : orOverflow o = .ok c) : o = some c := by
  cases o with
  | none => cases h
  | some j =>
    cases h
    rfl

/-! ### Single bounds -/

lemma forall_mem_sharperLower :
    (∀ c ∈ sharperLower a b, c ≤ i) ↔ (∀ c ∈ a, c ≤ i) ∧ ∀ c ∈ b, c ≤ i := by
  cases a <;> cases b <;> simp [sharperLower]

lemma forall_mem_sharperUpper :
    (∀ c ∈ sharperUpper a b, i ≤ c) ↔ (∀ c ∈ a, i ≤ c) ∧ ∀ c ∈ b, i ≤ c := by
  cases a <;> cases b <;> simp [sharperUpper]

lemma forall_mem_inclusive_ceil (h : inclusive Number.ceil? bound = .ok lower)
    (hn : n.value = .rat i) : (∀ c ∈ lower, c ≤ i) ↔ ∀ b ∈ bound, b.le n := by
  cases bound with
  | none =>
    cases h
    simp
  | some b =>
    obtain ⟨c, hc, rfl⟩ := map_eq_ok_iff.1 h
    simp [Number.le_iff_of_ceil? (ok_of_orOverflow hc) hn]

lemma forall_mem_inclusive_floor (h : inclusive Number.floor? bound = .ok upper)
    (hn : n.value = .rat i) : (∀ c ∈ upper, i ≤ c) ↔ ∀ b ∈ bound, n.le b := by
  cases bound with
  | none =>
    cases h
    simp
  | some b =>
    obtain ⟨c, hc, rfl⟩ := map_eq_ok_iff.1 h
    simp [Number.le_iff_of_floor? (ok_of_orOverflow hc) hn]

/-- An exclusive bound is an integer and stays exclusive, or it is none and is rounded. -/
lemma exclusive_some {b : Number} {open' : Option Int}
    (h : exclusive round? (some b) = .ok (edge, open')) :
    (∃ c : Int, b.value = .rat c ∧ edge = none ∧ open' = some c) ∨
      ∃ c, b.asInteger? = .ok none ∧ round? b = some c ∧ edge = some c ∧ open' = none := by
  obtain ⟨found, hfound, h⟩ := bind_eq_ok_iff.1 h
  cases found with
  | some c =>
    cases h
    exact .inl ⟨c, Number.value_of_asInteger? hfound, rfl, rfl⟩
  | none =>
    obtain ⟨c, hc, h⟩ := bind_eq_ok_iff.1 h
    cases h
    exact .inr ⟨c, hfound, ok_of_orOverflow hc, rfl, rfl⟩

lemma forall_mem_exclusive_ceil {above : Option Int}
    (h : exclusive Number.ceil? bound = .ok (lower, above)) (hn : n.value = .rat i) :
    ((∀ c ∈ lower, c ≤ i) ∧ ∀ c ∈ above, c < i) ↔ ∀ b ∈ bound, b.lt n := by
  cases bound with
  | none =>
    cases h
    simp
  | some b =>
    obtain ⟨c, hb, rfl, rfl⟩ | ⟨c, hb, hc, rfl, rfl⟩ := exclusive_some h
    · simp [Number.lt_iff_of_value hb hn]
    · obtain ⟨q, hq, -⟩ := Number.exists_of_ceil? hc
      simp [Number.lt_iff_le_of_asInteger? hb hn hq, Number.le_iff_of_ceil? hc hn]

lemma forall_mem_exclusive_floor {below : Option Int}
    (h : exclusive Number.floor? bound = .ok (upper, below)) (hn : n.value = .rat i) :
    ((∀ c ∈ upper, i ≤ c) ∧ ∀ c ∈ below, i < c) ↔ ∀ b ∈ bound, n.lt b := by
  cases bound with
  | none =>
    cases h
    simp
  | some b =>
    obtain ⟨c, hb, rfl, rfl⟩ | ⟨c, hb, hc, rfl, rfl⟩ := exclusive_some h
    · simp [Number.lt_iff_of_value hn hb]
    · obtain ⟨q, hq, -⟩ := Number.exists_of_floor? hc
      simp [Number.lt_iff_le_of_asInteger? hb hn hq, Number.le_iff_of_floor? hc hn]

/-! ### All bounds -/

/-- The step of normalised bounds has the value of the step it comes from. -/
lemma forall_mem_wholeStep :
    (∀ step ∈ bound.map fun step : Number =>
      match step with
      | .int i => .int i
      | .float x =>
        match if x.isInteger then x.truncate? else none with
        | some i => .int i
        | none => .float x, n.IsMultipleOf step) ↔ ∀ step ∈ bound, n.IsMultipleOf step := by
  rcases bound with _ | ⟨j⟩ | ⟨x⟩
  · simp
  · simp
  · simp only [map_some, Option.mem_def, Option.some.injEq, forall_eq']
    split
    next c hc =>
      split at hc
      next hx =>
        unfold Number.IsMultipleOf
        rw [Number.value_of_isInteger hx hc]
        rfl
      next => cases hc
    next => rfl

/-- A number lies within the bounds, whatever the step. -/
structure Admits (rules : NumberRules) (n : Number) : Prop where
  minimum : ∀ b ∈ rules.minimum, b.le n
  maximum : ∀ b ∈ rules.maximum, n.le b
  exclusiveMinimum : ∀ b ∈ rules.exclusiveMinimum, b.lt n
  exclusiveMaximum : ∀ b ∈ rules.exclusiveMaximum, n.lt b

lemma holds_iff_admits :
    rules.Holds n ↔ rules.Admits n ∧ ∀ step ∈ rules.multipleOf, n.IsMultipleOf step :=
  ⟨fun ⟨h₁, h₂, h₃, h₄, h₅⟩ => ⟨⟨h₁, h₂, h₃, h₄⟩, h₅⟩,
    fun ⟨⟨h₁, h₂, h₃, h₄⟩, h₅⟩ => ⟨h₁, h₂, h₃, h₄, h₅⟩⟩

/-- Normalised bounds have the same integers within them. -/
theorem admits_iff_of_ofInteger (h : rules.ofInteger = .ok normal) (hn : n.value = .rat i) :
    normal.Admits n ↔ rules.Admits n := by
  obtain ⟨lower, hlower, h⟩ := bind_eq_ok_iff.1 h
  obtain ⟨upper, hupper, h⟩ := bind_eq_ok_iff.1 h
  obtain ⟨⟨lower', above⟩, habove, h⟩ := bind_eq_ok_iff.1 h
  obtain ⟨⟨upper', below⟩, hbelow, h⟩ := bind_eq_ok_iff.1 h
  cases h
  have hmin := forall_mem_inclusive_ceil hlower hn
  have hmax := forall_mem_inclusive_floor hupper hn
  have hxmin := forall_mem_exclusive_ceil habove hn
  have hxmax := forall_mem_exclusive_floor hbelow hn
  have hle (o : Option Int) : (∀ b ∈ o.map Number.int, b.le n) ↔ ∀ c ∈ o, c ≤ i := by
    simp [Number.le_iff_of_value (Number.value_int _) hn]
  have hge (o : Option Int) : (∀ b ∈ o.map Number.int, n.le b) ↔ ∀ c ∈ o, i ≤ c := by
    simp [Number.le_iff_of_value hn (Number.value_int _)]
  have hlt (o : Option Int) : (∀ b ∈ o.map Number.int, b.lt n) ↔ ∀ c ∈ o, c < i := by
    simp [Number.lt_iff_of_value (Number.value_int _) hn]
  have hgt (o : Option Int) : (∀ b ∈ o.map Number.int, n.lt b) ↔ ∀ c ∈ o, i < c := by
    simp [Number.lt_iff_of_value hn (Number.value_int _)]
  constructor
  · rintro ⟨h₁, h₂, h₃, h₄⟩
    obtain ⟨hl, hl'⟩ := forall_mem_sharperLower.1 ((hle _).1 h₁)
    obtain ⟨hu, hu'⟩ := forall_mem_sharperUpper.1 ((hge _).1 h₂)
    exact ⟨hmin.1 hl, hmax.1 hu, hxmin.1 ⟨hl', (hlt _).1 h₃⟩, hxmax.1 ⟨hu', (hgt _).1 h₄⟩⟩
  · rintro ⟨h₁, h₂, h₃, h₄⟩
    obtain ⟨hl', ha⟩ := hxmin.2 h₃
    obtain ⟨hu', hb⟩ := hxmax.2 h₄
    exact ⟨(hle _).2 (forall_mem_sharperLower.2 ⟨hmin.2 h₁, hl'⟩),
      (hge _).2 (forall_mem_sharperUpper.2 ⟨hmax.2 h₂, hu'⟩), (hlt _).2 ha, (hgt _).2 hb⟩

lemma multipleOf_of_ofInteger (h : rules.ofInteger = .ok normal) :
    (∀ step ∈ normal.multipleOf, n.IsMultipleOf step) ↔
      ∀ step ∈ rules.multipleOf, n.IsMultipleOf step := by
  obtain ⟨lower, -, h⟩ := bind_eq_ok_iff.1 h
  obtain ⟨upper, -, h⟩ := bind_eq_ok_iff.1 h
  obtain ⟨⟨lower', above⟩, -, h⟩ := bind_eq_ok_iff.1 h
  obtain ⟨⟨upper', below⟩, -, h⟩ := bind_eq_ok_iff.1 h
  cases h
  exact forall_mem_wholeStep

/-- Normalised bounds admit the same integers. -/
theorem holds_iff_of_ofInteger (h : rules.ofInteger = .ok normal) (hn : n.value = .rat i) :
    normal.Holds n ↔ rules.Holds n := by
  rw [holds_iff_admits, holds_iff_admits, admits_iff_of_ofInteger h hn, multipleOf_of_ofInteger h]

/-! ### Finite bounds -/

lemma isFinite_of_inclusive (hround : ∀ {b c}, round? b = some c → b.IsFinite)
    (h : inclusive round? bound = .ok edge) : ∀ b ∈ bound, b.IsFinite := by
  rintro b rfl
  obtain ⟨c, hc, -⟩ := map_eq_ok_iff.1 h
  exact hround (ok_of_orOverflow hc)

lemma isFinite_of_exclusive {edges : Option Int × Option Int}
    (hround : ∀ {b c}, round? b = some c → b.IsFinite) (h : exclusive round? bound = .ok edges) :
    ∀ b ∈ bound, b.IsFinite := by
  rintro b rfl
  obtain ⟨c, hb, -⟩ | ⟨c, -, hc, -⟩ := exclusive_some h
  · exact ⟨c, hb⟩
  · exact hround hc

/-- Bounds that can be normalised are finite. -/
lemma isFinite_of_ofInteger (h : rules.ofInteger = .ok normal) :
    ((∀ b ∈ rules.minimum, b.IsFinite) ∧ ∀ b ∈ rules.exclusiveMinimum, b.IsFinite) ∧
      (∀ b ∈ rules.maximum, b.IsFinite) ∧ ∀ b ∈ rules.exclusiveMaximum, b.IsFinite := by
  obtain ⟨lower, hlower, h⟩ := bind_eq_ok_iff.1 h
  obtain ⟨upper, hupper, h⟩ := bind_eq_ok_iff.1 h
  obtain ⟨above, habove, h⟩ := bind_eq_ok_iff.1 h
  obtain ⟨below, hbelow, -⟩ := bind_eq_ok_iff.1 h
  exact ⟨⟨isFinite_of_inclusive Number.isFinite_of_ceil? hlower,
      isFinite_of_exclusive Number.isFinite_of_ceil? habove⟩,
    isFinite_of_inclusive Number.isFinite_of_floor? hupper,
    isFinite_of_exclusive Number.isFinite_of_floor? hbelow⟩

/-- Normalised bounds have no floating-point number that the bounds they come from do not have. -/
lemma floats_subset_of_ofInteger (h : rules.ofInteger = .ok normal) :
    normal.floats ⊆ rules.floats := by
  obtain ⟨lower, -, h⟩ := bind_eq_ok_iff.1 h
  obtain ⟨upper, -, h⟩ := bind_eq_ok_iff.1 h
  obtain ⟨⟨lower', above⟩, -, h⟩ := bind_eq_ok_iff.1 h
  obtain ⟨⟨upper', below⟩, -, h⟩ := bind_eq_ok_iff.1 h
  cases h
  intro x hx
  obtain ⟨n, hn, hx⟩ := mem_flatMap.1 hx
  cases n with
  | int i => cases hx
  | float y =>
    refine mem_flatMap.2 ⟨.float y, ?_, hx⟩
    have hwhole (o : Option Int) : Number.float y ∉ (o.map Number.int).toList := by
      cases o <;> simp
    -- Of all bounds only a step may still be a floating-point number.
    simp only [mem_append, hwhole, false_or] at hn
    obtain ⟨step, hstep, heq⟩ := map_eq_some_iff.1 (mem_toList.1 hn)
    refine mem_append_right _ (mem_toList.2 ?_)
    cases step with
    | int i => cases heq
    | float z =>
      dsimp only at heq
      split at heq
      · cases heq
      · cases heq
        exact hstep

end NumberRules

end ApiSchema
