import ApiSchema.Proofs.Meaning.Same
import ApiSchema.Proofs.Value.Names

/-!
# Equality of JSON values

The checks of listed values and of unique items compare values by their keys. Main statement: keys
compare the same for equal JSON values and for no others, so that listed values are accepted, and
repeated items refused, up to equality of JSON values.
-/

namespace ApiSchema

open List

namespace Key

variable {ks ls : List Key} {k : Key}

lemma sameItems_iff : sameItems ks ls ↔ ks.length = ls.length ∧
    ∀ (i : Nat) k l, ks[i]? = some k → ls[i]? = some l → k.same l := by
  induction ks generalizing ls with
  | nil => cases ls <;> simp [sameItems]
  | cons k ks ih =>
    cases ls with
    | nil => simp [sameItems]
    | cons l ls =>
      rw [sameItems, Bool.and_eq_true, ih]
      constructor
      · rintro ⟨hkl, hlength, hitems⟩
        refine ⟨congrArg Nat.succ hlength, fun i => ?_⟩
        cases i with
        | zero => simpa using hkl
        | succ i => exact hitems i
      · rintro ⟨hlength, hitems⟩
        exact ⟨hitems 0 k l rfl rfl, Nat.succ.inj hlength, fun i => hitems (i + 1)⟩

lemma areAmong_iff : areAmong ks ls ↔ ∀ k ∈ ks, ∃ l ∈ ls, k.same l := by
  induction ks with
  | nil => simp [areAmong]
  | cons k ks ih => simp [areAmong, ih]

lemma isAmong_iff : isAmong ks k ↔ ∃ l ∈ ks, l.same k := by
  induction ks with
  | nil => simp [isAmong]
  | cons l ks ih => simp [isAmong, ih]

lemma same_set : (set ks).same (set ls) ↔
    (∀ k ∈ ks, ∃ l ∈ ls, k.same l) ∧ ∀ l ∈ ls, ∃ k ∈ ks, k.same l := by
  rw [same, Bool.and_eq_true, areAmong_iff, all_eq_true]
  simp only [isAmong_iff]

lemma same_tuple (a b c d : Key) :
    (tuple [a, b]).same (tuple [c, d]) = (a.same c && b.same d) := by
  simp [same, sameItems]

lemma same_tagged {tag tag' : String} {a b : Key} :
    (tagged tag a).same (tagged tag' b) = (tag == tag' && a.same b) := by
  rw [tagged, tagged, same_tuple, same, Value.same_str]

lemma areNew_iff : areNew ls ks ↔
    (∀ k ∈ ks, ∀ l ∈ ls, ¬ k.same l) ∧ ks.Pairwise fun k l => ¬ l.same k := by
  induction ks generalizing ls with
  | nil => simp [areNew]
  | cons k ks ih =>
    rw [areNew, Bool.and_eq_true, ih, pairwise_cons, forall_mem_cons]
    by_cases hk : ls.any k.same
    · obtain ⟨l, hl, hkl⟩ := any_eq_true.1 hk
      refine iff_of_false (by simp [hk]) fun h => h.1.1 l hl hkl
    · simp only [any_eq_true, not_exists, not_and] at hk
      simp only [any_eq_true, forall_mem_cons, forall_and, Bool.not_eq_true',
        Bool.eq_false_iff, ne_eq, not_exists, not_and]
      tauto

end Key

namespace Value

variable {v w : Value}

/-- A sequence with these items. -/
def IsArray (v : Value) (items : List Value) : Prop :=
  v = .list items ∨ v = .tuple items

/-- Equality of JSON values: numbers by value, arrays item by item, and objects that have the same
names and equal values under each of them. -/
inductive JsonEq : Value → Value → Prop
  | null : JsonEq .null .null
  | bool (b : Bool) : JsonEq (.bool b) (.bool b)
  | str (s : String) : JsonEq (.str s) (.str s)
  | number {v w : Value} {m n : Number} (hv : v.number? = some m) (hw : w.number? = some n)
    (h : m.value = n.value) : JsonEq v w
  | array {v w : Value} {xs ys : List Value} (hv : v.IsArray xs) (hw : w.IsArray ys)
    (length : xs.length = ys.length)
    (items : ∀ (i : Nat) x y, xs[i]? = some x → ys[i]? = some y → JsonEq x y) : JsonEq v w
  | object {v w : Value} {es fs : List (String × Value)} (hv : v = object es) (hw : w = object fs)
    (names : ∀ name, name ∈ es.map (·.1) ↔ name ∈ fs.map (·.1))
    (values : ∀ name x y, (name, x) ∈ es → (name, y) ∈ fs → JsonEq x y) : JsonEq v w

lemma JsonEq.symm (h : JsonEq v w) : JsonEq w v := by
  induction h with
  | null => exact .null
  | bool b => exact .bool b
  | str s => exact .str s
  | number hv hw h => exact .number hw hv h.symm
  | array hv hw hlength _ ih => exact .array hw hv hlength.symm fun i y x hy hx => ih i x y hx hy
  | object hv hw hnames _ ih =>
    exact .object hw hv (fun name => (hnames name).symm) fun name y x hy hx => ih name x y hx hy

/-! ### Keys of arrays and objects -/

lemma itemKeys_eq (xs : List Value) : itemKeys xs = xs.map key := by
  induction xs with
  | nil => rfl
  | cons x xs ih => rw [itemKeys, ih, map_cons]

lemma key_of_isArray {xs : List Value} (h : v.IsArray xs) :
    v.key = .tagged "array" (.tuple (xs.map key)) := by
  rw [← itemKeys_eq]
  obtain rfl | rfl := h <;> rw [key]

lemma key_same_of_number? {m n : Number} (hv : v.number? = some m) (hw : w.number? = some n) :
    v.key.same w.key ↔ m.value = n.value := by
  match v, w with
  | .int _, .int _ | .int _, .float _ | .float _, .int _ | .float _, .float _ =>
    cases hv
    cases hw
    simp [key, Key.same_tagged, Key.same, Scalar.same, Scalar.number?, Number.same]

/-- The key of an entry: its name and the key of its value. -/
def entryKey (e : String × Value) : Key :=
  .tuple [.scalar (.str e.1), e.2.key]

lemma entryKey_same {e f : String × Value} :
    (entryKey e).same (entryKey f) ↔ e.1 = f.1 ∧ e.2.key.same f.2.key := by
  rw [entryKey, entryKey, Key.same_tuple, Key.same, same_str, Bool.and_eq_true, beq_iff_eq]

lemma key_object (es : List (String × Value)) :
    (object es).key = .tagged "object" (.set (es.map entryKey)) := by
  rw [object, key]
  congr 2
  induction es with
  | nil => rfl
  | cons e es ih => rw [map_cons, entryKeys, ih, map_cons, entryKey]

/-- Objects have the same key if they have the same names, with values of the same key. -/
lemma key_same_object {es fs : List (String × Value)}
    (hfs : (fs.map (·.1)).Nodup) : (object es).key.same (object fs).key ↔
      (∀ name, name ∈ es.map (·.1) ↔ name ∈ fs.map (·.1)) ∧
        ∀ name x y, (name, x) ∈ es → (name, y) ∈ fs → x.key.same y.key := by
  rw [key_object, key_object, Key.same_tagged, Bool.and_eq_true, beq_self_eq_true, Key.same_set,
    forall_mem_map, forall_mem_map]
  simp only [true_and, mem_map, exists_exists_and_eq_and, entryKey_same]
  constructor
  · rintro ⟨hleft, hright⟩
    refine ⟨fun name => ⟨?_, ?_⟩, fun name x y hx hy => ?_⟩
    · rintro ⟨e, he, rfl⟩
      obtain ⟨f, hf, heq, -⟩ := hleft e he
      exact ⟨f, hf, heq.symm⟩
    · rintro ⟨f, hf, rfl⟩
      obtain ⟨e, he, heq, -⟩ := hright f hf
      exact ⟨e, he, heq⟩
    · obtain ⟨f, hf, heq, hsame⟩ := hleft _ hx
      obtain rfl : f = (name, y) := inj_on_of_nodup_map hfs hf hy heq.symm
      exact hsame
  · rintro ⟨hnames, hvalues⟩
    refine ⟨fun e he => ?_, fun f hf => ?_⟩
    · obtain ⟨f, hf, heq⟩ := (hnames e.1).1 ⟨e, he, rfl⟩
      exact ⟨f, hf, heq.symm, hvalues e.1 e.2 f.2 he (heq ▸ hf)⟩
    · obtain ⟨e, he, heq⟩ := (hnames f.1).2 ⟨f, hf, rfl⟩
      exact ⟨e, he, heq, hvalues f.1 e.2 f.2 (heq ▸ he) hf⟩

lemma HasNames.exists_object {es : List (Scalar × Value)} (h : (map es).HasNames) :
    ∃ pairs, map es = object pairs := by
  cases h with
  | intro keys _ =>
    obtain ⟨names, hkeys, -⟩ := keys
    refine ⟨es.map fun e => (e.1.display, e.2), congrArg map ?_⟩
    rw [map_map]
    conv_lhs => rw [← map_id es]
    refine map_congr_left fun e he => ?_
    have hkey : e.1 ∈ names.map Scalar.str := hkeys ▸ mem_map_of_mem he
    obtain ⟨name, -, hname⟩ := mem_map.1 hkey
    rw [id, Function.comp_apply, ← Prod.eta e, ← hname]
    rfl

/-! ### Equal values and equal keys -/

lemma JsonEq.key_same (h : JsonEq v w) (hv : v.HasNames) (hw : w.HasNames) : v.key.same w.key := by
  induction h with
  | null | bool | str => simp [key, Key.same_tagged, Key.same, Scalar.same_iff]
  | number hm hn h => exact (key_same_of_number? hm hn).2 h
  | @array v w xs ys hxs hys hlength _ ih =>
    have hpart {u us x} (hus : IsArray u us) (hu : u.HasNames) (hx : x ∈ us) : x.HasNames := by
      obtain rfl | rfl := hus <;> exact hu.part hx
    rw [key_of_isArray hxs, key_of_isArray hys, Key.same_tagged, Key.same, Bool.and_eq_true,
      Key.sameItems_iff]
    refine ⟨rfl, by simpa using hlength, ?_⟩
    simp only [List.getElem?_map, Option.map_eq_some_iff]
    rintro i _ _ ⟨x, hx, rfl⟩ ⟨y, hy, rfl⟩
    exact ih i x y hx hy (hpart hxs hv (mem_of_getElem? hx))
      (hpart hys hw (mem_of_getElem? hy))
  | object hes hfs hnames _ ih =>
    subst hes hfs
    rw [hasNames_object] at hv hw
    exact (key_same_object hw.1).2 ⟨hnames, fun name x y hx hy =>
      ih name x y hx hy (hv.2 _ hx) (hw.2 _ hy)⟩

lemma jsonEq_of_key_same (hv : v.HasNames) (hw : w.HasNames) (h : v.key.same w.key) :
    JsonEq v w := by
  induction v using parts_induction generalizing w with
  | step v ih =>
    have harray {xs ys} (hxs : v.IsArray xs) (hys : w.IsArray ys) (hvparts : v.parts = xs)
        (hwparts : w.parts = ys) : JsonEq v w := by
      rw [key_of_isArray hxs, key_of_isArray hys, Key.same_tagged, Key.same, Bool.and_eq_true,
        Key.sameItems_iff] at h
      refine .array hxs hys (by simpa using h.2.1) fun i x y hx hy => ?_
      have hxmem : x ∈ v.parts := hvparts ▸ mem_of_getElem? hx
      have hymem : y ∈ w.parts := hwparts ▸ mem_of_getElem? hy
      exact ih x hxmem (hv.part hxmem) (hw.part hymem) (h.2.2 i _ _ (by simp [hx]) (by simp [hy]))
    match v, w with
    | .int _, .int _ | .int _, .float _ | .float _, .int _ | .float _, .float _ =>
      exact .number rfl rfl ((key_same_of_number? rfl rfl).1 h)
    | .list _, .list _ => exact harray (.inl rfl) (.inl rfl) rfl rfl
    | .list _, .tuple _ => exact harray (.inl rfl) (.inr rfl) rfl rfl
    | .tuple _, .list _ => exact harray (.inr rfl) (.inl rfl) rfl rfl
    | .tuple _, .tuple _ => exact harray (.inr rfl) (.inr rfl) rfl rfl
    | .map es, .map fs =>
      obtain ⟨pairs, hes⟩ := hv.exists_object
      obtain ⟨pairs', hfs⟩ := hw.exists_object
      rw [hes, hasNames_object] at hv
      rw [hfs, hasNames_object] at hw
      rw [hes, hfs, key_same_object hw.1] at h
      refine .object hes hfs h.1 fun name x y hx hy => ?_
      have hxmem : x ∈ (map es).parts := by
        rw [hes, object, parts, map_map]
        exact mem_map_of_mem (f := fun e : String × Value => e.2) hx
      exact ih x hxmem (hv.2 _ hx) (hw.2 _ hy) (h.2 name x y hx hy)
    | .null, .null => exact .null
    | .bool b, .bool c =>
      obtain rfl : b = c := by
        cases b <;> cases c <;> first | rfl | cases h
      exact .bool b
    | .str s, .str t =>
      obtain rfl : s = t := by simpa [key, Key.same_tagged, Key.same, same_str] using h
      exact .str s

lemma key_same_iff (hv : v.HasNames) (hw : w.HasNames) : v.key.same w.key ↔ JsonEq v w :=
  ⟨jsonEq_of_key_same hv hw, fun h => h.key_same hv hw⟩

end Value

namespace Check

/-- Two places of a list hold equal JSON values. -/
def Repeats (items : List Value) : Prop :=
  ∃ (i j : Nat) (x y : Value), i < j ∧ items[i]? = some x ∧ items[j]? = some y ∧ x.JsonEq y

lemma areNew_keys_iff {items : List Value} (hitems : ∀ x ∈ items, x.HasNames) :
    Key.areNew [] (items.map Value.key) ↔ ¬ Repeats items := by
  rw [Key.areNew_iff, pairwise_map, pairwise_iff_getElem]
  simp only [not_mem_nil, false_imp_iff, implies_true, true_and]
  constructor
  · rintro hpairs ⟨i, j, x, y, hij, hx, hy, heq⟩
    obtain ⟨hi, rfl⟩ := List.getElem?_eq_some_iff.1 hx
    obtain ⟨hj, rfl⟩ := List.getElem?_eq_some_iff.1 hy
    exact hpairs i j hi hj hij (heq.symm.key_same (hitems _ (getElem_mem hj))
      (hitems _ (getElem_mem hi)))
  · intro hrepeats i j hi hj hij hsame
    refine hrepeats ⟨i, j, _, _, hij, List.getElem?_eq_getElem hi, List.getElem?_eq_getElem hj, ?_⟩
    exact (Value.jsonEq_of_key_same (hitems _ (getElem_mem hj))
      (hitems _ (getElem_mem hi)) hsame).symm

/-- Keys compare the same for equal JSON values only; lists with equal items are refused, listed
values are accepted, and what is accepted is returned as it is. -/
theorem compares_jsonEq (v w array : Value) (items values : List Value) (hv : v.HasNames)
    (hw : w.HasNames) (harray : array.IsArray items) (hitems : ∀ x ∈ items, x.HasNames)
    (hvalues : ∀ a ∈ values, a.HasNames) :
    (v.key.same w.key ↔ v.JsonEq w) ∧
      (uniqueItems array = .ok array ↔ ¬ Repeats items) ∧
      (uniqueItems array = .error (.refused "array items must be unique") ↔ Repeats items) ∧
      (exactValues values v = .ok v ↔ ∃ a ∈ values, v.JsonEq a) ∧
      (exactValues values v =
          .error (.refused ("value must be one of " ++ Text.join ", " (values.map Value.literal))) ↔
        ∀ a ∈ values, ¬ v.JsonEq a) := by
  have hunique : uniqueItems array = if Key.areNew [] (items.map Value.key) then .ok array
      else .error (.refused "array items must be unique") := by
    obtain rfl | rfl := harray <;> rfl
  have hlisted : (values.map Value.key).any v.key.same ↔ ∃ a ∈ values, v.JsonEq a := by
    rw [any_map, any_eq_true]
    exact exists_congr fun a => and_congr_right fun ha => Value.key_same_iff hv (hvalues a ha)
  refine ⟨Value.key_same_iff hv hw, ?_, ?_, ?_, ?_⟩
  · rw [hunique, ← areNew_keys_iff hitems]
    split_ifs with h <;> simp [h]
  · rw [hunique, ← not_iff_not, ← areNew_keys_iff hitems]
    split_ifs with h <;> simp [h]
  · rw [exactValues, ← hlisted]
    split_ifs with h <;> simp [h]
  · have hnone : (∀ a ∈ values, ¬ v.JsonEq a) ↔ ¬ ∃ a ∈ values, v.JsonEq a := by simp
    rw [exactValues, hnone, ← hlisted]
    split_ifs with h <;> simp [h]

theorem compares_jsonEq_swapped :
    uniqueItems (.list [.object [("a", .int 1), ("b", .bool true)],
        .object [("b", .bool true), ("a", .float (.finite false 1 0))]]) =
      .error (.refused "array items must be unique") ∧
    exactValues [.int 1] (.bool true) = .error (.refused "value must be one of 1") := by
  have h := compares_jsonEq (.bool true) (.int 1) (.list _)
    [.object [("a", .int 1), ("b", .bool true)],
      .object [("b", .bool true), ("a", .float (.finite false 1 0))]] [.int 1]
    (by simp) (by simp) (.inl rfl) (by simp) (by simp)
  refine ⟨h.2.2.1.2 ⟨0, 1, _, _, by decide, rfl, rfl, .object rfl rfl (by simp [or_comm]) ?_⟩,
    h.2.2.2.2.2 ?_⟩
  · intro name x y hx hy
    simp only [mem_cons, Prod.mk.injEq, not_mem_nil, or_false] at hx hy
    obtain ⟨rfl, rfl⟩ | ⟨rfl, rfl⟩ := hx
    · obtain rfl : y = .float (.finite false 1 0) := by simpa using hy
      exact .number rfl rfl (by decide +kernel)
    · obtain rfl : y = .bool true := by simpa using hy
      exact .bool true
  · rw [forall_mem_singleton, ← h.1]
    decide

end Check

end ApiSchema
