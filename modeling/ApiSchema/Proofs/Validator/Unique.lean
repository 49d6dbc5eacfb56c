import ApiSchema.Proofs.Validator.Alike

/-!
# Fingerprints are of one validator

The canonical text of a validator is read in one way only, and bytes and digits spell a text in one
way only. Main statement: plain validators with the same canonical text are the same, and distinct
ones with the same fingerprint have texts that SHA-256 does not tell apart.
-/

namespace ApiSchema

open List Json Validator

/-! ### Codes -/

lemma Utf8.encodeChar_ne_nil (c : Char) : encodeChar c ≠ [] := by
  simp only [encodeChar]
  split_ifs <;> simp

/-- The first byte of a character tells how many follow, and the bytes tell the code point. -/
lemma Utf8.encodeChar_append {c d : Char} {rest rest' : List Nat}
    (h : encodeChar c ++ rest = encodeChar d ++ rest') : c = d ∧ rest = rest' := by
  suffices hnat : c.toNat = d.toNat by
    obtain rfl : c = d := Char.toNat_inj.1 hnat
    exact ⟨rfl, append_cancel_left h⟩
  simp only [encodeChar] at h
  split_ifs at h <;> simp only [cons_append, nil_append, List.cons.injEq] at h <;> omega

lemma Utf8.encode_injective : Function.Injective encode := by
  intro text text' h
  refine (Text.flatMap_append_inj (· = []) ?_ encodeChar_append rfl rfl
    (congrArg (· ++ []) h)).1
  simp [encodeChar_ne_nil]

lemma Sha256.hex_word_append {a b : UInt32} {rest rest' : List Char}
    (h : Text.hex 8 a.toNat ++ rest = Text.hex 8 b.toNat ++ rest') : a = b ∧ rest = rest' := by
  obtain ⟨hword, hrest⟩ := List.append_inj h (by simp)
  have hnat := congrArg Text.hexNumber hword
  rw [Text.hexNumber_hex a.toNat_lt, Text.hexNumber_hex b.toNat_lt] at hnat
  exact ⟨UInt32.toNat_inj.1 hnat, hrest⟩

/-- Texts with the same digest in hexadecimal have bytes with the same digest. -/
lemma Sha256.digest_eq_of_hexDigest_eq {text text' : List Char}
    (h : hexDigest text = hexDigest text') :
    digest (Utf8.encode text) = digest (Utf8.encode text') := by
  refine (Text.flatMap_append_inj (· = []) (fun word rest hnil => ?_) hex_word_append
    rfl rfl (congrArg (· ++ []) (String.ofList_inj.1 h))).1
  simpa using congrArg List.length hnil

/-! ### Plain bounds -/

/-- Bounds that are scalars other than null are alike only if they are equal. -/
lemma Value.Alike.eq_of_scalars {a b : Option Value}
    (ha : ∀ x ∈ a, ∃ s : Scalar, x = .scalar s ∧ s ≠ .null)
    (hb : ∀ x ∈ b, ∃ s : Scalar, x = .scalar s ∧ s ≠ .null)
    (h : Alike (a.getD .null) (b.getD .null)) : a = b := by
  match a, b with
  | none, none => rfl
  | none, some y =>
    obtain ⟨s, rfl, hs⟩ := hb y rfl
    cases h
    exact absurd rfl hs
  | some x, none =>
    obtain ⟨s, rfl, hs⟩ := ha x rfl
    cases h
    exact absurd rfl hs
  | some x, some y =>
    obtain ⟨s, rfl, -⟩ := ha x rfl
    obtain ⟨s', rfl, -⟩ := hb y rfl
    cases h
    rfl

/-- Every bound is a scalar other than null; a bound left out is none. -/
def Extent.IsPlain (e : Extent) : Prop :=
  ∀ b ∈ e.bounds, ∃ s : Scalar, b = .scalar s ∧ s ≠ .null

lemma Extent.Alike.eq {e e' : Extent} (h : e.Alike e') (he : e.IsPlain) (he' : e'.IsPlain) :
    e = e' := by
  have hmin {e : Extent} (he : e.IsPlain) :
      ∀ x ∈ e.min, ∃ s : Scalar, x = .scalar s ∧ s ≠ .null :=
    fun x hx => he x (mem_append_left _ (Option.mem_toList.2 hx))
  have hmax {e : Extent} (he : e.IsPlain) :
      ∀ x ∈ e.max, ∃ s : Scalar, x = .scalar s ∧ s ≠ .null :=
    fun x hx => he x (mem_append_right _ (Option.mem_toList.2 hx))
  cases e
  cases e'
  simp only [Extent.mk.injEq]
  exact ⟨h.min.eq_of_scalars (hmin he) (hmin he'), h.max.eq_of_scalars (hmax he) (hmax he')⟩

/-! ### Plain validators -/

namespace Validator

variable {v w : Validator}

/-- All that is stated, at any depth, is made of scalars: floating-point numbers are of the binary64
format, and a bound on a length or a count is no list, no mapping and not null. -/
structure IsPlain (v : Validator) : Prop where
  binary64 : v.IsBinary64
  extent : ∀ u, v.Part u → u.extent.IsPlain

lemma IsPlain.child {c : Validator} (h : v.IsPlain) (hc : c ∈ v.children) : c.IsPlain :=
  ⟨h.binary64.child hc, fun u hu => h.extent u (hu.of_child hc)⟩

/-- A validator is plain if what it states itself is and its children are. -/
lemma isPlain_iff (v : Validator) : v.IsPlain ↔
    (∀ x ∈ v.floats, x.IsBinary64) ∧ v.extent.IsPlain ∧ ∀ c ∈ v.children, c.IsPlain := by
  refine ⟨fun h => ⟨h.binary64 v .refl, h.extent v .refl, fun c hc => h.child hc⟩, ?_⟩
  rintro ⟨hfloats, hextent, hchildren⟩
  exact ⟨(forall_part_iff v).2 ⟨hfloats, fun c hc => (hchildren c hc).binary64⟩,
    (forall_part_iff v).2 ⟨hextent, fun c hc => (hchildren c hc).extent⟩⟩

/-- Validators with one head, the same children and plain bounds are the same. -/
lemma SameHead.eq (h : SameHead v w) (hv : v.extent.IsPlain) (hw : w.extent.IsPlain)
    (hchildren : v.children = w.children) : v = w := by
  cases h with
  | any | null | boolean | custom | number | literal | ref | named => rfl
  | string _ _ hlength => rw [hlength.eq hv hw]
  | array unique hlength => rw [hlength.eq hv hw, singleton_injective hchildren]
  | record hcount => rw [hcount.eq hv hw, singleton_injective hchildren]
  | @object fields fields' extra extra' _ _ forbidExtra hfields hcount =>
    obtain ⟨hforall, hextra⟩ :=
      (forall₂_children_object (r := Eq) hfields).1 (forall₂_eq_eq_eq.symm ▸ hchildren)
    rw [forall₂_eq_eq_eq] at hextra
    have hequal : Forall₂ Eq fields fields' :=
      hforall.imp fun f f' ⟨hkey, hrequired, hvalidator⟩ => by
        cases f
        cases f'
        simp_all
    obtain rfl : fields = fields' := forall₂_eq_eq_eq ▸ hequal
    obtain rfl : extra = extra' := by cases extra <;> cases extra' <;> simp_all
    rw [hcount.eq hv hw]
  | union => exact congrArg Validator.union hchildren
  | intersection => exact congrArg Validator.intersection hchildren
  | nullable => rw [singleton_injective hchildren]

/-- Plain validators that are alike are the same. -/
lemma Alike.eq (h : Alike v w) (hv : v.IsPlain) (hw : w.IsPlain) : v = w := by
  induction v using children_induction generalizing w with
  | step v ih =>
    obtain ⟨hhead, hchildren⟩ := h
    refine hhead.eq (hv.extent v .refl) (hw.extent w .refl) ?_
    refine forall₂_eq_eq_eq ▸ forall₂_imp_of_mem_of_mem hchildren fun c hc c' hc' h => ?_
    exact ih c hc h (hv.child hc) (hw.child hc')

/-- The canonical text of a plain validator determines it, and the fingerprint does as far as
SHA-256 tells the bytes of two texts apart. -/
theorem canonicalString_inj_and_digest_collision {v w : Validator} (hv : v.IsPlain)
    (hw : w.IsPlain) :
    (canonicalString v.canonical = canonicalString w.canonical → v = w) ∧
      (v ≠ w → v.fingerprint = w.fingerprint →
        Utf8.encode (canonicalString v.canonical) ≠ Utf8.encode (canonicalString w.canonical) ∧
          Sha256.digest (Utf8.encode (canonicalString v.canonical)) =
            Sha256.digest (Utf8.encode (canonicalString w.canonical))) := by
  have heq (h : SameText v w) : v = w := (h.alike hv.binary64 hw.binary64).eq hv hw
  refine ⟨heq, fun hne hprint => ⟨fun hbytes => ?_, Sha256.digest_eq_of_hexDigest_eq hprint⟩⟩
  exact hne (heq (Utf8.encode_injective hbytes))

/-- A field that holds nothing, one of two values, or a list of values that are all different. -/
def sizeObject (size : Scalar) : Validator :=
  .object [⟨"size", .nullable (.union [.literal [size, .str "1"],
    .array .boolean { min := some (.scalar size) } true]), true⟩] true none
    { max := some (.int 4) }

lemma isPlain_sizeObject {size : Scalar} (hfloats : ∀ x ∈ size.floats, x.IsBinary64)
    (hnull : size ≠ .null) : (sizeObject size).IsPlain := by
  have hself : (∀ x ∈ size.floats, x.IsBinary64) ∧
      (∀ x ∈ size.floats, x.IsBinary64) ∧ size ≠ .null := ⟨hfloats, hfloats, hnull⟩
  simpa [sizeObject, isPlain_iff (object _ _ _ _), isPlain_iff (nullable _),
    isPlain_iff (union _), isPlain_iff (literal _), isPlain_iff (array _ _ _), isPlain_iff boolean,
    floats, Extent.floats, Value.floats, Scalar.floats, Validator.extent, Extent.IsPlain,
    Extent.bounds, children] using hself

/-- The integer one, the floating-point number one and the truth value are three constraints. -/
theorem canonicalString_sizeObject_pairwise_ne :
    ((sizeObject (.int 1)).IsPlain ∧ (sizeObject (.float (.finite false 1 0))).IsPlain ∧
      (sizeObject (.bool true)).IsPlain) ∧
    List.Pairwise (fun size size' => canonicalString (sizeObject size).canonical ≠
      canonicalString (sizeObject size').canonical)
      [.int 1, .float (.finite false 1 0), .bool true] := by
  have hint : (sizeObject (.int 1)).IsPlain :=
    isPlain_sizeObject (by simp [Scalar.floats]) (by simp)
  have hone : Double.IsNormal 1 0 := ⟨rfl, by decide, by decide, by decide⟩
  have hfloat : (sizeObject (.float (.finite false 1 0))).IsPlain :=
    isPlain_sizeObject (by simp [Scalar.floats, Double.IsBinary64, hone]) (by simp)
  have hbool : (sizeObject (.bool true)).IsPlain :=
    isPlain_sizeObject (by simp [Scalar.floats]) (by simp)
  have hne {size size' : Scalar} (hv : (sizeObject size).IsPlain)
      (hw : (sizeObject size').IsPlain) (hsize : size ≠ size') :
      canonicalString (sizeObject size).canonical ≠
        canonicalString (sizeObject size').canonical := by
    intro h
    have heq := (canonicalString_inj_and_digest_collision hv hw).1 h
    exact hsize (by simpa [sizeObject] using heq)
  refine ⟨⟨hint, hfloat, hbool⟩, ?_⟩
  simp only [pairwise_cons, mem_cons, not_mem_nil, or_false, forall_eq_or_imp,
    forall_eq, false_imp_iff, implies_true, List.Pairwise.nil, and_true]
  exact ⟨⟨hne hint hfloat (by simp), hne hint hbool (by simp)⟩, hne hfloat hbool (by simp)⟩

end Validator

end ApiSchema
