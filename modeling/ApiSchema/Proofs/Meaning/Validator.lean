import ApiSchema.Declaration.OfDocument
import ApiSchema.Proofs.Meaning.Basis
import ApiSchema.Proofs.Validator.Parts

/-!
# Meaning of validators

Which values a validator accepts, given what the references by target and by name accept. Among the
validators of a document a reference stands for the validator of its target, among declarations for
the declaration of its name; either way a value is accepted if it can be told through finitely many
references.
-/

namespace ApiSchema

open List Filter

namespace Validator

section

-- `ref` and `named` give what references by target and by name accept.
variable (basis : Basis) (ref named : String → Value → Prop)

mutual

/-- A validator accepts a value. -/
def Accepts : Validator → Value → Prop
  | any, _ => True
  | null, v => v = .null
  | boolean, v => ∃ b, v = .bool b
  | string length pattern format, v =>
    ∃ s, v = .str s ∧ length.Holds s.length ∧ (∀ p ∈ pattern, basis.pattern p s) ∧
      ∀ f ∈ format, basis.format f s
  | custom name, v => basis.custom name v
  | number integer rules, v =>
    ∃ n, v.number? = some n ∧ (integer → basis.integer n) ∧ rules.Holds n
  | literal values, v => v.IsListed values
  | array items length unique, v =>
    ∃ xs, v = .list xs ∧ length.Holds xs.length ∧ (unique → Check.areUnique xs) ∧
      ∀ x ∈ xs, Accepts items x
  | record values count, v =>
    ∃ es, v = .map es ∧ count.Holds es.length ∧ ∀ e ∈ es, Accepts values e.2
  | object fields forbidExtra extra count, v =>
    ∃ es, v = .map es ∧ count.Holds es.length ∧ AcceptsFields fields es ∧
      (forbidExtra → ∀ e ∈ es, ¬ e.1.Lacks (fields.map (·.key))) ∧
      AcceptsExtra (fields.map (·.key)) extra es
  | union branches, v => AcceptsSome branches v
  | intersection branches, v => AcceptsAll branches v
  | nullable inner, v => v = .null ∨ Accepts inner v
  | .ref target, v => ref target v
  | .named name, v => named name v

def AcceptsFields : List (FieldOf Validator) → List (Scalar × Value) → Prop
  | [], _ => True
  | ⟨key, w, required⟩ :: rest, es =>
    (∀ x, Value.find? (.str key) es = some x → Accepts w x) ∧
      (required → (Value.find? (.str key) es).isSome) ∧ AcceptsFields rest es

def AcceptsExtra (names : List String) : Option Validator → List (Scalar × Value) → Prop
  | none, _ => True
  | some w, es => ∀ e ∈ es, e.1.Lacks names → Accepts w e.2

def AcceptsSome : List Validator → Value → Prop
  | [], _ => False
  | w :: rest, v => Accepts w v ∨ AcceptsSome rest v

def AcceptsAll : List Validator → Value → Prop
  | [], _ => True
  | w :: rest, v => Accepts w v ∧ AcceptsAll rest v

end

variable {basis ref named}

lemma acceptsFields_iff {fields : List (FieldOf Validator)} {es : List (Scalar × Value)} :
    AcceptsFields basis ref named fields es ↔
      ∀ f ∈ fields, (∀ x, Value.find? (.str f.key) es = some x →
        Accepts basis ref named f.validator x) ∧
        (f.required → (Value.find? (.str f.key) es).isSome) := by
  induction fields with
  | nil => simp [AcceptsFields]
  | cons f rest ih => simp [AcceptsFields, ih, and_assoc]

lemma acceptsExtra_iff {names : List String} {extra : Option Validator}
    {es : List (Scalar × Value)} :
    AcceptsExtra basis ref named names extra es ↔
      ∀ w ∈ extra, ∀ e ∈ es, e.1.Lacks names → Accepts basis ref named w e.2 := by
  cases extra <;> simp [AcceptsExtra]

lemma acceptsSome_iff {branches : List Validator} {v : Value} :
    AcceptsSome basis ref named branches v ↔ ∃ w ∈ branches, Accepts basis ref named w v := by
  induction branches with
  | nil => simp [AcceptsSome]
  | cons w rest ih => simp [AcceptsSome, ih]

lemma acceptsAll_iff {branches : List Validator} {v : Value} :
    AcceptsAll basis ref named branches v ↔ ∀ w ∈ branches, Accepts basis ref named w v := by
  induction branches with
  | nil => simp [AcceptsAll]
  | cons w rest ih => simp [AcceptsAll, ih]

end

/-! ### More references -/

section

variable {basis : Basis} {ref ref' named named' : String → Value → Prop}

variable {v : Value}

/-- Accepting a value asks only finitely many references. So what references come to accept late
enough is accepted late enough. -/
lemma Accepts.eventually {ι : Type} {l : Filter ι} {refs nameds : ι → String → Value → Prop}
    (href : ∀ {t v}, ref t v → ∀ᶠ n in l, refs n t v)
    (hnamed : ∀ {k v}, named k v → ∀ᶠ n in l, nameds n k v) (w : Validator)
    (h : Accepts basis ref named w v) : ∀ᶠ n in l, Accepts basis (refs n) (nameds n) w v := by
  induction w using children_induction generalizing v with
  | step w ih =>
  cases w with
  | any => simp [Accepts]
  | null | boolean | string _ _ _ | custom _ | number _ _ | literal _ =>
    simp only [Accepts] at h ⊢
    exact Eventually.of_forall fun _ => h
  | array items length unique =>
    simp only [Accepts] at h ⊢
    obtain ⟨xs, rfl, hlength, hunique, hitems⟩ := h
    have hlate := eventually_forall_mem fun x hx => ih items mem_cons_self (hitems x hx)
    exact hlate.mono fun n hn => ⟨xs, rfl, hlength, hunique, hn⟩
  | record values count =>
    simp only [Accepts] at h ⊢
    obtain ⟨es, rfl, hcount, hvalues⟩ := h
    have hlate := eventually_forall_mem fun e he => ih values mem_cons_self (hvalues e he)
    exact hlate.mono fun n hn => ⟨es, rfl, hcount, hn⟩
  | object fields forbidExtra extra count =>
    simp only [Accepts, acceptsFields_iff, acceptsExtra_iff] at h ⊢
    obtain ⟨es, rfl, hcount, hfields, hforbid, hextra⟩ := h
    have hvalues (f : FieldOf Validator) (hf : f ∈ fields) :
        ∀ᶠ n in l, ∀ x ∈ (Value.find? (.str f.key) es).toList,
          Accepts basis (refs n) (nameds n) f.validator x :=
      eventually_forall_mem fun x hx => ih f.validator
        (mem_append_left _ (mem_map_of_mem hf))
        ((hfields f hf).1 x (Option.mem_toList.1 hx))
    have hothers (w : Validator) (hw : w ∈ extra.toList) :
        ∀ᶠ n in l, ∀ e ∈ es, e.1.Lacks (fields.map (·.key)) →
          Accepts basis (refs n) (nameds n) w e.2 :=
      eventually_forall_mem fun e he => eventually_imp_distrib_left.2 fun hlacks =>
        ih w (mem_append_right _ hw) (hextra w (Option.mem_toList.1 hw) e he hlacks)
    filter_upwards [eventually_forall_mem hvalues, eventually_forall_mem hothers] with n hn hn'
    exact ⟨es, rfl, hcount, fun f hf => ⟨fun x hx => hn f hf x (Option.mem_toList.2 hx),
      (hfields f hf).2⟩, hforbid, fun w hw => hn' w (Option.mem_toList.2 hw)⟩
  | union branches =>
    simp only [Accepts, acceptsSome_iff] at h ⊢
    obtain ⟨b, hb, h⟩ := h
    exact (ih b hb h).mono fun n hn => ⟨b, hb, hn⟩
  | intersection branches =>
    simp only [Accepts, acceptsAll_iff] at h ⊢
    exact eventually_forall_mem fun b hb => ih b hb (h b hb)
  | nullable inner =>
    simp only [Accepts] at h ⊢
    obtain hnull | hinner := h
    · exact Eventually.of_forall fun _ => .inl hnull
    · exact (ih inner mem_cons_self hinner).mono fun _ => .inr
  | ref target =>
    simp only [Accepts] at h ⊢
    exact href h
  | named name =>
    simp only [Accepts] at h ⊢
    exact hnamed h

/-- What is accepted stays so when references accept more. -/
lemma Accepts.mono (href : ∀ {t v}, ref t v → ref' t v) (hnamed : ∀ {n v}, named n v → named' n v)
    (w : Validator) (h : Accepts basis ref named w v) : Accepts basis ref' named' w v := by
  have hlate : ∀ᶠ _ in (pure () : Filter Unit), Accepts basis ref' named' w v := by
    refine Accepts.eventually ?_ ?_ w h
    · exact fun ht => eventually_pure.2 (href ht)
    · exact fun hk => eventually_pure.2 (hnamed hk)
  exact eventually_pure.1 hlate

end

end Validator

/-! ### Validators of a document -/

namespace Validators

section

variable (basis : Basis) (t : Validators)

/-- The validator of a target accepts a value, as can be told through at most `n` references. -/
def TargetAccepts : Nat → String → Value → Prop
  | 0, _, _ => False
  | n + 1, target, v =>
    ∃ w, t.definitions.lookup target = some w ∧
      w.Accepts basis (TargetAccepts n) (fun _ _ => False) v

/-- A validator accepts a value, a reference standing for the validator of its target. -/
def Accepts (w : Validator) (v : Value) : Prop :=
  ∃ n, w.Accepts basis (t.TargetAccepts basis n) (fun _ _ => False) v

variable {basis t}

lemma TargetAccepts.succ {n : Nat} {target : String} {v : Value}
    (h : t.TargetAccepts basis n target v) : t.TargetAccepts basis (n + 1) target v := by
  induction n generalizing target v with
  | zero => exact h.elim
  | succ n ih =>
    obtain ⟨w, hw, hv⟩ := h
    exact ⟨w, hw, Validator.Accepts.mono ih id w hv⟩

lemma TargetAccepts.mono {m n : Nat} (hmn : m ≤ n) {target : String} {v : Value}
    (h : t.TargetAccepts basis m target v) : t.TargetAccepts basis n target v := by
  induction hmn with
  | refl => exact h
  | step _ ih => exact ih.succ

end

end Validators

end ApiSchema
