import ApiSchema.Proofs.Declaration.Graph
import ApiSchema.Proofs.Declaration.Lifting

/-!
# Meaning of declarations

A declaration accepts what its validator accepts, a reference by name standing for the declaration
of that name. Main statement: a name that stands for a validator accepts the same values, where the
validators that share a declaration are alike.
-/

namespace ApiSchema

open Filter

namespace Declarations

section

variable (basis : Basis) (d : Declarations)

/-- The declaration of a name accepts a value, as can be told through at most `n` names. -/
def NameAccepts : Nat → String → Value → Prop
  | 0, _, _ => False
  | n + 1, name, x => ∃ e, d.get? name = some e ∧
    e.validator.Accepts basis (fun _ _ => False) (NameAccepts n) x

/-- The declaration of a name accepts a value. -/
def Accepts (name : String) (x : Value) : Prop :=
  ∃ n, d.NameAccepts basis n name x

variable {basis d}

lemma NameAccepts.succ {n : Nat} {name : String} {x : Value} (h : d.NameAccepts basis n name x) :
    d.NameAccepts basis (n + 1) name x := by
  induction n generalizing name x with
  | zero => exact h.elim
  | succ n ih =>
    obtain ⟨e, he, hx⟩ := h
    exact ⟨e, he, Validator.Accepts.mono id ih e.validator hx⟩

lemma NameAccepts.mono {m n : Nat} (hmn : m ≤ n) {name : String} {x : Value}
    (h : d.NameAccepts basis m name x) : d.NameAccepts basis n name x := by
  induction hmn with
  | refl => exact h
  | step _ ih => exact ih.succ

/-- A declaration accepts what its validator does, names standing for their declarations. -/
lemma accepts_of_validator {name : String} {e : Declaration} (he : d.get? name = some e)
    {x : Value} (hx : e.validator.Accepts basis (fun _ _ => False) (d.Accepts basis) x) :
    d.Accepts basis name x := by
  have hlate : ∀ᶠ n in atTop, e.validator.Accepts basis (fun _ _ => False)
      (d.NameAccepts basis n) x := by
    refine Validator.Accepts.eventually False.elim ?_ e.validator hx
    rintro name y ⟨n, hn⟩
    exact eventually_atTop.2 ⟨n, fun m hm => hn.mono hm⟩
  obtain ⟨n, hn⟩ := hlate.exists
  exact ⟨n + 1, e, he, hn⟩

end

end Declarations

namespace Validators

variable {basis : Basis} {t : Validators}

variable {w : Validator} {x : Value}

/-- What the targets of a document accept, through any number of references. -/
def AcceptsAt (basis : Basis) (t : Validators) (target : String) (x : Value) : Prop :=
  ∃ n, t.TargetAccepts basis n target x

lemma accepts_iff :
    t.Accepts basis w x ↔ w.Accepts basis (t.AcceptsAt basis) (fun _ _ => False) x := by
  constructor
  · rintro ⟨n, hn⟩
    exact Validator.Accepts.mono (fun h => ⟨n, h⟩) id w hn
  · intro h
    have hlate : ∀ᶠ n in atTop, w.Accepts basis (t.TargetAccepts basis n) (fun _ _ => False) x := by
      refine Validator.Accepts.eventually ?_ False.elim w h
      rintro target y ⟨n, hn⟩
      exact eventually_atTop.2 ⟨n, fun m hm => hn.mono hm⟩
    exact hlate.exists

lemma accepts_ref_iff {target : String} (hw : t.definitions.lookup target = some w) :
    t.Accepts basis (.ref target) x ↔ t.Accepts basis w x := by
  rw [accepts_iff, Validator.Accepts]
  constructor
  · rintro ⟨n, hn⟩
    cases n with
    | zero => exact hn.elim
    | succ n =>
      obtain ⟨w', hw', hx⟩ := hn
      obtain rfl : w = w' := Option.some.inj (hw.symm.trans hw')
      exact ⟨n, hx⟩
  · rintro ⟨n, hn⟩
    exact ⟨n + 1, w, hw, hn⟩

end Validators

namespace Validator

/-! ### Likeness -/

/-- A relation between validators that are of one kind, demand the same, and have related children
in the same places. -/
structure Likeness (r : Validator → Validator → Prop) : Prop where
  refl : ∀ v, r v v
  symm : ∀ {v w}, r v w → r w v
  trans : ∀ {u v w}, r u v → r v w → r u w
  resembles : ∀ {v w}, r v w → Resembles v w
  children : ∀ {v w}, r v w → List.Forall₂ r v.children w.children

lemma Likeness.accepts {r : Validator → Validator → Prop} (hr : Likeness r) {basis : Basis}
    {ref named : String → Value → Prop} (v : Validator) :
    ∀ {w : Validator}, r v w → ∀ {x : Value}, Accepts basis ref named v x →
      Accepts basis ref named w x := by
  induction v using children_induction with
  | step v ih =>
    intro w hvw x hx
    refine (hr.resembles hvw).accepts (fun _ _ _ => id) (fun _ _ _ => id) ?_ hx
    exact forall₂_imp_of_mem (hr.children hvw) fun c hc c' hcc' y => ih c hc hcc'

end Validator

namespace Declarations

open Validator

/-- Declarations stand for validators: the name of a target for a lifted form of its validator, and
any other name for what was made from an alike validator. -/
structure Represents (r : Validator → Validator → Prop) (t : Validators) (d : Declarations)
    (stands : Validator → String → Prop) : Prop where
  unnamed : ∀ {name name' : String}, ¬ stands (.named name) name'
  target : ∀ {target name : String}, stands (.ref target) name →
    ∃ v e, t.definitions.lookup target = some v ∧ d.get? name = some e ∧
      Lifts stands v e.validator
  proper : ∀ {v : Validator} {name : String}, stands v name → ¬ v.isReference →
    ∃ v' e, r v v' ∧ d.get? name = some e ∧ Rebuilt stands v' e.validator

namespace Represents

variable {r : Validator → Validator → Prop} {t : Validators} {d : Declarations}
  {stands : Validator → String → Prop} {basis : Basis}

lemma accepts_of_lifts (n : Nat)
    (hname : ∀ {v name x}, stands v name → d.NameAccepts basis n name x → t.Accepts basis v x)
    (v : Validator) : ∀ {w : Validator}, Lifts stands v w → ∀ {x : Value},
      w.Accepts basis (fun _ _ => False) (d.NameAccepts basis n) x → t.Accepts basis v x := by
  induction v using children_induction with
  | step v ih =>
    intro w hw x hx
    cases hw with
    | named h =>
      rw [Validator.Accepts] at hx
      exact hname h hx
    | rebuilt hproper hresembles hchildren =>
      rw [Validators.accepts_iff]
      refine hresembles.symm.accepts ?_ ?_ ?_ hx
      · exact fun _ _ _ => False.elim
      · rintro name rfl y -
        cases hresembles
        exact hproper rfl
      · refine (forall₂_imp_of_mem hchildren fun c hc c' hcc' y hy => ?_).flip
        exact Validators.accepts_iff.1 (ih c hc hcc' hy)

/-- Whatever is told through names holds of the validators they stand for. -/
lemma accepts_of_nameAccepts (hr : Likeness r) (h : Represents r t d stands) (n : Nat) :
    ∀ {v : Validator} {name : String} {x : Value}, stands v name →
      d.NameAccepts basis n name x → t.Accepts basis v x := by
  induction n with
  | zero => exact fun _ hx => hx.elim
  | succ n ih =>
    rintro v name x hv ⟨e, he, hx⟩
    by_cases hproper : v.isReference
    · cases v with
      | ref target =>
        obtain ⟨v', e', hlookup, he', hlifts⟩ := h.target hv
        obtain rfl : e = e' := Option.some.inj (he.symm.trans he')
        exact (Validators.accepts_ref_iff hlookup).2 (accepts_of_lifts n ih v' hlifts hx)
      | named name' => exact absurd hv h.unnamed
      | _ => simp [isReference] at hproper
    · obtain ⟨v', e', hlike, he', hrebuilt⟩ := h.proper hv hproper
      obtain rfl : e = e' := Option.some.inj (he.symm.trans he')
      have hv' := Validators.accepts_iff.1 (accepts_of_lifts n ih v' hrebuilt.lifts hx)
      exact Validators.accepts_iff.2 (hr.accepts v' (hr.symm hlike) hv')

/-- Whatever is told of a validator through references holds of the lifted forms of all that are
alike. -/
lemma lifts_accepts (hr : Likeness r) (h : Represents r t d stands) (m : Nat) (v : Validator) :
    ∀ {v' w : Validator} {x : Value}, r v v' → Lifts stands v' w →
      v.Accepts basis (t.TargetAccepts basis m) (fun _ _ => False) x →
      w.Accepts basis (fun _ _ => False) (d.Accepts basis) x := by
  -- By the number of references first: those of a definition lead to the whole of it.
  induction m using Nat.strong_induction_on generalizing v with
  | _ m ihm =>
    induction v using children_induction with
    | step v ih =>
      intro v' w x hlike hw hx
      have hrebuilt {u w : Validator} (hu : r v u) (hw : Rebuilt stands u w) :
          w.Accepts basis (fun _ _ => False) (d.Accepts basis) x := by
        refine hw.resembles.accepts ?_ ?_ ?_ (hr.accepts v hu hx)
        · rintro target rfl
          exact absurd rfl hw.proper
        · exact fun _ _ _ => False.elim
        · refine forall₂_imp_of_mem hw.children fun c hc c' hcc' y hy => ?_
          obtain ⟨c₀, hc₀, hlike₀⟩ := exists_left_of_forall₂ (hr.children hu) hc
          exact ih c₀ hc₀ hlike₀ hcc' (hr.accepts c (hr.symm hlike₀) hy)
      cases hw with
      | rebuilt hproper hresembles hchildren =>
        exact hrebuilt hlike ⟨hproper, hresembles, hchildren⟩
      | named hstands =>
        rw [Validator.Accepts]
        by_cases hproper : v'.isReference
        · cases v' with
          | ref target =>
            obtain ⟨v₁, e, hlookup, he, hlifts⟩ := h.target hstands
            cases hr.resembles hlike
            rw [Validator.Accepts] at hx
            cases m with
            | zero => exact hx.elim
            | succ m =>
              obtain ⟨v₂, hlookup₂, hx⟩ := hx
              obtain rfl : v₁ = v₂ := Option.some.inj (hlookup.symm.trans hlookup₂)
              exact accepts_of_validator he (ihm m m.lt_succ_self v₁ (hr.refl v₁) hlifts hx)
          | named name => exact absurd hstands h.unnamed
          | _ => simp [isReference] at hproper
        · obtain ⟨u, e, hu, he, hu'⟩ := h.proper hstands hproper
          exact accepts_of_validator he (hrebuilt (hr.trans hlike hu) hu')

/-- A name accepts exactly what the validator it stands for accepts. -/
theorem accepts_iff_of_stands (hr : Likeness r) (h : Represents r t d stands) {v : Validator}
    {name : String} (hv : stands v name) (x : Value) :
    d.Accepts basis name x ↔ t.Accepts basis v x := by
  constructor
  · rintro ⟨n, hn⟩
    exact h.accepts_of_nameAccepts hr n hv hn
  · rintro ⟨m, hm⟩
    have hx := h.lifts_accepts hr m v (hr.refl v) (.named hv) hm
    rwa [Validator.Accepts] at hx

end Represents

end Declarations

end ApiSchema
