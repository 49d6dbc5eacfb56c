import ApiSchema.Proofs.Meaning.Validator
import ApiSchema.Proofs.Pointwise

/-!
# Validators that resemble each other

Two validators resemble each other if they are of one kind and their own constraints demand the same,
whatever is inside of them. Main statement: where the children of two such validators accept the
same values, so do the validators.
-/

namespace ApiSchema

open List

/-- Two extents demand the same of every count. -/
def Extent.Agrees (e e' : Extent) : Prop :=
  ∀ count, e.Holds count ↔ e'.Holds count

/-- Two sets of rules demand the same of every number. -/
def NumberRules.Agrees (r r' : NumberRules) : Prop :=
  ∀ n, r.Holds n ↔ r'.Holds n

namespace Validator

/-- The key of a field, and whether it is required. -/
def fieldHead (f : FieldOf Validator) : String × Bool :=
  (f.key, f.required)

/-- Validators of one kind whose own constraints demand the same. -/
inductive Resembles : Validator → Validator → Prop
  | any : Resembles .any .any
  | null : Resembles .null .null
  | boolean : Resembles .boolean .boolean
  | string {length length' : Extent} (pattern format : Option String)
    (hlength : length.Agrees length') :
    Resembles (.string length pattern format) (.string length' pattern format)
  | custom (name : String) : Resembles (.custom name) (.custom name)
  | number {rules rules' : NumberRules} (integer : Bool) (hrules : rules.Agrees rules') :
    Resembles (.number integer rules) (.number integer rules')
  | literal (values : List Scalar) : Resembles (.literal values) (.literal values)
  | array {items items' : Validator} {length length' : Extent} (unique : Bool)
    (hlength : length.Agrees length') :
    Resembles (.array items length unique) (.array items' length' unique)
  | record {values values' : Validator} {count count' : Extent} (hcount : count.Agrees count') :
    Resembles (.record values count) (.record values' count')
  | object {fields fields' : List (FieldOf Validator)} {extra extra' : Option Validator}
    {count count' : Extent} (forbidExtra : Bool)
    (hfields : fields.map fieldHead = fields'.map fieldHead) (hcount : count.Agrees count') :
    Resembles (.object fields forbidExtra extra count) (.object fields' forbidExtra extra' count')
  | union {branches branches' : List Validator} : Resembles (.union branches) (.union branches')
  | intersection {branches branches' : List Validator} :
    Resembles (.intersection branches) (.intersection branches')
  | nullable {inner inner' : Validator} : Resembles (.nullable inner) (.nullable inner')
  | ref (target : String) : Resembles (.ref target) (.ref target)
  | named (name : String) : Resembles (.named name) (.named name)

lemma Resembles.refl (v : Validator) : Resembles v v := by
  cases v with
  | string _ pattern format => exact .string pattern format fun _ => Iff.rfl
  | number integer _ => exact .number integer fun _ => Iff.rfl
  | array _ _ unique => exact .array unique fun _ => Iff.rfl
  | record _ _ => exact .record fun _ => Iff.rfl
  | object _ forbidExtra _ _ => exact .object forbidExtra rfl fun _ => Iff.rfl
  | _ => constructor

lemma Resembles.symm {v w : Validator} (h : Resembles v w) : Resembles w v := by
  cases h with
  | any => exact .any
  | null => exact .null
  | boolean => exact .boolean
  | string pattern format hlength => exact .string pattern format fun n => (hlength n).symm
  | custom name => exact .custom name
  | number integer hrules => exact .number integer fun n => (hrules n).symm
  | literal values => exact .literal values
  | array unique hlength => exact .array unique fun n => (hlength n).symm
  | record hcount => exact .record fun n => (hcount n).symm
  | object forbidExtra hfields hcount =>
    exact .object forbidExtra hfields.symm fun n => (hcount n).symm
  | union => exact .union
  | intersection => exact .intersection
  | nullable => exact .nullable
  | ref target => exact .ref target
  | named name => exact .named name

/-! ### Children of objects -/

section

variable {r : Validator → Validator → Prop} {fields fields' : List (FieldOf Validator)}
  {extra extra' : Option Validator}

/-- The children of two objects with the same heads of fields are those of the fields and those for
what stands beside them. -/
lemma forall₂_children_object {forbidExtra forbidExtra' : Bool} {count count' : Extent}
    (hfields : fields.map fieldHead = fields'.map fieldHead) :
    Forall₂ r (children (.object fields forbidExtra extra count))
        (children (.object fields' forbidExtra' extra' count')) ↔
      Forall₂ (fun f f' => f'.key = f.key ∧ f'.required = f.required ∧
        r f.validator f'.validator) fields fields' ∧
        Forall₂ r extra.toList extra'.toList := by
  induction fields generalizing fields' with
  | nil =>
    obtain rfl : fields' = [] := by simpa [eq_comm] using hfields
    simp [children]
  | cons f rest ih =>
    cases fields' with
    | nil => simp at hfields
    | cons f' rest' =>
      simp only [map_cons, List.cons.injEq, fieldHead, Prod.mk.injEq] at hfields
      have := ih hfields.2
      simp only [children, map_cons, cons_append, forall₂_cons] at this ⊢
      rw [this, hfields.1.1, hfields.1.2]
      simp [and_assoc]

end

/-! ### Meaning -/

section

variable {basis : Basis} {ref ref' named named' : String → Value → Prop}

lemma Resembles.accepts {v w : Validator} (h : Resembles v w)
    (href : ∀ t, v = .ref t → ∀ x, ref t x → ref' t x)
    (hnamed : ∀ n, v = .named n → ∀ x, named n x → named' n x)
    (hchildren : Forall₂ (fun c d => ∀ x, Accepts basis ref named c x →
      Accepts basis ref' named' d x) v.children w.children) {x : Value}
    (hx : Accepts basis ref named v x) : Accepts basis ref' named' w x := by
  cases h with
  | any | null | boolean | custom _ | literal _ =>
    simp only [Accepts] at hx ⊢
    try exact hx
  | string pattern format hlength =>
    simp only [Accepts] at hx ⊢
    obtain ⟨s, rfl, hs, hrest⟩ := hx
    exact ⟨s, rfl, (hlength _).1 hs, hrest⟩
  | number integer hrules =>
    simp only [Accepts] at hx ⊢
    obtain ⟨n, hn, hinteger, hholds⟩ := hx
    exact ⟨n, hn, hinteger, (hrules n).1 hholds⟩
  | array unique hlength =>
    simp only [children, forall₂_cons, Forall₂.nil, and_true] at hchildren
    simp only [Accepts] at hx ⊢
    obtain ⟨xs, rfl, hxs, hunique, hitems⟩ := hx
    exact ⟨xs, rfl, (hlength _).1 hxs, hunique, fun y hy => hchildren y (hitems y hy)⟩
  | record hcount =>
    simp only [children, forall₂_cons, Forall₂.nil, and_true] at hchildren
    simp only [Accepts] at hx ⊢
    obtain ⟨es, rfl, hes, hvalues⟩ := hx
    exact ⟨es, rfl, (hcount _).1 hes, fun e he => hchildren e.2 (hvalues e he)⟩
  | @object fields fields' extra extra' _ _ forbidExtra hheads hcount =>
    obtain ⟨hfields, hextra⟩ := (forall₂_children_object hheads).1 hchildren
    have hkeys : fields'.map (·.key) = fields.map (·.key) := by
      simpa [Function.comp_def, fieldHead] using congrArg (List.map Prod.fst) hheads.symm
    simp only [Accepts, acceptsFields_iff, acceptsExtra_iff] at hx ⊢
    obtain ⟨es, rfl, hes, hin, hforbid, hbeside⟩ := hx
    refine ⟨es, rfl, (hcount _).1 hes, fun f' hf' => ?_, hkeys ▸ hforbid, fun w hw e he hlacks => ?_⟩
    · obtain ⟨f, hf, hkey, hrequired, haccepts⟩ := exists_left_of_forall₂ hfields hf'
      rw [hkey, hrequired]
      exact ⟨fun y hy => haccepts y ((hin f hf).1 y hy), (hin f hf).2⟩
    · obtain ⟨v, hv, haccepts⟩ := exists_left_of_forall₂ hextra (Option.mem_toList.2 hw)
      exact haccepts e.2 (hbeside v (Option.mem_toList.1 hv) e he (hkeys ▸ hlacks))
  | union =>
    simp only [Accepts, acceptsSome_iff] at hx ⊢
    obtain ⟨c, hc, hcx⟩ := hx
    obtain ⟨d, hd, haccepts⟩ := exists_right_of_forall₂ hchildren hc
    exact ⟨d, hd, haccepts x hcx⟩
  | intersection =>
    simp only [Accepts, acceptsAll_iff] at hx ⊢
    intro d hd
    obtain ⟨c, hc, haccepts⟩ := exists_left_of_forall₂ hchildren hd
    exact haccepts x (hx c hc)
  | nullable =>
    simp only [children, forall₂_cons, Forall₂.nil, and_true] at hchildren
    simp only [Accepts] at hx ⊢
    exact hx.imp_right (hchildren x)
  | ref target =>
    simp only [Accepts] at hx ⊢
    exact href target rfl x hx
  | named name =>
    simp only [Accepts] at hx ⊢
    exact hnamed name rfl x hx

end

end Validator

end ApiSchema
