import ApiSchema.Module.Expr
import ApiSchema.Proofs.Outcome
import ApiSchema.Proofs.Pointwise
import ApiSchema.Proofs.Text.Scan
import ApiSchema.Proofs.Validator.Parts

/-!
# Names in expressions

The names that an expression refers to can be read from the expression, and they can be read back
from its text. Main statements: both ways give the same names, and the expression of a validator
refers to the declarations and to the validators from outside that the validator refers to.
-/

namespace ApiSchema

open List Except

/-! ### What validators refer to -/

namespace Validator

/-- All names in a validator, of declarations and of validators from outside, are known. -/
def RefersTo (known : List String) (v : Validator) : Prop :=
  ∀ name, v.Part (.named name) ∨ v.Part (.custom name) → name ∈ known

lemma RefersTo.child {known : List String} {v c : Validator} (h : v.RefersTo known)
    (hc : c ∈ v.children) : c.RefersTo known :=
  fun name hname => h name (hname.imp (fun hpart => hpart.of_child hc) fun hpart => hpart.of_child hc)

end Validator

namespace Module

open Scan

/-! ### Names in expressions -/

namespace Expr

mutual

/-- The names that the text of an expression refers to. -/
def words : Expr → List String
  | symbol s => [s.name]
  | builtin b => [b.name]
  | name n => [n]
  | literal v => v.words
  | index head args => words head ++ (wordsAll args).flatten
  | call head args named =>
    words head ++ (wordsAll args ++ named.map fun arg => arg.2.words).flatten

def wordsAll : List Expr → List (List String)
  | [] => []
  | e :: es => words e :: wordsAll es

end

mutual

/-- The scalars that an expression holds. -/
def scalars : Expr → List Scalar
  | literal v => v.scalars
  | index head args => scalars head ++ scalarsAll args
  | call head args named => scalars head ++ scalarsAll args ++ named.flatMap fun arg => arg.2.scalars
  | _ => []

def scalarsAll : List Expr → List Scalar
  | [] => []
  | e :: es => scalars e ++ scalarsAll es

end

/-- What an expression is made of in the end; the names of arguments are among it. -/
inductive Atom where
  | symbol (s : Symbol)
  | builtin (b : Builtin)
  | name (n : String)
  | key (n : String)
  | scalar (s : Scalar)

/-- An identifier that is not the name of a symbol. -/
def IsOrdinary (name : String) : Prop :=
  Name.isIdentifier name ∧ name ∉ Symbol.names

instance : DecidablePred IsOrdinary :=
  fun _ => inferInstanceAs (Decidable (_ ∧ _))

namespace Atom

/-- The names that are read where it stands, those of arguments only if all are asked for. -/
def words (all : Bool) : Atom → List String
  | symbol s => [s.name]
  | builtin b => [b.name]
  | name n => [n]
  | key n => if all then [n] else []
  | scalar s => s.words

/-- Names are known, and those of arguments are ordinary. -/
def Over (known : List String) : Atom → Prop
  | name n => n ∈ known
  | key n => IsOrdinary n
  | _ => True

end Atom

/-- The atoms of an expression, from left to right. -/
def atoms : Expr → List Atom
  | symbol s => [.symbol s]
  | builtin b => [.builtin b]
  | name n => [.name n]
  | literal v => v.scalars.map .scalar
  | index head args => atoms head ++ args.flatMap atoms
  | call head args named =>
    atoms head ++ (args.flatMap atoms ++
      named.flatMap fun arg => .key arg.1 :: arg.2.scalars.map .scalar)

/-- An expression whose names are known, and whose arguments by name have ordinary names. -/
def Over (known : List String) (e : Expr) : Prop :=
  ∀ a ∈ e.atoms, a.Over known

section

variable {known : List String} {all : Bool} {word : String} {negative : Bool} {e head : Expr}
  {args : List Expr} {named : List (String × Value)}

@[simp] lemma over_symbol (s : Symbol) : (symbol s).Over known := by
  simp [Over, atoms, Atom.Over]

@[simp] lemma over_builtin (b : Builtin) : (builtin b).Over known := by
  simp [Over, atoms, Atom.Over]

@[simp] lemma over_name {n : String} : (name n).Over known ↔ n ∈ known := by
  simp [Over, atoms, Atom.Over]

@[simp] lemma over_literal (v : Value) : (literal v).Over known := by
  simp [Over, atoms, Atom.Over]

@[simp] lemma over_index : (index head args).Over known ↔
    head.Over known ∧ ∀ e ∈ args, e.Over known := by
  simp only [Over, atoms, forall_mem_append, forall_mem_flatMap]

@[simp] lemma over_call : (call head args named).Over known ↔
    head.Over known ∧ (∀ e ∈ args, e.Over known) ∧ ∀ arg ∈ named, IsOrdinary arg.1 := by
  simp only [Over, atoms, forall_mem_append, forall_mem_flatMap, forall_mem_cons]
  simp [Atom.Over]

lemma texts_eq (es : List Expr) : texts es = es.map text := by
  induction es with
  | nil => rfl
  | cons e es ih => rw [texts, ih, map_cons]

lemma wordsAll_eq (es : List Expr) : wordsAll es = es.map words := by
  induction es with
  | nil => rfl
  | cons e es ih => rw [wordsAll, ih, map_cons]

lemma symbolsAll_eq (es : List Expr) : symbolsAll es = es.flatMap symbols := by
  induction es with
  | nil => rfl
  | cons e es ih => rw [symbolsAll, ih, flatMap_cons]

lemma scalarsAll_eq (es : List Expr) : scalarsAll es = es.flatMap scalars := by
  induction es with
  | nil => rfl
  | cons e es ih => rw [scalarsAll, ih, flatMap_cons]

lemma flatMap_words (v : Value) :
    (v.scalars.map Atom.scalar).flatMap (Atom.words all) = v.words := by
  rw [flatMap_map]
  rfl

lemma words_eq (e : Expr) : e.words = e.atoms.flatMap (Atom.words false) := by
  match e with
  | symbol _ | builtin _ | name _ => simp [words, atoms, Atom.words]
  | literal v => rw [words, atoms, flatMap_words]
  | index head args =>
    rw [words, atoms, wordsAll_eq, flatMap_append, words_eq head, flatMap_assoc, ← flatMap_def]
    exact congrArg _ (flatMap_congr fun e _ => words_eq e)
  | call head args named =>
    rw [words, atoms, wordsAll_eq, flatMap_append, words_eq head, flatMap_append, flatMap_assoc,
      flatMap_assoc, flatten_append, ← flatMap_def, ← flatMap_def]
    simp only [flatMap_cons, flatMap_words]
    exact congrArg _ (congrArg (· ++ _) (flatMap_congr fun e _ => words_eq e))

lemma mem_symbols_iff (e : Expr) {s : Symbol} : s ∈ e.symbols ↔ .symbol s ∈ e.atoms := by
  match e with
  | symbol _ | builtin _ | name _ | literal _ => simp [symbols, atoms]
  | index head args | call head args _ =>
    simp only [symbols, atoms, symbolsAll_eq, mem_append, mem_symbols_iff head, mem_flatMap]
    simpa using or_congr_right (exists_congr fun e => and_congr_right fun _ => mem_symbols_iff e)

lemma mem_scalars_iff (e : Expr) {s : Scalar} : s ∈ e.scalars ↔ .scalar s ∈ e.atoms := by
  match e with
  | symbol _ | builtin _ | name _ | literal _ => simp [scalars, atoms]
  | index head args | call head args _ =>
    have hargs : (∃ e ∈ args, s ∈ e.scalars) ↔ ∃ e ∈ args, .scalar s ∈ e.atoms :=
      exists_congr fun e => and_congr_right fun _ => mem_scalars_iff e
    simp [scalars, atoms, scalarsAll_eq, mem_scalars_iff head, hargs]

lemma isIdentifier_symbol (s : Symbol) : Name.isIdentifier s.name := by
  cases s <;> decide

/-- Reading the text of an expression finds the names of its atoms. -/
lemma reads_text (hknown : ∀ n ∈ known, Name.isIdentifier n) (e : Expr) (he : e.Over known) :
    Reads all e.text.toList (e.atoms.flatMap (Atom.words all)) := by
  match e with
  | symbol s =>
    rw [atoms, flatMap_singleton]
    exact reads_identifier (isIdentifier_symbol s)
  | builtin b =>
    rw [atoms, flatMap_singleton]
    exact reads_identifier (by cases b <;> decide)
  | name n =>
    rw [atoms, flatMap_singleton]
    exact reads_identifier (hknown n (over_name.1 he))
  | literal v =>
    rw [atoms, flatMap_words]
    exact v.reads_literal
  | index head args =>
    obtain ⟨hover, hargs⟩ := over_index.1 he
    have hparts := reads_join (forall₂_reads fun e hmem => reads_text hknown e (hargs e hmem))
    rw [text, texts_eq, atoms, flatMap_append, flatMap_assoc]
    simpa [flatMap_def] using (reads_text hknown head hover).append
      (hparts.enclosed (c := '[') (by decide) (by decide)) (ends_cons (by decide) _)
  | call head args named =>
    obtain ⟨hover, hargs, hkeys⟩ := over_call.1 he
    have hnamed (arg : String × Value) (harg : arg ∈ named) :
        Reads all (namedArgument arg).toList ((if all then [arg.1] else []) ++ arg.2.words) := by
      simpa [namedArgument] using arg.2.reads_literal.argument (hkeys arg harg).1
    have hparts := reads_join (rel_append
      (forall₂_reads fun e hmem => reads_text hknown e (hargs e hmem)) (forall₂_reads hnamed))
    rw [text, texts_eq, atoms, flatMap_append, flatMap_append, flatMap_assoc, flatMap_assoc]
    simp only [flatMap_cons, flatMap_words]
    simpa [flatMap_def, Atom.words] using (reads_text hknown head hover).append
      (hparts.enclosed (c := '(') (by decide) (by decide)) (ends_cons (by decide) _)

/-- What a name in an expression is, given the names that are known to it, its symbols and its
scalars. -/
inductive IsWord (known : List String) (symbols : List Symbol) (scalars : List Scalar) :
    String → Prop
  | symbol {s : Symbol} (h : s ∈ symbols) : IsWord known symbols scalars s.name
  | builtin (b : Builtin) : IsWord known symbols scalars b.name
  | known {n : String} (h : n ∈ known) : IsWord known symbols scalars n
  | constant {n : String} (h : n ∈ ["None", "True", "False"]) : IsWord known symbols scalars n
  | infinite {negative : Bool} (h : Scalar.float (.infinite negative) ∈ scalars) :
    IsWord known symbols scalars "inf"

lemma isWord_of_mem_words (he : e.Over known) (h : word ∈ e.words) :
    IsWord known e.symbols e.scalars word := by
  rw [words_eq] at h
  obtain ⟨a, ha, h⟩ := mem_flatMap.1 h
  match a with
  | .symbol s =>
    cases mem_singleton.1 h
    exact .symbol (e.mem_symbols_iff.2 ha)
  | .builtin b =>
    cases mem_singleton.1 h
    exact .builtin b
  | .name n =>
    cases mem_singleton.1 h
    exact .known (he _ ha)
  | .key _ => cases h
  | .scalar .null | .scalar (.bool true) | .scalar (.bool false) =>
    cases mem_singleton.1 h
    exact .constant (by decide)
  | .scalar (.float (.infinite _)) =>
    cases mem_singleton.1 h
    exact .infinite (e.mem_scalars_iff.2 ha)
  | .scalar (.int _) | .scalar (.float (.finite _ _ _)) | .scalar (.str _) => cases h

/-- Where an infinite number stands, its text is among the names. -/
lemma inf_mem_words (h : Scalar.float (.infinite negative) ∈ e.scalars) : "inf" ∈ e.words := by
  rw [words_eq]
  exact mem_flatMap.2 ⟨_, e.mem_scalars_iff.1 h, mem_singleton_self _⟩

/-! ### Types and remarks -/

/-- The bounds of numbers that can be given by name. -/
def numberArguments (integer : Bool) (rules : NumberRules) : List (String × Option Value) :=
  [("ge", rules.minimum.map .ofNumber), ("gt", rules.exclusiveMinimum.map .ofNumber),
    ("le", rules.maximum.map .ofNumber), ("lt", rules.exclusiveMaximum.map .ofNumber),
    ("multiple_of", if (fractionalStep integer rules).isSome then none
      else rules.multipleOf.map .ofNumber)]

/-- Numbers without constraints. -/
def isFree (integer : Bool) (rules : NumberRules) : Bool :=
  (given (numberArguments integer rules)).isEmpty && (fractionalStep integer rules).isNone

/-- A check with an argument, if there is one. -/
def checked (s : Symbol) : Option Value → List Expr
  | some v => [after (call (symbol s) [literal v] [])]
  | none => []

/-- The type in the expression of a validator, given the expressions of its children. -/
def typeOf : Validator → List Expr → Expr
  | .null, _ => literal .null
  | .boolean, _ => symbol .strictBool
  | .string length _ _, _ =>
    if (lengthBounds length).isEmpty then symbol .strictStr else builtin .str
  | .number integer rules, _ =>
    if isFree integer rules then symbol (if integer then .strictInt else .strictFloat)
    else builtin (if integer then .int else .float)
  | .literal values, _ => index (symbol .literal) (values.map fun s => literal (.scalar s))
  | .array _ _ _, es => index (builtin .list) es
  | .record _ _, es => index (builtin .dict) (builtin .str :: es)
  | .union _, es => index (symbol .union) es
  | .nullable _, es => index (symbol .optional) es
  | .named n, _ => name n
  | .custom n, _ => name n
  | _, _ => symbol .any

/-- The remarks on that type. -/
def remarksOf : Validator → List Expr → List Expr
  | .string length pattern format, _ =>
    (if (lengthBounds length).isEmpty then []
      else [call (symbol .stringConstraints) [] (("strict", .bool true) :: lengthBounds length)]) ++
      checked .checkPattern (pattern.map .str) ++ checked .checkFormat (format.map .str)
  | .number integer rules, _ =>
    (if isFree integer rules then [] else [call (symbol .strict) [] []]) ++
      constrained .field (given (numberArguments integer rules)) ++
      checked .checkMultipleOf ((fractionalStep integer rules).map .ofNumber)
  | .literal values, _ =>
    if values.any isNumeric then
      [call (symbol .beforeValidator)
        [call (symbol .exactValues) (values.map fun s => literal (.scalar s)) []] []]
    else []
  | .array _ length unique, _ =>
    constrained .field (lengthBounds length) ++ if unique then [after (symbol .uniqueItems)] else []
  | .record _ count, _ => constrained .field (lengthBounds count)
  | .union _, _ => [call (symbol .field) [] [("union_mode", .str "left_to_right")]]
  | .intersection _, es => [after (call (symbol .allOf) es [])]
  | _, _ => []

lemma ofNumber_eq (integer : Bool) (rules : NumberRules) : ofNumber integer rules =
    annotated (typeOf (.number integer rules) []) (remarksOf (.number integer rules) []) := by
  simp only [typeOf, remarksOf]
  cases hfree : isFree integer rules with
  | true =>
    obtain ⟨hgiven, hstep⟩ : given (numberArguments integer rules) = [] ∧
        fractionalStep integer rules = none := by simpa [isFree] using hfree
    rw [hgiven, hstep]
    exact if_pos hfree
  | false =>
    refine (if_neg (ne_true_of_eq_false hfree)).trans (congrArg (fun step : List Expr =>
      annotated (builtin (if integer then .int else .float)) (call (symbol .strict) [] [] ::
        constrained .field (given (numberArguments integer rules)) ++ step)) ?_)
    cases fractionalStep integer rules <;> rfl

lemma forall₂_of_ofValidators {vs : List Validator} {es : List Expr}
    (h : ofValidators vs = .ok es) : Forall₂ (fun v e => ofValidator v = .ok e) vs es := by
  induction vs generalizing es with
  | nil =>
    cases h
    exact .nil
  | cons v vs ih =>
    rw [ofValidators] at h
    obtain ⟨e, he, h⟩ := bind_eq_ok_iff.1 h
    obtain ⟨es, hes, h⟩ := bind_eq_ok_iff.1 h
    cases h
    exact .cons he (ih hes)

/-- The expression of a validator is a type with remarks, made of the expressions of its children. -/
lemma exists_annotated_of_ofValidator {v : Validator} (he : ofValidator v = .ok e) :
    ∃ es, Forall₂ (fun c e => ofValidator c = .ok e) v.children es ∧
      e = annotated (typeOf v es) (remarksOf v es) := by
  cases v with
  | any | null | boolean | named _ | custom _ =>
    cases he
    exact ⟨[], .nil, rfl⟩
  | string length pattern format =>
    cases he
    exact ⟨[], .nil, by cases pattern <;> cases format <;> rfl⟩
  | number integer rules =>
    cases he
    exact ⟨[], .nil, ofNumber_eq integer rules⟩
  | literal values =>
    cases he
    refine ⟨[], .nil, ?_⟩
    simp only [ofLiteral, remarksOf]
    split <;> rfl
  | array _ _ _ | record _ _ | nullable _ =>
    rw [ofValidator] at he
    obtain ⟨inner, hinner, he⟩ := bind_eq_ok_iff.1 he
    cases he
    exact ⟨[inner], .cons hinner .nil, rfl⟩
  | union _ | intersection _ =>
    rw [ofValidator] at he
    obtain ⟨es, hes, rfl⟩ := map_eq_ok_iff.1 he
    exact ⟨es, forall₂_of_ofValidators hes, rfl⟩
  | object _ _ _ _ | ref _ => cases he

/-! ### Expressions of validators -/

/-- What may stand in front of brackets. -/
inductive IsHead : Expr → Prop
  | symbol (s : Symbol) : IsHead (symbol s)
  | builtin (b : Builtin) : IsHead (builtin b)

/-- An expression made as those of validators are: its names are known, its heads are symbols and
types without import, its arguments by name have ordinary names, and its values have a property. -/
inductive IsBuilt (known : List String) (P : Value → Prop) : Expr → Prop
  | symbol (s : Symbol) : IsBuilt known P (symbol s)
  | builtin (b : Builtin) : IsBuilt known P (builtin b)
  | name {n : String} (h : n ∈ known) : IsBuilt known P (name n)
  | literal {v : Value} (h : P v) : IsBuilt known P (literal v)
  | index {head : Expr} {args : List Expr} (hhead : IsHead head)
    (hargs : ∀ e ∈ args, IsBuilt known P e) : IsBuilt known P (index head args)
  | call {head : Expr} {args : List Expr} {named : List (String × Value)} (hhead : IsHead head)
    (hargs : ∀ e ∈ args, IsBuilt known P e)
    (hnamed : ∀ arg ∈ named, IsOrdinary arg.1 ∧ P arg.2) :
    IsBuilt known P (call head args named)

lemma IsBuilt.over {P : Value → Prop} (h : IsBuilt known P e) : e.Over known := by
  have hover {head : Expr} (hhead : IsHead head) : head.Over known := by
    cases hhead <;> simp
  induction h with
  | symbol _ | builtin _ | literal _ => simp
  | name h => exact over_name.2 h
  | index hhead _ ih => exact over_index.2 ⟨hover hhead, ih⟩
  | call hhead _ hnamed ih =>
    exact over_call.2 ⟨hover hhead, ih, fun arg harg => (hnamed arg harg).1⟩

section

variable {P : Value → Prop}

/-- Arguments with ordinary names and with values of the property. -/
lemma forall_mem_given {args : List (String × Option Value)}
    (h : ∀ arg ∈ args, IsOrdinary arg.1 ∧ ∀ v ∈ arg.2, P v) :
    ∀ arg ∈ given args, IsOrdinary arg.1 ∧ P arg.2 := by
  intro arg harg
  obtain ⟨⟨key, v⟩, hmem, harg⟩ := mem_filterMap.1 harg
  obtain ⟨v', hv, rfl⟩ := Option.map_eq_some_iff.1 harg
  exact ⟨(h _ hmem).1, (h _ hmem).2 v' hv⟩

lemma forall_mem_lengthBounds {extent : Extent} (h : ∀ b ∈ extent.bounds, P b) :
    ∀ arg ∈ lengthBounds extent, IsOrdinary arg.1 ∧ P arg.2 := by
  refine forall_mem_given ?_
  simp only [forall_mem_cons]
  refine ⟨⟨by decide, fun v hv => ?_⟩, ⟨by decide, fun v hv => ?_⟩, by simp⟩
  · exact h v (mem_append_left _ (Option.mem_toList.2 hv))
  · exact h v (mem_append_right _ (Option.mem_toList.2 hv))

lemma forall_mem_numberArguments {integer : Bool} {rules : NumberRules}
    (h : ∀ bound ∈ [rules.minimum, rules.maximum, rules.exclusiveMinimum, rules.exclusiveMaximum,
      rules.multipleOf], ∀ v ∈ bound.map Value.ofNumber, P v) :
    ∀ arg ∈ given (numberArguments integer rules), IsOrdinary arg.1 ∧ P arg.2 := by
  refine forall_mem_given ?_
  simp only [forall_mem_cons] at h
  simp only [numberArguments, forall_mem_cons]
  refine ⟨⟨by decide, h.1⟩, ⟨by decide, h.2.2.1⟩, ⟨by decide, h.2.1⟩, ⟨by decide, h.2.2.2.1⟩,
    ⟨by decide, fun v hv => ?_⟩, by simp⟩
  split at hv
  · cases hv
  · exact h.2.2.2.2.1 v hv

lemma isBuilt_annotated {type : Expr} {remarks : List Expr} (htype : IsBuilt known P type)
    (hremarks : ∀ e ∈ remarks, IsBuilt known P e) : IsBuilt known P (annotated type remarks) := by
  unfold annotated
  split
  · exact htype
  · exact .index (.symbol _) (forall_mem_cons.2 ⟨htype, hremarks⟩)

lemma isBuilt_after {check : Expr} (h : IsBuilt known P check) : IsBuilt known P (after check) :=
  .call (.symbol _) (forall_mem_singleton.2 h) (by simp)

lemma isBuilt_constrained {args : List (String × Value)} (s : Symbol)
    (h : ∀ arg ∈ args, IsOrdinary arg.1 ∧ P arg.2) :
    ∀ e ∈ constrained s args, IsBuilt known P e := by
  intro e he
  unfold constrained at he
  split at he
  · cases he
  · rw [mem_singleton.1 he]
    exact .call (.symbol s) (by simp) h

lemma isBuilt_checked {v : Option Value} (s : Symbol) (h : ∀ x ∈ v, P x) :
    ∀ e ∈ checked s v, IsBuilt known P e := by
  intro e he
  cases v with
  | none => cases he
  | some x =>
    rw [mem_singleton.1 he]
    refine isBuilt_after (.call (.symbol s) (forall_mem_singleton.2 ?_) (by simp))
    exact .literal (h x rfl)

/-- The expression of a validator is built of the names that the validator refers to, and of scalars
and the bounds on lengths and counts. -/
lemma isBuilt_of_ofValidator (hscalar : ∀ s : Scalar, P (.scalar s)) {v : Validator}
    (h : v.RefersTo known) (hbounds : ∀ u, v.Part u → ∀ b ∈ u.extent.bounds, P b) {e : Expr}
    (he : ofValidator v = .ok e) : IsBuilt known P e := by
  induction v using Validator.children_induction generalizing e with
  | step v ih =>
    obtain ⟨es, hes, rfl⟩ := exists_annotated_of_ofValidator he
    have hparts (e : Expr) (he : e ∈ es) : IsBuilt known P e := by
      obtain ⟨c, hc, he⟩ := exists_left_of_forall₂ hes he
      exact ih c hc (h.child hc) (fun u hu => hbounds u (hu.of_child hc)) he
    have hself := hbounds v .refl
    have hnumber (n : Option Number) : ∀ x ∈ n.map Value.ofNumber, P x := by
      intro x hx
      obtain ⟨m, -, rfl⟩ := Option.map_eq_some_iff.1 hx
      cases m <;> exact hscalar _
    have htext (s : Option String) : ∀ x ∈ s.map Value.str, P x := by
      intro x hx
      obtain ⟨t, -, rfl⟩ := Option.map_eq_some_iff.1 hx
      exact hscalar _
    have hvalues (values : List Scalar) :
        ∀ e ∈ values.map fun s => literal (.scalar s), IsBuilt known P e :=
      forall_mem_map.2 fun s _ => .literal (hscalar s)
    refine isBuilt_annotated ?_ ?_
    · cases v with
      | any | boolean | intersection _ | object _ _ _ _ | ref _ => exact .symbol _
      | null => exact .literal (hscalar _)
      | string _ _ _ | number _ _ =>
        simp only [typeOf]
        split
        · exact .symbol _
        · exact .builtin _
      | literal values => exact .index (.symbol _) (hvalues values)
      | array _ _ _ => exact .index (.builtin _) hparts
      | record _ _ => exact .index (.builtin _) (forall_mem_cons.2 ⟨.builtin _, hparts⟩)
      | union _ | nullable _ => exact .index (.symbol _) hparts
      | named n => exact .name (h n (.inl .refl))
      | custom n => exact .name (h n (.inr .refl))
    · cases v with
      | string length pattern format =>
        refine forall_mem_append.2 ⟨forall_mem_append.2 ⟨?_, isBuilt_checked _ (htext _)⟩,
          isBuilt_checked _ (htext _)⟩
        split
        · simp
        · refine forall_mem_singleton.2 (.call (.symbol _) (by simp) (forall_mem_cons.2 ⟨?_, ?_⟩))
          · exact ⟨by decide, hscalar _⟩
          · exact forall_mem_lengthBounds hself
      | number integer rules =>
        refine forall_mem_append.2 ⟨forall_mem_append.2 ⟨?_, isBuilt_constrained _ ?_⟩,
          isBuilt_checked _ (hnumber _)⟩
        · split
          · simp
          · exact forall_mem_singleton.2 (.call (.symbol _) (by simp) (by simp))
        · exact forall_mem_numberArguments fun bound _ => hnumber bound
      | literal values =>
        simp only [remarksOf]
        split
        · refine forall_mem_singleton.2 (.call (.symbol _) (forall_mem_singleton.2 ?_) (by simp))
          exact .call (.symbol _) (hvalues values) (by simp)
        · simp
      | array _ length unique =>
        refine forall_mem_append.2 ⟨isBuilt_constrained _ (forall_mem_lengthBounds hself), ?_⟩
        split
        · exact forall_mem_singleton.2 (isBuilt_after (.symbol _))
        · simp
      | record _ count => exact isBuilt_constrained _ (forall_mem_lengthBounds hself)
      | union _ =>
        refine forall_mem_singleton.2 (.call (.symbol _) (by simp) (forall_mem_singleton.2 ?_))
        exact ⟨by decide, hscalar _⟩
      | intersection _ =>
        exact forall_mem_singleton.2 (isBuilt_after (.call (.symbol _) hparts (by simp)))
      | _ => simp [remarksOf]

end

/-- The expression of a validator refers to what the validator refers to. -/
lemma over_of_ofValidator {v : Validator} (h : v.RefersTo known) (he : ofValidator v = .ok e) :
    e.Over known := by
  have hbuilt : IsBuilt known (fun _ => True) e :=
    isBuilt_of_ofValidator (fun _ => trivial) h (fun _ _ _ _ => trivial) he
  exact hbuilt.over

end

end Expr

end Module

end ApiSchema
