import ApiSchema.Proofs.Module.Phrase
import ApiSchema.Proofs.Module.Rendering
import ApiSchema.Proofs.Validator.Unique

/-!
# Expressions of one validator only

The expression of a validator starts with a type that tells its kind, and the remarks on the type
and the types inside of it tell the rest. Main statement: validators whose expressions have the same
text are the same, so no constraint is lost when a validator is written.
-/

namespace ApiSchema

open List Except

namespace Module.Expr

open Text Validator Json

variable {integer : Bool} {rules rules' : NumberRules}

/-! ### Arguments by name -/

/-- The phrase of an argument tells its name and its value. -/
lemma argument_inj {arg arg' : String × Value} (h : IsOrdinary arg.1 ∧ IsWritten arg.2)
    (h' : IsOrdinary arg'.1 ∧ IsWritten arg'.2) (heq : argument arg = argument arg') :
    arg = arg' := by
  have hkey {key : String} (h : IsOrdinary key) : ∀ c ∈ key.toList, ¬ c = '=' := by
    rintro c hc rfl
    have hpart := Name.isWord_iff.1 (Name.isIdentifier_iff.1 h.1).1 '=' hc
    revert hpart
    decide
  have hfront (text text' : String) (htext : arg.1 ++ "=" ++ text = arg'.1 ++ "=" ++ text') :
      arg.1 ++ "=" = arg'.1 ++ "=" := by
    have hlist : arg.1.toList ++ '=' :: text.toList = arg'.1.toList ++ '=' :: text'.toList := by
      simpa using congrArg String.toList htext
    obtain ⟨hkeys, -⟩ := append_inj_of_stop (hkey h.1) (hkey h'.1) (by simp) (by simp) hlist
    rw [String.toList_inj.1 hkeys]
  obtain ⟨hkeys, hvalue⟩ := spelled_inj h.2 h'.2 hfront heq
  exact Prod.ext ((String.append_left_inj "=").1 hkeys) hvalue

lemma key_mem_of_mem_given {args : List (String × Option Value)} {arg : String × Value}
    (h : arg ∈ given args) : arg.1 ∈ args.map (·.1) := by
  obtain ⟨⟨key, v⟩, hmem, harg⟩ := mem_filterMap.1 h
  obtain ⟨v', -, rfl⟩ := Option.map_eq_some_iff.1 harg
  exact mem_map_of_mem hmem

/-- The arguments that are given tell which ones are left out. -/
lemma given_injective {args args' : List (String × Option Value)}
    (hkeys : args.map (·.1) = args'.map (·.1)) (hnodup : (args.map (·.1)).Nodup)
    (h : given args = given args') : args = args' := by
  induction args generalizing args' with
  | nil => exact (map_eq_nil_iff.1 hkeys.symm).symm
  | cons arg rest ih =>
    cases args' with
    | nil => simp at hkeys
    | cons arg' rest' =>
      obtain ⟨key, v⟩ := arg
      obtain ⟨key', v'⟩ := arg'
      simp only [map_cons, List.cons.injEq] at hkeys
      obtain ⟨rfl, hkeys⟩ := hkeys
      simp only [map_cons, nodup_cons] at hnodup
      -- An argument that is left out on one side only would have to be given later on.
      match v, v' with
      | none, none => rw [ih hkeys hnodup.2 h]
      | some v, some v' =>
        obtain ⟨hv, hrest⟩ := List.cons.inj h
        rw [(Prod.mk.inj hv).2, ih hkeys hnodup.2 hrest]
      | none, some v' =>
        have hgiven : given rest = (key, v') :: given rest' := h
        exact absurd (key_mem_of_mem_given (hgiven ▸ mem_cons_self)) hnodup.1
      | some v, none =>
        have hgiven : (key, v) :: given rest = given rest' := h
        exact absurd (key_mem_of_mem_given (hgiven ▸ mem_cons_self)) (hkeys ▸ hnodup.1)

/-- The phrases of arguments tell which of those that can be given are given. -/
lemma eq_of_arguments {args args' : List (String × Option Value)}
    (hkeys : args.map (·.1) = args'.map (·.1)) (hnodup : (args.map (·.1)).Nodup)
    (h : ∀ arg ∈ given args, IsOrdinary arg.1 ∧ IsWritten arg.2)
    (h' : ∀ arg ∈ given args', IsOrdinary arg.1 ∧ IsWritten arg.2)
    (heq : (given args).map argument = (given args').map argument) : args = args' :=
  given_injective hkeys hnodup (eq_of_map_eq_map
    (fun arg harg arg' harg' => argument_inj (h arg harg) (h' arg' harg')) heq)

/-- The phrase of a value that may be left out tells the value. -/
lemma eq_of_spelled {α : Type} {f : α → Value} (hf : Function.Injective f) {x y : Option α}
    (hx : ∀ v ∈ x.map f, IsWritten v) (hy : ∀ v ∈ y.map f, IsWritten v)
    (h : (x.map f).toList.map (spelled "") = (y.map f).toList.map (spelled "")) : x = y := by
  have hlist : (x.map f).toList = (y.map f).toList := by
    refine eq_of_map_eq_map (fun v hv w hw heq => ?_) h
    exact (spelled_inj (hx v (Option.mem_toList.1 hv)) (hy w (Option.mem_toList.1 hw))
      (fun _ _ _ => rfl) heq).2
  cases x <;> cases y <;> simp_all [hf.eq_iff]

lemma eq_of_spelled_str {x y : Option String}
    (h : (x.map Value.str).toList.map (spelled "") = (y.map Value.str).toList.map (spelled "")) :
    x = y := by
  have hwritten (x : Option String) : ∀ v ∈ x.map Value.str, IsWritten v := by
    intro v hv
    obtain ⟨text, -, rfl⟩ := Option.map_eq_some_iff.1 hv
    exact ⟨.str text, rfl, by simp [Scalar.floats]⟩
  exact eq_of_spelled (fun _ _ => by simp [Value.str]) (hwritten x) (hwritten y) h

/-- The bounds of an extent can be written. -/
def IsWrittenExtent (e : Extent) : Prop :=
  ∀ b ∈ e.bounds, IsWritten b

lemma extent_eq_of_arguments {e e' : Extent} (he : IsWrittenExtent e) (he' : IsWrittenExtent e')
    (h : (lengthBounds e).map argument = (lengthBounds e').map argument) : e = e' := by
  have heq := eq_of_arguments (by simp) (by simp) (forall_mem_lengthBounds he)
    (forall_mem_lengthBounds he') h
  cases e
  cases e'
  simpa using heq

/-! ### Numbers -/

/-- The numbers among rules can be written. -/
def IsWrittenRules (rules : NumberRules) : Prop :=
  ∀ x ∈ rules.floats, x.IsBinary64

lemma ofNumber_injective : Function.Injective Value.ofNumber := by
  intro n m h
  cases n <;> cases m <;> simp_all [Value.ofNumber]

/-- A number among rules can be written. -/
lemma IsWrittenRules.isWritten (h : IsWrittenRules rules) {bound : Option Number}
    (hbound : bound ∈ numberBounds rules) : ∀ v ∈ bound.map Value.ofNumber, IsWritten v := by
  intro v hv
  have hfits := fits_numberBounds h hbound
  rw [hv] at hfits
  obtain ⟨n, -, rfl⟩ := Option.map_eq_some_iff.1 hv
  cases n with
  | int i => exact ⟨.int i, rfl, hfits⟩
  | float x => exact ⟨.float x, rfl, hfits⟩

lemma multipleOf_of_fractionalStep {step : Number} (h : fractionalStep integer rules = some step) :
    rules.multipleOf = some step := by
  unfold fractionalStep at h
  split at h
  next hstep =>
    split at h
    · rw [hstep, h]
    · cases h
  next => cases h

/-- The bounds and a step that is no integer make up the rules. -/
lemma rules_eq_of_numberArguments
    (hargs : numberArguments integer rules = numberArguments integer rules')
    (hstep : fractionalStep integer rules = fractionalStep integer rules') : rules = rules' := by
  have hmap {a b : Option Number} : a.map Value.ofNumber = b.map Value.ofNumber ↔ a = b :=
    (Option.map_injective ofNumber_injective).eq_iff
  simp only [numberArguments, List.cons.injEq, Prod.mk.injEq, true_and, hmap, hstep] at hargs
  obtain ⟨hmin, hxmin, hmax, hxmax, hmultiple, -⟩ := hargs
  have hsame : rules.multipleOf = rules'.multipleOf := by
    cases hs : fractionalStep integer rules' with
    | some step =>
      rw [multipleOf_of_fractionalStep hs, multipleOf_of_fractionalStep (hstep.trans hs)]
    | none =>
      rw [hs] at hmultiple
      exact hmap.1 hmultiple
  cases rules
  cases rules'
  simp_all

/-- The phrases of bounds and of a step that is no integer tell the rules. -/
lemma rules_eq_of_remarks (h : IsWrittenRules rules) (h' : IsWrittenRules rules')
    (hargs : (given (numberArguments integer rules)).map argument =
      (given (numberArguments integer rules')).map argument)
    (hstep : ((fractionalStep integer rules).map Value.ofNumber).toList.map (spelled "") =
      ((fractionalStep integer rules').map Value.ofNumber).toList.map (spelled "")) :
    rules = rules' := by
  have hwritten {rules : NumberRules} (h : IsWrittenRules rules) :
      ∀ v ∈ (fractionalStep integer rules).map Value.ofNumber, IsWritten v := by
    intro v hv
    obtain ⟨step, hstep, rfl⟩ := Option.map_eq_some_iff.1 hv
    have hmultiple : some step ∈ numberBounds rules := by
      rw [← multipleOf_of_fractionalStep hstep]
      simp [numberBounds]
    exact h.isWritten hmultiple _ rfl
  refine rules_eq_of_numberArguments (eq_of_arguments (by simp [numberArguments])
    (by simp [numberArguments]) (forall_mem_numberArguments fun _ => h.isWritten)
    (forall_mem_numberArguments fun _ => h'.isWritten) hargs) ?_
  exact eq_of_spelled ofNumber_injective (hwritten h) (hwritten h') hstep

/-! ### Remarks tell the constraints -/

lemma among_string (length : Extent) (pattern format : Option String) (es : List Expr) :
    let remarks := (remarksOf (.string length pattern format) es).map phrase
    (among .stringConstraints remarks).tail = (lengthBounds length).map argument ∧
      among .checkPattern (among .afterValidator remarks) =
        (pattern.map Value.str).toList.map (spelled "") ∧
      among .checkFormat (among .afterValidator remarks) =
        (format.map Value.str).toList.map (spelled "") := by
  by_cases hempty : (lengthBounds length).isEmpty <;> cases pattern <;> cases format <;>
    simp_all [remarksOf, checked, after, among, phrase, text, Phrase.front, Phrase.parts,
      Symbol.name]

lemma among_number (integer : Bool) (rules : NumberRules) (es : List Expr) :
    let remarks := (remarksOf (.number integer rules) es).map phrase
    among .field remarks = (given (numberArguments integer rules)).map argument ∧
      among .checkMultipleOf (among .afterValidator remarks) =
        ((fractionalStep integer rules).map Value.ofNumber).toList.map (spelled "") := by
  simp only [remarksOf, map_append, among_append, among_constrained]
  cases fractionalStep integer rules <;> split <;>
    simp [checked, after, among, phrase, text, Phrase.front, Phrase.parts, Symbol.name]

lemma among_array (items : Validator) (length : Extent) (unique : Bool) (es : List Expr) :
    let remarks := (remarksOf (.array items length unique) es).map phrase
    among .field remarks = (lengthBounds length).map argument ∧
      among .afterValidator remarks = if unique then [.word Symbol.uniqueItems.name] else [] := by
  simp only [remarksOf, map_append, among_append, among_constrained]
  cases unique <;>
    simp [after, among, phrase, text, Phrase.front, Phrase.parts, Symbol.name]

/-! ### Families -/

/-- The names that types start with, but for those of declarations and validators from outside,
each with the kind of the validator and whether it is one of integers. -/
def families : List (String × String × Bool) :=
  [(Symbol.any.name, kind .any, false), ("None", kind .null, false),
    (Symbol.strictBool.name, kind .boolean, false),
    (Symbol.strictStr.name, kind (.string {} none none), false),
    (Builtin.str.name, kind (.string {} none none), false),
    (Symbol.strictInt.name, kind (.number true {}), true),
    (Builtin.int.name, kind (.number true {}), true),
    (Symbol.strictFloat.name, kind (.number false {}), false),
    (Builtin.float.name, kind (.number false {}), false),
    (Symbol.literal.name, kind (.literal []), false),
    (Builtin.list.name, kind (.array .any {} false), false),
    (Builtin.dict.name, kind (.record .any {}), false),
    (Symbol.union.name, kind (.union []), false),
    (Symbol.optional.name, kind (.nullable .any), false)]

def familyOf (front : String) : String × Bool :=
  (families.lookup front).getD (kind (.named ""), false)

/-- Validators by the names that their types start with; those of one family may start alike. -/
def family : Validator → String × Bool
  | .intersection _ => (kind .any, false)
  | .custom _ => (kind (.named ""), false)
  | .number integer rules => (kind (.number integer rules), integer)
  | v => (kind v, false)

/-- A name that stands for nothing else in a module. -/
structure IsFreeName (n : String) : Prop where
  identifier : Name.isIdentifier n
  keyword : Name.isKeyword n = false
  symbol : n ∉ Symbol.names
  builtin : n ∉ Builtin.all.map Builtin.name

lemma IsFreeName.familyOf {n : String} (h : IsFreeName n) :
    familyOf n = (kind (.named ""), false) := by
  have hknown : ∀ start ∈ families.map (·.1),
      start ∈ Symbol.names ∨ start ∈ Builtin.all.map Builtin.name ∨ Name.isKeyword start := by
    decide
  have hlookup : families.lookup n = none := by
    refine lookup_eq_none_iff.2 fun p hp => bne_iff_ne.2 ?_
    rintro rfl
    rcases hknown p.1 (mem_map_of_mem hp) with hsymbol | hbuiltin | hkeyword
    · exact h.symbol hsymbol
    · exact h.builtin hbuiltin
    · simp [h.keyword] at hkeyword
  rw [Expr.familyOf, hlookup, Option.getD_none]

end Module.Expr

/-! ### Validators that can be written -/

namespace Validator

/-- A validator that can be written with these names of declarations and of validators from
outside: it is plain, and neither an object nor a reference to a definition is part of it. -/
structure IsWritable (declared outside : List String) (v : Validator) : Prop where
  plain : v.IsPlain
  inline : Inline declared v
  custom : ∀ u, v.Part u → ∀ name, u = .custom name → name ∈ outside

variable {declared outside : List String} {v : Validator}

lemma IsWritable.child {c : Validator} (h : v.IsWritable declared outside) (hc : c ∈ v.children) :
    c.IsWritable declared outside :=
  ⟨h.plain.child hc, h.inline.child hc, fun u hu => h.custom u (hu.of_child hc)⟩

lemma IsWritable.refersTo (h : v.IsWritable declared outside) :
    v.RefersTo (declared ++ outside) := by
  rintro name (hname | hname)
  · exact mem_append_left _ ((h.inline _ hname).2.2 name rfl)
  · exact mem_append_right _ (h.custom _ hname name rfl)

lemma IsWritable.isWrittenExtent (h : v.IsWritable declared outside) :
    Module.Expr.IsWrittenExtent v.extent := by
  have hfloats : v.extent.floats ⊆ v.floats := by
    cases v with
    | string _ _ _ | array _ _ _ | record _ _ | object _ _ _ _ => exact List.Subset.refl _
    | _ => exact nil_subset _
  intro b hb
  obtain ⟨s, rfl, -⟩ := h.plain.extent v .refl b hb
  refine ⟨s, rfl, fun x hx => h.plain.binary64 v .refl x (hfloats ?_)⟩
  exact mem_flatMap.2 ⟨.scalar s, hb, hx⟩

end Validator

namespace Module.Expr

open Text Validator

variable {declared outside : List String} {v w : Validator} {e e' : Expr} {es es' : List Expr}

/-- The name that a type starts with tells the family of the validator. -/
lemma familyOf_front (h : v.IsWritable declared outside)
    (hnames : ∀ n ∈ declared ++ outside, IsFreeName n) (es : List Expr) :
    (typeOf v es).phrase.front ≠ Symbol.annotated.name ∧
      familyOf (typeOf v es).phrase.front = family v := by
  have hname {n : String} (hn : n ∈ declared ++ outside) : n ≠ Symbol.annotated.name := by
    rintro rfl
    exact (hnames _ hn).symbol (by decide)
  obtain ⟨hmodel, href, -⟩ := h.inline v .refl
  cases v with
  | named n =>
    rw [typeOf, phrase]
    have hn := h.refersTo n (.inl .refl)
    exact ⟨hname hn, (hnames n hn).familyOf⟩
  | custom n =>
    rw [typeOf, phrase]
    have hn := h.refersTo n (.inr .refl)
    exact ⟨hname hn, (hnames n hn).familyOf⟩
  | object _ _ _ _ => exact absurd rfl hmodel
  | ref target => exact absurd rfl (href target)
  | string _ _ _ =>
    rw [typeOf]
    split <;> rw [phrase] <;> exact ⟨by decide, rfl⟩
  | number integer rules =>
    rw [typeOf]
    cases integer <;> split <;> rw [phrase] <;> exact ⟨by decide, rfl⟩
  | null =>
    rw [typeOf, phrase]
    exact ⟨by decide, rfl⟩
  | any | boolean | literal _ | array _ _ _ | record _ _ | union _ | intersection _
  | nullable _ =>
    simp only [typeOf, phrase]
    exact ⟨fun h => by simp [Phrase.front, text, Symbol.name, Builtin.name] at h, rfl⟩

/-- Validators in step with expressions of the same phrases are the same if each of them is. -/
lemma eq_of_phrases_eq {vs ws : List Validator}
    (hes : Forall₂ (fun v e => ofValidator v = .ok e) vs es)
    (hes' : Forall₂ (fun w e => ofValidator w = .ok e) ws es')
    (hone : ∀ v ∈ vs, ∀ w ∈ ws, ∀ {e e'}, ofValidator v = .ok e → ofValidator w = .ok e' →
      e.phrase = e'.phrase → v = w) (h : es.map phrase = es'.map phrase) : vs = ws := by
  rw [← forall₂_eq_eq_eq]
  have hrow := forall₂_trans (q := Relation.Comp _ _) hes
    (forall₂_trans (q := Relation.Comp _ _) (forall₂_of_map_eq h) hes'.flip
      fun _ e _ h h' => ⟨e, h, h'⟩) fun _ e _ h h' => ⟨e, h, h'⟩
  refine forall₂_imp_of_mem_of_mem hrow fun v hv w hw => ?_
  rintro ⟨e, he, e', heq, he'⟩
  exact hone v hv w hw he he' heq

/-- The phrases of listed values tell the values. -/
lemma values_eq_of_phrases {values values' : List Scalar}
    (hv : ∀ x ∈ floats (.literal values), x.IsBinary64)
    (hw : ∀ x ∈ floats (.literal values'), x.IsBinary64)
    (h : values.map (phrase ∘ fun s => literal (.scalar s)) =
      values'.map (phrase ∘ fun s => literal (.scalar s))) : values = values' := by
  refine eq_of_map_eq_map (fun s hs t ht heq => ?_) h
  have hwritten {values : List Scalar} (hv : ∀ x ∈ floats (.literal values), x.IsBinary64)
      {s : Scalar} (hs : s ∈ values) : IsWritten (.scalar s) :=
    ⟨s, rfl, fun x hx => hv x (mem_flatMap.2 ⟨s, hs, hx⟩)⟩
  simp only [Function.comp, phrase] at heq
  exact Value.scalar.inj
    (spelled_inj (hwritten hv hs) (hwritten hw ht) (fun _ _ _ => rfl) heq).2

/-- Validators whose expressions spell one phrase are the same. -/
lemma eq_of_phrase_eq (hnames : ∀ n ∈ declared ++ outside, IsFreeName n)
    (hdisjoint : declared.Disjoint outside) (hv : v.IsWritable declared outside)
    (hw : w.IsWritable declared outside) (he : ofValidator v = .ok e)
    (he' : ofValidator w = .ok e') (h : e.phrase = e'.phrase) : v = w := by
  induction v using Validator.children_induction generalizing w e e' with
  | step v ih =>
    obtain ⟨es, hes, rfl⟩ := exists_annotated_of_ofValidator he
    obtain ⟨es', hes', rfl⟩ := exists_annotated_of_ofValidator he'
    obtain ⟨hfront, hfamily⟩ := familyOf_front hv hnames es
    obtain ⟨hfront', hfamily'⟩ := familyOf_front hw hnames es'
    have hboth := congrArg typed h
    rw [typed_annotated hfront, typed_annotated hfront'] at hboth
    obtain ⟨htype, hremarks⟩ := Prod.mk.inj hboth
    have hsame : family v = family w := by rw [← hfamily, ← hfamily', htype]
    have hchildren : es.map phrase = es'.map phrase → v.children = w.children :=
      eq_of_phrases_eq hes hes' fun c hc c' hc' => ih c hc (hv.child hc) (hw.child hc')
    have hextent := hv.isWrittenExtent
    have hextent' := hw.isWrittenExtent
    cases v <;> cases w <;> simp [family, kind] at hsame
    case any.any | null.null | boolean.boolean => rfl
    case any.intersection | intersection.any => simp [remarksOf] at hremarks
    case string.string length pattern format length' pattern' format' =>
      obtain ⟨hlength, hpattern, hformat⟩ := among_string length pattern format es
      obtain ⟨hlength', hpattern', hformat'⟩ := among_string length' pattern' format' es'
      rw [hremarks] at hlength hpattern hformat
      obtain rfl : length = length' :=
        extent_eq_of_arguments hextent hextent' (hlength.symm.trans hlength')
      rw [eq_of_spelled_str (hpattern.symm.trans hpattern'),
        eq_of_spelled_str (hformat.symm.trans hformat')]
    case number.number integer rules integer' rules' =>
      subst hsame
      obtain ⟨hargs, hstep⟩ := among_number integer rules es
      obtain ⟨hargs', hstep'⟩ := among_number integer rules' es'
      rw [hremarks] at hargs hstep
      rw [rules_eq_of_remarks (hv.plain.binary64 _ .refl) (hw.plain.binary64 _ .refl)
        (hargs.symm.trans hargs') (hstep.symm.trans hstep')]
    case literal.literal values values' =>
      simp only [typeOf, phrase, Phrase.applied.injEq, map_map] at htype
      rw [values_eq_of_phrases (hv.plain.binary64 _ .refl) (hw.plain.binary64 _ .refl) htype.2.2]
    case array.array items length unique items' length' unique' =>
      obtain ⟨hlength, hunique⟩ := among_array items length unique es
      obtain ⟨hlength', hunique'⟩ := among_array items' length' unique' es'
      rw [hremarks] at hlength hunique
      simp only [typeOf, phrase, Phrase.applied.injEq, true_and] at htype
      obtain rfl : length = length' :=
        extent_eq_of_arguments hextent hextent' (hlength.symm.trans hlength')
      have hflag : unique = unique' := by
        have heq := hunique.symm.trans hunique'
        cases unique <;> cases unique' <;> simp_all
      rw [singleton_injective (hchildren htype), hflag]
    case record.record values count values' count' =>
      simp only [typeOf, phrase, Phrase.applied.injEq, true_and, map_cons, List.cons.injEq] at htype
      have hcount := congrArg (among .field) hremarks
      simp only [remarksOf, among_constrained, if_true] at hcount
      obtain rfl : count = count' := extent_eq_of_arguments hextent hextent' hcount
      rw [singleton_injective (hchildren htype)]
    case nullable.nullable inner inner' =>
      simp only [typeOf, phrase, Phrase.applied.injEq, true_and] at htype
      rw [singleton_injective (hchildren htype)]
    case union.union branches branches' =>
      simp only [typeOf, phrase, Phrase.applied.injEq, true_and] at htype
      exact congrArg Validator.union (hchildren htype)
    case intersection.intersection branches branches' =>
      have hphrases := congrArg (among .allOf <| among .afterValidator ·) hremarks
      simp [remarksOf, after, among, phrase, text, Phrase.front, Phrase.parts] at hphrases
      exact congrArg Validator.intersection (hchildren hphrases)
    case named.named | custom.custom =>
      simp only [typeOf, phrase, Phrase.word.injEq] at htype
      rw [htype]
    case named.custom n n' =>
      simp only [typeOf, phrase, Phrase.word.injEq] at htype
      subst htype
      exact absurd (hw.custom _ .refl n rfl) (hdisjoint ((hv.inline _ .refl).2.2 n rfl))
    case custom.named n n' =>
      simp only [typeOf, phrase, Phrase.word.injEq] at htype
      subst htype
      exact absurd (hv.custom _ .refl n rfl) (hdisjoint ((hw.inline _ .refl).2.2 n rfl))
    case object.object => cases he
    case ref.ref => cases he

/-- A validator that can be written has an expression, and those of two validators have one text
only if the validators are the same: no constraint, flag, branch or listed value is lost. -/
theorem eq_of_text_eq (hnames : ∀ n ∈ declared ++ outside, IsFreeName n)
    (hdisjoint : declared.Disjoint outside) {v w : Validator}
    (hv : v.IsWritable declared outside) (hw : w.IsWritable declared outside) :
    ∃ e e', ofValidator v = .ok e ∧ ofValidator w = .ok e' ∧ (e.text = e'.text → v = w) := by
  obtain ⟨e, he⟩ := exists_ofValidator hv.inline
  obtain ⟨e', he'⟩ := exists_ofValidator hw.inline
  have hbuilt {u : Validator} (hu : u.IsWritable declared outside) {e : Expr}
      (he : ofValidator u = .ok e) :
      IsBuilt (declared ++ outside) (fun v => ∃ s : Scalar, v = .scalar s) e := by
    refine isBuilt_of_ofValidator (fun s => ⟨s, rfl⟩) hu.refersTo (fun part hpart b hb => ?_) he
    exact (hu.plain.extent part hpart b hb).imp fun _ => And.left
  refine ⟨e, e', he, he', fun htext => eq_of_phrase_eq hnames hdisjoint hv hw he he' ?_⟩
  exact phrase_eq_of_text_eq (hbuilt hv he) (hbuilt hw he') (fun n hn => (hnames n hn).identifier)
    (fun _ => id) htext

end Module.Expr

namespace Validator

/-- A text with brackets and commas in it, a list of pets, or what a validator from outside
accepts. -/
def petBranches (unique : Bool) : Validator :=
  .union [.literal [.str "], Slug"], .array (.named "Pet") { min := some (.int 1) } unique,
    .custom "Slug"]

lemma isWritable_petBranches (unique : Bool) :
    (petBranches unique).IsWritable ["Pet"] ["Slug"] := by
  have hparts {P : Validator → Prop} : (∀ u, (petBranches unique).Part u → P u) ↔
      P (petBranches unique) ∧ P (.literal [.str "], Slug"]) ∧
        P (.array (.named "Pet") { min := some (.int 1) } unique) ∧ P (.named "Pet") ∧
        P (.custom "Slug") := by
    simp [petBranches, forall_part_iff (.union _), forall_part_iff (.literal _),
      forall_part_iff (.array _ _ _), forall_part_iff (.named _), forall_part_iff (.custom _),
      children, and_assoc]
  refine ⟨⟨hparts.2 ?_, hparts.2 ?_⟩, hparts.2 ?_, hparts.2 ?_⟩
  · simp [petBranches, floats, Extent.floats, Extent.bounds, Value.floats, Scalar.floats]
  · simp [petBranches, extent, Extent.IsPlain, Extent.bounds]
  · simp [petBranches, isModel]
  · simp [petBranches]

/-- Whether the items of the list have to be different can be told from the text. -/
theorem text_petBranches_ne :
    (petBranches true).IsWritable ["Pet"] ["Slug"] ∧
      (petBranches false).IsWritable ["Pet"] ["Slug"] ∧
      ∃ e e', Module.Expr.ofValidator (petBranches true) = .ok e ∧
        Module.Expr.ofValidator (petBranches false) = .ok e' ∧ e.text ≠ e'.text := by
  have hnames : ∀ n ∈ ["Pet"] ++ ["Slug"], Module.Expr.IsFreeName n := by
    simp only [cons_append, nil_append, forall_mem_cons]
    exact ⟨⟨by decide, by decide, by decide, by decide⟩,
      ⟨by decide, by decide, by decide, by decide⟩, by simp⟩
  have hv := isWritable_petBranches true
  have hw := isWritable_petBranches false
  obtain ⟨e, e', he, he', htext⟩ := Module.Expr.eq_of_text_eq hnames (by simp) hv hw
  exact ⟨hv, hw, e, e', he, he', fun h => by simpa [petBranches] using htext h⟩

end Validator

end ApiSchema
