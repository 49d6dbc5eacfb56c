import ApiSchema.Proofs.Module.Binding

/-!
# Names that fields hide

The annotations of a model are read inside of the model, where its fields hide what has the same
name. Main statement: a field has the name of something that an expression of the module refers to
only on account of a validator from outside: it has the name of the validator, or that name with a
number, which a declaration got because the validator has its name.
-/

namespace ApiSchema

open List Traced

open Name.Registry (numbered)

/-- A numbered name is made from one name with one number. -/
lemma Name.Registry.numbered_inj {s t : String} {j k : Nat} (h : numbered s j = numbered t k) :
    s = t := by
  have hdigits (n : Nat) : ∀ c ∈ (toString n).toList.reverse, ¬ c = '_' := by
    rintro c hc rfl
    exact absurd (Name.isDigit_of_mem_toString (mem_reverse.1 hc)) (by decide)
  have hchars : (toString j).toList.reverse ++ '_' :: s.toList.reverse =
      (toString k).toList.reverse ++ '_' :: t.toList.reverse := by
    simpa [numbered] using congrArg (fun name : String => name.toList.reverse) h
  have hrest := (Text.append_inj_of_stop (hdigits j) (hdigits k) (by simp) (by simp) hchars).2
  exact String.toList_inj.1 (by simpa using hrest)

namespace Declarations

variable {lib : Library} {config : Config} {d : Declarations} {name : String}

/-- A declaration is named after a schema. It has a number behind its name only if the name was
reserved, or another declaration has it. -/
lemma exists_base_of_declarations (hd : (Generate.declarations lib config).outcome = .ok d)
    (hname : name ∈ d.names) : ∃ base, base.toList.getLast? = some 'a' ∧ (name = base ∨
      (∃ k, name = numbered base k) ∧ (base ∈ config.reservedNames ∨ base ∈ d.names)) := by
  obtain ⟨doc, t, hdoc, ht, hbuild⟩ := Generate.exists_of_declarations hd
  obtain ⟨⟨u, z⟩, hrun, rfl⟩ := Except.map_eq_ok_iff.1 hbuild
  obtain ⟨names, s, -, hcourse⟩ := exists_course extensible_true
    (fun _ => buildableAll_of_unnamed (fun v hv => Validator.not_part_named_of_mem_roots ht hv) _) hrun
  have hbuilt := hcourse.built rfl
    (by rw [Validator.keys_of_ofDocument ht]; exact Schema.nodup_keys_of_resolve hdoc)
  obtain ⟨e, he, rfl⟩ := mem_map.1 hname
  obtain ⟨stem, hmade⟩ := hbuilt.beside e he
  generalize hbase : config.registry.start ++ (stem ++ schemaSuffix) = base at hmade
  generalize e.name = name at hmade
  refine ⟨base, by simp [← hbase, schemaSuffix], ?_⟩
  cases hmade with
  | plain => exact .inl rfl
  | numbered k hused =>
    refine .inr ⟨⟨k, rfl⟩, (hbuilt.used base hused).imp (fun h => Text.mem_distinct.1 h) fun h => ?_⟩
    exact hbuilt.names_subset (mem_append.2 h)

/-- A field has the name of a declaration only if both got a number behind the name of a validator
from outside. -/
lemma exists_validator_of_fieldName (hd : (Generate.declarations lib config).outcome = .ok d)
    {names used : List String} {key : String} (hnames : d.names ⊆ names) (hmem : name ∈ d.names)
    (hname : Module.fieldName (Module.outerNames names) used key = name) :
    ∃ base ∈ config.formats.validators, ∃ k, 1 < k ∧ name = numbered base k := by
  have houter : d.names ⊆ Module.outerNames names := fun n hn =>
    mem_append_left _ (mem_append_left _ (hnames hn))
  obtain ⟨base, hlast, rfl | ⟨⟨k, rfl⟩, hused⟩⟩ := exists_base_of_declarations hd hmem
  · exact absurd hname (Module.fieldName_ne (houter hmem) hlast (by decide))
  obtain ⟨s, heq⟩ | ⟨base', k', heq, hk, hbase⟩ := Module.fieldName_cases hname (houter hmem)
  · obtain ⟨c, hc, hdigit⟩ := Name.exists_getLast?_numbered base k
    obtain rfl : '_' = c := by simpa [heq] using hc
    cases hdigit
  · obtain rfl := Name.Registry.numbered_inj heq
    -- The name was in use, though the field could have had it: only a validator from outside is
    -- known to declarations, but not to fields.
    have hfree : base ∉ Module.outerNames names := hbase.resolve_right (by
      rintro ⟨s, rfl⟩
      simp at hlast)
    have hreserved := hused.resolve_right fun h => hfree (houter h)
    obtain hreserved | hvalidator := mem_append.1 hreserved
    · obtain hsymbol | hlookup := mem_append.1 hreserved
      · exact absurd (mem_append_left _ (mem_append_right _ hsymbol)) hfree
      · fin_cases hlookup <;> simp at hlast
    · exact ⟨base, hvalidator, k', hk, heq⟩

end Declarations

/-- A field that has the name of something that an expression refers to has the name of a validator
from outside, or that name with the number that a declaration got for it; or the expression holds an
infinite number, and its text is meant. -/
theorem generate_captures {lib : Library} {config : Config} {text : String}
    (h : (generate lib config).outcome = .ok text) :
    ∃ d m, (Generate.declarations lib config).outcome = .ok d ∧
      (Generate.module d config).outcome = .ok m ∧ text = m.text ∧
      ((∀ name ∈ d.names ++ config.formats.validators, Name.isIdentifier name) →
        ∀ b ∈ m.blocks, ∀ e ∈ b.exprs, Scan.names e.text = e.words) ∧
      ∀ b ∈ m.blocks, ∀ f ∈ b.fields, ∀ b' ∈ m.blocks, ∀ e ∈ b'.exprs, f.name ∈ e.words →
        f.name ∈ config.formats.validators ∨
        (f.name ∈ d.names ∧ ∃ base ∈ config.formats.validators, ∃ k, 1 < k ∧
          f.name = numbered base k) ∨
        f.name = "inf" ∧ e.HoldsInfinite := by
  obtain ⟨d, hd, h⟩ := outcome_bind_eq_ok_iff.1 h
  obtain ⟨m, hm, h⟩ := outcome_bind_eq_ok_iff.1 h
  obtain ⟨_, -, h⟩ := outcome_bind_eq_ok_iff.1 h
  cases h
  obtain ⟨names, cs, hblocks, hnames, -, hover⟩ :=
    Generate.exists_blocksOfComponents_of_module hd hm
  refine ⟨d, m, hd, hm, rfl, fun hidentifier b hb e he => ?_, fun b hb f hf b' hb' e he hword => ?_⟩
  · rw [(e.reads_text hidentifier (hover b hb e he)).names, e.words_eq]
  obtain ⟨used, key, hname⟩ := Module.exists_fieldName_of_mem hblocks hb hf
  have hfield := Module.isFieldName_fieldName (Module.outerNames names) used key
  have hfree := Module.fieldName_not_mem_names names used key
  have hwords := Module.Expr.isWord_of_mem_words (hover b' hb' e he) hword
  rw [← hname] at hfield hfree
  generalize f.name = n at hname hfield hfree hwords
  cases hwords with
  | @symbol s hs => exact absurd (mem_append_left _ (Module.Symbol.name_mem_names s)) hfree
  | builtin t =>
    refine absurd (mem_append_right _ (mem_map_of_mem ?_)) hfree
    cases t <;> decide
  | constant hconstant => fin_cases hconstant <;> exact absurd rfl hfield.unreserved
  | infinite hinfinite => exact .inr (.inr ⟨rfl, _, hinfinite⟩)
  | known hknown =>
    obtain hdeclared | hvalidator := mem_append.1 hknown
    · exact .inr (.inl ⟨hdeclared,
        Declarations.exists_validator_of_fieldName hd hnames hdeclared hname.symm⟩)
    · exact .inl hvalidator

/-- A user may hold another one. Properties have the name of a validator from outside, and that of
the model, which has its number on account of another such validator. -/
def hidingLibrary : Library :=
  Library.ofTable ""
    (.object [("components", .object [("schemas", .object [("User", .object
      [("type", .str "object"), ("properties", .object
        [("Unit", .object [("type", .str "string"), ("format", .str "unit")]),
          ("UserSchema", .object []),
          ("_UserSchema", .object [("$ref", .str "#/components/schemas/User")])])])])])])
    []

def hidingConfig : Config where
  formats := ⟨[("unit", "Unit"), ("user", "UserSchema")]⟩

theorem hiding_captures :
    ∃ text d m, (generate hidingLibrary hidingConfig).outcome = .ok text ∧
      (Generate.declarations hidingLibrary hidingConfig).outcome = .ok d ∧
      (Generate.module d hidingConfig).outcome = .ok m ∧
      m.blocks.map (fun b => (b.fields.map (·.name), b.exprs.map fun e => Scan.names e.text)) =
        [(["Unit", "UserSchema", "UserSchema_2"], [["BaseModel"], ["ConfigDict"], ["Unit"],
          ["None"], ["Any"], ["None"], ["UserSchema_2"], ["Field", "None"]]),
          ([], [["UserSchema_2"]])] ∧
      (∀ b ∈ m.blocks, ∀ e ∈ b.exprs, Scan.names e.text = e.words) ∧
      ∀ b ∈ m.blocks, ∀ f ∈ b.fields, ∀ b' ∈ m.blocks, ∀ e ∈ b'.exprs, f.name ∈ e.words →
        f.name ∈ hidingConfig.formats.validators ∨
        (f.name ∈ d.names ∧ ∃ base ∈ hidingConfig.formats.validators, ∃ k, 1 < k ∧
          f.name = numbered base k) ∨
        f.name = "inf" ∧ e.HoldsInfinite := by
  have hfound : (match (Generate.declarations hidingLibrary hidingConfig).outcome with
      | .error _ => none
      | .ok d => match (Generate.module d hidingConfig).outcome with
        | .error _ => none
        | .ok m => some (d.names, m.blocks.map fun b =>
          (b.fields.map (·.name), b.exprs.map fun e => Scan.names e.text))) =
      some (["UserSchema_2"], [(["Unit", "UserSchema", "UserSchema_2"], [["BaseModel"],
        ["ConfigDict"], ["Unit"], ["None"], ["Any"], ["None"], ["UserSchema_2"],
        ["Field", "None"]]), ([], [["UserSchema_2"]])]) := by decide +kernel
  have hok : (generate hidingLibrary hidingConfig).outcome.isOk := by decide +kernel
  obtain ⟨text, htext⟩ := Except.isOk_iff.1 hok
  obtain ⟨d, m, hd, hm, -, hwords, hcaptures⟩ := generate_captures htext
  simp only [hd, hm, Option.some.injEq, Prod.mk.injEq] at hfound
  refine ⟨text, d, m, htext, hd, hm, hfound.2, hwords ?_, hcaptures⟩
  rw [hfound.1]
  decide

end ApiSchema
