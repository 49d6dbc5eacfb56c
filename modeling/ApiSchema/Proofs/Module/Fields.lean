import ApiSchema.Module.Layout
import ApiSchema.Proofs.Name.Registry
import ApiSchema.Proofs.Outcome

/-!
# Names of fields

Main statement: whatever the keys of an object and the names of the module are, the fields of its
model have different names, each of them a plain identifier that nothing else in a model has. The
search for a number behind a name ends at the least one that makes the name free.
-/

namespace ApiSchema

open List Except

open Name.Registry (numbered freeNumber freeNumber_isLeast)

/-- A letter followed by letters, digits and underscores, all of them ASCII. -/
def Name.IsPlain (s : String) : Prop :=
  (∃ c ∈ s.toList.head?, c.isAlpha) ∧ ∀ c ∈ s.toList, c.isAlphanum ∨ c = '_'

namespace Name

variable {s t : String}

variable {c : Char}

lemma IsPlain.append (hs : IsPlain s) (ht : ∀ c ∈ t.toList, c.isAlphanum ∨ c = '_') :
    IsPlain (s ++ t) := by
  obtain ⟨⟨c, hc, halpha⟩, hall⟩ := hs
  refine ⟨⟨c, ?_, halpha⟩, ?_⟩
  · rw [String.toList_append, List.head?_append, hc]
    rfl
  · simp only [String.toList_append, mem_append]
    rintro d (hd | hd)
    · exact hall d hd
    · exact ht d hd

lemma isDigit_of_mem_toString {n : Nat} (hc : c ∈ (toString n).toList) : c.isDigit := by
  rw [Nat.toString_eq_repr, Nat.toList_repr] at hc
  exact Nat.isDigit_of_mem_toDigits (by norm_num) (by norm_num) hc

lemma IsPlain.numbered (hs : IsPlain s) (k : Nat) : IsPlain (Registry.numbered s k) := by
  refine (hs.append (t := "_") (by simp)).append fun c hc => .inl ?_
  rw [Char.isAlphanum, isDigit_of_mem_toString hc, Bool.or_true]

lemma not_isAlpha_of_isDigit (h : c.isDigit) : ¬ c.isAlpha := by
  simp only [Char.isDigit, Char.isAlpha, Char.isUpper, Char.isLower, Bool.and_eq_true,
    Bool.or_eq_true, decide_eq_true_eq, ge_iff_le, UInt32.le_iff_toNat_le] at h ⊢
  have : '9'.val.toNat = 57 := rfl
  have : 'A'.val.toNat = 65 := rfl
  have : 'a'.val.toNat = 97 := rfl
  omega

/-- A numbered name ends in a digit. -/
lemma exists_getLast?_numbered (s : String) (k : Nat) :
    ∃ c, (Registry.numbered s k).toList.getLast? = some c ∧ c.isDigit := by
  have hne : (toString k).toList ≠ [] := by
    rw [Nat.toString_eq_repr, Nat.toList_repr]
    exact Nat.toDigits_ne_nil
  refine ⟨(toString k).toList.getLast hne, ?_, ?_⟩
  · rw [Registry.numbered, String.toList_append, List.getLast?_append,
      List.getLast?_eq_getLast_of_ne_nil hne]
    rfl
  · exact isDigit_of_mem_toString (getLast_mem hne)

lemma fieldStem_spec (key : String) : (∃ c ∈ (fieldStem key).head?, c ≠ '_') ∧
    ∀ c ∈ fieldStem key, c.isAlphanum ∨ c = '_' := by
  unfold fieldStem
  set cs := key.toList.map fun c => if c.isAlphanum || c == '_' then c else '_' with hcs
  have hall : ∀ c ∈ cs, c.isAlphanum ∨ c = '_' := by
    rw [hcs, forall_mem_map]
    intro c _
    split_ifs with hc
    · simpa using hc
    · exact .inr rfl
  by_cases hempty : (cs.dropWhile (· == '_')).isEmpty
  · rw [if_pos hempty]
    exact ⟨⟨'f', rfl, by decide⟩, by simp⟩
  · rw [if_neg hempty, List.isEmpty_iff] at *
    obtain ⟨c, rest, hrest⟩ := exists_cons_of_ne_nil hempty
    refine ⟨⟨c, by simp [hrest], ?_⟩, fun d hd => hall d ((dropWhile_suffix _).subset hd)⟩
    have hhead := head_dropWhile_not (· == '_') hempty
    simpa [hrest] using hhead

lemma isPlain_field_ {s : String} (hs : ∀ c ∈ s.toList, c.isAlphanum ∨ c = '_') :
    IsPlain ("field_" ++ s) :=
  IsPlain.append ⟨⟨'f', rfl, by decide⟩, by simp⟩ hs

/-- A field name is plain, and ends in an underscore or is no reserved word. -/
lemma field_spec (key : String) : IsPlain (field key) ∧
    ((∃ s, field key = s ++ "_") ∨ ¬ isKeyword (field key)) := by
  obtain ⟨⟨c, hc, hne⟩, hall⟩ := fieldStem_spec key
  obtain ⟨rest, hstem⟩ := List.head?_eq_some_iff.1 hc
  set stem := if c.isDigit then "field_".toList ++ fieldStem key else fieldStem key with hdef
  have hplain : IsPlain (String.ofList stem) := by
    rw [hdef]
    split_ifs with hdigit
    · rw [String.ofList_append]
      exact isPlain_field_ (by simpa using hall)
    · refine ⟨⟨c, by simpa using hc, ?_⟩, by simpa using hall⟩
      have halnum := (hall c (by simp [hstem])).resolve_right hne
      simpa [Char.isAlphanum, hdigit] using halnum
  have hfield : field key = if "model_".toList.isPrefixOf stem then "field_" ++ String.ofList stem
      else if isKeyword (String.ofList stem) || modelAttributes.contains (String.ofList stem) then
        String.ofList stem ++ "_"
      else String.ofList stem := by
    rw [hdef, field]
    simp only [hstem]
  have hwords : ∀ s ∈ keywords, '_' ∉ s.toList := by decide +kernel
  rw [hfield]
  split_ifs with hmodel hreserved
  · refine ⟨isPlain_field_ hplain.2, .inr fun h => ?_⟩
    rw [isKeyword, contains_iff_mem] at h
    exact hwords _ h (by simp)
  · exact ⟨hplain.append (by simp), .inl ⟨_, rfl⟩⟩
  · refine ⟨hplain, .inr fun h => hreserved ?_⟩
    rw [h, Bool.true_or]

end Name

namespace Module

variable {outer used : List String} {key name : String}

variable {c : Char} {names : List String} {cs : List (List Declaration)} {bs : List Block}
  {f : ModelField} {n : String}

/-- A name that a field can have: plain, no reserved word, and not that of an attribute or of the
check on the number of properties. -/
structure IsFieldName (name : String) : Prop where
  plain : Name.IsPlain name
  unreserved : ¬ Name.isKeyword name
  ne_attribute : name ∉ Name.modelAttributes
  ne_check : name ≠ countCheckName

/-- Nothing else in a model has a name that ends otherwise than in a letter. -/
lemma isFieldName_of_ends (hplain : Name.IsPlain name) (hname : name.toList.getLast? = some c)
    (hc : ¬ c.isAlpha) : IsFieldName name := by
  have hends : ∀ s ∈ Name.keywords ++ Name.modelAttributes ++ [countCheckName],
      s.toList.getLast?.any Char.isAlpha := by decide +kernel
  have hne : name ∉ Name.keywords ++ Name.modelAttributes ++ [countCheckName] := by
    intro h
    have := hends name h
    rw [hname, Option.any_some] at this
    exact hc this
  simp only [mem_append, mem_singleton, not_or] at hne
  refine ⟨hplain, fun h => hne.1.1 ?_, hne.1.2, hne.2⟩
  rwa [Name.isKeyword, contains_iff_mem] at h

/-- A name before it is told apart is outside of the names to avoid, or ends in an underscore. -/
lemma fieldBase_spec (outer : List String) (key : String) : IsFieldName (fieldBase outer key) ∧
    (fieldBase outer key ∉ outer ∨ ∃ s, fieldBase outer key = s ++ "_") := by
  obtain ⟨hplain, hends⟩ := Name.field_spec key
  have hunder {s : String} (hs : Name.IsPlain (s ++ "_")) : IsFieldName (s ++ "_") :=
    isFieldName_of_ends hs (c := '_') (by simp) (by decide)
  unfold fieldBase
  dsimp only
  split_ifs with hhidden
  · exact ⟨hunder (hplain.append (by simp)), .inr ⟨_, rfl⟩⟩
  · simp only [Bool.or_eq_true, contains_iff_mem, beq_iff_eq, not_or] at hhidden
    refine ⟨?_, .inl hhidden.1.1⟩
    obtain ⟨s, hs⟩ | hkeyword := hends
    · rw [hs] at hplain ⊢
      exact hunder hplain
    · exact ⟨hplain, hkeyword, hhidden.1.2, hhidden.2⟩

lemma fieldName_eq (outer used : List String) (key : String) : fieldName outer used key =
    if fieldBase outer key ∈ used then
      numbered (fieldBase outer key) (freeNumber used (fieldBase outer key) 1)
    else fieldBase outer key := by
  simp only [fieldName, freeNumber, numbered, contains_iff_mem, Nat.add_comm _ 2]

lemma fieldName_not_mem (outer used : List String) (key : String) :
    fieldName outer used key ∉ used := by
  rw [fieldName_eq]
  split_ifs with h
  · exact (freeNumber_isLeast used _ 1).1.2
  · exact h

lemma isFieldName_fieldName (outer used : List String) (key : String) :
    IsFieldName (fieldName outer used key) := by
  have hbase := (fieldBase_spec outer key).1
  rw [fieldName_eq]
  split_ifs
  · obtain ⟨c, hc, hdigit⟩ := Name.exists_getLast?_numbered (fieldBase outer key) _
    exact isFieldName_of_ends (hbase.plain.numbered _) hc (Name.not_isAlpha_of_isDigit hdigit)
  · exact hbase

/-- The names that the fields of these keys have, in order, beside the names in use. -/
def fieldNames (outer used : List String) : List String → List String
  | [] => []
  | key :: keys =>
    let name := fieldName outer used key
    name :: fieldNames outer (used ++ [name]) keys

lemma map_name_modelFields {fields : List (FieldOf Validator)} {made : List ModelField}
    (h : modelFields outer used fields = .ok made) :
    made.map (·.name) = fieldNames outer used (fields.map (·.key)) := by
  induction fields generalizing used made with
  | nil =>
    cases h
    rfl
  | cons f fields ih =>
    obtain ⟨type, -, h⟩ := bind_eq_ok_iff.1 h
    obtain ⟨rest, hrest, h⟩ := bind_eq_ok_iff.1 h
    cases h
    exact congrArg (_ :: ·) (ih hrest)

lemma forall_mem_fieldNames {P : String → Prop} (keys : List String)
    (h : ∀ used key, P (fieldName outer used key)) : ∀ name ∈ fieldNames outer used keys, P name := by
  induction keys generalizing used with
  | nil => nofun
  | cons key keys ih => exact forall_mem_cons.2 ⟨h used key, ih⟩

lemma nodup_fieldNames (outer used keys : List String) :
    (fieldNames outer used keys).Nodup ∧ ∀ name ∈ fieldNames outer used keys, name ∉ used := by
  induction keys generalizing used with
  | nil => exact ⟨.nil, nofun⟩
  | cons key keys ih =>
    obtain ⟨hnodup, hfresh⟩ := ih (used ++ [fieldName outer used key])
    simp only [mem_append, mem_singleton, not_or] at hfresh
    refine ⟨nodup_cons.2 ⟨fun h => (hfresh _ h).2 rfl, hnodup⟩, ?_⟩
    exact forall_mem_cons.2 ⟨fieldName_not_mem outer used key, fun name h => (hfresh name h).1⟩

/-- The fields of a model have different names that are free to use, whatever their keys are: a name
that is in use gets the least number from 2 on that makes it free. -/
theorem wellFormed_fieldNames (moduleNames keys : List String) :
    (fieldNames (outerNames moduleNames) [] keys).length = keys.length ∧
      (fieldNames (outerNames moduleNames) [] keys).Nodup ∧
      (∀ name ∈ fieldNames (outerNames moduleNames) [] keys, IsFieldName name) ∧
      (∀ used key, let base := fieldBase (outerNames moduleNames) key
        base ∉ used ∧ fieldName (outerNames moduleNames) used key = base ∨
          base ∈ used ∧ ∃ k, IsLeast {k | 1 < k ∧ numbered base k ∉ used} k ∧
            fieldName (outerNames moduleNames) used key = numbered base k) ∧
      ∀ fields made, modelFields (outerNames moduleNames) [] fields = .ok made →
        made.map (·.name) = fieldNames (outerNames moduleNames) [] (fields.map (·.key)) := by
  refine ⟨?_, (nodup_fieldNames _ _ _).1, forall_mem_fieldNames _ (isFieldName_fieldName _),
    fun used key => ?_, fun _ _ => map_name_modelFields⟩
  · generalize ([] : List String) = used
    induction keys generalizing used with
    | nil => rfl
    | cons key keys ih => exact congrArg Nat.succ (ih _)
  · dsimp only
    rw [fieldName_eq]
    split_ifs with h
    · exact .inr ⟨h, _, freeNumber_isLeast _ _ _, rfl⟩
    · exact .inl ⟨h, rfl⟩

theorem wellFormed_fieldNames_colliding :
    fieldNames (outerNames []) [] ["class", "class_", "a-b", "a_b", "a_b_2"] =
        ["class_", "class__2", "a_b", "a_b_2", "a_b_2_2"] ∧
      IsFieldName "class__2" ∧
      ∃ made, modelFields (outerNames []) [] [⟨"class", .null, true⟩] = .ok made ∧
        made.map (·.name) = fieldNames (outerNames []) [] ["class"] := by
  have hnames : fieldNames (outerNames []) [] ["class", "class_", "a-b", "a_b", "a_b_2"] =
      ["class_", "class__2", "a_b", "a_b_2", "a_b_2_2"] := by decide +kernel
  have h := wellFormed_fieldNames [] ["class", "class_", "a-b", "a_b", "a_b_2"]
  refine ⟨hnames, h.2.2.1 _ (by rw [hnames]; decide), _, rfl, ?_⟩
  exact h.2.2.2.2 [⟨"class", .null, true⟩] _ rfl

/-! ### Fields of blocks -/

/-- The fields of a block. -/
def Block.fields : Block → List ModelField
  | model _ _ _ fields _ => fields
  | _ => []

/-- A block is that of a declaration, or it completes the models of a component. -/
lemma mem_blocksOfComponents (hbs : blocksOfComponents names cs = .ok bs) {b : Block} (hb : b ∈ bs) :
    ∃ c ∈ cs, (∃ d ∈ c, Block.ofDeclaration names d = .ok b) ∨
      ∃ models ⊆ c.map (·.name), b = .complete models := by
  have hcompletion {c : List Declaration} (hb : b ∈ completion c) :
      ∃ models ⊆ c.map (·.name), b = .complete models := by
    unfold completion at hb
    split at hb
    · cases hb
    · exact ⟨_, map_subset _ (filter_subset_self _), mem_singleton.1 hb⟩
  have hof {ds : List Declaration} {bs : List Block} (hbs : blocksOf names ds = .ok bs)
      (hb : b ∈ bs) : ∃ d ∈ ds, Block.ofDeclaration names d = .ok b := by
    induction ds generalizing bs with
    | nil =>
      cases hbs
      cases hb
    | cons d ds ih =>
      obtain ⟨b', hb', hbs⟩ := bind_eq_ok_iff.1 hbs
      obtain ⟨rest, hrest, hbs⟩ := bind_eq_ok_iff.1 hbs
      cases hbs
      obtain rfl | hb := mem_cons.1 hb
      · exact ⟨d, mem_cons_self, hb'⟩
      · obtain ⟨e, he, hof⟩ := ih hrest hb
        exact ⟨e, mem_cons_of_mem _ he, hof⟩
  induction cs generalizing bs with
  | nil =>
    cases hbs
    cases hb
  | cons c cs ih =>
    obtain ⟨blocks, hblocks, hbs⟩ := bind_eq_ok_iff.1 hbs
    obtain ⟨others, hothers, hbs⟩ := bind_eq_ok_iff.1 hbs
    cases hbs
    obtain hb | hb := mem_append.1 hb
    · exact ⟨c, mem_cons_self, (mem_append.1 hb).imp (hof hblocks) hcompletion⟩
    · obtain ⟨c', hc', hb⟩ := ih hothers hb
      exact ⟨c', mem_cons_of_mem _ hc', hb⟩

/-- The fields of a block are named one after the other. -/
lemma exists_fieldName_of_mem_fields {d : Declaration} {b : Block}
    (hb : Block.ofDeclaration names d = .ok b) (hf : f ∈ b.fields) :
    ∃ used key, f.name = fieldName (outerNames names) used key := by
  have hmodel {fields : List (FieldOf Validator)} {forbidExtra : Bool} {extra : Option Expr}
      {count : Extent} (hb : (do
        let made ← modelFields (outerNames names) [] fields
        return Block.model d.name forbidExtra extra made count) = Except.ok b) :
      ∃ used key, f.name = fieldName (outerNames names) used key := by
    obtain ⟨made, hmade, hb⟩ := bind_eq_ok_iff.1 hb
    cases hb
    have hname : f.name ∈ made.map (·.name) := mem_map_of_mem hf
    rw [map_name_modelFields hmade] at hname
    exact forall_mem_fieldNames (P := fun name => ∃ used key, name = fieldName _ used key) _
      (fun used key => ⟨used, key, rfl⟩) _ hname
  rw [Block.ofDeclaration] at hb
  split at hb
  next =>
    simp only at hb
    split at hb <;> exact hmodel (bind_eq_ok_iff.1 hb).choose_spec.2
  next =>
    obtain ⟨e, -, hb⟩ := bind_eq_ok_iff.1 hb
    cases hb
    split at hf <;> cases hf

/-- So are those of all blocks of a module. -/
lemma exists_fieldName_of_mem (hbs : blocksOfComponents names cs = .ok bs) {b : Block} (hb : b ∈ bs)
    (hf : f ∈ b.fields) : ∃ used key, f.name = fieldName (outerNames names) used key := by
  obtain ⟨c, -, ⟨d, -, hof⟩ | ⟨models, -, rfl⟩⟩ := mem_blocksOfComponents hbs hb
  · exact exists_fieldName_of_mem_fields hof hf
  · cases hf

/-- A field has the name of something outside of the model only if it got an ending. -/
lemma fieldName_cases (h : fieldName outer used key = n) (hn : n ∈ outer) :
    (∃ s, n = s ++ "_") ∨ ∃ base k, n = numbered base k ∧ 1 < k ∧
      (base ∉ outer ∨ ∃ s, base = s ++ "_") := by
  have hbase := (fieldBase_spec outer key).2
  rw [fieldName_eq] at h
  split_ifs at h
  · exact .inr ⟨_, _, h.symm, (freeNumber_isLeast used _ 1).1.1, hbase⟩
  · rw [h] at hbase
    exact .inl (hbase.resolve_left (not_not_intro hn))

/-- So it does not have one that ends in a letter. -/
lemma fieldName_ne (hn : n ∈ outer) (hlast : n.toList.getLast? = some c) (hc : c.isAlpha) :
    fieldName outer used key ≠ n := by
  intro h
  obtain ⟨s, rfl⟩ | ⟨base, k, rfl, -⟩ := fieldName_cases h hn
  · obtain rfl : '_' = c := by simpa using hlast
    exact absurd hc (by decide)
  · obtain ⟨d, hd, hdigit⟩ := Name.exists_getLast?_numbered base k
    cases hd.symm.trans hlast
    exact Name.not_isAlpha_of_isDigit hdigit hc

lemma Symbol.name_mem_names (s : Symbol) : s.name ∈ Symbol.names :=
  mem_map_of_mem (by cases s <;> decide)

/-- No field has the name of a symbol or of a builtin. -/
lemma fieldName_not_mem_names (moduleNames used : List String) (key : String) :
    fieldName (outerNames moduleNames) used key ∉ Symbol.names ++ Builtin.all.map Builtin.name := by
  intro hmem
  have hends : ∀ n ∈ Symbol.names ++ Builtin.all.map Builtin.name,
      n.toList.getLast?.any Char.isAlpha := by decide +kernel
  obtain ⟨c, hlast, hc⟩ := (Option.any_eq_true _ _).1 (hends _ hmem)
  have houter : Symbol.names ++ Builtin.all.map Builtin.name ⊆ outerNames moduleNames := by
    rw [outerNames, append_assoc]
    exact subset_append_right _ _
  exact fieldName_ne (houter hmem) hlast hc rfl

end Module

end ApiSchema
