import ApiSchema.Proofs.Module.Failure
import ApiSchema.Proofs.Module.Fields
import ApiSchema.Proofs.Module.Words

/-!
# Names in modules are bound

Blocks are made of expressions and of text between them. Main statement: a name that an expression
of a module refers to is imported, built in, declared by the module or supplied from outside, or it
is the text of an infinite number that the expression holds.
-/

namespace ApiSchema

open List Except Traced

/-! ### Validators from outside -/

namespace Validator

/-- A validator from outside that a document uses is that of a format. -/
lemma mem_validators_of_mem_roots {ctx : Context} {includeRoutes : Bool} {t : Validators}
    (ht : (ofDocument ctx includeRoutes).outcome = .ok t) {v : Validator} (hv : v ∈ t.roots)
    {name : String} (hpart : v.Part (.custom name)) : name ∈ ctx.formats.validators := by
  obtain ⟨node, -, hof⟩ := exists_node_of_mem_roots ht hv
  obtain ⟨format, hformat⟩ := stemsFrom_of_ofNodeWithin _ node v hof _ hpart
  exact Text.mem_distinct.2 (mem_map.2 ⟨_, mem_of_lookup hformat, rfl⟩)

end Validator

namespace Declarations

open Validator

section

variable {plan : Plan} {bound : List (String × String)} {v w : Validator} {name : String}

/-- What is put in the place of parts is no validator from outside. -/
lemma Inlined.part_custom (h : Inlined plan bound v w) (hpart : w.Part (.custom name)) :
    v.Part (.custom name) := by
  induction v using children_induction generalizing w with
  | step v ih =>
    cases h with
    | target _ | shared _ _ =>
      obtain hself | ⟨c, hc, -⟩ := hpart.eq_or_child
      · cases hself
      · cases hc
    | kept _ _ hresembles hchildren =>
      obtain rfl | ⟨d, hd, hpart⟩ := hpart.eq_or_child
      · cases hresembles
        exact .refl
      · obtain ⟨c, hc, hcd⟩ := exists_left_of_forall₂ hchildren hd
        exact (ih c hc hcd hpart).of_child hc

lemma Opened.part_custom (h : Opened plan bound v w) (hpart : w.Part (.custom name)) :
    v.Part (.custom name) := by
  obtain rfl | ⟨d, hd, hpart⟩ := hpart.eq_or_child
  · cases h.resembles
    exact .refl
  · obtain ⟨c, hc, hcd⟩ := exists_left_of_forall₂ h.children hd
    exact (hcd.part_custom hpart).of_child hc

end

/-- Declarations refer to each other and to validators of formats. -/
lemma refersTo_of_declarations {lib : Library} {config : Config} {d : Declarations}
    (hd : (Generate.declarations lib config).outcome = .ok d) {e : Declaration}
    (he : e ∈ d.entries) : e.validator.RefersTo (d.names ++ config.formats.validators) := by
  obtain ⟨doc, t, hdoc, ht, hbuild⟩ := Generate.exists_of_declarations hd
  obtain ⟨d₀, hd₀, hmade, hentries, -⟩ := exists_ofValidators hdoc ht fingerprint
  cases hd₀.symm.trans hbuild
  obtain ⟨⟨u, z⟩, hrun, rfl⟩ := map_eq_ok_iff.1 hbuild
  set registered : Validator → Prop :=
    fun v => ∀ name, v.Part (.custom name) → name ∈ config.formats.validators
  have hbuildable (plan : Plan) (v : Validator) (hv : v ∈ t.roots) :
      Buildable plan registered v := by
    have hroot : registered v := fun name hpart => mem_validators_of_mem_roots ht hv hpart
    exact ⟨⟨fun u hu _ name hpart => hroot name (hu.trans hpart), not_part_named_of_mem_roots ht hv⟩,
      fun _ => hroot⟩
  have hall : Extensible fun _ => True := by constructor <;> intros <;> trivial
  obtain ⟨names, -, hbuilt⟩ := built_of_build hall (show config.registry.bound = [] from rfl)
    (by rw [keys_of_ofDocument ht]; exact Schema.nodup_keys_of_resolve hdoc)
    (fun plan _ _ p hp => ⟨hbuildable plan p.2 (mem_roots_of_mem_definitions hp), trivial⟩)
    (fun plan _ _ r hr =>
      ⟨fun p hp => ⟨hbuildable plan p.2 (mem_roots_of_mem_routes hr (.inl hp)), trivial⟩,
        fun p hp => ⟨hbuildable plan p.2 (mem_roots_of_mem_routes hr (.inr hp)), trivial⟩⟩) hrun
  rintro name (hpart | hpart)
  · exact mem_append_left _ ((hentries e he).mem_of_part hpart)
  · refine mem_append_right _ ?_
    by_cases hbound : e.name ∈ z.boundNames
    · obtain ⟨b, hb, hname⟩ := mem_map.1 hbound
      obtain ⟨v, w, pointer, hv, -, hopened, hentry⟩ := hbuilt.bound b hb
      obtain rfl := eq_of_name_eq hmade.nodup hentry he hname
      exact hv name (hopened.part_custom hpart)
    · obtain ⟨other, hother⟩ := hbuilt.unbound e he hbound
      rw [hother] at hpart
      obtain hself | ⟨c, hc, -⟩ := hpart.eq_or_child
      · cases hself
      · cases hc

end Declarations

/-! ### Expressions of blocks -/

namespace Module

variable {s : Symbol}

/-- A piece of a line: text as it stands, or an expression. -/
inductive Piece where
  | plain (text : String)
  | expr (e : Expr)

namespace Piece

def text : Piece → String
  | plain text => text
  | expr e => e.text

def expr? : Piece → Option Expr
  | plain _ => none
  | expr e => some e

def symbols : Piece → List Symbol
  | plain _ => []
  | expr e => e.symbols

end Piece

/-- The text of a line. -/
def lineText (line : List Piece) : String :=
  String.join (line.map Piece.text)

namespace Block

/-- The pieces of the line of a field. -/
def fieldPieces (f : ModelField) : List Piece :=
  let renamed : List (String × Value) := if f.name = f.key then [] else [("alias", .str f.key)]
  let default : List (String × Value) := if f.required then [] else [("default", .null)]
  let value : List Piece :=
    if renamed.isEmpty then
      if f.required then [] else [.plain " = ", .expr (.literal .null)]
    else [.plain " = ", .expr (.call (.symbol .field) [] (default ++ renamed))]
  [.plain ("    " ++ f.name ++ ": "), .expr f.type] ++ value

/-- The pieces of the line for additional properties. -/
def extraPieces (e : Expr) : List Piece :=
  [.plain "    __pydantic_extra__: ", .expr (.index (.builtin .dict) [.builtin .str, e]),
    .plain " = ", .expr (.call (.symbol .field) [] [("init", .bool false)])]

/-- The pieces of the line that checks the number of properties. -/
def countPieces (count : Extent) : List Piece :=
  [.plain ("    " ++ countCheckName ++ " = "), .expr (countCheck count)]

/-- The pieces of the lines of a model. -/
def modelPieces (name : String) (forbidExtra : Bool) (extra : Option Expr)
    (fields : List ModelField) (count : Extent) : List (List Piece) :=
  let head : List (List Piece) :=
    [[.plain ("class " ++ name ++ "("), .expr (.symbol .baseModel), .plain "):"],
      [.plain "    model_config = ", .expr (.call (.symbol .configDict) []
        [("extra", .str (if forbidExtra then "forbid" else "allow"))])]]
  let body := extra.toList.map extraPieces ++ fields.map fieldPieces
  let check := if count.isEmpty then [] else [[], countPieces count]
  if body.isEmpty && check.isEmpty then head else head ++ [[]] ++ body ++ check

/-- The pieces of a block, line by line. -/
def pieces : Block → List (List Piece)
  | model name forbidExtra extra fields count => modelPieces name forbidExtra extra fields count
  | assignment name e => [[.plain (name ++ " = "), .expr e]]
  | deferred name e => [[.plain (name ++ " = "), .expr (.call (.symbol .typeAliasType)
      [.literal (.str name), .literal (.str e.text)] [])]]
  | complete names => names.map fun name => [.expr (.name name), .plain ".model_rebuild()"]

/-- The expression that a block holds as text. -/
def held : Block → List Expr
  | deferred _ e => [e]
  | _ => []

/-- All expressions of a block. -/
def exprs (b : Block) : List Expr :=
  b.pieces.flatten.filterMap Piece.expr? ++ b.held

lemma lineText_fieldPieces (f : ModelField) : lineText (fieldPieces f) = fieldLine f := by
  unfold fieldPieces fieldLine
  by_cases hname : f.name = f.key <;> cases f.required <;>
    simp [hname, lineText, Piece.text, String.join, Expr.text, Value.literal, Scalar.literal,
      String.append_assoc]

lemma map_lineText_modelPieces (name : String) (forbidExtra : Bool) (extra : Option Expr)
    (fields : List ModelField) (count : Extent) :
    (modelPieces name forbidExtra extra fields count).map lineText =
      modelLines name forbidExtra extra fields count := by
  unfold modelPieces modelLines
  extract_lets head body check config headLines value extraLines bodyLines checkLines
  have hhead : head.map lineText = headLines := by
    simp [head, headLines, config, lineText, Piece.text, String.join, Expr.text]
  have hbody : body.map lineText = bodyLines := by
    have hextra : (extra.toList.map extraPieces).map lineText = extraLines := by
      cases extra <;> simp [extraLines, value, extraPieces, lineText, Piece.text, String.join,
        String.append_assoc]
    rw [map_append, hextra, map_map]
    exact congrArg _ (map_congr_left fun f _ => lineText_fieldPieces f)
  have hcheck : check.map lineText = checkLines := by
    simp only [check, checkLines]
    split <;> simp [countPieces, lineText, Piece.text, String.join, String.append_assoc]
  have hempty : (body.isEmpty && check.isEmpty) = (bodyLines.isEmpty && checkLines.isEmpty) := by
    rw [← hbody, ← hcheck, isEmpty_map, isEmpty_map]
  rw [hempty]
  split
  · exact hhead
  · rw [map_append, map_append, map_append, hhead, hbody, hcheck]
    rfl

/-- The text of a block is that of its pieces. -/
lemma text_eq (b : Block) : b.text = Text.join "\n" (b.pieces.map lineText) := by
  cases b with
  | model name forbidExtra extra fields count =>
    rw [pieces, map_lineText_modelPieces, text]
  | assignment name e => simp [text, pieces, lineText, Piece.text, String.join, Text.join]
  | deferred name e => simp [text, pieces, lineText, Piece.text, String.join, Text.join]
  | complete names =>
    rw [text, pieces, map_map]
    rfl

end Block

/-! ### Symbols and names of blocks -/

namespace Block

section

variable {known : List String} {count : Extent} {b : Block} {name : String} {forbidExtra : Bool}
  {extra : Option Expr} {fields : List ModelField} {e : Expr}

lemma mem_exprs : e ∈ b.exprs ↔ .expr e ∈ b.pieces.flatten ∨ e ∈ b.held := by
  have hexpr (p : Piece) : p.expr? = some e ↔ p = .expr e := by
    cases p <;> simp [Piece.expr?]
  simp only [exprs, mem_append, mem_filterMap, hexpr, exists_eq_right]

lemma mem_fieldPieces {f : ModelField} : .expr e ∈ fieldPieces f ↔
    e = f.type ∨ (f.name = f.key ∧ f.required = false ∧ e = .literal .null) ∨
      f.name ≠ f.key ∧ e = .call (.symbol .field) []
        ((if f.required then [] else [("default", .null)]) ++ [("alias", .str f.key)]) := by
  by_cases hname : f.name = f.key <;> cases hrequired : f.required <;>
    simp [fieldPieces, hname, hrequired]

lemma mem_exprs_model : e ∈ (model name forbidExtra extra fields count).exprs ↔
    e = .symbol .baseModel ∨ e = .call (.symbol .configDict) []
        [("extra", .str (if forbidExtra then "forbid" else "allow"))] ∨
      (∃ t ∈ extra, e = .index (.builtin .dict) [.builtin .str, t] ∨
        e = .call (.symbol .field) [] [("init", .bool false)]) ∨
      (∃ f ∈ fields, .expr e ∈ fieldPieces f) ∨ count.isEmpty = false ∧ e = countCheck count := by
  have hflatten (head body check : List (List Piece)) :
      (if body.isEmpty && check.isEmpty then head else head ++ [[]] ++ body ++ check).flatten =
        (head ++ body ++ check).flatten := by
    split
    next h => simp_all
    next => simp
  rw [mem_exprs, pieces, modelPieces, hflatten]
  cases extra <;> cases hcount : count.isEmpty <;>
    simp [held, extraPieces, countPieces, or_assoc]

/-- The symbols that a block says it uses are those of its expressions. -/
lemma mem_symbols_iff (b : Block) : s ∈ b.symbols ↔ ∃ e ∈ b.exprs, s ∈ e.symbols := by
  cases b with
  | model name forbidExtra extra fields count =>
    have hfield (f : ModelField) : (∃ e, .expr e ∈ fieldPieces f ∧ s ∈ e.symbols) ↔
        s ∈ f.type.symbols ∨ f.name ≠ f.key ∧ s = .field := by
      by_cases hname : f.name = f.key <;>
        simp [mem_fieldPieces, hname, or_and_right, exists_or, Expr.symbols, Expr.symbolsAll]
    have hfields : (∃ e, (∃ f ∈ fields, .expr e ∈ fieldPieces f) ∧ s ∈ e.symbols) ↔
        ∃ f ∈ fields, s ∈ f.type.symbols ∨ f.name ≠ f.key ∧ s = .field := by
      simp only [← hfield]
      grind
    simp only [mem_exprs_model, or_and_right, exists_or, exists_eq_left, hfields]
    cases extra <;> cases hcount : count.isEmpty <;>
      simp [Block.symbols, Expr.symbols, Expr.symbolsAll, hcount, or_assoc, or_left_comm]
  | assignment name e => simp [mem_exprs, pieces, held, Block.symbols]
  | deferred name e =>
    simp [mem_exprs, pieces, held, Block.symbols, Expr.symbols, Expr.symbolsAll, or_and_right,
      exists_or]
  | complete names => simp [mem_exprs, pieces, held, Block.symbols, Expr.symbols]

lemma forall_mem_modelFields {Q : Expr → Prop} {outer used : List String}
    {fields : List (FieldOf Validator)} {fs : List ModelField}
    (h : ∀ f ∈ fields, ∀ e, Expr.ofValidator f.validator = .ok e → Q e)
    (hfs : modelFields outer used fields = .ok fs) : ∀ f ∈ fs, Q f.type := by
  induction fields generalizing used fs with
  | nil =>
    cases hfs
    simp
  | cons f fields ih =>
    rw [modelFields] at hfs
    obtain ⟨type, htype, hfs⟩ := bind_eq_ok_iff.1 hfs
    obtain ⟨rest, hrest, hfs⟩ := bind_eq_ok_iff.1 hfs
    cases hfs
    exact forall_mem_cons.2 ⟨h f mem_cons_self type htype,
      ih (fun g hg => h g (mem_cons_of_mem _ hg)) hrest⟩

/-- The block of a declaration is a model with expressions for its parts, or it has one expression
for the whole. -/
lemma cases_of_ofDeclaration {moduleNames : List String} {d : Declaration} {Q : Expr → Prop}
    (hself : ∀ e, Expr.ofValidator d.validator = .ok e → Q e)
    (hchildren : ∀ c ∈ d.validator.children, ∀ e, Expr.ofValidator c = .ok e → Q e)
    (hb : ofDeclaration moduleNames d = .ok b) :
    (∃ forbidExtra extra fields count, b = model d.name forbidExtra extra fields count ∧
      (∀ e ∈ extra, Q e) ∧ ∀ f ∈ fields, Q f.type) ∨
    ∃ e, Q e ∧ (b = deferred d.name e ∨ b = assignment d.name e) := by
  rw [ofDeclaration] at hb
  split at hb
  next fields forbidExtra extra count hv =>
    rw [hv] at hchildren
    have hfields : ∀ f ∈ fields, ∀ e, Expr.ofValidator f.validator = .ok e → Q e := fun f hf =>
      hchildren _ (mem_append_left _ (mem_map_of_mem hf))
    simp only at hb
    split at hb
    next w =>
      obtain ⟨_, hextra, hb⟩ := bind_eq_ok_iff.1 hb
      obtain ⟨fs, hfs, hb⟩ := bind_eq_ok_iff.1 hb
      obtain ⟨e, he, rfl⟩ := map_eq_ok_iff.1 hextra
      cases hb
      refine .inl ⟨_, _, _, _, rfl, ?_, forall_mem_modelFields hfields hfs⟩
      rintro _ ⟨⟩
      exact hchildren w (by simp [Validator.children]) e he
    next =>
      obtain ⟨_, hextra, hb⟩ := bind_eq_ok_iff.1 hb
      obtain ⟨fs, hfs, hb⟩ := bind_eq_ok_iff.1 hb
      cases hextra
      cases hb
      exact .inl ⟨_, _, _, _, rfl, by simp, forall_mem_modelFields hfields hfs⟩
  next =>
    obtain ⟨e, he, hb⟩ := bind_eq_ok_iff.1 hb
    cases hb
    refine .inr ⟨e, hself e he, ?_⟩
    split
    · exact .inl rfl
    · exact .inr rfl

/-- All names in the expressions of a block are known. -/
def Over (known : List String) (b : Block) : Prop :=
  ∀ e ∈ b.exprs, e.Over known

lemma over_model (hextra : ∀ e ∈ extra, e.Over known) (hfields : ∀ f ∈ fields, f.type.Over known) :
    (model name forbidExtra extra fields count).Over known := by
  intro e he
  rcases mem_exprs_model.1 he with rfl | rfl | ⟨t, ht, rfl | rfl⟩ | ⟨f, hf, he⟩ | ⟨-, rfl⟩
  · simp
  · simp; decide
  · simpa using hextra t ht
  · simp; decide
  · rcases mem_fieldPieces.1 he with rfl | ⟨-, -, rfl⟩ | ⟨-, rfl⟩
    · exact hfields f hf
    · simp
    · cases f.required <;> simp <;> decide
  · simp [countCheck]; decide

lemma over_of_ofDeclaration {moduleNames : List String} {d : Declaration}
    (h : d.validator.RefersTo known) (hb : ofDeclaration moduleNames d = .ok b) : b.Over known := by
  obtain ⟨_, extra, fields, count, rfl, hextra, hfields⟩ | ⟨e, hover, rfl | rfl⟩ :=
    cases_of_ofDeclaration (fun e he => Expr.over_of_ofValidator h he)
      (fun c hc e he => Expr.over_of_ofValidator (h.child hc) he) hb
  · exact over_model hextra hfields
  · simpa [Over, mem_exprs, pieces, held] using hover
  · simpa [Over, mem_exprs, pieces, held] using hover

end

end Block

lemma over_of_blocksOfComponents {known names : List String} {cs : List (List Declaration)}
    {bs : List Block} (h : ∀ c ∈ cs, ∀ d ∈ c, d.name ∈ known ∧ d.validator.RefersTo known)
    (hbs : blocksOfComponents names cs = .ok bs) : ∀ b ∈ bs, b.Over known := by
  intro b hb
  obtain ⟨c, hc, ⟨d, hd, hof⟩ | ⟨models, hmodels, rfl⟩⟩ := mem_blocksOfComponents hbs hb
  · exact Block.over_of_ofDeclaration (h c hc d hd).2 hof
  · intro e he
    obtain ⟨n, hn, rfl⟩ : ∃ n ∈ models, e = .name n := by
      simpa [Block.mem_exprs, Block.pieces, Block.held] using he
    obtain ⟨d, hd, rfl⟩ := mem_map.1 (hmodels hn)
    exact Expr.over_name.2 (h c hc d hd).1

/-! ### Import lines -/

lemma Symbol.name_injective {s s' : Symbol} (h : s.name = s'.name) : s = s' := by
  have hs := Symbol.ofName_name s
  rw [h, Symbol.ofName_name] at hs
  exact (Except.ok.inj hs).symm

/-- The names that are imported from an origin. -/
def importedFrom (used : List Symbol) (origin : Origin) : List String :=
  Text.sorted (Text.distinct ((used.filter (·.origin == origin)).map Symbol.name))

lemma mem_importedFrom {name : String} {used : List Symbol} {origin : Origin} :
    name ∈ importedFrom used origin ↔ ∃ s ∈ used, s.origin = origin ∧ s.name = name := by
  simp [importedFrom, Text.sorted, mem_mergeSort, Text.mem_distinct, and_assoc]

/-- Lines that import the symbols with a property, each of them once and from its own origin. -/
structure IsListing (lines : List String) (p : Symbol → Prop)
    (listed : List (Origin × List String)) : Prop where
  lines_eq : lines =
    listed.map fun l => "from " ++ l.1.path ++ " import " ++ Text.join ", " l.2
  nodup : (listed.flatMap (·.2)).Nodup
  origin : ∀ l ∈ listed, ∀ n ∈ l.2, ∃ s : Symbol, s.name = n ∧ s.origin = l.1
  mem_iff : ∀ s : Symbol, s.name ∈ listed.flatMap (·.2) ↔ p s

/-- An origin with the names that are imported from it, if there are any. -/
def importsFrom (used : List Symbol) (origin : Origin) : Option (Origin × List String) :=
  match (used.filter (·.origin == origin)).map Symbol.name with
  | [] => none
  | _ => some (origin, importedFrom used origin)

lemma eq_of_importsFrom {used : List Symbol} {origin : Origin} {l : Origin × List String}
    (h : importsFrom used origin = some l) : l = (origin, importedFrom used origin) := by
  unfold importsFrom at h
  split at h
  · cases h
  · exact (Option.some.inj h).symm

lemma exists_isListing (used : List Symbol) :
    ∃ listed, IsListing (importLines used) (· ∈ used) listed := by
  have hmem (s : Symbol) :
      s.name ∈ (Origin.all.filterMap (importsFrom used)).flatMap (·.2) ↔ s ∈ used := by
    rw [mem_flatMap]
    constructor
    · rintro ⟨l, hl, hs⟩
      obtain ⟨origin, -, horigin⟩ := mem_filterMap.1 hl
      rw [eq_of_importsFrom horigin] at hs
      obtain ⟨s', hs', -, hname⟩ := mem_importedFrom.1 hs
      exact Symbol.name_injective hname ▸ hs'
    · intro hs
      have hname : s.name ∈ importedFrom used s.origin := mem_importedFrom.2 ⟨s, hs, rfl, rfl⟩
      refine ⟨(s.origin, _), mem_filterMap.2 ⟨s.origin, ?_, ?_⟩, hname⟩
      · cases s.origin <;> decide
      · simp only [importsFrom]
        split
        next hnone => simp [importedFrom, hnone, Text.distinct, Text.sorted] at hname
        next => rfl
  refine ⟨Origin.all.filterMap (importsFrom used), ?_, ?_, ?_, hmem⟩
  · rw [map_filterMap, importLines]
    congr 1
    funext origin
    simp only [importsFrom, importLine, importedFrom]
    generalize (used.filter (·.origin == origin)).map Symbol.name = names
    cases names <;> rfl
  · refine nodup_flatMap.2 ⟨fun l hl => ?_, ?_⟩
    · obtain ⟨origin, -, horigin⟩ := mem_filterMap.1 hl
      rw [eq_of_importsFrom horigin]
      exact (mergeSort_perm _ _).nodup_iff.2 (Text.nodup_distinct _)
    · refine List.Pairwise.filterMap (importsFrom used) ?_ (show Origin.all.Nodup by decide)
      rintro origin origin' hne _ hl _ hl' n hn hn'
      rw [eq_of_importsFrom hl] at hn
      rw [eq_of_importsFrom hl'] at hn'
      obtain ⟨s, -, hs, hname⟩ := mem_importedFrom.1 hn
      obtain ⟨s', -, hs', hname'⟩ := mem_importedFrom.1 hn'
      obtain rfl := Symbol.name_injective (hname.trans hname'.symm)
      exact hne (hs.symm.trans hs')
  · intro l hl n hn
    obtain ⟨origin, -, horigin⟩ := mem_filterMap.1 hl
    rw [eq_of_importsFrom horigin] at hn ⊢
    obtain ⟨s, -, hs, hname⟩ := mem_importedFrom.1 hn
    exact ⟨s, hname, hs⟩

/-! ### Names that are bound -/

/-- A name with a meaning in a module: it stands in an import line, it is known without import, a
block declares it, or it is supplied from outside for a format. -/
inductive Binds (m : Module) (formats : Format.Registry) : String → Prop
  | imported {origin name : String} {names : List String}
    (hline : "from " ++ origin ++ " import " ++ Text.join ", " names ∈ m.lines)
    (hname : name ∈ names) : Binds m formats name
  | builtin (b : Builtin) : Binds m formats b.name
  | constant {name : String} (h : name ∈ ["None", "True", "False"]) : Binds m formats name
  | declared {b : Block} {name : String} (hb : b ∈ m.blocks) (h : b.declares = some name) :
    Binds m formats name
  | registered {name : String} (h : name ∈ formats.validators) : Binds m formats name

/-- An infinite number stands in an expression. -/
def Expr.HoldsInfinite (e : Expr) : Prop :=
  ∃ negative, Scalar.float (.infinite negative) ∈ e.scalars

lemma importLines_subset_lines (m : Module) : importLines m.symbols ⊆ m.lines := by
  intro line hline
  have hne : (importLines m.symbols).isEmpty = false := by simpa using ne_nil_of_mem hline
  simp only [lines, paragraph, hne, Bool.false_eq_true, if_false, mem_append, mem_cons]
  tauto

lemma Binds.of_mem_symbols {m : Module} (hs : s ∈ m.symbols) (formats : Format.Registry) :
    m.Binds formats s.name := by
  obtain ⟨listed, hlisted⟩ := exists_isListing m.symbols
  obtain ⟨l, hl, hname⟩ := mem_flatMap.1 ((hlisted.mem_iff s).2 hs)
  have hline : "from " ++ l.1.path ++ " import " ++ Text.join ", " l.2 ∈ importLines m.symbols := by
    rw [hlisted.lines_eq]
    exact mem_map_of_mem hl
  exact .imported (m.importLines_subset_lines hline) hname

end Module

namespace Generate

/-- The blocks of a module are those of the components of the declarations. -/
lemma exists_components_of_module {d : Declarations} {config : Config} {m : Module}
    (h : (module d config).outcome = .ok m) :
    ∃ components, d.order.outcome = .ok components ∧
      Module.blocksOfComponents (components.flatten.map (·.name)) components = .ok m.blocks := by
  obtain ⟨components, hcomponents, h⟩ := outcome_bind_eq_ok_iff.1 h
  extract_lets next at h
  have hnext (lookup : Option Module.Lookup) (h : (next lookup).outcome = .ok m) :
      Module.blocksOfComponents (components.flatten.map (·.name)) components = .ok m.blocks := by
    obtain ⟨m', hm', h⟩ := outcome_bind_eq_ok_iff.1 h
    obtain ⟨_, -, h⟩ := outcome_bind_eq_ok_iff.1 h
    cases h
    obtain ⟨blocks, hblocks, h⟩ := bind_eq_ok_iff.1 hm'
    cases h
    exact hblocks
  refine ⟨components, hcomponents, ?_⟩
  split at h
  · obtain ⟨tables, -, h⟩ := outcome_bind_eq_ok_iff.1 h
    obtain ⟨lookup, -, h⟩ := outcome_bind_eq_ok_iff.1 h
    exact hnext lookup h
  · obtain ⟨lookup, -, h⟩ := outcome_bind_eq_ok_iff.1 h
    exact hnext lookup h

/-- The blocks of a module are made of symbols, and of names that are declared or registered. They
declare all declarations. -/
lemma exists_blocksOfComponents_of_module {lib : Library} {config : Config} {d : Declarations}
    {m : Module} (hd : (declarations lib config).outcome = .ok d)
    (hm : (module d config).outcome = .ok m) :
    ∃ names cs, Module.blocksOfComponents names cs = .ok m.blocks ∧ d.names ⊆ names ∧
      (∀ name ∈ d.names, ∃ b ∈ m.blocks, b.declares = some name) ∧
      ∀ b ∈ m.blocks, b.Over (d.names ++ config.formats.validators) := by
  have hnodup := (isSound_of_declarations hd).1.nodup
  obtain ⟨_, horder, hblocks⟩ := exists_components_of_module hm
  obtain rfl := Declarations.eq_map_marked_of_settleAll horder
  have hperm : ((d.components.map Declarations.marked).flatten.map (·.name)).Perm d.names := by
    rw [Declarations.flatten_marked_names]
    exact (Declarations.flatten_components_perm hnodup).map _
  refine ⟨_, _, hblocks, hperm.symm.subset, fun name hname => ?_, ?_⟩
  · rw [← hperm.mem_iff, ← Module.declares_blocksOfComponents hblocks] at hname
    exact mem_filterMap.1 hname
  refine Module.over_of_blocksOfComponents (fun c' hc' e' he' => ?_) hblocks
  have hmem := mem_flatten.2 ⟨c', hc', he'⟩
  obtain ⟨c, hc, e, he, heq, -⟩ := Declarations.mem_flatten_marked hmem
  refine ⟨mem_append_left _ (hperm.subset (mem_map_of_mem hmem)), ?_⟩
  have hrefers := Declarations.refersTo_of_declarations hd
    ((Declarations.sublist_of_mem_components hnodup hc).subset he)
  rw [heq]
  exact hrefers

end Generate

/-- An object with a number that may be as large as infinity, and with a format from outside. -/
def boundlessLibrary : Library :=
  Library.ofTable ""
    (.object [("components", .object [("schemas", .object [("Size", .object
      [("type", .str "object"), ("properties", .object
        [("area", .object [("type", .str "number"), ("maximum", .float (.infinite false))]),
          ("unit", .object [("type", .str "string"), ("format", .str "unit")])])])])])])
    []

def boundlessConfig : Config where
  formats := ⟨[("unit", "Unit")]⟩

end ApiSchema
