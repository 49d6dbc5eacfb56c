import ApiSchema.Proofs.Module.Binding

/-!
# Imports are exact

A symbol is recorded where a block is made, and written where the text of the block is made. Main
statement: the import lines of a module list those symbols that are found among the identifiers of
its blocks, each of them once and from its own origin.
-/

namespace ApiSchema.Module

open List Scan

variable {text text' : List Char} {symbols symbols' : List Symbol} {name : String} {c : Char}
  {e : Expr} {known : List String}

/-! ### Symbols in texts -/

/-- A text in which these symbols are found among the identifiers, whatever follows. -/
def Shows (text : List Char) (symbols : List Symbol) : Prop :=
  ∃ found, Reads true text found ∧ ∀ s : Symbol, s.name ∈ found ↔ s ∈ symbols

lemma shows_nil_of_reads {found : List String} (h : Reads true text found)
    (hfound : ∀ n ∈ found, n ∉ Symbol.names) : Shows text [] := by
  refine ⟨found, h, fun s => ?_⟩
  simpa using fun hs => hfound _ hs (Symbol.name_mem_names s)

lemma shows_name (h : Expr.IsOrdinary name) : Shows name.toList [] :=
  shows_nil_of_reads (reads_identifier h.1) (forall_mem_singleton.2 h.2)

lemma Shows.mem_identifiers {text : String} {s : Symbol} (h : Shows text.toList symbols) :
    s.name ∈ identifiers text ↔ s ∈ symbols := by
  obtain ⟨found, hreads, hfound⟩ := h
  rw [identifiers, hreads.scan_eq, hfound]

lemma Shows.append (h : Shows text symbols) (h' : Shows text' symbols') (hends : Ends text') :
    Shows (text ++ text') (symbols ++ symbols') := by
  obtain ⟨found, hreads, hfound⟩ := h
  obtain ⟨found', hreads', hfound'⟩ := h'
  refine ⟨_, hreads.append hreads' hends, fun s => ?_⟩
  rw [mem_append, mem_append, hfound, hfound']

lemma Shows.mark (h : Shows text symbols) (hc : c ∈ marks) : Shows (c :: text) symbols := by
  obtain ⟨found, hreads, hfound⟩ := h
  exact ⟨found, hreads.mark hc, hfound⟩

/-- A mark may stand between two texts. -/
lemma Shows.divided (h : Shows text symbols) (h' : Shows text' symbols') (hc : c ∈ marks) :
    Shows (text ++ c :: text') (symbols ++ symbols') :=
  h.append (h'.mark hc) (ends_cons hc _)

lemma shows_nil : Shows [] [] :=
  shows_nil_of_reads reads_nil (by simp)

/-- The text of an expression shows the symbols that are recorded for it. -/
def Expr.IsShown (e : Expr) : Prop :=
  Shows e.text.toList e.symbols

lemma Expr.Over.isShown (h : e.Over known) (hknown : ∀ n ∈ known, Expr.IsOrdinary n) :
    e.IsShown := by
  refine ⟨_, e.reads_text (fun n hn => (hknown n hn).1) h, fun s => ?_⟩
  have hatom (a : Expr.Atom) (ha : a.Over known) (hs : s.name ∈ a.words true) : a = .symbol s := by
    have hname (n : String) (hn : n ∉ Symbol.names) (hs : s.name = n) : a = .symbol s :=
      absurd (hs ▸ Symbol.name_mem_names s) hn
    match a with
    | .symbol s' => rw [Symbol.name_injective (mem_singleton.1 hs)]
    | .builtin b => exact hname b.name (by cases b <;> decide) (mem_singleton.1 hs)
    | .name n => exact hname n (hknown n ha).2 (mem_singleton.1 hs)
    | .key n => exact hname n ha.2 (mem_singleton.1 hs)
    | .scalar .null | .scalar (.bool true) | .scalar (.bool false) |
      .scalar (.float (.infinite _)) => exact hname _ (by decide) (mem_singleton.1 hs)
    | .scalar (.int _) | .scalar (.float (.finite _ _ _)) | .scalar (.str _) => cases hs
  rw [e.mem_symbols_iff, mem_flatMap]
  constructor
  · rintro ⟨a, ha, hs⟩
    exact hatom a (h a ha) hs ▸ ha
  · exact fun hs => ⟨_, hs, mem_singleton_self _⟩

/-! ### Symbols in blocks -/

/-- A text that may stand in front of others, and in which no symbols are found. -/
structure Pads (text : List Char) : Prop where
  shows : ∀ text' symbols, Shows text' symbols → Shows (text ++ text') symbols

lemma pads_nil : Pads [] :=
  ⟨fun _ _ => id⟩

lemma Pads.mark (h : Pads text) (hc : c ∈ marks) : Pads (c :: text) :=
  ⟨fun _ _ h' => (h.shows _ _ h').mark hc⟩

lemma Pads.behind (h : Pads text) (hname : Expr.IsOrdinary name) (hc : c ∈ marks) :
    Pads (name.toList ++ c :: text) := by
  refine ⟨fun text' symbols h' => ?_⟩
  rw [append_assoc]
  exact (shows_name hname).divided (h.shows _ _ h') hc

lemma Pads.indented (h : Pads text) : Pads ("    ".toList ++ text) := by
  have hblank : ' ' ∈ marks := by decide
  simpa using (((h.mark hblank).mark hblank).mark hblank).mark hblank

lemma pads_equals : Pads ['=', ' '] := by
  have hreads : Reads true ['='] [] := fun _ _ => rfl
  refine ⟨fun text' symbols h' => ?_⟩
  exact (shows_nil_of_reads hreads (by simp)).divided h' (by decide)

lemma pads_assigned (hname : Expr.IsOrdinary name) : Pads (name ++ " = ").toList := by
  simpa using pads_equals.behind hname (c := ' ') (by decide)

lemma pads_typed (hname : Expr.IsOrdinary name) : Pads ("    " ++ name ++ ": ").toList := by
  have hblank := pads_nil.mark (c := ' ') (by decide)
  simpa using (hblank.behind hname (c := ':') (by decide)).indented

namespace Block

open Module.Expr

variable {count : Extent} {b : Block} {f : ModelField}

/-- A line in which expressions stand apart from the text around them. -/
def IsLine : List Piece → Prop
  | [] => True
  | .plain text :: rest => Pads text.toList ∧ IsLine rest
  | .expr _ :: rest => Ends (lineText rest).toList ∧ IsLine rest

lemma shows_lineText {line : List Piece} (h : IsLine line)
    (hexprs : ∀ e, .expr e ∈ line → e.IsShown) :
    Shows (lineText line).toList (line.flatMap Piece.symbols) := by
  have hcons (p : Piece) (rest : List Piece) :
      (lineText (p :: rest)).toList = p.text.toList ++ (lineText rest).toList := by
    simp [lineText]
  induction line with
  | nil => exact shows_nil
  | cons p line ih =>
    rw [hcons]
    have hrest := ih (by cases p <;> exact h.2) fun e he => hexprs e (mem_cons_of_mem _ he)
    cases p with
    | plain text => exact h.1.shows _ _ hrest
    | expr e => exact (hexprs e mem_cons_self).append hrest h.1

lemma shows_lines {lines : List (List Piece)}
    (h : ∀ line ∈ lines, Shows (lineText line).toList (line.flatMap Piece.symbols)) :
    Shows (Text.join "\n" (lines.map lineText)).toList (lines.flatten.flatMap Piece.symbols) := by
  induction lines with
  | nil => exact shows_nil
  | cons line lines ih =>
    obtain ⟨hline, hlines⟩ := forall_mem_cons.1 h
    rw [map_cons, Text.join, flatten_cons, flatMap_append]
    cases lines with
    | nil => simpa using hline
    | cons next lines =>
      rw [String.intercalate_cons_of_ne_nil (by simp), String.append_assoc, String.toList_append,
        String.toList_append]
      exact hline.divided (ih hlines) (by decide)

/-- The texts of a block that are read as code: its own, and that of the expression it holds as
text. -/
def sources (b : Block) : List String :=
  b.text :: b.held.map Expr.text

/-- The symbols recorded for a block are those among the identifiers of its code. -/
def IsShown (b : Block) : Prop :=
  ∀ s : Symbol, s ∈ b.symbols ↔ ∃ source ∈ b.sources, s.name ∈ identifiers source

lemma isShown_of_shows (hlines : ∀ line ∈ b.pieces, Shows (lineText line).toList
      (line.flatMap Piece.symbols))
    (hheld : ∀ e ∈ b.held, e.IsShown) : b.IsShown := by
  intro s
  have hsymbols : s ∈ b.pieces.flatten.flatMap Piece.symbols ↔
      ∃ e, .expr e ∈ b.pieces.flatten ∧ s ∈ e.symbols := by
    rw [mem_flatMap]
    constructor
    · rintro ⟨p, hp, hs⟩
      cases p with
      | plain _ => cases hs
      | expr e => exact ⟨e, hp, hs⟩
    · exact fun ⟨e, he, hs⟩ => ⟨_, he, hs⟩
  have hheld : (∃ e ∈ b.held, s ∈ e.symbols) ↔ ∃ e ∈ b.held, s.name ∈ identifiers e.text :=
    exists_congr fun e => and_congr_right fun he => (hheld e he).mem_identifiers.symm
  simp only [b.mem_symbols_iff, mem_exprs, or_and_right, exists_or, sources, exists_mem_cons_iff,
    b.text_eq, (shows_lines hlines).mem_identifiers, hsymbols, hheld]
  simp

lemma isLine_modelPieces {forbidExtra : Bool} {extra : Option Expr} {fields : List ModelField}
    (hname : IsOrdinary name) (hfields : ∀ f ∈ fields, IsOrdinary f.name) :
    ∀ line ∈ modelPieces name forbidExtra extra fields count, IsLine line := by
  have hlast : Ends (lineText []).toList := by simp [Ends, lineText]
  have hvalue (e e' : Expr) : IsLine [.expr e, .plain " = ", .expr e'] :=
    ⟨by simp [Ends, lineText, Piece.text, marks], pads_equals.mark (by decide), hlast, trivial⟩
  have hfield (f : ModelField) (hf : f ∈ fields) : IsLine (fieldPieces f) := by
    unfold fieldPieces
    extract_lets renamed default value
    refine ⟨pads_typed (hfields f hf), ?_⟩
    simp only [value]
    split
    · split
      · exact ⟨hlast, trivial⟩
      · exact hvalue _ _
    · exact hvalue _ _
  have hindented {name : String} (h : IsOrdinary name) (e : Expr) :
      IsLine [.plain ("    " ++ name ++ " = "), .expr e] :=
    ⟨by simpa using (pads_assigned h).indented, hlast, trivial⟩
  have hclass : Pads ("class " ++ name ++ "(").toList := by
    have hword : IsOrdinary "class" := by decide
    have hopen := pads_nil.behind hname (c := '(') (by decide)
    simpa using hopen.behind hword (c := ' ') (by decide)
  have hend : Pads "):".toList := (pads_nil.mark (by decide)).mark (by decide)
  have hhead : IsLine [.plain ("class " ++ name ++ "("), .expr (.symbol .baseModel), .plain "):"] :=
    ⟨hclass, by simp [Ends, lineText, Piece.text, marks], hend, trivial⟩
  have hextra (e : Expr) : IsLine (extraPieces e) := by
    have hword : IsOrdinary "__pydantic_extra__" := by decide
    exact ⟨by simpa using pads_typed hword, hvalue _ _⟩
  unfold modelPieces
  extract_lets head body check
  have hheadLines : ∀ line ∈ head, IsLine line := by
    have hword : IsOrdinary "model_config" := by decide
    exact forall_mem_cons.2 ⟨hhead, forall_mem_singleton.2 (by simpa using hindented hword _)⟩
  have hbody : ∀ line ∈ body, IsLine line :=
    forall_mem_append.2 ⟨forall_mem_map.2 fun e _ => hextra e, forall_mem_map.2 hfield⟩
  have hcheck : ∀ line ∈ check, IsLine line := by
    simp only [check]
    split
    · simp
    · exact forall_mem_cons.2 ⟨trivial, forall_mem_singleton.2 (hindented (by decide) _)⟩
  split
  · exact hheadLines
  · exact forall_mem_append.2 ⟨forall_mem_append.2 ⟨forall_mem_append.2
      ⟨hheadLines, forall_mem_singleton.2 trivial⟩, hbody⟩, hcheck⟩

lemma isOrdinary_fieldName (names used : List String) (key : String) :
    IsOrdinary (fieldName (outerNames names) used key) := by
  obtain ⟨⟨c, hc, halpha⟩, hall⟩ := (isFieldName_fieldName (outerNames names) used key).plain
  refine ⟨Name.isIdentifier_iff.2 ⟨Name.isWord_iff.2 fun d hd => ?_, c, hc, ?_⟩, fun hmem => ?_⟩
  · rcases hall d hd with hd | rfl
    · exact Name.isIdentifierPart_of_isAlphanum hd
    · decide
  · simp [Unicode.isIdentifierStart, halpha]
  · exact fieldName_not_mem_names names used key (mem_append_left _ hmem)

lemma isShown_of_ofDeclaration {names : List String} {d : Declaration}
    (hknown : ∀ n ∈ known, IsOrdinary n) (hname : d.name ∈ known)
    (h : d.validator.RefersTo known) (hb : ofDeclaration names d = .ok b) : b.IsShown := by
  have hname := hknown _ hname
  have hexprs (e : Expr) (he : e ∈ b.exprs) : e.IsShown :=
    (over_of_ofDeclaration h hb e he).isShown hknown
  have hlines : ∀ line ∈ b.pieces, IsLine line := by
    obtain ⟨_, extra, fields, count, rfl, -, -⟩ | ⟨e, -, rfl | rfl⟩ :=
      cases_of_ofDeclaration (Q := fun _ => True) (by simp) (by simp) hb
    · refine isLine_modelPieces hname fun f hf => ?_
      obtain ⟨used, key, hfield⟩ := exists_fieldName_of_mem_fields hb hf
      rw [hfield]
      exact isOrdinary_fieldName names used key
    · exact forall_mem_singleton.2 ⟨pads_assigned hname, by simp [Ends, lineText], trivial⟩
    · exact forall_mem_singleton.2 ⟨pads_assigned hname, by simp [Ends, lineText], trivial⟩
  refine isShown_of_shows (fun line hline => shows_lineText (hlines line hline) fun e he => ?_)
    fun e he => hexprs e (mem_exprs.2 (.inr he))
  exact hexprs e (mem_exprs.2 (.inl (mem_flatten.2 ⟨line, hline, he⟩)))

lemma shows_rebuild (h : IsOrdinary name) : Shows (name ++ ".model_rebuild()").toList [] := by
  have hmethod : Reads true "model_rebuild".toList ["model_rebuild"] :=
    reads_identifier (by decide)
  have hcall := (hmethod.append_mark (c := '(') (by decide)).append_mark (c := ')') (by decide)
  exact shows_nil_of_reads (by simpa using hcall.attribute h.1 (by simp))
    (by simpa using ⟨h.2, by decide⟩)

lemma isShown_complete {names : List String} (h : ∀ n ∈ names, IsOrdinary n) :
    (complete names).IsShown := by
  refine isShown_of_shows (fun line hline => ?_) (by simp [held])
  obtain ⟨n, hn, rfl⟩ := mem_map.1 hline
  simpa [lineText, Piece.symbols, Piece.text, Expr.text, Expr.symbols] using shows_rebuild (h n hn)

end Block

/-! ### Modules -/

/-- The import lines of a module list those symbols that are found among the identifiers of its
blocks, each of them once and from its own origin. -/
theorem ofComponents_imports {cs : List (List Declaration)} (lookup : Option Lookup)
    (config : Config) (hknown : ∀ n ∈ known, Name.isIdentifier n ∧ n ∉ Symbol.names)
    (h : ∀ c ∈ cs, ∀ d ∈ c, d.name ∈ known ∧ Validator.AtTop known d.validator ∧
      d.validator.RefersTo known) :
    ∃ m, ofComponents cs lookup config = .ok m ∧ importLines m.symbols ⊆ m.lines ∧
      ∃ listed, IsListing (importLines m.symbols)
        (fun s => ∃ b ∈ m.blocks, ∃ source ∈ b.sources, s.name ∈ identifiers source) listed := by
  obtain ⟨blocks, hblocks⟩ := exists_blocksOfComponents (fun c hc d hd => (h c hc d hd).2.1)
    (cs.flatten.map (·.name))
  have hshown (b : Block) (hb : b ∈ blocks) : b.IsShown := by
    obtain ⟨c, hc, ⟨d, hd, hof⟩ | ⟨models, hmodels, rfl⟩⟩ := mem_blocksOfComponents hblocks hb
    · exact Block.isShown_of_ofDeclaration hknown (h c hc d hd).1 (h c hc d hd).2.2 hof
    · refine Block.isShown_complete fun n hn => hknown n ?_
      obtain ⟨d, hd, rfl⟩ := mem_map.1 (hmodels hn)
      exact (h c hc d hd).1
  obtain ⟨m, hm, rfl⟩ : ∃ m, ofComponents cs lookup config = .ok m ∧ m.blocks = blocks :=
    ⟨_, by rw [ofComponents, hblocks]; rfl, rfl⟩
  obtain ⟨listed, hlisted⟩ := exists_isListing m.symbols
  refine ⟨m, hm, m.importLines_subset_lines, listed, { hlisted with mem_iff := fun s => ?_ }⟩
  rw [hlisted.mem_iff, symbols, mem_flatMap]
  exact exists_congr fun b => and_congr_right fun hb => hshown b hb s

/-- A model with a field that cannot have the name of its key. -/
def petComponents : List (List Declaration) :=
  [[⟨"Pet", .object [⟨"class", .any, true⟩] false none {}, "", [], [], false⟩]]

theorem pet_imports :
    ∃ m, ofComponents petComponents none {} = .ok m ∧
      m.symbols = [.baseModel, .configDict, .any, .field] ∧ importLines m.symbols ⊆ m.lines ∧
      ∃ listed, IsListing (importLines m.symbols)
        (fun s => ∃ b ∈ m.blocks, ∃ source ∈ b.sources, s.name ∈ identifiers source) listed := by
  have hpart {u : Validator} (hu : Validator.any.Part u) : u = .any := by
    obtain rfl | ⟨c, hc, -⟩ := hu.eq_or_child
    · rfl
    · cases hc
  have hall : ∀ c ∈ petComponents, ∀ d ∈ c, d.name ∈ ["Pet"] ∧
      Validator.AtTop ["Pet"] d.validator ∧ d.validator.RefersTo ["Pet"] := by
    simp only [petComponents, forall_mem_singleton]
    refine ⟨by decide, .of_children (by decide) (forall_mem_singleton.2 fun u hu => ?_), ?_⟩
    · obtain rfl := hpart hu
      exact ⟨by decide, nofun, nofun⟩
    · rintro n (hn | hn) <;> obtain hself | ⟨c, hc, hn⟩ := hn.eq_or_child
      · cases hself
      · cases hpart (mem_singleton.1 hc ▸ hn)
      · cases hself
      · cases hpart (mem_singleton.1 hc ▸ hn)
  obtain ⟨m, hm, himports⟩ := ofComponents_imports none {} (by decide) hall
  have hsymbols : (ofComponents petComponents none {}).map symbols =
      .ok [.baseModel, .configDict, .any, .field] := by decide +kernel
  rw [hm] at hsymbols
  exact ⟨m, hm, Except.ok.inj hsymbols, himports⟩

end ApiSchema.Module
