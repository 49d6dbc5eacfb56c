import ApiSchema.Proofs.Outcome
import ApiSchema.Schema.Read

/-!
# Listed values

The values of `const` and `enum` are read as scalars and narrowed to the declared types. What is kept
is listed and of a declared type.
-/

namespace ApiSchema.Schema

open List Except

variable {raw : Value} {pointer : String}

variable {scalars : List Scalar} {s : Scalar} {types : List String}

lemma subset_of_dropTwins (values : List Scalar) : dropTwins values ⊆ values := by
  have hfold (kept : List Scalar) :
      values.foldl (fun kept s => if kept.any (twins s) then kept else kept ++ [s]) kept ⊆
        kept ++ values := by
    induction values generalizing kept with
    | nil => simp
    | cons s rest ih =>
      rw [foldl_cons]
      refine List.Subset.trans (ih _) ?_
      split <;> simp
  have hall := hfold []
  rwa [nil_append] at hall

lemma eq_map_of_readScalars {listed : List Value} (h : readScalars pointer listed = .ok scalars) :
    listed = scalars.map .scalar := by
  induction listed generalizing scalars with
  | nil =>
    cases h
    rfl
  | cons u rest ih =>
    cases u with
    | scalar s =>
      obtain ⟨others, hothers, h⟩ := bind_eq_ok_iff.1 h
      cases h
      rw [ih hothers, map_cons]
    | list _ | tuple _ | map _ => cases h

lemma of_readTypeName {type : Value} {name : String} (h : readTypeName pointer type = .ok name) :
    type = .str name ∧ name ∈ typeNames := by
  unfold readTypeName at h
  split at h
  · split at h
    next hname =>
      cases h
      exact ⟨rfl, contains_iff_mem.1 hname⟩
    next => cases h
  · cases h

lemma eq_map_of_readDeclared {types : List Value} {names : List String}
    (h : readDeclared pointer types = .ok names) : types = names.map .str := by
  induction types generalizing names with
  | nil =>
    cases h
    rfl
  | cons type rest ih =>
    unfold readDeclared at h
    extract_lets next at h
    have hnext (h : next () = .ok names) : type :: rest = names.map .str := by
      obtain ⟨name, hname, h⟩ := bind_eq_ok_iff.1 h
      obtain ⟨others, hothers, h⟩ := bind_eq_ok_iff.1 h
      cases h
      rw [ih hothers, (of_readTypeName hname).1, map_cons]
    split at h
    · cases h
    · exact hnext h

lemma exists_hasType_of_hasSomeType (h : hasSomeType s types = .ok true) :
    ∃ type ∈ types, hasType s type = .ok true := by
  induction types with
  | nil => cases h
  | cons type rest ih =>
    unfold hasSomeType at h
    split at h
    next htype => exact ⟨type, mem_cons_self, htype⟩
    next =>
      obtain ⟨other, hother, htype⟩ := ih h
      exact ⟨other, mem_cons_of_mem _ hother, htype⟩
    next => cases h

lemma of_mem_ofSomeType {kept : List Scalar} (h : ofSomeType types scalars = .ok kept)
    (hs : s ∈ kept) : s ∈ scalars ∧ ∃ type ∈ types, hasType s type = .ok true := by
  induction scalars generalizing kept with
  | nil =>
    cases h
    cases hs
  | cons t rest ih =>
    obtain ⟨keep, hkeep, h⟩ := bind_eq_ok_iff.1 h
    obtain ⟨others, hothers, h⟩ := bind_eq_ok_iff.1 h
    cases h
    have hrest (hs : s ∈ others) : s ∈ t :: rest ∧ ∃ type ∈ types, hasType s type = .ok true :=
      (ih hothers hs).imp_left (mem_cons_of_mem _)
    cases keep with
    | true =>
      rcases mem_cons.1 hs with rfl | hs
      · exact ⟨mem_cons_self, exists_hasType_of_hasSomeType hkeep⟩
      · exact hrest hs
    | false => exact hrest hs

/-- A scalar that is listed, and of a declared type. -/
structure IsAmong (raw : Value) (s : Scalar) : Prop where
  const : ∀ u, raw.get? "const" = some u → u = .scalar s
  enum : raw.has "const" = false → ∀ us, raw.get? "enum" = some (.list us) → .scalar s ∈ us
  name : ∀ name, raw.get "type" = .str name → hasType s name = .ok true
  list : ∀ types, raw.get "type" = .list types →
    ∃ name, .str name ∈ types ∧ hasType s name = .ok true

/-- Reading keeps only scalars that are listed and of a declared type. -/
lemma isAmong_of_readListed {node : Node} (h : readListed raw pointer = .ok node) :
    ∃ values, (∀ s ∈ values, IsAmong raw s) ∧
      (node = .literal ⟨pointer, false⟩ values ∨ node = .enum ⟨pointer, false⟩ values) := by
  unfold readListed at h
  extract_lets single keyword finish next at h
  have hfinish (scalars : List Scalar) (hscalars : ∀ s ∈ scalars, IsAmong raw s)
      (h : finish scalars = .ok node) : ∃ values, (∀ s ∈ values, IsAmong raw s) ∧
        (node = .literal ⟨pointer, false⟩ values ∨ node = .enum ⟨pointer, false⟩ values) := by
    refine ⟨dropTwins scalars, fun s hs => hscalars s (subset_of_dropTwins _ hs), ?_⟩
    cases h
    split
    · exact .inl rfl
    · exact .inr rfl
  have hnext (listed : List Value)
      (hconst : ∀ u, raw.get? "const" = some u → listed = [u])
      (henum : raw.has "const" = false → ∀ us, raw.get? "enum" = some (.list us) → listed = us)
      (h : next listed = .ok node) : ∃ values, (∀ s ∈ values, IsAmong raw s) ∧
        (node = .literal ⟨pointer, false⟩ values ∨ node = .enum ⟨pointer, false⟩ values) := by
    obtain ⟨scalars, hscalars, h⟩ := bind_eq_ok_iff.1 h
    have hmem (s : Scalar) (hs : s ∈ scalars) : .scalar s ∈ listed := by
      rw [eq_map_of_readScalars hscalars]
      exact mem_map_of_mem hs
    have hamong (s : Scalar) (hs : s ∈ scalars)
        (hname : ∀ name, raw.get "type" = .str name → hasType s name = .ok true)
        (hlist : ∀ types, raw.get "type" = .list types →
          ∃ name, .str name ∈ types ∧ hasType s name = .ok true) : IsAmong raw s := by
      refine ⟨?_, ?_, hname, hlist⟩
      · intro u hu
        exact (mem_singleton.1 (hconst u hu ▸ hmem s hs)).symm
      · intro hhas us hus
        exact henum hhas us hus ▸ hmem s hs
    split at h
    next hnull =>
      refine hfinish scalars (fun s hs => hamong s hs ?_ ?_) h
      · intro name hname
        rw [hnull] at hname
        cases hname
      · intro types htypes
        rw [hnull] at htypes
        cases htypes
    next declared hdeclared =>
      obtain ⟨names, hnames, h⟩ := bind_eq_ok_iff.1 h
      obtain ⟨kept, hkept, h⟩ := bind_eq_ok_iff.1 h
      have htypes := eq_map_of_readDeclared hnames
      split at h
      · cases h
      · refine hfinish kept (fun s hs => ?_) h
        obtain ⟨hscalar, type, htype, hhas⟩ := of_mem_ofSomeType hkept hs
        have hstr : Value.str type ∈ names.map .str := mem_map_of_mem htype
        refine hamong s hscalar ?_ ?_
        · intro name hname
          rw [← htypes, hname] at hstr
          cases mem_singleton.1 hstr
          exact hhas
        · intro types hlist
          rw [← htypes, hlist] at hstr
          exact ⟨type, hstr, hhas⟩
  have hsingle : raw.get? "const" = single := rfl
  clear_value single
  split at h
  next u =>
    refine hnext [u] ?_ ?_ h
    · intro w hw
      rw [Option.some.inj (hsingle.symm.trans hw)]
    · intro hhas
      rw [Value.has, hsingle] at hhas
      cases hhas
  next =>
    split at h
    next u us henum =>
      refine hnext (u :: us) ?_ ?_ h
      · intro w hw
        cases hsingle.symm.trans hw
      · intro _ ws hws
        rw [Value.get, hws] at henum
        exact (Value.list.inj henum).symm
    next => cases h

end ApiSchema.Schema
