import ApiSchema.Store.FileTree
import ApiSchema.Proofs.Outcome

/-!
# What writing keeps

Making directories changes no file, and writing a file changes no other one; neither removes a
directory. So whatever could be found before, and is not the file written, is still found in the
same place.

Main statements: `keeps_ensureDirectory`, `exists_of_write` and `Keeps.find`.
-/

namespace ApiSchema

open List Except

lemma Text.unifyLineEnds_eq_self_iff {cs : List Char} : unifyLineEnds cs = cs ↔ '\r' ∉ cs := by
  fun_induction unifyLineEnds cs with
  | case1 => simp
  | case2 rest ih => simp
  | case3 c rest _ ih =>
    rw [List.cons.injEq, ih, mem_cons, not_or]
    refine and_congr_left fun _ => ?_
    split
    next heq => simp [heq]
    next hne => simpa using Ne.symm hne

/-! ### Places -/

namespace Path

lemma removeUps_of_notMem {parts : List String} (h : ".." ∉ parts) (done : List String) :
    removeUps done parts = done.reverse ++ parts := by
  induction parts generalizing done with
  | nil => rw [removeUps, append_nil]
  | cons part rest ih =>
    rw [mem_cons, not_or] at h
    rw [removeUps, if_neg (Ne.symm h.1), ih h.2, reverse_cons, append_assoc]
    rfl

lemma notMem_removeUps {done : List String} (h : ".." ∉ done) (parts : List String) :
    ".." ∉ removeUps done parts := by
  induction parts generalizing done with
  | nil => rwa [removeUps, mem_reverse]
  | cons part rest ih =>
    rw [removeUps]
    split
    · exact ih fun hmem => h (mem_of_mem_tail hmem)
    · next hne => exact ih (not_mem_cons_of_ne_of_not_mem (Ne.symm hne) h)

end Path

namespace FileTree

variable {here parts place : List String} {p : Path}

/-- The place that a path leads to, if it leads anywhere. -/
def reach (t : FileTree) (p : Path) : List String :=
  Path.removeUps (if p.root.isEmpty then t.current.reverse else []) p.parts

/-- A path without `..` leads to what it names. -/
lemma reach_absolute_resolve (t : FileTree) (current : List String) (p : Path) :
    t.reach (Path.absolute (p.resolve current)) = p.resolve current :=
  Path.removeUps_of_notMem (Path.notMem_removeUps not_mem_nil _) []

variable {t t' t'' : FileTree}

lemma walk_eq (h : t.walk here parts = .ok place) : place = Path.removeUps here.reverse parts := by
  induction parts generalizing here with
  | nil =>
    cases h
    exact (reverse_reverse _).symm
  | cons part rest ih =>
    unfold walk at h
    extract_lets next at h
    have hnext : Path.removeUps here.reverse (part :: rest) = Path.removeUps next.reverse rest := by
      rw [Path.removeUps]
      unfold next
      split
      · rw [tail_reverse]
      · rw [reverse_append]
        rfl
    rw [hnext]
    split at h
    · exact ih h
    · rw [← Except.ok.inj h]
      exact (reverse_reverse _).symm
    · cases h
    · cases h

lemma locate_eq (h : t.locate p = .ok place) : place = t.reach p := by
  rw [walk_eq h, reach]
  congr 1
  split
  · rfl
  · rfl

/-! ### Files -/

/-- The file in a place: its text, and when it was written. -/
def file? (t : FileTree) (place : List String) : Option (String × Int) :=
  match t.node? place with
  | some (.file text modified) => some (text, modified)
  | _ => none

lemma file?_eq_some_iff {text : String} {modified : Int} :
    t.file? place = some (text, modified) ↔ t.node? place = some (.file text modified) := by
  unfold file?
  split
  · next text' modified' h => simp [h]
  · next h =>
    simp only [reduceCtorEq, false_iff]
    exact h text modified

lemma node?_put_self (hplace : place ≠ []) (node : FileNode) :
    (t.put place node).node? place = some node := by
  rw [node?, if_neg (by simpa using hplace), put, lookup_cons_self]

lemma node?_put_of_ne {other : List String} (hne : other ≠ place) (node : FileNode) :
    (t.put place node).node? other = t.node? other := by
  have hlookup (entries : List (List String × FileNode)) :
      (entries.filter fun e => e.1 != place).lookup other = entries.lookup other := by
    induction entries with
    | nil => rfl
    | cons e rest ih =>
      rw [filter_cons]
      split
      · rw [lookup_cons, lookup_cons, ih]
      · next heq =>
        have heq : e.1 = place := by simpa using heq
        rw [lookup_cons, heq, beq_false_of_ne hne, ih]
  rw [node?, node?, put, lookup_cons, beq_false_of_ne hne]
  dsimp only
  rw [hlookup]

/-! ### Keeping -/

/-- One tree comes from another without a change to the directories there are, nor to the files in
the places of `P`. -/
structure Keeps (t : FileTree) (P : List String → Prop) (t' : FileTree) : Prop where
  current : t'.current = t.current
  directory : ∀ place, t.node? place = some .directory → t'.node? place = some .directory
  file : ∀ place, P place → t'.file? place = t.file? place

variable {P Q : List String → Prop}

lemma Keeps.refl (t : FileTree) (P : List String → Prop) : t.Keeps P t :=
  ⟨rfl, fun _ h => h, fun _ _ => rfl⟩

lemma Keeps.trans (h : t.Keeps P t') (h' : t'.Keeps P t'') : t.Keeps P t'' where
  current := h'.current.trans h.current
  directory place hplace := h'.directory place (h.directory place hplace)
  file place hplace := (h'.file place hplace).trans (h.file place hplace)

lemma Keeps.mono (h : t.Keeps P t') (hQP : ∀ place, Q place → P place) : t.Keeps Q t' :=
  ⟨h.current, h.directory, fun place hplace => h.file place (hQP place hplace)⟩

lemma Keeps.reach (h : t.Keeps P t') (p : Path) : t'.reach p = t.reach p := by
  rw [FileTree.reach, FileTree.reach, h.current]

lemma Keeps.walk (h : t.Keeps P t') (hwalk : t.walk here parts = .ok place) :
    t'.walk here parts = .ok place := by
  induction parts generalizing here with
  | nil => exact hwalk
  | cons part rest ih =>
    unfold FileTree.walk at hwalk ⊢
    extract_lets at hwalk ⊢
    split at hwalk
    · next hnode =>
      rw [h.directory _ hnode]
      exact ih hwalk
    · rw [← Except.ok.inj hwalk]
      -- a directory may have been made in the place that was reached
      split
      · rfl
      · rfl
      · next hnil => cases hnil
      · next hnil => cases hnil
    · cases hwalk
    · cases hwalk

lemma Keeps.locate (h : t.Keeps P t') (hlocate : t.locate p = .ok place) :
    t'.locate p = .ok place := by
  unfold FileTree.locate at hlocate ⊢
  rw [h.current]
  exact h.walk hlocate

/-- What a path leads to is kept. -/
lemma Keeps.find (h : t.Keeps P t') (hp : P (t.reach p)) {node : FileNode}
    (hfind : t.find p = .ok node) : t'.find p = .ok node := by
  obtain ⟨place, hplace, hnode⟩ := bind_eq_ok_iff.1 hfind
  refine bind_eq_ok_iff.2 ⟨place, h.locate hplace, ?_⟩
  have hnode : t.node? place = some node := by
    split at hnode
    · next heq => rw [heq, Except.ok.inj hnode]
    · cases hnode
  have hnode' : t'.node? place = some node := by
    cases node with
    | directory => exact h.directory place hnode
    | file text modified =>
      rw [← locate_eq hplace] at hp
      rw [← file?_eq_some_iff, h.file place hp, file?_eq_some_iff, hnode]
  rw [hnode']

lemma read_of_find {text : String} {modified : Int} (h : t.find p = .ok (.file text modified)) :
    t.read p = .ok (String.ofList (Text.unifyLineEnds text.toList)) := by
  rw [read, h]
  rfl

/-! ### Making directories -/

lemma keeps_put_directory (h : t.node? place = none) :
    t.Keeps (fun _ => True) (t.put place .directory) := by
  have hplace : place ≠ [] := by
    rintro rfl
    cases h
  refine ⟨rfl, fun other hother => ?_, fun other _ => ?_⟩
  · rw [node?_put_of_ne _ _, hother]
    rintro rfl
    cases h.symm.trans hother
  · by_cases heq : other = place
    · rw [file?, file?, heq, node?_put_self hplace, h]
    · rw [file?, file?, node?_put_of_ne heq]

lemma keeps_makeDirectory (h : t.makeDirectory p = .ok t') : t.Keeps (fun _ => True) t' := by
  obtain ⟨place, -, h⟩ := bind_eq_ok_iff.1 h
  split at h
  · cases h
  · next hnode =>
    cases h
    exact keeps_put_directory hnode

lemma keeps_ensureOne (h : t.ensureOne p = .ok t') : t.Keeps (fun _ => True) t' := by
  unfold ensureOne at h
  split at h
  · next hmade =>
    cases h
    exact keeps_makeDirectory hmade
  · split at h
    · cases h
      exact .refl t _
    · cases h

lemma keeps_ensureWithin {n : Nat} (h : ensureWithin n t p = .ok t') :
    t.Keeps (fun _ => True) t' := by
  induction n generalizing p t' with
  | zero => exact keeps_ensureOne h
  | succ n ih =>
    unfold ensureWithin at h
    split at h
    · obtain ⟨around, haround, h⟩ := bind_eq_ok_iff.1 h
      exact (ih haround).trans (keeps_ensureOne h)
    · exact keeps_ensureOne h

theorem keeps_ensureDirectory (h : t.ensureDirectory p = .ok t') : t.Keeps (fun _ => True) t' :=
  keeps_ensureWithin h

/-! ### Writing -/

/-- A file that is written stands in its place and is found there, and no other file has changed. -/
theorem exists_of_write {text : String} {modified : Int} (h : t.write p text modified = .ok t') :
    t'.node? (t.reach p) = some (.file text modified) ∧ t.Keeps (· ≠ t.reach p) t' ∧
      t'.find p = .ok (.file text modified) := by
  obtain ⟨place, hplace, h⟩ := bind_eq_ok_iff.1 h
  obtain rfl := locate_eq hplace
  split at h
  · cases h
  next hnode =>
  cases h
  have hne : t.reach p ≠ [] := by
    intro heq
    rw [heq] at hnode
    exact hnode rfl
  have hself := node?_put_self (t := t) hne (.file text modified)
  have hkeeps : t.Keeps (· ≠ t.reach p) (t.put (t.reach p) (.file text modified)) := by
    refine ⟨rfl, fun other hother => ?_, fun other hother => ?_⟩
    · rw [node?_put_of_ne _ _, hother]
      rintro rfl
      exact hnode hother
    · rw [file?, file?, node?_put_of_ne hother]
  refine ⟨hself, hkeeps, bind_eq_ok_iff.2 ⟨_, hkeeps.locate hplace, ?_⟩⟩
  rw [hself]

end FileTree

end ApiSchema
