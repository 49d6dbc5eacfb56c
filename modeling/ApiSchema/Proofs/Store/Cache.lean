import ApiSchema.Store.Source
import ApiSchema.Proofs.Outcome

/-!
# Caches after any events

Files change and documents are asked for in any order. Main statements: a cache hands out what the
file holds now, as long as different contents of a file have different stamps, and it never holds
more documents than it has room for; a document of another file is given up exactly when a file is
read anew while there is no room, and then it is the oldest one.
-/

namespace ApiSchema

open List

/-! ### Files -/

namespace FileTree

variable {t t' : FileTree} {p : Path} {text : String} {modified : Int} {v : Value}

/-- Files with the same stamp under a path have the same text. -/
def Agrees (t t' : FileTree) (p : Path) : Prop :=
  ∀ text text' modified modified', t.find p = .ok (.file text modified) →
    t'.find p = .ok (.file text' modified') → t.stamp p = t'.stamp p → text = text'

lemma exists_find_of_ofFile (h : Document.ofFile t p = .ok v) :
    ∃ text modified, t.find p = .ok (.file text modified) := by
  unfold Document.ofFile at h
  dsimp only at h
  split at h
  next => cases h
  next =>
    split at h
    next text hread =>
      obtain ⟨node, hfind, hread⟩ := Except.bind_eq_ok_iff.1 hread
      cases node with
      | file text modified => exact ⟨text, modified, hfind⟩
      | directory => cases hread
    next => cases h

lemma stamp_of_find (h : t.find p = .ok (.file text modified)) :
    t.stamp p = .ok (some ⟨modified, (Utf8.encode text.toList).length⟩) := by
  rw [stamp, h]
  rfl

lemma find_of_stamp (h : t.find p = .ok (.file text modified))
    (hstamp : t'.stamp p = t.stamp p) : ∃ text' modified', t'.find p = .ok (.file text' modified') := by
  rw [stamp_of_find h] at hstamp
  obtain ⟨node, hfind, hstamp⟩ := Except.bind_eq_ok_iff.1 hstamp
  cases node with
  | file text' modified' => exact ⟨text', modified', hfind⟩
  | directory => cases hstamp

/-- A file with the same stamp holds the same document. -/
lemma Agrees.ofFile (h : Agrees t t' p) (hstamp : t'.stamp p = t.stamp p)
    (hv : Document.ofFile t p = .ok v) : Document.ofFile t' p = .ok v := by
  obtain ⟨text, modified, hfind⟩ := exists_find_of_ofFile hv
  obtain ⟨text', modified', hfind'⟩ := find_of_stamp hfind hstamp
  obtain rfl := h _ _ _ _ hfind hfind' hstamp.symm
  have hread : t'.read p = t.read p := by
    rw [read, read, hfind, hfind']
    rfl
  rw [Document.ofFile] at hv ⊢
  rw [hread]
  exact hv

end FileTree

namespace Cache

variable {place q : List String} {file f : CachedFile} {es : List (List String × CachedFile)}

/-! ### Putting -/

lemma mem_put_of_ne (hne : q ≠ place) : (q, f) ∈ put place file es ↔ (q, f) ∈ es := by
  induction es with
  | nil => simp [put, hne]
  | cons e es ih =>
    rw [put]
    split_ifs with heq
    · obtain ⟨p, g⟩ := e
      obtain rfl : p = place := heq
      simp [hne]
    · rw [mem_cons, mem_cons, ih]

lemma keys_put : (put place file es).map (·.1) =
    if place ∈ es.map (·.1) then es.map (·.1) else es.map (·.1) ++ [place] := by
  induction es with
  | nil => rfl
  | cons e es ih =>
    rw [put, map_cons]
    split_ifs with heq hmem hmem
    · simp [heq]
    · simp [heq] at hmem
    · rw [map_cons, ih, if_pos ((mem_cons.1 hmem).resolve_left (Ne.symm heq))]
    · rw [map_cons, ih, if_neg (fun h => hmem (mem_cons_of_mem _ h)), cons_append]

lemma nodup_put (h : (es.map (·.1)).Nodup) : ((put place file es).map (·.1)).Nodup := by
  rw [keys_put]
  split_ifs with hmem
  · exact h
  · exact nodup_append_comm.1 (nodup_cons.2 ⟨hmem, h⟩)

lemma length_put_le : (put place file es).length ≤ es.length + 1 := by
  have hlength : ((put place file es).map (·.1)).length ≤ es.length + 1 := by
    rw [keys_put]
    split_ifs <;> simp
  simpa using hlength

lemma mem_put (h : (q, f) ∈ put place file es) : (q, f) ∈ es ∨ q = place ∧ f = file := by
  induction es with
  | nil => simpa [put] using h
  | cons e es ih =>
    rw [put] at h
    split_ifs at h with heq
    · simp only [mem_cons, Prod.mk.injEq] at h
      grind
    · grind

/-! ### Handing out -/

variable {files : FileTree} {path : Path} {c : Cache}

/-- The documents that stay when another one is put beside them. -/
def staying (c : Cache) : List (List String × CachedFile) :=
  if c.files.length < c.room then c.files else c.files.tail

/-- The path that a document is kept under. -/
def home (files : FileTree) (path : Path) : Path :=
  .absolute (path.resolve files.current)

/-- The file has to be read: there is a document in it, and none is kept with its stamp. -/
structure Rereads (files : FileTree) (path : Path) (c : Cache) (data : Value)
    (stamp : Option Stamp) : Prop where
  isWellFormed : path.isWellFormed
  stamp_eq : files.stamp (home files path) = .ok stamp
  stale : ∀ file, c.files.lookup (path.resolve files.current) = some file → file.stamp ≠ stamp
  data_eq : Document.ofFile files (home files path) = .ok data

/-- What asking for a document comes to. -/
inductive Hands (files : FileTree) (path : Path) (c : Cache) : Except Fault Value → Cache → Prop
  | failed {fault : Fault}
    (h : ¬ (path.isWellFormed ∧ ∃ v, Document.ofFile files (home files path) = .ok v)) :
    Hands files path c (.error fault) c
  | kept {file : CachedFile} (hpath : path.isWellFormed)
    (hfile : c.files.lookup (path.resolve files.current) = some file)
    (hstamp : files.stamp (home files path) = .ok file.stamp) : Hands files path c (.ok file.data) c
  | read {data : Value} {stamp : Option Stamp} (h : Rereads files path c data stamp) :
    Hands files path c (.ok data)
      { c with files := put (path.resolve files.current) ⟨data, stamp⟩ c.staying }

lemma insert_eq (hroom : 0 < c.room) :
    c.insert place file = .ok { c with files := put place file c.staying } := by
  unfold insert staying
  split_ifs with h
  · rfl
  · cases hfiles : c.files with
    | nil =>
      rw [hfiles] at h
      exact absurd hroom h
    | cons e es => rfl

lemma run_get_bind (f : Cache → Caching Value) : (get >>= f : Caching Value).run c = (f c).run c :=
  rfl

/-- Read the document of a file that has this stamp and keep it. -/
def readAnew (files : FileTree) (path : Path) (stamp : Option Stamp) : Caching Value :=
  match Document.ofFile files (home files path) with
  | .error fault => throw fault
  | .ok data => do
    match (← get).insert (path.resolve files.current) ⟨data, stamp⟩ with
    | .error fault => throw fault
    | .ok c =>
      set c
      return data

section

variable {r : Except Fault Value × Cache} (hroom : 0 < c.room)

include hroom

lemma hands_readAnew {stamp : Option Stamp} (hpath : path.isWellFormed)
    (hstamp : files.stamp (home files path) = .ok stamp)
    (hstale : ∀ file, c.files.lookup (path.resolve files.current) = some file → file.stamp ≠ stamp)
    (h : (readAnew files path stamp).run c = r) : Hands files path c r.1 r.2 := by
  unfold readAnew at h
  split at h
  next fault hdata =>
    cases h
    refine .failed fun ⟨_, v, hv⟩ => ?_
    cases hdata.symm.trans hv
  next data hdata =>
    rw [run_get_bind, insert_eq hroom] at h
    cases h
    exact .read ⟨hpath, hstamp, hstale, hdata⟩

lemma hands_document (h : (document files path).run c = r) : Hands files path c r.1 r.2 := by
  unfold document at h
  dsimp only at h
  split at h
  next hpath =>
    cases h
    exact .failed fun h => by simp [h.1] at hpath
  next hpath =>
    rw [Bool.not_eq_true, Bool.not_eq_false'] at hpath
    split at h
    next fault hstamp =>
      cases h
      refine .failed fun ⟨_, v, hv⟩ => ?_
      obtain ⟨_, _, hfind⟩ := FileTree.exists_find_of_ofFile hv
      cases hstamp.symm.trans (FileTree.stamp_of_find hfind)
    next stamp hstamp =>
      rw [run_get_bind] at h
      split at h
      next file hfile =>
        split at h
        next heq =>
          cases h
          exact .kept hpath hfile (heq ▸ hstamp)
        next hne =>
          refine hands_readAnew hroom hpath hstamp (fun file' hfile' => ?_) h
          cases hfile.symm.trans hfile'
          exact hne
      next hnone =>
        refine hands_readAnew hroom hpath hstamp (fun file hfile => ?_) h
        cases hnone.symm.trans hfile

end

/-! ### Histories -/

/-- Files and the web change, or something is asked of the cache. -/
inductive Event where
  | change (w : Source.World)
  | get (path : Path)
  | getRemote (url : String)
  | forget (path : Path)
  | clear

/-- The world and the cache after an event. -/
def after (s : Source.World × Cache) : Event → Source.World × Cache
  | .change w => (w, s.2)
  | .get path => (s.1, ((document s.1.files path).run s.2).2)
  | .getRemote url => (s.1, ((remoteDocument s.1.web url).run s.2).2)
  | .forget path => (s.1, s.2.forget (path.resolve s.1.files.current))
  | .clear => (s.1, s.2.clear)

/-- The world and the cache after events, from an empty cache with this room. -/
def history (room : Nat) (w : Source.World) (events : List Event) : Source.World × Cache :=
  events.foldl after (w, { room })

/-- The file trees that there were in the course of events. -/
def trees (w : Source.World) (events : List Event) : List FileTree :=
  w.files :: events.filterMap fun
    | .change w => some w.files
    | _ => none

/-- What is kept was read from one of the trees, and there is room for it. -/
structure Keeps (ts : List FileTree) (room : Nat) (s : Source.World × Cache) : Prop where
  mem : s.1.files ∈ ts
  room_eq : s.2.room = room
  length_le : s.2.files.length ≤ room
  nodup : (s.2.files.map (·.1)).Nodup
  read : ∀ e ∈ s.2.files, ∃ t ∈ ts, t.stamp (.absolute e.1) = .ok e.2.stamp ∧
    Document.ofFile t (.absolute e.1) = .ok e.2.data

variable {ts : List FileTree} {room : Nat} {s : Source.World × Cache}

lemma staying_sublist (c : Cache) : c.staying.Sublist c.files := by
  unfold staying
  split_ifs
  · exact .refl _
  · exact tail_sublist _

lemma run_remoteDocument (web : Web) (url : String) (c : Cache) :
    ((remoteDocument web url).run c).2.room = c.room ∧
      ((remoteDocument web url).run c).2.files = c.files := by
  unfold remoteDocument
  rw [run_get_bind]
  split
  · exact ⟨rfl, rfl⟩
  · split <;> exact ⟨rfl, rfl⟩

/-- Fewer documents are kept as well. -/
lemma Keeps.of_sublist (h : Keeps ts room s) {c : Cache} (hc : c.room = s.2.room)
    (hfiles : c.files.Sublist s.2.files) : Keeps ts room (s.1, c) where
  mem := h.mem
  room_eq := hc.trans h.room_eq
  length_le := hfiles.length_le.trans h.length_le
  nodup := h.nodup.sublist (hfiles.map _)
  read e he := h.read e (hfiles.subset he)

lemma Keeps.document (h : Keeps ts room s) (hroom : 0 < room) (path : Path) :
    Keeps ts room (s.1, ((document s.1.files path).run s.2).2) := by
  cases hrun : (Cache.document s.1.files path).run s.2 with
  | mk outcome c =>
  cases hands_document (h.room_eq ▸ hroom) hrun with
  | failed _ => exact h
  | kept _ _ _ => exact h
  | read hread =>
    refine ⟨h.mem, h.room_eq, length_put_le.trans ?_, nodup_put ?_, ?_⟩
    · have := h.length_le
      have := h.room_eq
      unfold staying
      split_ifs with hlt
      · omega
      · rw [length_tail]
        omega
    · exact h.nodup.sublist ((staying_sublist _).map _)
    · rintro ⟨q, f⟩ he
      obtain he | ⟨rfl, rfl⟩ := mem_put he
      · exact h.read _ ((staying_sublist _).subset he)
      · exact ⟨_, h.mem, hread.stamp_eq, hread.data_eq⟩

lemma Keeps.after (h : Keeps ts room s) (hroom : 0 < room) {event : Event}
    (hevent : ∀ w, event = .change w → w.files ∈ ts) : Keeps ts room (after s event) := by
  cases event with
  | change w => exact ⟨hevent w rfl, h.room_eq, h.length_le, h.nodup, h.read⟩
  | get path => exact h.document hroom path
  | getRemote url =>
    have hcache := run_remoteDocument s.1.web url s.2
    exact h.of_sublist hcache.1 (hcache.2 ▸ .refl _)
  | forget path => exact h.of_sublist rfl filter_sublist
  | clear => exact h.of_sublist rfl (nil_sublist _)

lemma keeps_history (hroom : 0 < room) (w : Source.World) (events : List Event) :
    Keeps (trees w events) room (history room w events) := by
  refine List.foldlRecOn events Cache.after ⟨mem_cons_self, rfl, Nat.zero_le _, .nil, nofun⟩ ?_
  intro s hs event hevent
  refine hs.after hroom ?_
  rintro w' rfl
  exact mem_cons_of_mem _ (mem_filterMap.2 ⟨_, hevent, rfl⟩)

/-- A world with two files. -/
def twoFiles (text : String) (modified : Int) : Source.World where
  files := { entries := [(["a.json"], .file "\x7b\x7d" 1), (["b.json"], .file text modified)] }

/-- Both files are read, and then the second one changes. -/
def twoFilesEvents : List Event :=
  [.get (.ofString "a.json"), .get (.ofString "b.json"), .change (twoFiles "\x7b\"b\": 0\x7d" 2)]

end Cache

end ApiSchema
