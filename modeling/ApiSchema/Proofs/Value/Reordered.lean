import ApiSchema.Proofs.Meaning.Same

/-!
# Documents with their components in another order

A document keeps its component schemas in a mapping, and the order of that mapping says nothing about
their meaning. Main statement: whatever a pointer leads to in the document is, after the entries were
put in another order, the same value, or one that has the same under every key that schemas and
routes are read from.
-/

namespace ApiSchema

open List

namespace Value

variable {key : String}

/-! ### Entries in another order -/

lemma same_str_iff {k : Scalar} : k.same (.str key) = true ↔ k = .str key := by
  constructor
  · intro h
    exact (Scalar.eq_str_iff_of_same h).2 rfl
  · rintro rfl
    simp [Scalar.same, Scalar.number?]

lemma find?_cons_str (key : String) (e : Scalar × Value) (es : List (Scalar × Value)) :
    find? (.str key) (e :: es) = if e.1 = .str key then some e.2 else find? (.str key) es := by
  rw [find?]
  simp only [same_str_iff]

variable {es es' : List (Scalar × Value)}

lemma find?_of_perm (hperm : es.Perm es') (hkeys : (es.map (·.1)).Nodup) (key : String) :
    find? (.str key) es' = find? (.str key) es := by
  induction hperm with
  | nil => rfl
  | cons e _ ih =>
    rw [find?_cons_str, find?_cons_str, ih (nodup_cons.1 hkeys).2]
  | swap e e' es =>
    have hne : e'.1 ≠ e.1 := by
      simp only [map_cons, nodup_cons, mem_cons, not_or] at hkeys
      exact hkeys.1.1
    simp only [find?_cons_str]
    by_cases h : e.1 = .str key
    · have h' : e'.1 ≠ .str key := fun h' => hne (h'.trans h.symm)
      simp [h, h']
    · simp [h]
  | trans hperm _ ih ih' =>
    rw [ih' ((hperm.map _).nodup_iff.1 hkeys), ih hkeys]

/-! ### Values under a key -/

/-- A mapping with another value under a key. -/
def set (v : Value) (key : String) (c : Value) : Value :=
  .map (put (.str key) c v.entries)

lemma find?_put (key other : String) (c : Value) (es : List (Scalar × Value)) :
    find? (.str other) (put (.str key) c es) =
      if other = key then some c else find? (.str other) es := by
  induction es with
  | nil =>
    rw [put, find?_cons_str]
    simp [eq_comm]
  | cons e es ih =>
    rw [put]
    simp only [same_str_iff]
    split
    next hkey =>
      rw [find?_cons_str, find?_cons_str, hkey]
      by_cases hother : other = key
      · simp [hother]
      · simp [hother, Ne.symm hother]
    next hkey =>
      rw [find?_cons_str, find?_cons_str, ih]
      by_cases hother : other = key
      · simp [hother, hkey]
      · simp [hother]

lemma get?_set (key other : String) (c v : Value) :
    (v.set key c).get? other = if other = key then some c else v.get? other :=
  find?_put key other c v.entries

lemma get_set (key : String) (c v : Value) : (v.set key c).get key = c := by
  rw [get, get?_set, if_pos rfl]
  rfl

/-! ### What readings look at -/

/-- Keys that neither schemas nor parts of routes are read from. -/
def hiddenKeys : List String :=
  ["components", "schemas"]

/-- A value that readings cannot tell from another one: it has the same under all keys that they
look up. -/
structure ReadsAs (v v' : Value) : Prop where
  get? : ∀ key ∉ hiddenKeys, v'.get? key = v.get? key
  kind : v' = v ∨ ∃ es es', v = .map es ∧ v' = .map es'

lemma ReadsAs.refl (v : Value) : v.ReadsAs v :=
  ⟨fun _ _ => rfl, .inl rfl⟩

lemma readsAs_of_perm (hperm : es.Perm es') (hkeys : (es.map (·.1)).Nodup) :
    (Value.map es).ReadsAs (.map es') :=
  ⟨fun key _ => find?_of_perm hperm hkeys key, .inr ⟨es, es', rfl, rfl⟩⟩

lemma readsAs_set (hkey : key ∈ hiddenKeys) (c : Value) :
    (Value.map es).ReadsAs ((Value.map es).set key c) := by
  refine ⟨fun other hother => ?_, .inr ⟨es, _, rfl, rfl⟩⟩
  rw [get?_set, if_neg]
  rintro rfl
  exact hother hkey

end Value

/-! ### Pointers -/

namespace Pointer

open Value

/-- What a pointer leads to in one value and in another one: the same, or values that readings
cannot tell apart. -/
inductive Agrees : Except Fault (Option Value) → Except Fault (Option Value) → Prop
  | same (r : Except Fault (Option Value)) : Agrees r r
  | found {v v' : Value} (h : v.ReadsAs v') : Agrees (.ok (some v)) (.ok (some v'))

lemma Agrees.readsAs {v v' : Value} (h : Agrees (.ok (some v)) (.ok (some v'))) : v.ReadsAs v' := by
  cases h with
  | same => exact .refl _
  | found h => exact h

lemma follow_cons_map (es : List (Scalar × Value)) (token : String) (rest : List String) :
    follow (.map es) (token :: rest) =
      match (Value.map es).get? token with
      | some next => follow next rest
      | none => .ok none := by
  rw [follow]
  have hstep : step (.map es) token = .ok ((Value.map es).get? token) := rfl
  rw [hstep]
  cases (Value.map es).get? token with
  | none => rfl
  | some next => rfl

lemma agrees_of_perm {es es' : List (Scalar × Value)} (hperm : es.Perm es')
    (hkeys : (es.map (·.1)).Nodup) (tokens : List String) :
    Agrees (follow (.map es) tokens) (follow (.map es') tokens) := by
  cases tokens with
  | nil => exact .found (readsAs_of_perm hperm hkeys)
  | cons token rest =>
    have hget : (Value.map es').get? token = (Value.map es).get? token :=
      find?_of_perm hperm hkeys token
    rw [follow_cons_map, follow_cons_map, hget]
    exact .same _

lemma agrees_set {key : String} (hkey : key ∈ hiddenKeys) {es : List (Scalar × Value)}
    {c c' : Value} (hc : (Value.map es).get? key = some c)
    (h : ∀ tokens, Agrees (follow c tokens) (follow c' tokens)) (tokens : List String) :
    Agrees (follow (.map es) tokens) (follow ((Value.map es).set key c') tokens) := by
  cases tokens with
  | nil => exact .found (readsAs_set hkey c')
  | cons token rest =>
    have hget := get?_set key token c' (.map es)
    rw [Value.set] at hget ⊢
    rw [follow_cons_map, follow_cons_map, hget]
    by_cases htoken : token = key
    · subst htoken
      rw [if_pos rfl, hc]
      exact h rest
    · rw [if_neg htoken]
      exact .same _

end Pointer

namespace Value

/-- A document with other entries in its mapping of component schemas. -/
def withSchemas (root : Value) (entries : List (Scalar × Value)) : Value :=
  root.set "components" ((root.get "components").set "schemas" (.map entries))

lemma exists_entries_of_get {v c : Value} {key : String} (h : v.get key = c) (hc : c ≠ .null) :
    v.get? key = some c ∧ ∃ es, v = .map es := by
  have hget : v.get? key = some c := by
    rw [Value.get] at h
    cases hfound : v.get? key with
    | none =>
      rw [hfound] at h
      exact absurd h.symm hc
    | some d =>
      rw [hfound] at h
      exact congrArg some h
  refine ⟨hget, ?_⟩
  cases v with
  | map es => exact ⟨es, rfl⟩
  | scalar _ | list _ | tuple _ => cases hget

variable {root : Value} {entries entries' : List (Scalar × Value)}
  (hschemas : (root.get "components").get "schemas" = .map entries)
  (hperm : entries.Perm entries') (hkeys : (entries.map (·.1)).Nodup)

include hschemas hperm hkeys

/-- Pointers cannot tell a document from the one with its component schemas in another order. -/
theorem agrees_withSchemas (tokens : List String) :
    Pointer.Agrees (Pointer.follow root tokens)
      (Pointer.follow (root.withSchemas entries') tokens) := by
  obtain ⟨hget, cs, hcs⟩ := exists_entries_of_get hschemas nofun
  obtain ⟨hget', es, rfl⟩ := exists_entries_of_get hcs nofun
  rw [hcs] at hget
  rw [withSchemas, hcs]
  refine Pointer.agrees_set (by decide) hget' (Pointer.agrees_set (by decide) hget ?_) tokens
  exact Pointer.agrees_of_perm hperm hkeys

end Value

end ApiSchema
