import ApiSchema.Proofs.Value.Reordered

/-!
# Positions in values

A path leads into a value part by part, and so does a pointer. Main statement: if the value at a path
is changed in a way that leaves its steps alone, a pointer leads to the same value as before, or to one
that holds the change at the rest of the path.
-/

namespace ApiSchema

open List

namespace Value

variable {v c : Value}

/-! ### Paths -/

/-- The value at a path: each number says which part to go to. -/
def at? : Value → List Nat → Option Value
  | v, [] => some v
  | v, i :: rest => v.parts[i]?.bind fun c => at? c rest

/-- Change the part at a position. -/
def modifyPart (f : Value → Value) (i : Nat) : Value → Value
  | scalar s => scalar s
  | list xs => list (xs.modify i f)
  | tuple xs => tuple (xs.modify i f)
  | map es => map (es.modify i (Prod.map id f))

/-- Change the value at a path. -/
def modifyAt (f : Value → Value) : List Nat → Value → Value
  | [], v => f v
  | i :: rest, v => v.modifyPart (modifyAt f rest) i

lemma at?_append {path : List Nat} (h : v.at? path = some c) (rest : List Nat) :
    v.at? (path ++ rest) = c.at? rest := by
  induction path generalizing v with
  | nil =>
    cases h
    rfl
  | cons i path ih =>
    obtain ⟨d, hd, hc⟩ := Option.bind_eq_some_iff.1 h
    rw [cons_append, at?, hd]
    exact ih hc

lemma exists_at?_of_append {path rest : List Nat} (h : v.at? (path ++ rest) = some c) :
    ∃ d, v.at? path = some d := by
  induction path generalizing v with
  | nil => exact ⟨v, rfl⟩
  | cons i path ih =>
    obtain ⟨d, hd, hc⟩ := Option.bind_eq_some_iff.1 h
    obtain ⟨e, he⟩ := ih hc
    exact ⟨e, Option.bind_eq_some_iff.2 ⟨d, hd, he⟩⟩

lemma parts_modifyPart (f : Value → Value) (i : Nat) (v : Value) :
    (v.modifyPart f i).parts = v.parts.modify i f := by
  cases v with
  | scalar s => simp [modifyPart, parts]
  | list xs | tuple xs => rfl
  | map es =>
    show (es.modify i (Prod.map id f)).map (·.2) = (es.map (·.2)).modify i f
    refine ext_getElem? fun k => ?_
    simp only [List.getElem?_map, List.getElem?_modify]
    split <;> cases es[k]? <;> rfl

/-! ### Positions of keys -/

/-- The position of the entry that a key is found at. -/
def position (key : Scalar) (es : List (Scalar × Value)) : Nat :=
  es.findIdx fun e => e.1.same key

lemma find?_eq (key : Scalar) (es : List (Scalar × Value)) :
    find? key es = es[position key es]?.map (·.2) := by
  induction es with
  | nil => rfl
  | cons e es ih =>
    rw [find?, position, findIdx_cons]
    cases e.1.same key with
    | true => rfl
    | false => exact ih

lemma position_of_keys {es es' : List (Scalar × Value)} (h : es'.map (·.1) = es.map (·.1))
    (key : Scalar) : position key es' = position key es := by
  have hkeys (es : List (Scalar × Value)) :
      position key es = (es.map (·.1)).findIdx fun k => k.same key := by
    rw [findIdx_map]
    rfl
  rw [hkeys, hkeys, h]

lemma keys_modify (f : Value → Value) (i : Nat) (es : List (Scalar × Value)) :
    (es.modify i (Prod.map id f)).map (·.1) = es.map (·.1) := by
  refine ext_getElem? fun k => ?_
  simp only [List.getElem?_map, List.getElem?_modify]
  split <;> cases es[k]? <;> rfl

/-! ### Values around a change -/

/-- What becomes of the value at `p` when the one at `path` is changed by `f`. -/
def BecomesAt (f : Value → Value) (path p : List Nat) (v v' : Value) : Prop :=
  v' = v ∨ ∃ rest, path = p ++ rest ∧ v' = v.modifyAt f rest

namespace BecomesAt

variable {f : Value → Value} {path p : List Nat}

variable {v v' : Value} {es : List (Scalar × Value)}

/-- Above the change a value keeps its kind, and the change is in one of its parts. -/
lemma eq_or_modifyPart (h : BecomesAt f path p v v') (hne : p ≠ path) :
    v' = v ∨ ∃ i rest, path = p ++ i :: rest ∧ v' = v.modifyPart (modifyAt f rest) i := by
  obtain rfl | ⟨rest, hpath, rfl⟩ := h
  · exact .inl rfl
  · cases rest with
    | nil => exact absurd (by rw [hpath, append_nil]) hne
    | cons i rest => exact .inr ⟨i, rest, hpath, rfl⟩

lemma part {c : Value} (h : BecomesAt f path p v v') (hne : p ≠ path) {k : Nat}
    (hc : v.parts[k]? = some c) :
    ∃ c', v'.parts[k]? = some c' ∧ BecomesAt f path (p ++ [k]) c c' := by
  obtain rfl | ⟨i, rest, hpath, rfl⟩ := h.eq_or_modifyPart hne
  · exact ⟨c, hc, .inl rfl⟩
  · rw [parts_modifyPart, List.getElem?_modify, hc]
    by_cases hik : i = k
    · subst hik
      refine ⟨modifyAt f rest c, by simp, .inr ⟨rest, ?_, rfl⟩⟩
      rw [hpath, append_assoc]
      rfl
    · exact ⟨c, by simp [hik], .inl rfl⟩

lemma map (h : BecomesAt f path p (.map es) v') (hne : p ≠ path) :
    ∃ es', v' = .map es' ∧ es'.map (·.1) = es.map (·.1) := by
  obtain rfl | ⟨i, rest, -, rfl⟩ := h.eq_or_modifyPart hne
  · exact ⟨es, rfl, rfl⟩
  · exact ⟨_, rfl, keys_modify _ i es⟩

lemma find? {es' : List (Scalar × Value)} (h : BecomesAt f path p (.map es) (.map es'))
    (hne : p ≠ path) (key : Scalar) : Option.Rel (BecomesAt f path (p ++ [position key es]))
      (Value.find? key es) (Value.find? key es') := by
  obtain ⟨_, heq, hkeys⟩ := h.map hne
  cases heq
  have hparts (es : List (Scalar × Value)) :
      es[position key es]?.map (·.2) = (Value.map es).parts[position key es]? :=
    List.getElem?_map.symm
  rw [find?_eq, find?_eq, hparts, hparts, position_of_keys hkeys]
  cases hc : (Value.map es).parts[position key es]? with
  | some c =>
    obtain ⟨c', hc', hbecomes⟩ := h.part hne hc
    rw [hc']
    exact .some hbecomes
  | none =>
    have hlength : (Value.map es').parts.length = (Value.map es).parts.length := by
      simpa [parts] using congrArg List.length hkeys
    have hc' : (Value.map es').parts[position key es]? = none := by
      rw [List.getElem?_eq_none_iff] at hc ⊢
      omega
    rw [hc']
    exact .none

end BecomesAt

end Value

/-! ### Pointers -/

namespace Pointer

open Value

variable {v doc next raw : Value} {tokens : List String}

/-- The position of the part that a token leads to. -/
def position : Value → String → Nat
  | .map es, token => Value.position (.str token) es
  | .list _, token => (index? token).toOption.getD 0
  | _, _ => 0

/-- The path that tokens follow. -/
def path : Value → List String → List Nat
  | _, [] => []
  | v, token :: rest =>
    position v token ::
      match v.parts[position v token]? with
      | some c => path c rest
      | none => []

lemma getElem?_of_step {c : Value} {token : String} (h : step v token = .ok (some c)) :
    v.parts[position v token]? = some c := by
  cases v with
  | map es =>
    have hfind : find? (.str token) es = some c := Except.ok.inj h
    rw [find?_eq] at hfind
    exact (List.getElem?_map.trans hfind)
  | list xs =>
    rw [step] at h
    split at h
    · cases h
    · obtain ⟨i, hi, hc⟩ := Except.map_eq_ok_iff.1 h
      have hposition : position (.list xs) token = i := by
        rw [position, hi]
        rfl
      rw [hposition]
      exact hc
  | scalar _ | tuple _ => cases h

variable {f : Value → Value}

/-- Behind a change in one of the parts a token leads to the part at the same position. -/
lemma step_modifyPart {c : Value} {token : String} (h : step v token = .ok (some c)) (i : Nat) :
    step (v.modifyPart f i) token = .ok (some (if i = position v token then f c else c)) := by
  have hc := getElem?_of_step h
  have hc' : (v.modifyPart f i).parts[position v token]? =
      some (if i = position v token then f c else c) := by
    rw [parts_modifyPart, List.getElem?_modify, hc]
    split <;> rfl
  cases v with
  | map es =>
    show Except.ok (find? (.str token) (es.modify i (Prod.map id f))) = _
    rw [find?_eq, position_of_keys (keys_modify f i es), ← List.getElem?_map]
    exact congrArg Except.ok hc'
  | list xs =>
    rw [step] at h
    rw [modifyPart, step]
    split at h
    next => cases h
    next hdigits =>
      obtain ⟨n, hn, -⟩ := Except.map_eq_ok_iff.1 h
      rw [if_neg hdigits, hn]
      have hposition : position (.list xs) token = n := by
        rw [position, hn]
        rfl
      rw [hposition] at hc' ⊢
      exact congrArg Except.ok hc'
  | scalar _ | tuple _ => cases h

lemma path_of_step {token : String} (h : step doc token = .ok (some next)) (tokens : List String) :
    path doc (token :: tokens) = position doc token :: path next tokens := by
  rw [path, getElem?_of_step h]

lemma follow_of_step {token : String} (h : step doc token = .ok (some next)) (tokens : List String) :
    follow doc (token :: tokens) = follow next tokens := by
  rw [follow, h]

/-- What tokens lead to stands at their path. -/
lemma at?_path (h : follow doc tokens = .ok (some raw)) : doc.at? (path doc tokens) = some raw := by
  induction tokens generalizing doc with
  | nil =>
    cases h
    rfl
  | cons token tokens ih =>
    rw [follow] at h
    split at h
    next next hstep =>
      rw [path_of_step hstep, at?, getElem?_of_step hstep]
      exact ih h
    next => cases h
    next => cases h

/-- A pointer leads to the same value as before, or to one that holds the change at the rest of the
path. -/
theorem follow_modifyAt {target : Value} {change : List Nat}
    (h : follow doc tokens = .ok (some raw)) (htarget : doc.at? change = some target)
    (hf : ∀ token c, step target token = .ok (some c) → step (f target) token = .ok (some c)) :
    ∃ raw', follow (doc.modifyAt f change) tokens = .ok (some raw') ∧
      BecomesAt f change (path doc tokens) raw raw' := by
  induction tokens generalizing doc change with
  | nil =>
    cases h
    exact ⟨_, rfl, .inr ⟨change, rfl, rfl⟩⟩
  | cons token tokens ih =>
    rw [follow] at h
    split at h
    next next hstep =>
      cases change with
      | nil =>
        -- The change is at the start; the token leads on as before.
        cases htarget
        refine ⟨raw, ?_, .inl rfl⟩
        rw [modifyAt, follow_of_step (hf token next hstep)]
        exact h
      | cons i rest =>
        obtain ⟨c, hc, htarget⟩ := Option.bind_eq_some_iff.1 htarget
        have hstep' := step_modifyPart (f := modifyAt f rest) hstep i
        rw [modifyAt, follow_of_step hstep', path_of_step hstep]
        by_cases hi : i = position doc token
        · rw [hi, getElem?_of_step hstep] at hc
          cases hc
          rw [if_pos hi]
          obtain ⟨raw', hraw', hbecomes⟩ := ih h htarget
          refine ⟨raw', hraw', hbecomes.imp_right ?_⟩
          rintro ⟨rest', hrest, heq⟩
          refine ⟨rest', ?_, heq⟩
          rw [hi, hrest]
          rfl
        · rw [if_neg hi]
          exact ⟨raw, h, .inl rfl⟩
    next => cases h
    next => cases h

end Pointer

end ApiSchema
