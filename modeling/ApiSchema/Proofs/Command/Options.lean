import ApiSchema.Command.Run
import ApiSchema.Proofs.Outcome

/-!
# Asking for a check

Arguments that can be read are all of use, so more of them may follow. With `--check` among them
they ask for a check, and for nothing else that is different.

Main statement: `Options.read_checkArguments`.
-/

namespace ApiSchema.Command

open List Except

/-! ### Words -/

lemma mem_words {args : List String} {ws : List (String × Word)} (h : words args = .ok ws)
    {arg : String} (harg : arg ∈ args) :
    ("--", .strange) ∈ ws ∨ ∃ word, classify arg = .ok word ∧ (arg, word) ∈ ws := by
  induction args generalizing ws with
  | nil => cases harg
  | cons first rest ih =>
    unfold words at h
    split at h
    next hmark =>
      cases h
      rw [hmark]
      exact .inl mem_cons_self
    next =>
      obtain ⟨word, hword, h⟩ := bind_eq_ok_iff.1 h
      obtain ⟨later, hlater, h⟩ := bind_eq_ok_iff.1 h
      cases h
      obtain rfl | harg := mem_cons.1 harg
      · exact .inr ⟨word, hword, mem_cons_self⟩
      · refine (ih hlater harg).imp (mem_cons_of_mem _) ?_
        rintro ⟨word', hword', hmem⟩
        exact ⟨word', hword', mem_cons_of_mem _ hmem⟩

lemma words_append {args : List String} {ws : List (String × Word)} (h : words args = .ok ws)
    (hmark : ("--", .strange) ∉ ws) (more : List String) :
    words (args ++ more) = (words more).map (ws ++ ·) := by
  induction args generalizing ws with
  | nil =>
    cases h
    show words more = _
    cases words more with
    | error halt => rfl
    | ok later => rfl
  | cons first rest ih =>
    unfold words at h
    split at h
    next heq =>
      cases h
      rw [heq] at hmark
      exact absurd mem_cons_self hmark
    next hne =>
      obtain ⟨word, hword, h⟩ := bind_eq_ok_iff.1 h
      obtain ⟨later, hlater, h⟩ := bind_eq_ok_iff.1 h
      cases h
      have hrest := ih hlater fun hmem => hmark (mem_cons_of_mem _ hmem)
      rw [cons_append, words, if_neg hne, hword, hrest]
      cases words more with
      | error halt => rfl
      | ok ws' => rfl

namespace Options

/-! ### Taking in words -/

lemma check_assign (s : Switch) (value : String) (o : Options) :
    (o.assign s value).check = o.check := by
  cases s <;> rfl

lemma check_turnOn {s : Switch} {o o' : Options} (h : o.turnOn s = .ok o') (ho : o.check = true) :
    o'.check = true := by
  cases s <;> cases h <;> first | exact ho | rfl

lemma check_foldlM_turnOn {switches : List Switch} {o o' : Options}
    (h : switches.foldlM (fun o s => o.turnOn s) o = .ok o') (ho : o.check = true) :
    o'.check = true := by
  induction switches generalizing o with
  | nil =>
    cases h
    exact ho
  | cons s rest ih =>
    rw [foldlM_cons] at h
    obtain ⟨o₁, ho₁, h⟩ := bind_eq_ok_iff.1 h
    exact ih h (check_turnOn ho₁ ho)

/-- What it means that words have been taken in: one goes on with what follows them, those that
make no sense are left over, and a check stays asked for. -/
structure Consumed (o : Options) (unknown : List String) (ws : List (String × Word)) (o' : Options)
    (unknown' : List String) : Prop where
  append : ∀ more, consume o unknown (ws ++ more) = consume o' unknown' more
  unknown : unknown ⊆ unknown'
  strange : ∀ arg, (arg, .strange) ∈ ws → arg ∈ unknown'
  check : o.check = true → o'.check = true
  asked : ∀ arg, (arg, .long .check none) ∈ ws → o'.check = true

lemma Consumed.trans {o o₁ o' : Options} {unknown unknown₁ unknown' : List String}
    {ws ws' : List (String × Word)} (h : Consumed o unknown ws o₁ unknown₁)
    (h' : Consumed o₁ unknown₁ ws' o' unknown') : Consumed o unknown (ws ++ ws') o' unknown' where
  append more := by rw [append_assoc, h.append, h'.append]
  unknown _ harg := h'.unknown (h.unknown harg)
  strange arg harg := by
    obtain harg | harg := mem_append.1 harg
    · exact h'.unknown (h.strange arg harg)
    · exact h'.strange arg harg
  check ho := h'.check (h.check ho)
  asked arg harg := by
    obtain harg | harg := mem_append.1 harg
    · exact h'.check (h.asked arg harg)
    · exact h'.asked arg harg

section

variable {o o' : Options} {unknown unknown' : List String}

variable {s : Switch} {ws : List (String × Word)}

lemma consumed_stray {word : Word} (hword : word = .plain ∨ word = .strange) (arg : String) :
    Consumed o unknown [(arg, word)] o (unknown ++ [arg]) where
  append more := by obtain rfl | rfl := hword <;> rfl
  unknown := subset_append_left _ _
  strange arg' harg := by
    cases mem_singleton.1 harg
    exact mem_append_right _ mem_cons_self
  check ho := ho
  asked arg' harg := by
    cases mem_singleton.1 harg
    obtain hword | hword := hword <;> cases hword

lemma consumed_assign (hs : s.takesValue = true) (value : String)
    (hws : (∃ arg, ws = [(arg, .long s (some value))]) ∨
      ∃ arg, ws = [(arg, .long s none), (value, .plain)]) :
    Consumed o unknown ws (o.assign s value) unknown where
  append more := by
    obtain ⟨arg, rfl⟩ | ⟨arg, rfl⟩ := hws
    · rw [singleton_append, consume, if_pos hs]
    · rw [cons_append, singleton_append, consume, if_pos hs]
  unknown := List.Subset.refl _
  strange arg harg := by
    obtain ⟨arg', rfl⟩ | ⟨arg', rfl⟩ := hws <;> simp at harg
  check ho := by rw [check_assign, ho]
  asked arg harg := by
    obtain ⟨arg', rfl⟩ | ⟨arg', rfl⟩ := hws
    · simp at harg
    · obtain heq | harg := mem_cons.1 harg
      · cases heq
        cases hs
      · simp at harg

lemma consumed_turnOn (hs : ¬s.takesValue = true) (h : o.turnOn s = .ok o') (arg : String) :
    Consumed o unknown [(arg, .long s none)] o' unknown where
  append more := by
    conv_lhs => rw [singleton_append]; unfold consume
    rw [if_neg hs, h]
    rfl
  unknown := List.Subset.refl _
  strange arg' harg := by cases mem_singleton.1 harg
  check := check_turnOn h
  asked arg' harg := by
    cases mem_singleton.1 harg
    cases h
    rfl

lemma consumed_cluster {letters : List Char} {switches : List Switch} {strange : List String}
    (hcluster : cluster s letters = .ok (switches, strange))
    (h : switches.foldlM (fun o s => o.turnOn s) o = .ok o') (arg : String) :
    Consumed o unknown [(arg, .short s letters)] o' (unknown ++ strange) where
  append more := by
    rw [singleton_append, consume, hcluster]
    show (switches.foldlM (fun o s => o.turnOn s) o >>= _) = _
    rw [h]
    rfl
  unknown := subset_append_left _ _
  strange arg' harg := by cases mem_singleton.1 harg
  check := check_foldlM_turnOn h
  asked arg' harg := by cases mem_singleton.1 harg

lemma consumed_of_consume (h : consume o unknown ws = .ok (o', unknown')) :
    Consumed o unknown ws o' unknown' := by
  fun_induction consume o unknown ws with
  | case1 o unknown =>
    cases h
    exact ⟨fun _ => rfl, List.Subset.refl _, nofun, id, nofun⟩
  | case2 o unknown arg rest ih => exact (consumed_stray (.inl rfl) arg).trans (ih h)
  | case3 o unknown arg rest ih => exact (consumed_stray (.inr rfl) arg).trans (ih h)
  | case4 o unknown arg s value rest hs ih =>
    exact (consumed_assign hs value (.inl ⟨arg, rfl⟩)).trans (ih h)
  | case5 => cases h
  | case6 o unknown arg s hs value rest ih =>
    exact (consumed_assign hs value (.inr ⟨arg, rfl⟩)).trans (ih h)
  | case7 => cases h
  | case8 o unknown arg s rest hs ih =>
    obtain ⟨o₁, ho₁, h⟩ := bind_eq_ok_iff.1 h
    exact (consumed_turnOn hs ho₁ arg).trans (ih o₁ h)
  | case9 o unknown arg s letters rest ih =>
    obtain ⟨⟨switches, strange⟩, hcluster, h⟩ := bind_eq_ok_iff.1 h
    obtain ⟨o₁, ho₁, h⟩ := bind_eq_ok_iff.1 h
    exact (consumed_cluster hcluster ho₁ arg).trans (ih strange o₁ h)

end

/-! ### Reading -/

variable {args : List String} {o : Options}

lemma read_eq_ok_iff : read args = .ok o ↔
    ∃ ws, words args = .ok ws ∧ consume {} [] ws = .ok (o, []) := by
  rw [read, bind_eq_ok_iff]
  refine exists_congr fun ws => and_congr_right fun _ => ?_
  rw [bind_eq_ok_iff]
  constructor
  · rintro ⟨⟨o', unknown⟩, hconsume, h⟩
    dsimp only at h
    split at h
    next hempty =>
      cases h
      rw [hconsume, List.isEmpty_iff.1 hempty]
    next => cases h
  · exact fun hconsume => ⟨_, hconsume, rfl⟩

/-- Nothing behind the mark `--` is of use. -/
lemma notMem_of_consume {ws : List (String × Word)} (h : consume {} [] ws = .ok (o, [])) :
    ("--", .strange) ∉ ws :=
  fun hmem => not_mem_nil ((consumed_of_consume h).strange _ hmem)

/-- Arguments with `--check` among them ask for a check. -/
theorem check_of_read (h : read args = .ok o) (hmem : "--check" ∈ args) : o.check = true := by
  obtain ⟨ws, hws, h⟩ := read_eq_ok_iff.1 h
  obtain ⟨word, hword, hmem⟩ := (mem_words hws hmem).resolve_left (notMem_of_consume h)
  cases hword
  exact (consumed_of_consume h).asked _ hmem

lemma mem_checkArguments (args : List String) : "--check" ∈ checkArguments args := by
  unfold checkArguments
  split
  next hmem => exact contains_iff_mem.1 hmem
  next => exact mem_append_right _ mem_cons_self

/-- The arguments of `check` ask for the same as those of `generate`, and for a check. -/
theorem read_checkArguments (h : read args = .ok o) :
    read (checkArguments args) = .ok { o with check := true } := by
  unfold checkArguments
  split
  next hmem =>
    have ho := check_of_read h (contains_iff_mem.1 hmem)
    rw [h, ← ho]
  next =>
    obtain ⟨ws, hws, h⟩ := read_eq_ok_iff.1 h
    refine read_eq_ok_iff.2 ⟨ws ++ [("--check", .long .check none)], ?_, ?_⟩
    · rw [words_append hws (notMem_of_consume h)]
      rfl
    · rw [(consumed_of_consume h).append]
      rfl

end Options

end ApiSchema.Command
