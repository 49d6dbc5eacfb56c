import ApiSchema.Proofs.Name.Registry
import ApiSchema.Proofs.Pointwise

/-!
# Registries after any calls

A registry starts with a prefix and reserved names and answers calls in any order. Main statement:
whatever the calls were, a name is handed out as a search from the start would find it, no name is
handed out twice, and fingerprints and names are bound one to one.
-/

namespace ApiSchema.Name.Registry

open List

/-! ### Runs -/

/-- A registry that has answered nothing yet. -/
def fresh (start : String) (reserved : List String) : Registry :=
  { start, used := reserved }

/-- The answers to calls in order, and the registry after them. -/
def run (r : Registry) : List Call → List Answer × Registry
  | [] => ([], r)
  | c :: calls =>
    let (answer, r) := r.call c
    let (answers, r) := run r calls
    (answer :: answers, r)

/-- The name that an answer hands out. -/
def Answer.name? : Answer → Option String
  | .assigned name => some name
  | _ => none

/-- The names that answers hand out. -/
def handedOut (answers : List Answer) : List String :=
  answers.filterMap Answer.name?

/-- The name that a search from the start finds: the wanted one if it is free, and otherwise the one
with the least number from 2 on that is free. -/
inductive IsFirstFree (taken : List String) (wanted : String) : String → Prop
  | plain (hfree : wanted ∉ taken) : IsFirstFree taken wanted wanted
  | numbered {k : Nat} (htaken : wanted ∈ taken)
    (hk : IsLeast {k | 2 ≤ k ∧ numbered wanted k ∉ taken} k) :
    IsFirstFree taken wanted (numbered wanted k)

/-! ### Numbers -/

/-- Of every name, the numbers up to the one last put behind it are in use. -/
structure IsSteady (r : Registry) : Prop where
  pos : ∀ name, 1 ≤ r.count name
  taken : ∀ name k, 2 ≤ k → k ≤ r.count name → numbered name k ∈ r.used

section

variable {r : Registry}

variable {fingerprint name : String} {r' : Registry}

/-- Starting behind the number that was last put behind a name skips no number that is free. -/
lemma IsSteady.isLeast_freeNumber (h : r.IsSteady) (name : String) :
    IsLeast {k | 2 ≤ k ∧ numbered name k ∉ r.used} (freeNumber r.used name (r.count name)) := by
  obtain ⟨⟨hlast, hfree⟩, hleast⟩ := freeNumber_isLeast r.used name (r.count name)
  have hpos := h.pos name
  constructor
  · exact ⟨by omega, hfree⟩
  · rintro k ⟨hk, hknot⟩
    apply hleast
    refine ⟨?_, hknot⟩
    by_contra hle
    exact hknot (h.taken name k hk (by omega))

lemma IsSteady.isFirstFree (h : r.IsSteady) (base : String) :
    IsFirstFree r.used (r.start ++ base) (r.assign base).1 := by
  by_cases hused : r.start ++ base ∈ r.used
  · have hchosen : (r.assign base).1 = numbered (r.start ++ base)
        (freeNumber r.used (r.start ++ base) (r.count (r.start ++ base))) := by
      simp [assign, hused]
    rw [hchosen]
    exact .numbered hused (h.isLeast_freeNumber _)
  · have hchosen : (r.assign base).1 = r.start ++ base := by simp [assign, hused]
    rw [hchosen]
    exact .plain hused

/-- The numbers below the one that is found are in use already, and that one is from now on. -/
lemma IsSteady.assign (h : r.IsSteady) (base : String) : (r.assign base).2.IsSteady := by
  obtain ⟨⟨hlast, -⟩, hleast⟩ :=
    freeNumber_isLeast r.used (r.start ++ base) (r.count (r.start ++ base))
  constructor
  · intro name
    rw [count_assign]
    split
    · omega
    · exact h.pos name
  · intro name k hk hcount
    rw [used_assign, mem_append, mem_singleton]
    rw [count_assign] at hcount
    split at hcount
    next hname =>
      obtain ⟨rfl, hused⟩ := hname
      by_cases hfree : numbered (r.start ++ base) k ∈ r.used
      · exact .inl hfree
      · right
        have habove : r.count (r.start ++ base) < k := by
          by_contra hle
          exact hfree (h.taken _ k hk (by omega))
        have hlowest := hleast ⟨habove, hfree⟩
        rw [Nat.le_antisymm hcount hlowest]
        simp [Registry.assign, hused]
    next => exact .inl (h.taken name k hk hcount)

/-! ### Bindings -/

/-- No fingerprint and no name is bound twice. -/
structure IsOneToOne (r : Registry) : Prop where
  fingerprints : (r.bound.map (·.1)).Nodup
  names : (r.bound.map (·.2)).Nodup

lemma IsOneToOne.lookup_iff (h : r.IsOneToOne) :
    r.lookup fingerprint = some name ↔ (fingerprint, name) ∈ r.bound :=
  ⟨mem_of_lookup, lookup_of_mem h.fingerprints⟩

lemma IsOneToOne.fingerprintOf_iff (h : r.IsOneToOne) :
    r.fingerprintOf name = some fingerprint ↔ (fingerprint, name) ∈ r.bound := by
  simp only [fingerprintOf, Option.map_eq_some_iff, Prod.exists]
  constructor
  · rintro ⟨f, n, hfound, rfl⟩
    have hname : n = name := by simpa using List.find?_some hfound
    rw [← hname]
    exact List.mem_of_find?_eq_some hfound
  · intro hmem
    have hsome : (r.bound.find? fun b => b.2 == name).isSome := by
      rw [List.find?_isSome]
      exact ⟨_, hmem, beq_self_eq_true name⟩
    obtain ⟨⟨f, n⟩, hfound⟩ := Option.isSome_iff_exists.1 hsome
    have hname : n = name := by simpa using List.find?_some hfound
    -- The name stands in one pair only, so the pair that is found is this one.
    have hpair := inj_on_of_nodup_map h.names (List.mem_of_find?_eq_some hfound) hmem hname
    exact ⟨f, n, hfound, congrArg Prod.fst hpair⟩

/-- A binding that is made is either there already or joins two that are free. -/
lemma bind_cases (h : r.bind fingerprint name = .ok r') :
    r' = r ∧ r.lookup fingerprint = some name ∨
      r' = { r with bound := r.bound ++ [(fingerprint, name)] } ∧
        r.lookup fingerprint = none ∧ r.fingerprintOf name = none := by
  rw [bind] at h
  cases hlookup : r.lookup fingerprint with
  | some existing =>
    left
    simp only [hlookup] at h
    split at h
    · cases h
    next hname =>
      have hname : existing = name := not_not.1 hname
      split at h
      · split at h
        · cases h
        · cases h
          exact ⟨rfl, by rw [hname]⟩
      · cases h
        exact ⟨rfl, by rw [hname]⟩
  | none =>
    right
    cases hother : r.fingerprintOf name with
    | some f => simp [hlookup, hother] at h
    | none =>
      simp only [hlookup, hother, Except.ok.injEq] at h
      exact ⟨h.symm, rfl, rfl⟩

lemma IsOneToOne.bind (h : r.IsOneToOne) (hbind : r.bind fingerprint name = .ok r') :
    r'.IsOneToOne := by
  obtain ⟨rfl, -⟩ | ⟨rfl, hfree, hother⟩ := bind_cases hbind
  · exact h
  · have hfingerprint : fingerprint ∉ r.bound.map (·.1) := by
      rw [← isSome_lookup_iff, show r.bound.lookup fingerprint = none from hfree]
      simp
    have hname : name ∉ r.bound.map (·.2) := by
      intro hmem
      obtain ⟨⟨f, n⟩, hpair, rfl⟩ := mem_map.1 hmem
      rw [h.fingerprintOf_iff.2 hpair] at hother
      cases hother
    constructor
    · rw [map_append]
      exact h.fingerprints.append (nodup_singleton _) (disjoint_singleton.2 hfingerprint)
    · rw [map_append]
      exact h.names.append (nodup_singleton _) (disjoint_singleton.2 hname)

/-- Binding gives the fingerprint its name and leaves all others as they are. -/
lemma lookup_of_bind (h : r.bind fingerprint name = .ok r') (other : String) :
    r'.lookup other = if other = fingerprint then some name else r.lookup other := by
  obtain ⟨rfl, hsame⟩ | ⟨rfl, hfree, -⟩ := bind_cases h
  · split
    next heq => rw [heq, hsame]
    next => rfl
  · rw [lookup] at hfree
    by_cases heq : other = fingerprint
    · simp [lookup, lookup_append, heq, hfree]
    · have hne : (other == fingerprint) = false := beq_eq_false_iff_ne.2 heq
      simp [lookup, lookup_append, lookup_cons, heq, hne]

end

/-! ### Calls -/

/-- What a registry with this prefix and these reserved names holds after such answers. -/
structure Keeps (start : String) (reserved : List String) (answers : List Answer) (r : Registry) :
    Prop where
  start_eq : r.start = start
  used_eq : r.used = reserved ++ handedOut answers
  nodup : (handedOut answers).Nodup
  apart : ∀ name ∈ handedOut answers, name ∉ reserved
  steady : r.IsSteady
  oneToOne : r.IsOneToOne

section

variable {start : String} {reserved : List String} {answers : List Answer} {r : Registry}

lemma keeps_fresh (start : String) (reserved : List String) :
    Keeps start reserved [] (fresh start reserved) where
  start_eq := rfl
  used_eq := (append_nil reserved).symm
  nodup := nodup_nil
  apart := by simp [handedOut]
  steady := by
    constructor
    · intro name
      exact le_rfl
    · intro name k hk hcount
      have hone : (fresh start reserved).count name = 1 := rfl
      omega
  oneToOne := ⟨nodup_nil, nodup_nil⟩

lemma handedOut_append (answers : List Answer) (answer : Answer) :
    handedOut (answers ++ [answer]) = handedOut answers ++ answer.name?.toList := by
  cases h : answer.name? <;> simp [handedOut, h]

/-- A call that hands out no name and leaves names and numbers as they are keeps all of it. -/
lemma Keeps.of_same (h : Keeps start reserved answers r) {answer : Answer} {r' : Registry}
    (hanswer : answer.name? = none) (hstart : r'.start = r.start) (hused : r'.used = r.used)
    (hcounts : r'.counts = r.counts) (hone : r'.IsOneToOne) :
    Keeps start reserved (answers ++ [answer]) r' := by
  have hout : handedOut (answers ++ [answer]) = handedOut answers := by
    simp [handedOut_append, hanswer]
  have hcount (name : String) : r'.count name = r.count name := by simp [count, hcounts]
  constructor
  · rw [hstart, h.start_eq]
  · rw [hout, hused, h.used_eq]
  · rw [hout]
    exact h.nodup
  · rw [hout]
    exact h.apart
  · constructor
    · intro name
      rw [hcount]
      exact h.steady.pos name
    · intro name k
      rw [hcount, hused]
      exact h.steady.taken name k
  · exact hone

lemma Keeps.assign (h : Keeps start reserved answers r) (base : String) :
    Keeps start reserved (answers ++ [.assigned (r.assign base).1]) (r.assign base).2 := by
  have hout : handedOut (answers ++ [.assigned (r.assign base).1]) =
      handedOut answers ++ [(r.assign base).1] := handedOut_append _ _
  have hnew : (r.assign base).1 ∉ reserved ++ handedOut answers := by
    rw [← h.used_eq]
    exact assign_not_mem r base
  simp only [mem_append, not_or] at hnew
  constructor
  · exact h.start_eq
  · rw [hout, ← append_assoc, ← h.used_eq, used_assign]
  · rw [hout]
    exact h.nodup.append (nodup_singleton _) (disjoint_singleton.2 hnew.2)
  · rw [hout]
    intro name hname
    rcases mem_append.1 hname with hname | hname
    · exact h.apart name hname
    · rw [mem_singleton.1 hname]
      exact hnew.1
  · exact h.steady.assign base
  · exact ⟨h.oneToOne.fingerprints, h.oneToOne.names⟩

/-- One call keeps all of it. -/
lemma Keeps.call (h : Keeps start reserved answers r) (c : Call) :
    Keeps start reserved (answers ++ [(r.call c).1]) (r.call c).2 := by
  cases c with
  | assign base => exact h.assign base
  | bind fingerprint name =>
    rw [Registry.call]
    cases hbind : r.bind fingerprint name with
    | error fault => exact h.of_same rfl rfl rfl rfl h.oneToOne
    | ok r' =>
      have hone := h.oneToOne.bind hbind
      obtain ⟨rfl, -⟩ | ⟨rfl, -⟩ := bind_cases hbind
      · exact h.of_same rfl rfl rfl rfl hone
      · exact h.of_same rfl rfl rfl rfl hone
  | lookup fingerprint => exact h.of_same rfl rfl rfl rfl h.oneToOne

/-- So does a run of calls. -/
lemma Keeps.run (h : Keeps start reserved answers r) (calls : List Call) :
    Keeps start reserved (answers ++ (r.run calls).1) (r.run calls).2 := by
  induction calls generalizing answers r with
  | nil => simpa [Registry.run] using h
  | cons c calls ih =>
    have hrun := ih (h.call c)
    rw [append_assoc, singleton_append] at hrun
    exact hrun

end

/-! ### Main statement -/

/-- A registry with this prefix and these reserved names does after such answers what is expected
of it, whatever it is asked next. -/
structure IsReliable (start : String) (reserved : List String) (answers : List Answer)
    (r : Registry) : Prop where
  /-- A name is handed out as a search from the start finds it. -/
  assign : ∀ base, ∃ name, (r.call (.assign base)).1 = .assigned name ∧
    IsFirstFree (reserved ++ handedOut answers) (start ++ base) name
  /-- No name was handed out twice. -/
  nodup : (handedOut answers).Nodup
  /-- No reserved name was handed out. -/
  apart : ∀ name ∈ handedOut answers, name ∉ reserved
  /-- Fingerprints lead to names as names lead to fingerprints. -/
  inverse : ∀ fingerprint name,
    r.lookup fingerprint = some name ↔ r.fingerprintOf name = some fingerprint
  /-- What is bound is found, and nothing else changes. -/
  bound : ∀ fingerprint name, (r.call (.bind fingerprint name)).1 = .bound → ∀ other,
    (r.call (.bind fingerprint name)).2.lookup other =
      if other = fingerprint then some name else r.lookup other
  /-- A binding that is refused leaves the registry as it is. -/
  refused : ∀ fingerprint name fault, (r.call (.bind fingerprint name)).1 = .refused fault →
    (r.call (.bind fingerprint name)).2 = r

/-- A registry is reliable after any calls. -/
theorem isReliable_run (start : String) (reserved : List String) (calls : List Call) :
    IsReliable start reserved ((fresh start reserved).run calls).1
      ((fresh start reserved).run calls).2 := by
  have hkeeps := (keeps_fresh start reserved).run calls
  rw [nil_append] at hkeeps
  generalize ((fresh start reserved).run calls).1 = answers at hkeeps ⊢
  generalize ((fresh start reserved).run calls).2 = r at hkeeps ⊢
  constructor
  · intro base
    refine ⟨(r.assign base).1, rfl, ?_⟩
    rw [← hkeeps.used_eq, ← hkeeps.start_eq]
    exact hkeeps.steady.isFirstFree base
  · exact hkeeps.nodup
  · exact hkeeps.apart
  · intro fingerprint name
    rw [hkeeps.oneToOne.lookup_iff, hkeeps.oneToOne.fingerprintOf_iff]
  · intro fingerprint name hbound other
    rw [call] at hbound ⊢
    cases hbind : r.bind fingerprint name with
    | error fault => simp [hbind] at hbound
    | ok r' => exact lookup_of_bind hbind other
  · intro fingerprint name fault hrefused
    rw [call] at hrefused ⊢
    cases hbind : r.bind fingerprint name with
    | error fault' => rfl
    | ok r' => simp [hbind] at hrefused

-- A name that looks numbered is passed over where its number comes up.
example : handedOut ((fresh "" ["B"]).run
    [.assign "A_2", .assign "A", .assign "A", .assign "B", .assign "A"]).1 =
      ["A_2", "A", "A_3", "B_2", "A_4"] := by
  decide

end ApiSchema.Name.Registry
