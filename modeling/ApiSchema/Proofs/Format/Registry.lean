import ApiSchema.Format.Registry
import ApiSchema.Proofs.Outcome
import ApiSchema.Proofs.Pointwise
import ApiSchema.Proofs.Text.Distinct

/-!
# Registries of formats after any calls

Calls register a validator for formats, or clear the registry. What a call has changed before it
fails stays changed. Main statement: whatever the calls were, registering fails exactly if one of the
formats has another validator, reports the first such format and changes nothing; otherwise it gives
the validator to the formats of the list and to no others. So a format keeps its validator until the
registry is cleared.
-/

namespace ApiSchema.Format.Registry

open List

variable {r : Registry} {name : String} {formats : List String} {fault : Fault}

/-! ### One format -/

/-- Registered formats. -/
def keys (r : Registry) : List String :=
  r.entries.map (·.1)

lemma isRegistered_iff {format : String} : r.isRegistered format ↔ format ∈ r.keys :=
  isSome_lookup_iff

lemma lookup_replace (entries : List (String × String)) (format name other : String) :
    (entries.map fun (f, n) => if f = format then (f, name) else (f, n)).lookup other =
      if other = format then (entries.lookup other).map fun _ => name
      else entries.lookup other := by
  induction entries with
  | nil => simp
  | cons entry entries ih =>
    obtain ⟨f, n⟩ := entry
    rw [map_cons, lookup_cons]
    by_cases hf : f = format <;> by_cases hother : other = f
    all_goals simp_all [lookup_cons, beq_eq_false_iff_ne.2]

/-- A format that is assigned a validator has it, and all others have what they had. -/
lemma lookup_assign (r : Registry) (format name other : String) :
    (r.assign format name).lookup other =
      if other = format then some name else r.lookup other := by
  rw [assign, lookup, lookup]
  split
  next hregistered =>
    rw [lookup_replace]
    split
    next heq =>
      obtain ⟨existing, hexisting⟩ := Option.isSome_iff_exists.1 hregistered
      rw [heq, show r.entries.lookup format = some existing from hexisting, Option.map_some]
    next => rfl
  next hfree =>
    have hnone : r.entries.lookup format = none := Option.not_isSome_iff_eq_none.1 hfree
    by_cases heq : other = format
    · simp [lookup_append, heq, hnone]
    · simp [lookup_append, lookup_cons, heq, beq_eq_false_iff_ne.2 heq]

lemma keys_assign (r : Registry) (format name : String) :
    (r.assign format name).keys = if format ∈ r.keys then r.keys else r.keys ++ [format] := by
  simp only [← isRegistered_iff, assign]
  split
  · rw [keys, map_map]
    refine map_congr_left fun entry _ => ?_
    obtain ⟨f, n⟩ := entry
    rw [Function.comp_apply]
    split <;> rfl
  · simp [keys]

/-! ### Registering -/

/-- A format that has a validator other than `name`. -/
def IsTaken (r : Registry) (name format : String) : Prop :=
  ∃ existing, r.lookup format = some existing ∧ existing ≠ name

/-- The first of the formats that has a validator other than `name`, and that validator. -/
structure IsFirstTaken (r : Registry) (name : String) (formats : List String)
    (format existing : String) : Prop where
  first : ∃ before after, formats = before ++ format :: after ∧ ∀ f ∈ before, ¬ r.IsTaken name f
  lookup : r.lookup format = some existing
  ne : existing ≠ name

/-- Looking at one format either goes on or reports it, and changes nothing. -/
lemma run_refuseTaken (r : Registry) (name format : String) :
    (¬ r.IsTaken name format ∧ (refuseTaken name format).run r = (.ok (), r)) ∨
      ∃ existing, r.lookup format = some existing ∧ existing ≠ name ∧
        (refuseTaken name format).run r =
          (.error (.schema (.formatTaken format existing name)), r) := by
  rw [refuseTaken, run_bind_of_ok (show (get : Change Registry).run r = (.ok r, r) from rfl)]
  cases hlookup : r.lookup format with
  | none => exact .inl ⟨fun ⟨_, h, _⟩ => by simp [hlookup] at h, rfl⟩
  | some existing =>
    dsimp only
    by_cases hname : existing = name
    · left
      refine ⟨fun ⟨_, h, hne⟩ => hne ?_, ?_⟩
      · rw [← hname, ← Option.some.inj (hlookup.symm.trans h)]
      · rw [if_pos hname]
        rfl
    · right
      refine ⟨existing, rfl, hname, ?_⟩
      rw [if_neg hname]
      rfl

/-- All formats are looked at up to the first one that is taken. -/
lemma run_refuseAll (r : Registry) (name : String) (formats : List String) :
    ((∀ f ∈ formats, ¬ r.IsTaken name f) ∧
        (formats.forM (refuseTaken name)).run r = (.ok (), r)) ∨
      ∃ format existing, r.IsFirstTaken name formats format existing ∧
        (formats.forM (refuseTaken name)).run r =
          (.error (.schema (.formatTaken format existing name)), r) := by
  induction formats with
  | nil => exact .inl ⟨nofun, rfl⟩
  | cons format rest ih =>
    rw [List.forM]
    obtain ⟨hfree, hstep⟩ | ⟨existing, hlookup, hne, hstep⟩ := run_refuseTaken r name format
    · rw [run_bind_of_ok hstep]
      refine ih.imp (fun ⟨hall, hrest⟩ => ⟨forall_mem_cons.2 ⟨hfree, hall⟩, hrest⟩) ?_
      rintro ⟨other, existing, ⟨⟨before, after, rfl, hbefore⟩, hlookup, hne⟩, hrest⟩
      refine ⟨other, existing, ⟨⟨format :: before, after, rfl, ?_⟩, hlookup, hne⟩, hrest⟩
      exact forall_mem_cons.2 ⟨hfree, hbefore⟩
    · rw [run_bind_of_error hstep]
      exact .inr ⟨format, existing, ⟨⟨[], rest, rfl, nofun⟩, hlookup, hne⟩, rfl⟩

/-- The registry in which all formats have the validator. -/
def assignAll (r : Registry) (name : String) (formats : List String) : Registry :=
  formats.foldl (fun r format => r.assign format name) r

lemma run_assignAll (r : Registry) (name : String) (formats : List String) :
    (formats.forM fun format => modify (·.assign format name) : Change Unit).run r =
      (.ok (), r.assignAll name formats) := by
  induction formats generalizing r with
  | nil => rfl
  | cons format rest ih => exact ih (r.assign format name)

lemma lookup_assignAll (r : Registry) (name : String) (formats : List String) (other : String) :
    (r.assignAll name formats).lookup other =
      if other ∈ formats then some name else r.lookup other := by
  induction formats generalizing r with
  | nil => rfl
  | cons format rest ih =>
    rw [assignAll, foldl_cons, ← assignAll, ih, lookup_assign]
    by_cases hrest : other ∈ rest <;> by_cases hformat : other = format <;> simp [hrest, hformat]

/-- A registration is refused because of the first format that is taken, or done as a whole. -/
lemma call_register_cases (r : Registry) (name : String) (formats : List String) :
    ((∀ f ∈ formats, ¬ r.IsTaken name f) ∧
        r.call (.register name formats) = (.ok (), r.assignAll name formats)) ∨
      ∃ format existing, r.IsFirstTaken name formats format existing ∧
        r.call (.register name formats) =
          (.error (.schema (.formatTaken format existing name)), r) := by
  rw [call, Call.change]
  refine (run_refuseAll r name formats).imp ?_ ?_
  · rintro ⟨hall, hstep⟩
    rw [run_bind_of_ok hstep]
    exact ⟨hall, run_assignAll r name formats⟩
  · rintro ⟨format, existing, hfirst, hstep⟩
    rw [run_bind_of_error hstep]
    exact ⟨format, existing, hfirst, rfl⟩

lemma IsFirstTaken.exists_isTaken {format existing : String}
    (h : r.IsFirstTaken name formats format existing) : ∃ f ∈ formats, r.IsTaken name f := by
  obtain ⟨⟨before, after, rfl, -⟩, hlookup, hne⟩ := h
  exact ⟨format, by simp, existing, hlookup, hne⟩

/-! ### Runs -/

/-- The registry after calls, whether they succeed or not. -/
def after (r : Registry) (calls : List Call) : Registry :=
  calls.foldl (fun r c => (r.call c).2) r

lemma nodup_keys_assignAll (h : r.keys.Nodup) (name : String) (formats : List String) :
    (r.assignAll name formats).keys.Nodup := by
  induction formats generalizing r with
  | nil => exact h
  | cons format rest ih =>
    refine ih ?_
    rw [keys_assign]
    split
    · exact h
    next hnew => exact h.append (nodup_singleton _) (disjoint_singleton.2 hnew)

lemma nodup_keys_call (h : r.keys.Nodup) (c : Call) : (r.call c).2.keys.Nodup := by
  cases c with
  | clear => exact nodup_nil
  | register name formats =>
    obtain ⟨-, hcall⟩ | ⟨_, _, -, hcall⟩ := call_register_cases r name formats
    · rw [hcall]
      exact nodup_keys_assignAll h name formats
    · rw [hcall]
      exact h

lemma nodup_keys_after (h : r.keys.Nodup) (calls : List Call) : (r.after calls).keys.Nodup := by
  induction calls generalizing r with
  | nil => exact h
  | cons c calls ih => exact ih (nodup_keys_call h c)

/-- A call other than clearing leaves a format with the validator that it has. -/
lemma lookup_call {format : String} (h : r.lookup format = some name) {c : Call}
    (hc : c ≠ .clear) : (r.call c).2.lookup format = some name := by
  cases c with
  | clear => exact absurd rfl hc
  | register other formats =>
    obtain ⟨hfree, hcall⟩ | ⟨_, _, -, hcall⟩ := call_register_cases r other formats
    · rw [hcall, lookup_assignAll]
      split
      next hmem =>
        by_contra hne
        exact hfree format hmem ⟨name, h, fun heq => hne (congrArg some heq.symm)⟩
      next => exact h
    · rw [hcall]
      exact h

lemma lookup_after {format : String} (h : r.lookup format = some name) {calls : List Call}
    (hcalls : .clear ∉ calls) : (r.after calls).lookup format = some name := by
  induction calls generalizing r with
  | nil => exact h
  | cons c calls ih =>
    obtain ⟨hc, hcalls⟩ := not_or.1 (mem_cons.not.1 hcalls)
    exact ih (lookup_call h fun heq => hc heq.symm) hcalls

/-! ### Main statement -/

/-- All that can be asked of a registry follows what its formats are registered to. -/
structure IsSingleValued (r : Registry) : Prop where
  isRegistered_iff : ∀ format, r.isRegistered format ↔ ∃ name, r.lookup format = some name
  mem_validators_iff : ∀ name, name ∈ r.validators ↔ ∃ format, r.lookup format = some name
  size_eq : ∃ formats : List String, formats.Nodup ∧
    (∀ format, format ∈ formats ↔ r.isRegistered format) ∧ r.size = formats.length

/-- A registry registers all formats of a list or none, and keeps what it has registered. -/
structure IsAtomic (r : Registry) : Prop where
  singleValued : r.IsSingleValued
  fails_iff : ∀ name formats, (∃ fault, (r.call (.register name formats)).1 = .error fault) ↔
    ∃ format ∈ formats, r.IsTaken name format
  /-- The first format that is taken is reported, and nothing changes. -/
  refused : ∀ name formats fault, (r.call (.register name formats)).1 = .error fault →
    (r.call (.register name formats)).2 = r ∧ ∃ format existing,
      r.IsFirstTaken name formats format existing ∧
        fault = .schema (.formatTaken format existing name)
  /-- The formats of the list have the validator, and all others have what they had. -/
  registered : ∀ name formats, (r.call (.register name formats)).1 = .ok () → ∀ format,
    (r.call (.register name formats)).2.lookup format =
      if format ∈ formats then some name else r.lookup format
  cleared : (r.call .clear).1 = .ok () ∧ ∀ format, (r.call .clear).2.lookup format = none
  /-- Only clearing changes the validator of a format. -/
  kept : ∀ calls format name, .clear ∉ calls → r.lookup format = some name →
    (r.after calls).lookup format = some name

lemma isSingleValued_of_nodup (h : r.keys.Nodup) : r.IsSingleValued where
  isRegistered_iff _ := Option.isSome_iff_exists
  mem_validators_iff name := by
    rw [validators, Text.mem_distinct, mem_map]
    constructor
    · rintro ⟨⟨format, _⟩, hmem, rfl⟩
      exact ⟨format, lookup_of_mem h hmem⟩
    · rintro ⟨format, hlookup⟩
      exact ⟨(format, name), mem_of_lookup hlookup, rfl⟩
  size_eq := ⟨r.keys, h, fun _ => Registry.isRegistered_iff.symm, by rw [size, keys, length_map]⟩

/-- After any calls a registry is atomic. -/
theorem isAtomic_after (calls : List Call) : (({} : Registry).after calls).IsAtomic := by
  have hnodup := nodup_keys_after (r := {}) nodup_nil calls
  generalize ({} : Registry).after calls = r at hnodup ⊢
  refine ⟨isSingleValued_of_nodup hnodup, fun name formats => ?_, fun name formats fault h => ?_,
    fun name formats h => ?_, ⟨rfl, fun _ => rfl⟩, fun _ _ _ hcalls h => lookup_after h hcalls⟩
  all_goals
    obtain ⟨hfree, hcall⟩ | ⟨format, existing, hfirst, hcall⟩ := call_register_cases r name formats
  · rw [hcall]
    exact ⟨nofun, fun ⟨format, hmem, htaken⟩ => (hfree format hmem htaken).elim⟩
  · rw [hcall]
    exact ⟨fun _ => hfirst.exists_isTaken, fun _ => ⟨_, rfl⟩⟩
  · rw [hcall] at h
    cases h
  · rw [hcall] at h ⊢
    exact ⟨rfl, format, existing, hfirst, (Except.error.inj h).symm⟩
  · rw [hcall]
    exact lookup_assignAll r name formats
  · rw [hcall] at h
    cases h

-- Nothing is left of a registration that is refused half way.
example : (({} : Registry).after [.register "Phone" ["phone"],
    .register "Other" ["tel", "phone", "fax"]]).entries = [("phone", "Phone")] := by
  decide

end ApiSchema.Format.Registry
