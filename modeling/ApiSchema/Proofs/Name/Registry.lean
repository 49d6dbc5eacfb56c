import Mathlib
import ApiSchema.Name.Registry

/-!
# Names handed out

Main statement: a registry hands out no name that is in use.
-/

namespace ApiSchema.Name.Registry

open List

variable {used : List String} {base name : String}

lemma numbered_injective (name : String) : Function.Injective (numbered name) := by
  intro j k h
  have hdigits : Nat.toDigits 10 j = Nat.toDigits 10 k := by
    simpa [numbered, Nat.toString_eq_repr, Nat.toList_repr] using congrArg String.toList h
  simpa using congrArg (fun digits => Nat.ofDigitChars 10 digits 0) hdigits

/-- More numbers are tried than names are in use, so one of them makes a name that is not. -/
lemma exists_free_number (used : List String) (name : String) (last : Nat) :
    ∃ i, (List.range (used.length + 1)).find?
      (fun i => !used.contains (numbered name (last + 1 + i))) = some i := by
  by_contra hnone
  simp only [not_exists, ← Option.eq_none_iff_forall_ne_some] at hnone
  set tried := (List.range (used.length + 1)).map fun i => numbered name (last + 1 + i) with htried
  have hnodup : tried.Nodup := by
    apply List.Nodup.map _ nodup_range
    intro i j hij
    exact Nat.add_left_cancel (numbered_injective name hij)
  have hsub : tried ⊆ used := by
    intro other hother
    obtain ⟨i, hi, rfl⟩ := mem_map.1 hother
    simpa using List.find?_eq_none.1 hnone i hi
  have hlength := (hnodup.subperm hsub).length_le
  rw [htried, length_map, length_range] at hlength
  omega

/-- The number found is the least one above `last` that makes a name not in use. -/
lemma freeNumber_isLeast (used : List String) (name : String) (last : Nat) :
    IsLeast {k | last < k ∧ numbered name k ∉ used} (freeNumber used name last) := by
  obtain ⟨i, hi⟩ := exists_free_number used name last
  rw [freeNumber, hi, Option.getD_some]
  obtain ⟨hfree, -, hbelow⟩ := List.find?_range_eq_some.1 hi
  constructor
  · exact ⟨by omega, by simpa using hfree⟩
  · rintro k ⟨hlast, hk⟩
    by_contra hlt
    obtain ⟨j, rfl⟩ := Nat.exists_eq_add_of_lt hlast
    have htaken := hbelow j (by omega)
    have hnumber : last + 1 + j = last + j + 1 := by omega
    simp [hnumber, hk] at htaken

/-- A name handed out was not in use before. -/
theorem assign_not_mem (r : Registry) (base : String) : (r.assign base).1 ∉ r.used := by
  by_cases hused : r.start ++ base ∈ r.used
  · have hfree := (freeNumber_isLeast r.used (r.start ++ base) (r.count (r.start ++ base))).1.2
    simpa [assign, hused] using hfree
  · simp [assign, hused]

/-- A name made from `base`: as it is, or numbered. -/
inductive IsMadeFrom (base : String) : String → Prop
  | plain : IsMadeFrom base base
  | numbered (k : Nat) : IsMadeFrom base (numbered base k)

/-- A name made from `base` beside names in use: numbered only if `base` is one of them. -/
inductive IsMadeBeside (used : List String) (base : String) : String → Prop
  | plain : IsMadeBeside used base base
  | numbered (k : Nat) (h : base ∈ used) : IsMadeBeside used base (numbered base k)

lemma IsMadeBeside.isMadeFrom (h : IsMadeBeside used base name) : IsMadeFrom base name := by
  cases h with
  | plain => exact .plain
  | numbered k _ => exact .numbered k

lemma IsMadeBeside.mono {used' : List String} (h : IsMadeBeside used base name)
    (hsub : used ⊆ used') : IsMadeBeside used' base name := by
  cases h with
  | plain => exact .plain
  | numbered k h => exact .numbered k (hsub h)

lemma isMadeBeside_assign (r : Registry) (base : String) :
    IsMadeBeside (r.assign base).2.used (r.start ++ base) (r.assign base).1 := by
  by_cases hused : r.start ++ base ∈ r.used
  · simpa [assign, hused] using .numbered _ (mem_append_left _ hused)
  · simpa [assign, hused] using .plain

@[simp] lemma used_assign (r : Registry) (base : String) :
    (r.assign base).2.used = r.used ++ [(r.assign base).1] := rfl

@[simp] lemma bound_assign (r : Registry) (base : String) : (r.assign base).2.bound = r.bound := rfl

/-- Handing out a name that is in use moves the number of that name on, and no other. -/
lemma count_assign (r : Registry) (base name : String) :
    (r.assign base).2.count name =
      if name = r.start ++ base ∧ r.start ++ base ∈ r.used then
        freeNumber r.used (r.start ++ base) (r.count (r.start ++ base))
      else r.count name := by
  by_cases hused : r.start ++ base ∈ r.used
  · by_cases hname : name = r.start ++ base
    · simp [assign, count, hused, hname]
    · have hother : (name == r.start ++ base) = false := beq_eq_false_iff_ne.2 hname
      simp [assign, count, hused, hname, lookup_cons, hother]
  · simp [assign, count, hused]

end ApiSchema.Name.Registry
