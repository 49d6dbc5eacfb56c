import Mathlib
import ApiSchema.Check

/-!
# Formats of fixed shape

Main statement: the check of such a format accepts groups of hexadecimal digits of the lengths that
the format has, joined by hyphens, also with one line feed behind them, and it refuses any other
text.
-/

namespace ApiSchema

open List

namespace Format

/-- The formats that are made of groups of hexadecimal digits. -/
inductive Fixed where
  | uuid
  | objectId
  | colorHex

namespace Fixed

def name : Fixed → String
  | uuid => "uuid"
  | objectId => "objectid"
  | colorHex => "color-hex"

/-- The lengths of the groups. -/
def lengths : Fixed → List Nat
  | uuid => [8, 4, 4, 4, 12]
  | objectId => [24]
  | colorHex => [6]

def test : Fixed → List Char → Bool
  | uuid => isUuid
  | objectId => isObjectId
  | colorHex => isColorHex

end Fixed

/-- A hexadecimal digit of ASCII. -/
def IsHexDigit (c : Char) : Prop :=
  ('0' ≤ c ∧ c ≤ '9') ∨ ('a' ≤ c ∧ c ≤ 'f') ∨ ('A' ≤ c ∧ c ≤ 'F')

/-- Groups of hexadecimal digits of these lengths, joined by hyphens. -/
def IsGrouped (lengths : List Nat) (cs : List Char) : Prop :=
  ∃ groups : List (List Char), groups.map List.length = lengths ∧
    (∀ g ∈ groups, ∀ c ∈ g, IsHexDigit c) ∧ cs = ['-'].intercalate groups

variable {lengths : List Nat} {cs : List Char} {c : Char}

lemma isHex_iff : Text.isHex c ↔ IsHexDigit c := by
  simp only [Text.isHex, Text.hexValue?, IsHexDigit, Char.isDigit, Bool.and_eq_true,
    decide_eq_true_eq]
  split_ifs <;> simp_all [Char.le_def]

lemma IsHexDigit.ne {d : Char} (h : IsHexDigit c) (hd : d = '-' ∨ d = '\n') : c ≠ d := by
  rintro rfl
  obtain rfl | rfl := hd <;> revert h <;> unfold IsHexDigit <;> decide

lemma isHexGroups_iff (hlengths : lengths ≠ []) :
    isHexGroups lengths cs ↔ IsGrouped lengths (dropFinalLineFeed cs) := by
  simp only [isHexGroups, Bool.and_eq_true, beq_iff_eq, all_eq_true, isHex_iff]
  constructor
  · rintro ⟨hlength, hdigits⟩
    exact ⟨_, hlength, hdigits, (intercalate_splitOn _).symm⟩
  · rintro ⟨groups, rfl, hdigits, hcs⟩
    have hsplit : (dropFinalLineFeed cs).splitOn '-' = groups := by
      rw [hcs]
      refine splitOn_intercalate _ (fun g hg hmem => ?_) (by simpa using hlengths)
      exact (hdigits g hg _ hmem).ne (.inl rfl) rfl
    rw [hsplit]
    exact ⟨rfl, hdigits⟩

lemma IsGrouped.lineFeed_not_mem (h : IsGrouped lengths cs) : '\n' ∉ cs := by
  obtain ⟨groups, -, hdigits, rfl⟩ := h
  induction groups with
  | nil => simp
  | cons g groups ih =>
    obtain ⟨hg, hgroups⟩ := forall_mem_cons.1 hdigits
    have hnot : '\n' ∉ g := fun hmem => (hg _ hmem).ne (.inr rfl) rfl
    cases groups with
    | nil => simpa using hnot
    | cons _ _ => simpa [intercalate_cons_cons, hnot] using ih hgroups

/-- A line feed behind the groups makes no difference. -/
lemma isGrouped_dropFinalLineFeed_iff : IsGrouped lengths (dropFinalLineFeed cs) ↔
    IsGrouped lengths cs ∨ ∃ body, IsGrouped lengths body ∧ cs = body ++ ['\n'] := by
  unfold dropFinalLineFeed
  split_ifs with hlast
  · obtain ⟨body, rfl⟩ := List.getLast?_eq_some_iff.1 hlast
    have hcs : ¬ IsGrouped lengths (body ++ ['\n']) := fun h => h.lineFeed_not_mem (by simp)
    simp [hcs]
  · refine ⟨.inl, ?_⟩
    rintro (h | ⟨body, -, rfl⟩)
    · exact h
    · simp at hlast

end Format

namespace Check

open Format

lemma format_fixed (f : Fixed) : ∃ check, format f.name = .ok check ∧ ∀ s : String,
    check (.str s) = if f.test s.toList then .ok (.str s)
      else .error (.refused ("value is not a valid " ++ f.name)) := by
  cases f <;> exact ⟨_, rfl, fun _ => rfl⟩

end Check

end ApiSchema
