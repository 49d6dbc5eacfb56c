import Mathlib

/-!
# Lists in step

Two lists whose members are related place by place, and lists of pairs.
-/

namespace ApiSchema

open List

variable {α β : Type} {r : α → β → Prop} {as : List α} {bs : List β}

variable {b : β} {a : α} {s : α → β → Prop} {γ : Type} {pairs : List (String × β)} {key : String}

lemma exists_left_of_forall₂ (h : Forall₂ r as bs) (hb : b ∈ bs) : ∃ a ∈ as, r a b := by
  induction h with
  | nil => cases hb
  | cons hr _ ih =>
    rcases mem_cons.1 hb with rfl | hb
    · exact ⟨_, mem_cons_self, hr⟩
    · obtain ⟨a, ha, hr⟩ := ih hb
      exact ⟨a, mem_cons_of_mem _ ha, hr⟩

lemma exists_right_of_forall₂ (h : Forall₂ r as bs) (ha : a ∈ as) : ∃ b ∈ bs, r a b := by
  obtain ⟨b, hb, hr⟩ := exists_left_of_forall₂ h.flip ha
  exact ⟨b, hb, hr⟩

lemma getElem?_of_forall₂ (h : Forall₂ r as bs) {i : Nat} (ha : as[i]? = some a) :
    ∃ b, bs[i]? = some b ∧ r a b := by
  induction h generalizing i with
  | nil => cases ha
  | @cons a b as bs hab _ ih =>
    cases i with
    | zero =>
      cases ha
      exact ⟨b, rfl, hab⟩
    | succ i => exact ih ha

lemma forall₂_of_getElem? (hlength : bs.length = as.length)
    (h : ∀ (i : Nat) (a : α), as[i]? = some a → ∃ b, bs[i]? = some b ∧ r a b) :
    Forall₂ r as bs := by
  induction as generalizing bs with
  | nil =>
    rw [eq_nil_of_length_eq_zero hlength]
    exact .nil
  | cons a as ih =>
    cases bs with
    | nil => cases hlength
    | cons b bs =>
      obtain ⟨_, hb, hab⟩ := h 0 a rfl
      cases hb
      exact .cons hab (ih (Nat.succ.inj hlength) fun i => h (i + 1))

/-- Lists of one length are in step if a comparison of their items says so. -/
lemma forall₂_of_itemwise {same : List α → List β → Bool} (hleft : ∀ b bs, same [] (b :: bs) = false)
    (hright : ∀ a as, same (a :: as) [] = false)
    (hcons : ∀ a b as bs, same (a :: as) (b :: bs) → r a b ∧ same as bs) (h : same as bs) :
    Forall₂ r as bs := by
  induction as generalizing bs with
  | nil =>
    cases bs with
    | nil => exact .nil
    | cons b bs => simp [hleft] at h
  | cons a as ih =>
    cases bs with
    | nil => simp [hright] at h
    | cons b bs => exact .cons (hcons a b as bs h).1 (ih (hcons a b as bs h).2)

lemma forall₂_imp_of_mem_of_mem (h : Forall₂ r as bs) (hr : ∀ a ∈ as, ∀ b ∈ bs, r a b → s a b) :
    Forall₂ s as bs := by
  induction h with
  | nil => exact .nil
  | cons hab _ ih =>
    refine .cons (hr _ mem_cons_self _ mem_cons_self hab) (ih fun a ha b hb => ?_)
    exact hr a (mem_cons_of_mem _ ha) b (mem_cons_of_mem _ hb)

lemma forall₂_imp_of_mem (h : Forall₂ r as bs) (hr : ∀ a ∈ as, ∀ b, r a b → s a b) :
    Forall₂ s as bs :=
  forall₂_imp_of_mem_of_mem h fun a ha b _ => hr a ha b

lemma forall₂_trans {s : β → γ → Prop} {q : α → γ → Prop} {cs : List γ} (h : Forall₂ r as bs)
    (h' : Forall₂ s bs cs) (hq : ∀ a b c, r a b → s b c → q a c) : Forall₂ q as cs := by
  induction h generalizing cs with
  | nil =>
    cases h'
    exact .nil
  | cons hab _ ih =>
    cases h' with
    | cons hbc hrest => exact .cons (hq _ _ _ hab hbc) (ih hrest)

lemma forall₂_of_map_eq {f : α → γ} {g : β → γ} (h : as.map f = bs.map g) :
    Forall₂ (fun a b => f a = g b) as bs := by
  induction as generalizing bs with
  | nil =>
    obtain rfl := map_eq_nil_iff.1 h.symm
    exact .nil
  | cons a as ih =>
    obtain ⟨b, bs, rfl, hb, hbs⟩ := map_eq_cons_iff.1 h.symm
    exact .cons hb.symm (ih hbs.symm)

lemma map_eq_map_of_forall₂ {f : α → γ} {g : β → γ} (h : Forall₂ r as bs)
    (hr : ∀ {a b}, r a b → g b = f a) : bs.map g = as.map f := by
  induction h with
  | nil => rfl
  | cons hab _ ih => rw [map_cons, map_cons, hr hab, ih]

lemma option_rel_imp {x : Option α} {y : Option β} (h : Option.Rel r x y)
    (hr : ∀ a b, x = some a → r a b → s a b) : Option.Rel s x y := by
  cases h with
  | none => exact .none
  | some hab => exact .some (hr _ _ rfl hab)

lemma mem_of_lookup (h : pairs.lookup key = some b) : (key, b) ∈ pairs := by
  obtain ⟨before, after, rfl, -⟩ := lookup_eq_some_iff.1 h
  simp

lemma lookup_map (f : α → β) (pairs : List (String × α)) (key : String) :
    (pairs.map (Prod.map id f)).lookup key = (pairs.lookup key).map f := by
  induction pairs with
  | nil => rfl
  | cons p rest ih =>
    rw [map_cons, lookup_cons, lookup_cons, ih]
    cases h : key == p.1 <;> simp [h]

/-- Of pairs with distinct keys the one with a key is found by it. -/
lemma lookup_of_mem (hnodup : (pairs.map (·.1)).Nodup) (h : (key, b) ∈ pairs) :
    pairs.lookup key = some b := by
  induction pairs with
  | nil => cases h
  | cons p rest ih =>
    rw [map_cons, nodup_cons] at hnodup
    rcases mem_cons.1 h with rfl | h
    · simp
    · have hne : key ≠ p.1 := by
        rintro rfl
        exact hnodup.1 (mem_map.2 ⟨_, h, rfl⟩)
      rw [lookup_cons, beq_eq_false_iff_ne.2 hne]
      exact ih hnodup.2 h

lemma isSome_lookup_iff : (pairs.lookup key).isSome ↔ key ∈ pairs.map (·.1) := by
  induction pairs with
  | nil => simp
  | cons p rest ih =>
    rw [lookup_cons, map_cons, mem_cons, ← ih]
    by_cases hkey : key = p.1
    · simp [hkey]
    · simp only [beq_eq_false_iff_ne.2 hkey, hkey, false_or]

/-- Lists of pairs with the same keys in the same places agree on what they say of a key. -/
lemma lookup_of_forall₂ {ps : List (String × α)} {qs : List (String × β)}
    (h : Forall₂ (fun p q => q.1 = p.1 ∧ r p.2 q.2) ps qs) (key : String) :
    (∀ {a}, ps.lookup key = some a → ∃ b, qs.lookup key = some b ∧ r a b) ∧
      ∀ {b}, qs.lookup key = some b → ∃ a, ps.lookup key = some a ∧ r a b := by
  induction h with
  | nil => simp
  | @cons p q _ _ hpq _ ih =>
    obtain ⟨k, a⟩ := p
    obtain ⟨_, b⟩ := q
    obtain ⟨rfl, hab⟩ := hpq
    simp only [lookup_cons]
    split
    · simpa using hab
    · exact ih

end ApiSchema
