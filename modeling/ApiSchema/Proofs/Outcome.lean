import Mathlib
import ApiSchema.Traced

/-!
# Steps of successful computations

A computation that succeeds splits into its steps, each of which succeeds.
-/

namespace ApiSchema

variable {w e σ α β : Type}

variable {x : Except e α} {b : β}

lemma Except.bind_eq_ok_iff {f : α → Except e β} :
    x >>= f = .ok b ↔ ∃ a, x = .ok a ∧ f a = .ok b := by
  cases x with
  | error err => simp [bind, Except.bind]
  | ok a => simp [bind, Except.bind]

lemma Except.map_eq_ok_iff {f : α → β} : x.map f = .ok b ↔ ∃ a, x = .ok a ∧ f a = b := by
  cases x with
  | error err => simp [Except.map]
  | ok a => simp [Except.map]

lemma Except.isOk_iff : x.isOk ↔ ∃ a, x = .ok a := by
  cases x <;> simp [Except.isOk, Except.toBool]

lemma Except.map_toOption_eq_some_iff {f : α → β} :
    x.toOption.map f = some b ↔ ∃ a, x = .ok a ∧ f a = b := by
  cases x <;> simp [Except.toOption]

lemma Traced.outcome_bind_eq_ok_iff {x : Traced w e α} {f : α → Traced w e β} :
    (x >>= f).outcome = .ok b ↔ ∃ a, x.outcome = .ok a ∧ (f a).outcome = .ok b := by
  obtain ⟨t, r⟩ := x
  cases r with
  | error err => simp
  | ok a => simp

lemma Traced.outcome_pure_eq_ok_iff {a b : α} :
    (pure a : Traced w e α).outcome = .ok b ↔ a = b := by
  simp

lemma StateT.run_bind_eq_ok_iff {x : StateT σ (Except e) α} {f : α → StateT σ (Except e) β}
    {s : σ} {r : β × σ} :
    (x >>= f).run s = .ok r ↔ ∃ a s', x.run s = .ok (a, s') ∧ (f a).run s' = .ok r := by
  rw [StateT.run_bind, Except.bind_eq_ok_iff]
  exact Prod.exists

lemma run_bind_of_ok {x : ExceptT e (StateM σ) α} {f : α → ExceptT e (StateM σ) β} {a : α} {s s' : σ}
    (h : x.run s = (.ok a, s')) : (x >>= f).run s = (f a).run s' := by
  have hrun : (x >>= f).run s = ExceptT.bindCont f (x.run s).1 (x.run s).2 := rfl
  rw [hrun, h]
  rfl

lemma run_bind_of_error {x : ExceptT e (StateM σ) α} {f : α → ExceptT e (StateM σ) β} {err : e}
    {s s' : σ} (h : x.run s = (.error err, s')) : (x >>= f).run s = (.error err, s') := by
  have hrun : (x >>= f).run s = ExceptT.bindCont f (x.run s).1 (x.run s).2 := rfl
  rw [hrun, h]
  rfl

/-! ### What results have in common -/

/-- Whatever the computation ends with has the property. -/
def Traced.Yields (P : α → Prop) (x : Traced w e α) : Prop :=
  ∀ a, x.outcome = .ok a → P a

namespace Traced

variable {P : α → Prop} {Q : β → Prop}

variable {x : Traced w e α} {f : α → Traced w e β} {a : α} {err : e}

lemma Yields.bind (hx : x.Yields P) (hf : ∀ a, P a → (f a).Yields Q) : (x >>= f).Yields Q := by
  intro b hb
  obtain ⟨a, ha, hb⟩ := outcome_bind_eq_ok_iff.1 hb
  exact hf a (hx a ha) b hb

lemma yields_true (x : Traced w e α) : x.Yields fun _ => True :=
  fun _ _ => trivial

lemma yields_pure (h : P a) : (pure a : Traced w e α).Yields P := by
  intro b hb
  cases hb
  exact h

lemma yields_throw : (throw err : Traced w e α).Yields P := by
  intro b hb
  cases hb

/-! ### What is noted, and how computations end -/

/-- Every event has the property `D`, a failure has the property `E`, and a result `P`. -/
structure Behaves (D : w → Prop) (E : e → Prop) (P : α → Prop) (x : Traced w e α) : Prop where
  noted : ∀ d ∈ x.trace, D d
  failed : ∀ f, x.outcome = .error f → E f
  ended : ∀ a, x.outcome = .ok a → P a

variable {D : w → Prop} {E : e → Prop}

lemma Behaves.bind (hx : x.Behaves D E P) (hf : ∀ a, P a → (f a).Behaves D E Q) :
    (x >>= f).Behaves D E Q := by
  obtain ⟨trace, outcome⟩ := x
  cases outcome with
  | error err =>
    refine ⟨hx.noted, fun err' h => ?_, fun b hb => ?_⟩
    · cases h
      exact hx.failed err rfl
    · cases hb
  | ok a =>
    have ha := hf a (hx.ended a rfl)
    refine ⟨fun d hd => ?_, ha.failed, ha.ended⟩
    rcases List.mem_append.1 hd with hd | hd
    · exact hx.noted d hd
    · exact ha.noted d hd

lemma behaves_pure (h : P a) : (pure a : Traced w e α).Behaves D E P := by
  refine ⟨fun d hd => ?_, fun f hf => ?_, fun b hb => ?_⟩
  · cases hd
  · cases hf
  · cases hb
    exact h

lemma behaves_throw (h : E err) : (throw err : Traced w e α).Behaves D E P := by
  refine ⟨fun d hd => ?_, fun f hf => ?_, fun b hb => ?_⟩
  · cases hd
  · cases hf
    exact h
  · cases hb

lemma behaves_note {d : w} (h : D d) : (note d : Traced w e Unit).Behaves D E fun _ => True := by
  refine ⟨fun d' hd => ?_, fun f hf => ?_, fun _ _ => trivial⟩
  · rw [List.mem_singleton.1 hd]
    exact h
  · cases hf

lemma behaves_ofExcept {r : Except e α} (hfailed : ∀ f, r = .error f → E f)
    (hended : ∀ a, r = .ok a → P a) : (ofExcept r : Traced w e α).Behaves D E P :=
  ⟨fun _ hd => (nomatch hd), hfailed, hended⟩

end Traced

/-! ### How results fail -/

/-- A failure has the property. -/
def Except.FailsOnly (E : e → Prop) (x : Except e α) : Prop :=
  ∀ f, x = .error f → E f

namespace Except

variable {E : e → Prop}

variable {x : Except e α}

lemma failsOnly_ok {a : α} : FailsOnly E (.ok a) :=
  fun _ h => nomatch h

lemma failsOnly_error {err : e} (h : E err) : FailsOnly E (.error err : Except e α) := by
  intro f hf
  cases hf
  exact h

lemma FailsOnly.bind {f : α → Except e β} (hx : FailsOnly E x) (hf : ∀ a, FailsOnly E (f a)) :
    FailsOnly E (x >>= f) := by
  cases x with
  | error err => exact failsOnly_error (hx err rfl)
  | ok a => exact hf a

lemma FailsOnly.map {f : α → β} (hx : FailsOnly E x) : FailsOnly E (x.map f) := by
  cases x with
  | error err => exact failsOnly_error (hx err rfl)
  | ok a => exact failsOnly_ok

end Except

lemma Traced.behaves_of_failsOnly {D : w → Prop} {E : e → Prop} {r : Except e α}
    (h : Except.FailsOnly E r) : (ofExcept r : Traced w e α).Behaves D E fun _ => True :=
  behaves_ofExcept h fun _ _ => trivial

end ApiSchema
