/-!
# Computations that leave a trace

`Traced w e α` notes events of type `w` as it goes and ends with a result or with a failure. The
events noted before a failure are kept: what has been asked for, or logged, before an error is
still known after it.
-/

namespace ApiSchema

/-- A finished computation: the events it noted, in order, and how it ended. -/
structure Traced (w e α : Type) where
  trace : List w
  outcome : Except e α

namespace Traced

variable {w e α β : Type}

/-- Go on with the result, if there is one, behind the events noted so far. -/
def andThen (x : Traced w e α) (f : α → Traced w e β) : Traced w e β :=
  match x.outcome with
  | .ok a => ⟨x.trace ++ (f a).trace, (f a).outcome⟩
  | .error err => ⟨x.trace, .error err⟩

instance : Monad (Traced w e) where
  pure a := ⟨[], .ok a⟩
  bind := andThen

instance : MonadExceptOf e (Traced w e) where
  throw err := ⟨[], .error err⟩
  tryCatch x handle :=
    match x.outcome with
    | .ok _ => x
    | .error err => ⟨x.trace ++ (handle err).trace, (handle err).outcome⟩

def note (event : w) : Traced w e Unit :=
  ⟨[event], .ok ()⟩

/-- A result that may be a failure, with no event. -/
def ofExcept (r : Except e α) : Traced w e α :=
  ⟨[], r⟩

/-- Rename the events. -/
def mapTrace {v : Type} (f : w → v) (x : Traced w e α) : Traced v e α :=
  ⟨x.trace.map f, x.outcome⟩

@[simp] theorem pure_def (a : α) : (pure a : Traced w e α) = ⟨[], .ok a⟩ := rfl

@[simp] theorem throw_def (err : e) : (throw err : Traced w e α) = ⟨[], .error err⟩ := rfl

@[simp] theorem bind_ok (t : List w) (a : α) (f : α → Traced w e β) :
    (⟨t, .ok a⟩ : Traced w e α) >>= f = ⟨t ++ (f a).trace, (f a).outcome⟩ := rfl

@[simp] theorem bind_error (t : List w) (err : e) (f : α → Traced w e β) :
    (⟨t, .error err⟩ : Traced w e α) >>= f = ⟨t, .error err⟩ := rfl

instance : LawfulMonad (Traced w e) := LawfulMonad.mk' _
  (fun x => by
    obtain ⟨t, r⟩ := x
    cases r <;> simp [Functor.map, andThen])
  (fun a f => by simp)
  (fun x f g => by
    obtain ⟨t, r⟩ := x
    cases r with
    | error err => rfl
    | ok a => cases h : (f a).outcome <;> simp [bind, andThen, h])

end Traced

end ApiSchema
