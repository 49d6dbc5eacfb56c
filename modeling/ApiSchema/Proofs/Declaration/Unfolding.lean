import ApiSchema.Proofs.Declaration.Cycle
import ApiSchema.Proofs.Declaration.Document
import ApiSchema.Proofs.Declaration.References

/-!
# Unfolding names

To check a value by a declaration, names are unfolded: at once for the value itself, and inside of
containers for what the value holds. Main statement: once declarations could be ordered, this comes
to an end for every value.
-/

namespace ApiSchema

open List Relation

/-! ### Steps -/

namespace Declarations

variable {d : Declarations}

/-- One step of checking a value by a declaration: on to a declaration that is mentioned, with the
same value outside of all containers, and with one inside of it otherwise. -/
inductive Unfolds (d : Declarations) : Declaration × Value → Declaration × Value → Prop
  | same {e f : Declaration} {x : Value} (he : e ∈ d.entries) (hf : f ∈ d.entries)
    (h : e.validator.Mentions f.name false) : Unfolds d (e, x) (f, x)
  | inside {e f : Declaration} {x y : Value} (he : e ∈ d.entries) (hf : f ∈ d.entries)
    (h : e.validator.Mentions f.name true) (hy : y.Inside x) : Unfolds d (e, x) (f, y)

/-- References at once that never lead back come to an end. -/
lemma wellFounded_dependsAtOnce (h : ∀ e, ¬ TransGen d.DependsAtOnce e e) :
    WellFounded fun f e => d.DependsAtOnce e f := by
  let r : Declaration → Declaration → Prop := fun f e => TransGen d.DependsAtOnce e f
  have : IsStrictOrder Declaration r :=
    { irrefl := h, trans := fun _ _ _ hba hcb => hcb.trans hba }
  have hfinite : {e | e ∈ d.entries}.Finite := finite_toSet d.entries
  refine Subrelation.wf ?_ (Set.wellFoundedOn_iff.1 (hfinite.wellFoundedOn (r := r)))
  intro f e hef
  exact ⟨TransGen.single hef, hef.right, hef.left⟩

/-- The declarations list the references of their validators, and their names are distinct. -/
structure IsMade (d : Declarations) : Prop where
  nodup : d.names.Nodup
  made : ∀ e ∈ d.entries, e = .of e.name e.validator e.pointer

lemma IsMade.eagerAmong (hd : d.IsMade) : d.EagerAmong := by
  intro e he
  rw [hd.made e he]
  exact filter_subset_self _

lemma IsMade.dependsAtOnce (hd : d.IsMade) {e f : Declaration} (he : e ∈ d.entries)
    (hf : f ∈ d.entries) (h : e.validator.Mentions f.name false) : d.DependsAtOnce e f := by
  refine ⟨he, hf, ?_⟩
  rw [hd.made e he]
  exact Validator.mem_eagerReferences_iff.2 h

/-- Steps make the value smaller, or go along references at once. -/
lemma IsMade.wellFounded_unfolds (hd : d.IsMade) (h : ∀ e, ¬ TransGen d.DependsAtOnce e e) :
    WellFounded fun q p => d.Unfolds p q := by
  have hlex := WellFounded.prod_lex (wellFounded_lt (α := ℕ)) (wellFounded_dependsAtOnce h)
  refine Subrelation.wf ?_ (InvImage.wf (fun p : Declaration × Value => (sizeOf p.2, p.1)) hlex)
  rintro _ _ (⟨he, hf, hmentions⟩ | ⟨-, -, -, hy⟩)
  · exact .right _ (hd.dependsAtOnce he hf hmentions)
  · exact .left _ _ hy.sizeOf_lt

lemma Finished.isMade {t : Validators} {plan : Plan} {registry : Name.Registry} {z : Draft}
    (h : Finished t plan registry z) : z.declared.IsMade where
  nodup := h.nodup
  made := h.made

/-- No chain of steps from the declarations of a document goes on for ever, once they could be
ordered. -/
theorem unfolding_ends {ctx : Validator.Context} {includeRoutes : Bool} {t : Validators}
    {fingerprint : Validator → String} {registry : Name.Registry} {d : Declarations}
    {components : List (List Declaration)}
    (ht : (Validator.ofDocument ctx includeRoutes).outcome = .ok t)
    (hd : ofValidators ctx.doc t fingerprint registry = .ok d)
    (hordered : d.order.outcome = .ok components) :
    ¬ ∃ s : ℕ → Declaration × Value, ∀ n, d.Unfolds (s n) (s (n + 1)) := by
  obtain ⟨_, _, rfl, -, hfinished⟩ := finished_of_ofValidators ht hd
  have hmade := hfinished.isMade
  rcases order_outcome_cases hmade.nodup hmade.eagerAmong with ⟨_, _, herror, -⟩ | ⟨-, hacyclic⟩
  · cases herror.symm.trans hordered
  · rintro ⟨s, hs⟩
    have hwf := hmade.wellFounded_unfolds hacyclic
    exact (wellFounded_iff_isEmpty_descending_chain.1 hwf).elim ⟨s, hs⟩

theorem chain_unfolding_ends :
    (Validator.ofDocument ⟨chainDocument, {}⟩ true).outcome = .ok chainValidators ∧
      ofValidators chainDocument chainValidators chainPrint {} = .ok chainDeclarations ∧
      chainDeclarations.order.outcome =
        .ok [chainDeclarations.entries.map fun e => { e with cyclic := true }] ∧
      ¬ ∃ s : ℕ → Declaration × Value, ∀ n, chainDeclarations.Unfolds (s n) (s (n + 1)) := by
  have hordered : chainDeclarations.order.outcome =
      .ok [chainDeclarations.entries.map fun e => { e with cyclic := true }] := by rfl
  exact ⟨ofDocument_chain, ofValidators_chain, hordered,
    unfolding_ends ofDocument_chain ofValidators_chain hordered⟩

end Declarations

end ApiSchema
