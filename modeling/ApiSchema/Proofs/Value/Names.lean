import ApiSchema.Proofs.Value.Parts

/-!
# Mappings with string keys

Documents as they are written down have strings for keys, and no key twice in one mapping.
-/

namespace ApiSchema

open List

namespace Value

lemma same_str (a b : String) : (Scalar.str a).same (.str b) = (a == b) := by
  by_cases h : a = b <;> simp [Scalar.same, Scalar.number?, h]

/-- The mappings of a value have string keys, each of them once. -/
inductive HasNames : Value → Prop
  | intro {v : Value}
    (keys : ∃ names : List String, v.entries.map (·.1) = names.map .str ∧ names.Nodup)
    (parts : ∀ c ∈ v.parts, c.HasNames) : v.HasNames

lemma HasNames.part {v c : Value} (h : v.HasNames) (hc : c ∈ v.parts) : c.HasNames := by
  cases h with
  | intro _ parts => exact parts c hc

lemma HasNames.nodup_display {entries : List (Scalar × Value)} (h : (map entries).HasNames) :
    (entries.map (·.1.display)).Nodup := by
  cases h with
  | intro keys _ =>
    obtain ⟨names, hkeys, hnodup⟩ := keys
    have hdisplay : entries.map (·.1.display) = names := by
      calc
        entries.map (·.1.display) = (entries.map (·.1)).map Scalar.display := by simp
        _ = (names.map Scalar.str).map Scalar.display := congrArg _ hkeys
        _ = names := by simp [Function.comp_def, Scalar.display]
    rwa [hdisplay]

@[simp]
lemma hasNames_scalar (s : Scalar) : (scalar s).HasNames :=
  ⟨⟨[], rfl, nodup_nil⟩, nofun⟩

@[simp]
lemma hasNames_list {items : List Value} : (list items).HasNames ↔ ∀ c ∈ items, c.HasNames :=
  ⟨fun h _ => h.part, fun h => ⟨⟨[], rfl, nodup_nil⟩, h⟩⟩

@[simp]
lemma hasNames_object {pairs : List (String × Value)} :
    (object pairs).HasNames ↔ (pairs.map (·.1)).Nodup ∧ ∀ p ∈ pairs, p.2.HasNames := by
  have hkeys : (object pairs).entries.map (·.1) = (pairs.map (·.1)).map .str := by
    simp [object, entries]
  have hparts : (object pairs).parts = pairs.map (·.2) := by simp [object, parts]
  constructor
  · intro h
    refine ⟨?_, fun p hp => h.part (hparts ▸ mem_map_of_mem hp)⟩
    have := HasNames.nodup_display h
    simpa [Function.comp_def, Scalar.display] using this
  · rintro ⟨hnodup, hall⟩
    refine ⟨⟨_, hkeys, hnodup⟩, fun c hc => ?_⟩
    obtain ⟨p, hp, rfl⟩ := mem_map.1 (hparts ▸ hc)
    exact hall p hp

end Value

end ApiSchema
