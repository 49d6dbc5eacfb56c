import ApiSchema.Proofs.Schema.Completeness

/-!
# Cycles of references

A resolution marks the targets between a target being read and a reference back to it, as it meets
that reference. What is being read when a target is met for the first time is told by chains of
references alone, since a search in depth leaves a target when all that it leads to is known. Main
statement: the marked targets are those on cycles made of such chains. So each of them leads back to
itself, and every cycle has to do with one of them, but a cycle that is entered through a target read
before is not marked all the way round.
-/

namespace ApiSchema

open List

variable {a : String} {before after : List String}

/-! ### Trails -/

namespace Explores

variable {schema : String → Option Node} {stack visited targets : List String} {found : List Met}

variable {m : Met}

lemma schema_target (h : Explores schema stack visited targets found) (hm : m ∈ found) :
    schema m.target = some m.node := by
  induction h with
  | done => cases hm
  | again _ _ ih => exact ih hm
  | first _ hnode _ _ ihinner ihrest =>
    rcases mem_append.1 hm with hm | hm
    · rcases mem_cons.1 hm with rfl | hm
      · exact hnode
      · exact ihinner hm
    · exact ihrest hm

/-- What is met at the beginning of a search, or in the schema of a target met before. -/
def IsBelow (stack targets : List String) (before : List Met) (m : Met) : Prop :=
  m.stack = stack ∧ m.target ∈ targets ∨
    ∃ p ∈ before, m.stack = p.trail ∧ m.target ∈ p.node.targets

lemma isBelow (h : Explores schema stack visited targets found) {before after : List Met}
    (hm : found = before ++ m :: after) : IsBelow stack targets before m := by
  induction h generalizing before after with
  | done => simp at hm
  | again _ _ ih =>
    rcases ih hm with ⟨hstack, htarget⟩ | hparent
    · exact .inl ⟨hstack, mem_cons_of_mem _ htarget⟩
    · exact .inr hparent
  | @first stack visited rest target node inner found _ _ _ _ ihinner ihrest =>
    rcases append_eq_append_iff.1 hm with ⟨between, rfl, hrest⟩ | ⟨between, hinner, hrest⟩
    · -- `m` is met after all below `target`.
      rcases ihrest hrest with ⟨hstack, htarget⟩ | ⟨p, hp, hparent⟩
      · exact .inl ⟨hstack, mem_cons_of_mem _ htarget⟩
      · exact .inr ⟨p, mem_append_right _ hp, hparent⟩
    · cases between with
      | nil =>
        have hrest : found = [] ++ m :: after := hrest.symm
        rcases ihrest hrest with ⟨hstack, htarget⟩ | ⟨p, hp, -⟩
        · exact .inl ⟨hstack, mem_cons_of_mem _ htarget⟩
        · cases hp
      | cons m' between =>
        obtain ⟨rfl, -⟩ := List.cons.inj hrest
        cases before with
        | nil =>
          obtain ⟨rfl, -⟩ := List.cons.inj hinner
          exact .inl ⟨rfl, mem_cons_self⟩
        | cons p before =>
          obtain ⟨rfl, hbehind⟩ := List.cons.inj hinner
          rcases ihinner hbehind with hfirst | ⟨q, hq, hparent⟩
          · exact .inr ⟨_, mem_cons_self, hfirst⟩
          · exact .inr ⟨q, mem_cons_of_mem _ hq, hparent⟩

lemma prefix_stack (h : Explores schema stack visited targets found) (hm : m ∈ found) :
    stack <+: m.stack := by
  induction h with
  | done => cases hm
  | again _ _ ih => exact ih hm
  | first _ _ _ _ ihinner ihrest =>
    rcases mem_append.1 hm with hm | hm
    · rcases mem_cons.1 hm with rfl | hm
      · exact prefix_rfl
      · exact (prefix_append _ _).trans (ihinner hm)
    · exact ihrest hm

/-- All that is referred to from a target has been met by the end. -/
lemma node_targets_subset (h : Explores schema stack visited targets found) (hm : m ∈ found) :
    m.node.targets ⊆ visited ++ found.map (·.target) := by
  induction h with
  | done => cases hm
  | again _ _ ih => exact ih hm
  | first _ _ hinner hrest ihinner ihrest =>
    have hsub := hrest.visits.subset
    rcases mem_append.1 hm with hm | hm
    · rcases mem_cons.1 hm with rfl | hm
      · simpa using List.Subset.trans hinner.visits.targets_subset hsub
      · simpa using List.Subset.trans (ihinner hm) hsub
    · simpa using ihrest hm

/-- What is met while a target is being read is met directly behind it, and whatever is referred to
from there has been met by the end. -/
lemma exists_block (h : Explores schema stack visited targets found) (hm : m ∈ found) :
    ∃ before block after, found = before ++ m :: block ++ after ∧
      (∀ x ∈ block, m.trail <+: x.stack) ∧
      ∀ x ∈ m :: block, x.node.targets ⊆ visited ++ (before ++ m :: block).map (·.target) := by
  induction h with
  | done => cases hm
  | again _ _ ih => exact ih hm
  | @first stack visited rest target node inner found _ _ hinner _ ihinner ihrest =>
    rcases mem_append.1 hm with hm | hm
    · rcases mem_cons.1 hm with rfl | hm
      · refine ⟨[], inner, found, rfl, fun x hx => hinner.prefix_stack hx, ?_⟩
        intro x hx
        rcases mem_cons.1 hx with rfl | hx
        · simpa using hinner.visits.targets_subset
        · simpa using hinner.node_targets_subset hx
      · obtain ⟨before, block, after, rfl, hblock, hclosed⟩ := ihinner hm
        refine ⟨⟨stack, target, node⟩ :: before, block, after ++ found, by simp, hblock, ?_⟩
        simpa using hclosed
    · obtain ⟨before, block, after, rfl, hblock, hclosed⟩ := ihrest hm
      refine ⟨⟨stack, target, node⟩ :: inner ++ before, block, after, by simp, hblock, ?_⟩
      simpa using hclosed

end Explores

/-! ### Chains of references -/

/-- The schema of a target refers to another one. -/
def Leads (schema : String → Option Node) (a b : String) : Prop :=
  ∃ node, schema a = some node ∧ b ∈ node.targets

/-- A chain of references from `a` to `b` that meets nothing which comes before `a` in `order`. -/
def Descends (schema : String → Option Node) (order : List String) (a b : String) : Prop :=
  Relation.ReflTransGen (fun x y => Leads schema x y ∧ y ∉ order.takeWhile (· != a)) a b

lemma Descends.reflTransGen {schema : String → Option Node} {order : List String} {b : String}
    (h : Descends schema order a b) : Relation.ReflTransGen (Leads schema) a b :=
  Relation.ReflTransGen.mono (fun _ _ hstep => hstep.1) _ _ h

lemma takeWhile_of_notMem (h : a ∉ before) :
    (before ++ a :: after).takeWhile (· != a) = before := by
  rw [takeWhile_append_of_pos, takeWhile_cons_of_neg (by simp), append_nil]
  intro other hother
  simpa using ne_of_mem_of_not_mem hother h

lemma notMem_takeWhile {b : String} (ha : a ∈ before) (h : (before ++ b :: after).Nodup) :
    b ∉ (before ++ b :: after).takeWhile (· != a) := by
  obtain ⟨front, between, rfl⟩ := append_of_mem ha
  rw [append_assoc, cons_append] at h ⊢
  rw [takeWhile_of_notMem (by grind)]
  grind

lemma mem_dropWhile_iff {back target : String} (h : target ∉ after) :
    target ∈ (before ++ target :: after).dropWhile (· != back) ↔ back ∈ before ++ [target] := by
  induction before with
  | nil =>
    by_cases heq : target = back
    · simp [heq]
    · have hdrop : target ∉ after.dropWhile (· != back) :=
        fun hmem => h ((dropWhile_sublist _).subset hmem)
      simp [heq, hdrop, Ne.symm heq]
  | cons other before ih =>
    by_cases heq : other = back
    · simp [heq]
    · simpa [heq, Ne.symm heq] using ih

namespace Explores

variable {schema : String → Option Node} {targets : List String} {found : List Met}

variable {m : Met}

section

variable (h : Explores schema [] [] targets found)

variable {m : Met} {before after : List Met}

include h

lemma nodup_targets : (found.map (·.target)).Nodup := by
  simpa using h.visits.nodup nodup_nil

lemma eq_of_target_eq {m' : Met} (hm : m ∈ found) (hm' : m' ∈ found) (heq : m.target = m'.target) :
    m = m' :=
  inj_on_of_nodup_map h.nodup_targets hm hm' heq

/-- Induction along trails: a target is met in the schema of one that was met before. -/
lemma trail_induction {P : List Met → Met → Prop}
    (root : ∀ before m, m ∈ found → m.stack = [] → P before m)
    (below : ∀ before p between m after, found = before ++ p :: between ++ m :: after →
      m.stack = p.trail → m.target ∈ p.node.targets → P before p → P (before ++ p :: between) m)
    (hm : found = before ++ m :: after) : P before m := by
  induction hlength : before.length using Nat.strong_induction_on generalizing before m after with
  | _ n ih =>
    rcases h.isBelow hm with ⟨hstack, -⟩ | ⟨p, hp, hstack, htarget⟩
    · exact root before m (by simp [hm]) hstack
    · obtain ⟨before, between, rfl⟩ := append_of_mem hp
      have hp : found = before ++ p :: (between ++ m :: after) := by simpa using hm
      refine below before p between m after hm hstack htarget (ih _ ?_ hp rfl)
      simp only [← hlength, length_append, length_cons]
      omega

lemma stack_subset (hm : found = before ++ m :: after) : m.stack ⊆ before.map (·.target) := by
  refine h.trail_induction (P := fun before m => m.stack ⊆ before.map (·.target)) ?_ ?_ hm
  · intro before m _ hstack
    simp [hstack]
  · intro before p between m after _ hstack _ ih
    rw [hstack, Met.trail, map_append, map_cons]
    exact append_subset.2 ⟨subset_append_of_subset_left _ ih, by simp⟩

lemma nodup_trail (hm : m ∈ found) : m.trail.Nodup := by
  obtain ⟨before, after, hm⟩ := append_of_mem hm
  refine h.trail_induction (P := fun _ m => m.trail.Nodup) ?_ ?_ hm
  · intro before m _ hstack
    simp [Met.trail, hstack]
  · intro before p between m after hm hstack _ ih
    rw [Met.trail, nodup_append]
    refine ⟨hstack ▸ ih, nodup_singleton _, ?_⟩
    rintro a ha b hb rfl
    have hnodup := h.nodup_targets
    rw [hm, map_append, map_cons, nodup_append] at hnodup
    exact hnodup.2.2 a (h.stack_subset hm ha) a (by simp [mem_singleton.1 hb]) rfl

/-- All targets of a trail were met, on the part of the trail that leads there. -/
lemma exists_of_trail (hm : m ∈ found) {front back : List String} {target : String}
    (htrail : m.trail = front ++ target :: back) :
    ∃ m' ∈ found, m'.target = target ∧ m'.trail = front ++ [target] := by
  obtain ⟨before, after, hm⟩ := append_of_mem hm
  refine h.trail_induction (P := fun _ m => ∀ back, m.trail = front ++ target :: back →
    ∃ m' ∈ found, m'.target = target ∧ m'.trail = front ++ [target]) ?_ ?_ hm back htrail
  · intro before m hm hstack back htrail
    rw [Met.trail, hstack, nil_append, singleton_eq_append_iff] at htrail
    obtain ⟨rfl, htarget⟩ | ⟨-, htarget⟩ := htrail
    · obtain ⟨rfl, rfl⟩ := List.cons.inj htarget
      exact ⟨m, hm, rfl, by simp [Met.trail, hstack]⟩
    · cases htarget
  · intro before p between m after hm hstack _ ih back htrail
    rcases eq_nil_or_concat back with rfl | ⟨back, last, rfl⟩
    · obtain ⟨rfl, htarget⟩ := append_inj' htrail rfl
      obtain rfl := singleton_injective htarget
      exact ⟨m, by simp [hm], rfl, rfl⟩
    · refine ih back ?_
      rw [concat_eq_append, ← cons_append, ← append_assoc] at htrail
      rw [← hstack]
      exact (append_inj' htrail rfl).1

end

/-- A chain of references leads along a trail, and each target on it is met later than those in
front of it. -/
lemma descends_of_mem_trail (h : Explores schema [] [] targets found) (hm : m ∈ found)
    {target : String} (htarget : target ∈ m.trail) :
    Descends schema (found.map (·.target)) target m.target := by
  obtain ⟨before, after, hm⟩ := append_of_mem hm
  refine h.trail_induction (P := fun _ m => target ∈ m.trail →
    Descends schema (found.map (·.target)) target m.target) ?_ ?_ hm htarget
  · intro before m hm hstack htarget
    rw [Met.trail, hstack, nil_append, mem_singleton] at htarget
    exact htarget ▸ .refl
  · intro before p between m after hm hstack hleads ih htarget
    rcases mem_append.1 htarget with htarget | htarget
    · have hbefore := h.stack_subset hm htarget
      refine (ih (hstack ▸ htarget)).tail ⟨⟨p.node, h.schema_target (by simp [hm]), hleads⟩, ?_⟩
      have hnodup := h.nodup_targets
      rw [hm, map_append, map_cons] at hnodup ⊢
      exact notMem_takeWhile hbefore hnodup
    · rw [mem_singleton.1 htarget]
      exact .refl

/-- A chain of references through what is met later stays among what is met while its beginning is
being read. -/
lemma mem_trail_of_descends (h : Explores schema [] [] targets found) {first : Met}
    (hfirst : first ∈ found) (hm : m ∈ found)
    (hdescends : Descends schema (found.map (·.target)) first.target m.target) :
    first.target ∈ m.trail := by
  obtain ⟨before, block, after, hfound, hblock, hclosed⟩ := h.exists_block hfirst
  have hmem {x : Met} (hx : x ∈ first :: block) : x ∈ found := by
    rw [hfound]
    exact mem_append_left _ (mem_append_right _ hx)
  have horder : (found.map (·.target)).takeWhile (· != first.target) = before.map (·.target) := by
    have hnodup := h.nodup_targets
    rw [hfound, append_assoc, cons_append, map_append, map_cons] at hnodup ⊢
    exact takeWhile_of_notMem (by grind)
  have hstays {last : String}
      (hlast : Descends schema (found.map (·.target)) first.target last) :
      ∃ x ∈ first :: block, x.target = last := by
    induction hlast with
    | refl => exact ⟨first, mem_cons_self, rfl⟩
    | tail _ hstep ih =>
      obtain ⟨x, hx, rfl⟩ := ih
      obtain ⟨⟨node, hnode, hleads⟩, hlater⟩ := hstep
      obtain rfl := Option.some.inj ((h.schema_target (hmem hx)).symm.trans hnode)
      have htarget := hclosed x hx hleads
      rw [nil_append, map_append, mem_append, ← horder] at htarget
      exact mem_map.1 (htarget.resolve_left hlater)
  obtain ⟨x, hx, htarget⟩ := hstays hdescends
  obtain rfl := h.eq_of_target_eq (hmem hx) hm htarget
  rcases mem_cons.1 hx with rfl | hx
  · simp [Met.trail]
  · exact mem_append_left _ ((hblock x hx).subset (by simp [Met.trail]))

/-- A target is being read when another one is met exactly if a chain of references leads from there
to the other one on which all else is met later. -/
lemma mem_trail_iff (h : Explores schema [] [] targets found) (hm : m ∈ found) (target : String) :
    target ∈ m.trail ↔ Descends schema (found.map (·.target)) target m.target := by
  refine ⟨h.descends_of_mem_trail hm, fun hdescends => ?_⟩
  by_cases htarget : target ∈ found.map (·.target)
  · obtain ⟨first, hfirst, rfl⟩ := mem_map.1 htarget
    exact h.mem_trail_of_descends hfirst hm hdescends
  · rcases hdescends.cases_tail with heq | ⟨other, -, -, hlater⟩
    · simp [Met.trail, heq]
    · have hall : (found.map (·.target)).takeWhile (· != target) = found.map (·.target) := by
        rw [takeWhile_eq_self_iff]
        intro other hother
        simpa using ne_of_mem_of_not_mem hother htarget
      rw [hall] at hlater
      exact absurd (mem_map_of_mem hm) hlater

/-- A target lies on a cycle that the search goes round exactly if chains of references lead to it
and on to a reference back, each of them through what is met later than its beginning. -/
lemma goesRound_iff (h : Explores schema [] [] targets found)
    (hschema : ∀ target node, schema target = some node → target ∈ found.map (·.target))
    (target : String) :
    (∃ m ∈ found, ∃ back ∈ m.node.targets, GoesRound m.trail back target) ↔
      ∃ back last, Descends schema (found.map (·.target)) back target ∧
        Descends schema (found.map (·.target)) target last ∧ Leads schema last back := by
  constructor
  · rintro ⟨m, hm, back, hback, hround⟩
    obtain ⟨front, rear, htrail⟩ := append_of_mem ((dropWhile_sublist _).subset hround)
    obtain ⟨m', hm', rfl, htrail'⟩ := h.exists_of_trail hm htrail
    have hrear : m'.target ∉ rear := by
      have hnodup := h.nodup_trail hm
      rw [htrail] at hnodup
      grind
    rw [GoesRound, htrail, mem_dropWhile_iff hrear, ← htrail', h.mem_trail_iff hm'] at hround
    have htarget : m'.target ∈ m.trail := by simp [htrail]
    exact ⟨back, m.target, hround, (h.mem_trail_iff hm _).1 htarget,
      m.node, h.schema_target hm, hback⟩
  · rintro ⟨back, last, hback, hlast, node, hnode, hleads⟩
    obtain ⟨m, hm, rfl⟩ := mem_map.1 (hschema _ _ hnode)
    obtain rfl := Option.some.inj ((h.schema_target hm).symm.trans hnode)
    obtain ⟨front, rear, htrail⟩ := append_of_mem ((h.mem_trail_iff hm _).2 hlast)
    obtain ⟨m', hm', rfl, htrail'⟩ := h.exists_of_trail hm htrail
    have hrear : m'.target ∉ rear := by
      have hnodup := h.nodup_trail hm
      rw [htrail] at hnodup
      grind
    refine ⟨m, hm, back, hleads, ?_⟩
    rw [GoesRound, htrail, mem_dropWhile_iff hrear, ← htrail', h.mem_trail_iff hm']
    exact hback

end Explores

/-! ### Cycles -/

section

variable {schema : String → Option Node} {order : List String} {target : String}

/-- What lies between a target and a reference back to a target before it is reached from itself. -/
lemma reaches_self_of_descends {back last : String} (hback : Descends schema order back target)
    (hlast : Descends schema order target last) (hleads : Leads schema last back) :
    Relation.TransGen (Leads schema) target target :=
  (Relation.TransGen.tail' hlast.reflTransGen hleads).trans_left hback.reflTransGen

/-- The first target of a cycle leads back to itself through what is met later. -/
lemma exists_descends_of_reaches_self (horder : target ∈ order)
    (h : Relation.TransGen (Leads schema) target target) :
    ∃ first last, Relation.ReflTransGen (Leads schema) target first ∧
      Relation.ReflTransGen (Leads schema) first target ∧
      Descends schema order first last ∧ Leads schema last first := by
  classical
  have hsome : (order.find? fun x => Relation.ReflTransGen (Leads schema) target x ∧
      Relation.ReflTransGen (Leads schema) x target).isSome := by
    rw [List.find?_isSome]
    exact ⟨target, horder, decide_eq_true ⟨.refl, .refl⟩⟩
  obtain ⟨first, hfirst⟩ := Option.isSome_iff_exists.1 hsome
  obtain ⟨hround, before, after, rfl, hbefore⟩ := List.find?_eq_some_iff_append.1 hfirst
  obtain ⟨hto, hfrom⟩ := of_decide_eq_true hround
  have hbefore {x : String} (hx : x ∈ before) (hx' : Relation.ReflTransGen (Leads schema) target x) :
      ¬ Relation.ReflTransGen (Leads schema) x target := by
    simpa [hx'] using hbefore x hx
  have horder : (before ++ first :: after).takeWhile (· != first) = before :=
    takeWhile_of_notMem fun hmem => hbefore hmem hto hfrom
  have hdescends {x : String} (hx : Relation.ReflTransGen (Leads schema) first x)
      (hx' : Relation.ReflTransGen (Leads schema) x target) :
      Descends schema (before ++ first :: after) first x := by
    induction hx with
    | refl => exact .refl
    | tail hy hstep ih =>
      refine (ih (.head hstep hx')).tail ⟨hstep, ?_⟩
      rw [horder]
      exact fun hmem => hbefore hmem (hto.trans (hy.tail hstep)) hx'
  have hself : Relation.TransGen (Leads schema) first first :=
    (h.trans_right hfrom).trans_left hto
  obtain ⟨last, hlast, hleads⟩ := Relation.TransGen.tail'_iff.1 hself
  exact ⟨first, last, hto, hfrom, hdescends hlast (.head hleads hfrom), hleads⟩

end

namespace Resolved

/-- What is marked in a document as lying on a cycle. -/
structure TagsCycles (lib : Library) (doc : Resolved) : Prop where
  /-- Targets between the beginning of a chain of references and a reference back to it, where chains
  lead through what is visited later than their beginnings. -/
  mem_iff : ∃ entries order, Schema.components lib.root = .ok entries ∧
    (∀ other, Visits doc.schema? []
      (Schema.componentTargets entries ++ doc.routes.flatMap Route.targets) other ↔
        other = order) ∧
    ∀ target, target ∈ doc.cyclic ↔ ∃ back last, Descends doc.schema? order back target ∧
      Descends doc.schema? order target last ∧ Leads doc.schema? last back
  /-- Only targets that lead back to themselves are marked. -/
  reaches_self : ∀ target ∈ doc.cyclic, Relation.TransGen (Leads doc.schema?) target target
  /-- Whatever leads back to itself does so through a marked target, or shares all cycles with one. -/
  exists_mem : ∀ target, Relation.TransGen (Leads doc.schema?) target target →
    ∃ first ∈ doc.cyclic, Relation.ReflTransGen (Leads doc.schema?) target first ∧
      Relation.ReflTransGen (Leads doc.schema?) first target

/-- Resolving explores the schemas of a document, all of them. -/
lemma explores_of_resolve {lib : Library} {doc : Resolved}
    (h : (Schema.resolve lib).outcome = .ok doc) :
    ∃ entries, ∃ found : List Met, Schema.components lib.root = .ok entries ∧
      Explores doc.schema? [] []
        (Schema.componentTargets entries ++ doc.routes.flatMap Route.targets) found ∧
      (∀ target node, doc.schema? target = some node → target ∈ found.map (·.target)) ∧
      ∀ t, t ∈ doc.cyclic ↔ ∃ m ∈ found, ∃ back ∈ m.node.targets, GoesRound m.trail back t := by
  unfold Schema.resolve at h
  cases hrun : (Schema.resolveAll lib).run {} with
  | mk outcome w =>
  rw [hrun] at h
  obtain ⟨routes, rfl, rfl⟩ := Except.map_eq_ok_iff.1 h
  obtain ⟨entries, found, hentries, htracks, hexplores, hcyclic⟩ :=
    Schema.explores_of_resolveAll hrun
  have hcomponents : Schema.componentTargets entries ⊆ found.map (·.target) := by
    simpa using (append_subset.1 hexplores.visits.targets_subset).1
  have hnames (target : String) :
      target ∈ w.names.map (·.1) ↔ target ∈ found.map (·.target) := by
    rw [htracks.names, mem_append, mem_filter]
    by_cases hcomponent : target ∈ Schema.componentTargets entries
    · simpa [Text.mem_distinct, hcomponent] using hcomponents hcomponent
    · simp [Text.mem_distinct, hcomponent]
  refine ⟨entries, found, hentries, hexplores.mono fun target node hnode => ?_, ?_, hcyclic⟩
  · refine Schema.Walk.lookup_inOrder hnode ((hnames target).2 ((htracks.mem_iff target).2 ?_))
    exact .inl (Schema.Walk.isDefined_iff.2 ⟨node, hnode⟩)
  · intro target node hnode
    have hkey : target ∈ w.inOrder.map (·.1) := mem_map_of_mem (mem_of_lookup hnode)
    exact (hnames target).1 (w.keys_sublist_names.subset hkey)

theorem tagsCycles_of_resolve {lib : Library} {doc : Resolved}
    (h : (Schema.resolve lib).outcome = .ok doc) : doc.TagsCycles lib := by
  obtain ⟨entries, found, hentries, hexplores, hschema, hcyclic⟩ := explores_of_resolve h
  have hmem (target : String) := (hcyclic target).trans (hexplores.goesRound_iff hschema target)
  have hvisits := hexplores.visits
  rw [nil_append] at hvisits
  refine ⟨⟨entries, _, hentries, fun other => ⟨hvisits.unique, ?_⟩, hmem⟩, ?_, ?_⟩
  · rintro rfl
    exact hvisits
  · intro target htarget
    obtain ⟨back, last, hback, hlast, hleads⟩ := (hmem target).1 htarget
    exact reaches_self_of_descends hback hlast hleads
  · intro target htarget
    obtain ⟨_, ⟨node, hnode, -⟩, -⟩ := Relation.TransGen.head'_iff.1 htarget
    obtain ⟨first, last, hto, hfrom, hlast, hleads⟩ :=
      exists_descends_of_reaches_self (hschema target node hnode) htarget
    exact ⟨first, (hmem first).2 ⟨first, last, .refl, hlast, hleads⟩, hto, hfrom⟩

/-- Three components on two cycles: `A` refers to the others, `B` refers to `A`, and `C` to `B`. -/
def rings : List (String × Value) :=
  let ref (target : String) : Value := .object [("$ref", .str target)]
  [("A", .object [("properties", .object [("b", ref "#/components/schemas/B"),
      ("c", ref "#/components/schemas/C")])]),
    ("B", .object [("items", ref "#/components/schemas/A")]),
    ("C", .object [("items", ref "#/components/schemas/B")])]

def ringsLibrary (schemas : List (String × Value)) : Library :=
  .ofTable "" (.object [("components", .object [("schemas", .object schemas)])]) []

/-- Where `A` is read first, `C` is not marked, though it leads back to itself; where `C` is read
first, it is. -/
theorem rings_tagsCycles : ∃ doc doc',
    (Schema.resolve (ringsLibrary rings)).outcome = .ok doc ∧
    (Schema.resolve (ringsLibrary rings.reverse)).outcome = .ok doc' ∧
    doc.cyclic = ["#/components/schemas/A", "#/components/schemas/B"] ∧
    doc'.cyclic = ["#/components/schemas/B", "#/components/schemas/A", "#/components/schemas/C"] ∧
    Relation.TransGen (Leads doc.schema?) "#/components/schemas/C" "#/components/schemas/C" ∧
    doc.TagsCycles (ringsLibrary rings) := by
  have hrings : (Schema.resolve (ringsLibrary rings)).outcome.toOption.map (fun doc =>
      (doc.cyclic, (doc.schema? "#/components/schemas/A").map Node.targets,
        (doc.schema? "#/components/schemas/B").map Node.targets,
        (doc.schema? "#/components/schemas/C").map Node.targets)) =
      some (["#/components/schemas/A", "#/components/schemas/B"],
        some ["#/components/schemas/B", "#/components/schemas/C"],
        some ["#/components/schemas/A"], some ["#/components/schemas/B"]) := by decide +kernel
  have hreverse : (Schema.resolve (ringsLibrary rings.reverse)).outcome.toOption.map (·.cyclic) =
      some ["#/components/schemas/B", "#/components/schemas/A", "#/components/schemas/C"] := by
    decide +kernel
  obtain ⟨doc, hdoc, hrings⟩ := Except.map_toOption_eq_some_iff.1 hrings
  obtain ⟨doc', hdoc', hreverse⟩ := Except.map_toOption_eq_some_iff.1 hreverse
  obtain ⟨hcyclic, ha, hb, hc⟩ := by simpa only [Prod.mk.injEq] using hrings
  have hleads {x y : String} {targets : List String}
      (h : (doc.schema? x).map Node.targets = some targets) (hy : y ∈ targets) :
      Leads doc.schema? x y := by
    obtain ⟨node, hnode, rfl⟩ := Option.map_eq_some_iff.1 h
    exact ⟨node, hnode, hy⟩
  refine ⟨doc, doc', hdoc, hdoc', hcyclic, hreverse, ?_, tagsCycles_of_resolve hdoc⟩
  exact .head (hleads hc (by simp)) (.head (hleads hb (by simp)) (.single (hleads ha (by simp))))

end Resolved

end ApiSchema
