import ApiSchema.Proofs.Graph.Cycle
import ApiSchema.Proofs.Meaning.Node
import ApiSchema.Proofs.Schema.WellFormed

/-!
# Flattening conjunctions

A conjunction is flattened into the objects that it is made of, through references and through
conjunctions inside of it. Main statement: this always ends. What it gives are objects that say
together what all branches say; if it gives nothing, some branch leads to a schema that is no object;
and if it fails, there is a cycle of conjunctions, each with a reference to the next.
-/

namespace ApiSchema

open List

/-! ### Cycles of conjunctions -/

/-- A schema among branches or among those of conjunctions in them, null allowed nowhere on the
way. -/
inductive Node.IsAmong (branches : List Node) : Node → Prop
  | branch {node : Node} (h : node ∈ branches) : IsAmong branches node
  | nested {site : Site} {inner : List Node} {node : Node}
    (hinner : IsAmong branches (.allOf site inner)) (hsite : site.nullable = false)
    (h : node ∈ inner) : IsAmong branches node

namespace Resolved

variable (doc : Resolved)

/-- A definition is a conjunction without null, and has a reference to the next one among its
branches or among those of conjunctions in them. -/
def Merges (target next : String) : Prop :=
  ∃ site branches, doc.definitions.lookup target = some (.allOf site branches) ∧
    site.nullable = false ∧
      ∃ site', Node.IsAmong branches (.reference site' next) ∧ site'.nullable = false

/-- Definitions that lead from one to the next, the last of which is the first again. -/
def IsMergeCycle (targets : List String) : Prop :=
  ∃ target rest, targets = target :: (rest ++ [target]) ∧ targets.IsChain doc.Merges

/-- A schema that is no object, or leads to one that is none. References count as objects only where
they stand for a definition that is an object or a conjunction. -/
inductive Blocks : Node → Prop
  | nullable {node : Node} (h : node.nullable) : Blocks node
  | kind {node : Node} (hobject : ∀ site ps rs a r, node ≠ .object site ps rs a r)
    (hall : ∀ site branches, node ≠ .allOf site branches)
    (href : ∀ site target, node ≠ .reference site target) : Blocks node
  | nested {site : Site} {branches : List Node} {b : Node} (hb : b ∈ branches) (h : Blocks b) :
    Blocks (.allOf site branches)
  | missing {site : Site} {target : String} (h : doc.definitions.lookup target = none) :
    Blocks (.reference site target)
  | again {site site' : Site} {target target' : String}
    (h : doc.definitions.lookup target = some (.reference site' target')) :
    Blocks (.reference site target)
  | behind {site : Site} {target : String} {node : Node}
    (hnode : doc.definitions.lookup target = some node) (h : Blocks node) :
    Blocks (.reference site target)

end Resolved

namespace Shape

variable {r : Except Fault (Option (List Shape))} {site : Site} {target : String}

/-! ### Shapes of branches -/

/-- The shapes that branches are made of: objects on their own, in conjunctions, or behind
references, null allowed nowhere on the way. -/
inductive Flattens (doc : Resolved) : List Node → List Shape → Prop
  | nil : Flattens doc [] []
  | object {site : Site} (shape : Shape) {rest : List Node} {shapes : List Shape}
    (hsite : site.nullable = false) (hrest : Flattens doc rest shapes) :
    Flattens doc
      (.object site shape.properties shape.required shape.additional shape.rules :: rest)
      (shape :: shapes)
  | allOf {site : Site} {branches rest : List Node} {shapes shapes' : List Shape}
    (hsite : site.nullable = false) (hbranches : Flattens doc branches shapes)
    (hrest : Flattens doc rest shapes') :
    Flattens doc (.allOf site branches :: rest) (shapes ++ shapes')
  | reference {site : Site} {target : String} {node : Node} {rest : List Node}
    {shapes shapes' : List Shape} (hsite : site.nullable = false)
    (hnode : doc.definitions.lookup target = some node) (htarget : Flattens doc [node] shapes)
    (hrest : Flattens doc rest shapes') :
    Flattens doc (.reference site target :: rest) (shapes ++ shapes')

/-- The object of a shape, null not allowed. -/
def toNode (shape : Shape) : Node :=
  .object ⟨"", false⟩ shape.properties shape.required shape.additional shape.rules

/-- The objects of shapes say what branches say: read each on its own, and read together with others
that declare any names. -/
def SayTheSame (doc : Resolved) (branches : List Node) (shapes : List Shape) : Prop :=
  ∀ basis formats v,
    ((∀ shape ∈ shapes, doc.Satisfies basis formats shape.toNode v) ↔
      ∀ b ∈ branches, doc.Satisfies basis formats b v) ∧
    ∀ names, (∀ shape ∈ shapes, doc.SatisfiesAmong basis formats names shape.toNode v) ↔
      ∀ b ∈ branches, doc.SatisfiesAmong basis formats names b v

/-- How flattening may end: with objects, at a schema that is none, or in a cycle, which it reports
by the names of its members. -/
def Ends (doc : Resolved) (branches : List Node) : Except Fault (Option (List Shape)) → Prop
  | .ok (some shapes) => Flattens doc branches shapes ∧ SayTheSame doc branches shapes
  | .ok none => ∃ b ∈ branches, doc.Blocks b
  | .error fault => ∃ targets pointer, doc.IsMergeCycle targets ∧ fault = .schema
      (.unbreakable (targets.map fun t => (doc.names.lookup t).getD t) (some pointer))

/-- The targets on the way to branches: each is a conjunction that has a reference to the next, and
the branches are those of the last. -/
structure OnWay (doc : Resolved) (stack : List String) (branches : List Node) : Prop where
  nodup : stack.Nodup
  defined : stack ⊆ doc.definitions.map (·.1)
  chain : ∀ {site target}, Node.IsAmong branches (.reference site target) →
    site.nullable = false → (stack ++ [target]).IsChain doc.Merges

variable {doc : Resolved} {follow : List String → List Node → Except Fault (Option (List Shape))}
  {stack : List String} {branches : List Node}

lemma Flattens.append {branches rest : List Node} {shapes shapes' : List Shape}
    (h : Flattens doc branches shapes) (hrest : Flattens doc rest shapes') :
    Flattens doc (branches ++ rest) (shapes ++ shapes') := by
  induction h with
  | nil => exact hrest
  | object shape hsite _ ih => exact .object shape hsite ih
  | allOf hsite hbranches _ _ ih =>
    rw [append_assoc]
    exact .allOf hsite hbranches ih
  | reference hsite hnode htarget _ _ ih =>
    rw [append_assoc]
    exact .reference hsite hnode htarget ih

/-! ### What shapes say -/

section

variable {basis : Basis} {formats : Format.Registry} {scope : List Node → Option (List String)}
  {known : Option (List String)} {v : Value} {shapes : List Shape}

lemma Flattens.meets_iff {ref : Option (List String) → String → Value → Prop}
    (h : Flattens doc branches shapes) (hscope : ∀ bs, (known <|> scope bs) = known)
    (href : ∀ {t v}, ref known t v ↔ ∃ node, doc.definitions.lookup t = some node ∧
      node.Meets basis formats scope ref known v) :
    (∀ shape ∈ shapes, shape.toNode.Meets basis formats scope ref known v) ↔
      ∀ b ∈ branches, b.Meets basis formats scope ref known v := by
  induction h with
  | nil => simp
  | object shape hsite _ ih =>
    rw [forall_mem_cons, forall_mem_cons, ih]
    simp [toNode, Node.Meets, hsite]
  | allOf hsite _ _ ih ih' =>
    rw [forall_mem_append, forall_mem_cons, ih, ih']
    simp [Node.Meets, hsite, hscope, Node.meetsAll_iff]
  | reference hsite hnode _ _ ih ih' =>
    rw [forall_mem_append, forall_mem_cons, ih, ih']
    simp [Node.Meets, hsite, href, hnode]

/-- As `Flattens.meets_iff`, where references are read through some number of definitions. -/
lemma Flattens.exists_meets_iff (h : Flattens doc branches shapes)
    (hscope : ∀ bs, (known <|> scope bs) = known) :
    (∀ shape ∈ shapes, ∃ n,
        shape.toNode.Meets basis formats scope (doc.TargetMeets basis formats scope n) known v) ↔
      ∀ b ∈ branches, ∃ n,
        b.Meets basis formats scope (doc.TargetMeets basis formats scope n) known v := by
  have hlevel {node : Node} {v : Value} :
      (∃ n, node.Meets basis formats scope (doc.TargetMeets basis formats scope n) known v) ↔
        node.Meets basis formats scope
          (fun known t x => ∃ n, doc.TargetMeets basis formats scope n known t x) known v :=
    ⟨fun ⟨n, hn⟩ => hn.mono fun hx => ⟨n, hx⟩, Resolved.exists_meets_level⟩
  simp only [hlevel]
  refine h.meets_iff hscope fun {t v} => ⟨?_, ?_⟩
  · rintro ⟨n, hn⟩
    obtain ⟨node, hnode, hv⟩ := hn.exists_meets
    exact ⟨node, hnode, hlevel.1 ⟨n, hv⟩⟩
  · rintro ⟨node, hnode, hv⟩
    obtain ⟨n, hn⟩ := hlevel.2 hv
    exact ⟨n + 1, node, hnode, hn⟩

lemma Flattens.sayTheSame (h : Flattens doc branches shapes) : SayTheSame doc branches shapes :=
  fun _ _ _ => ⟨h.exists_meets_iff fun _ => rfl, fun _ => h.exists_meets_iff fun _ => rfl⟩

end

/-! ### How flattening ends -/

lemma Flattens.ends {shapes : List Shape} (h : Flattens doc branches shapes) :
    Ends doc branches (.ok (some shapes)) :=
  ⟨h, h.sayTheSame⟩

lemma ends_object (site : Site) (shape : Shape) :
    Ends doc [.object site shape.properties shape.required shape.additional shape.rules]
      (.ok (if site.nullable then none else some [shape])) := by
  cases hsite : site.nullable with
  | true => exact ⟨_, mem_singleton_self _, .nullable hsite⟩
  | false => exact (Flattens.object shape hsite .nil).ends

/-- What is found in the branches of a conjunction is found in the conjunction. -/
lemma Ends.allOf (h : Ends doc branches r) (hsite : site.nullable = false) :
    Ends doc [.allOf site branches] r := by
  match r with
  | .ok (some shapes) =>
    rw [← append_nil shapes]
    exact (Flattens.allOf hsite h.1 .nil).ends
  | .ok none =>
    obtain ⟨b, hb, hblocks⟩ := h
    exact ⟨_, mem_singleton_self _, .nested hb hblocks⟩
  | .error fault => exact h

/-- What is found in a definition is found behind a reference to it. -/
lemma Ends.reference {node : Node} (h : Ends doc [node] r)
    (hnode : doc.definitions.lookup target = some node) (hsite : site.nullable = false) :
    Ends doc [.reference site target] r := by
  match r with
  | .ok (some shapes) =>
    rw [← append_nil shapes]
    exact (Flattens.reference hsite hnode h.1 .nil).ends
  | .ok none =>
    obtain ⟨b, hb, hblocks⟩ := h
    rw [mem_singleton.1 hb] at hblocks
    exact ⟨_, mem_singleton_self _, .behind hnode hblocks⟩
  | .error fault => exact h

lemma OnWay.step (hnew : target ∉ stack) (hnodup : stack.Nodup)
    (hdefined : stack ⊆ doc.definitions.map (·.1)) (hchain : (stack ++ [target]).IsChain doc.Merges)
    (hnode : doc.definitions.lookup target = some (.allOf site branches))
    (hsite : site.nullable = false) : OnWay doc (stack ++ [target]) branches where
  nodup := nodup_append.2 ⟨hnodup, nodup_singleton _, by grind⟩
  defined := by
    have hkey := isSome_lookup_iff.1 (Option.isSome_iff_exists.2 ⟨_, hnode⟩)
    exact append_subset.2 ⟨hdefined, cons_subset.2 ⟨hkey, nil_subset _⟩⟩
  chain {site' next} hnext hsite' := by
    have hmerges : doc.Merges target next := ⟨site, branches, hnode, hsite, site', hnext, hsite'⟩
    refine isChain_append.2 ⟨hchain, isChain_singleton _, ?_⟩
    simpa using hmerges

lemma ends_ofTarget (hway : OnWay doc stack branches)
    (hfollow : ∀ {target inner}, OnWay doc (stack ++ [target]) inner →
      Ends doc inner (follow (stack ++ [target]) inner))
    (href : Node.IsAmong branches (.reference site target)) (hsite : site.nullable = false) :
    Ends doc [.reference site target] (ofTarget doc follow stack site.pointer target) := by
  have hchain := hway.chain href hsite
  unfold ofTarget
  split
  next hmem =>
    exact ⟨_, _, Graph.exists_cycle_of_mem (contains_iff_mem.1 hmem) hchain, rfl⟩
  next hnew =>
    rw [contains_iff_mem] at hnew
    split
    next hnode => exact (ends_object _ _).reference hnode hsite
    next site' inner hnode =>
      cases hsite' : site'.nullable with
      | true => exact ⟨_, mem_singleton_self _, .behind hnode (.nullable hsite')⟩
      | false =>
        have hinner := hfollow (.step hnew hway.nodup hway.defined hchain hnode hsite')
        exact (hinner.allOf hsite').reference hnode hsite
    next hobject hall =>
      refine ⟨_, mem_singleton_self _, ?_⟩
      cases hnode : doc.definitions.lookup target with
      | none => exact .missing hnode
      | some node =>
        by_cases hagain : ∃ site' target', node = .reference site' target'
        · obtain ⟨site', target', rfl⟩ := hagain
          exact .again hnode
        · refine .behind hnode (.kind ?_ ?_ fun site' target' h => hagain ⟨_, _, h⟩)
          · rintro _ _ _ _ _ rfl
            exact hobject _ _ _ _ _ hnode
          · rintro _ _ rfl
            exact hall _ _ hnode

mutual

lemma ends_ofBranch (hway : OnWay doc stack branches)
    (hfollow : ∀ {target inner}, OnWay doc (stack ++ [target]) inner →
      Ends doc inner (follow (stack ++ [target]) inner))
    (node : Node) (hnode : Node.IsAmong branches node) :
    Ends doc [node] (ofBranch doc follow stack node) := by
  match node with
  | .object site properties required additional rules =>
    exact ends_object site ⟨properties, required, additional, rules⟩
  | .allOf site inner =>
    rw [ofBranch]
    cases hsite : site.nullable with
    | true => exact ⟨_, mem_singleton_self _, .nullable hsite⟩
    | false => exact (ends_ofBranches hway hfollow inner fun b hb => hnode.nested hsite hb).allOf hsite
  | .reference site target =>
    rw [ofBranch]
    cases hsite : site.nullable with
    | true => exact ⟨_, mem_singleton_self _, .nullable hsite⟩
    | false => exact ends_ofTarget hway hfollow hnode hsite
  | .any _ | .null _ | .boolean _ | .string _ _ | .number _ _ _ | .array _ _ _ | .anyOf _ _
  | .oneOf _ _ | .enum _ _ | .literal _ _ =>
    exact ⟨_, mem_singleton_self _, .kind nofun nofun nofun⟩

lemma ends_ofBranches (hway : OnWay doc stack branches)
    (hfollow : ∀ {target inner}, OnWay doc (stack ++ [target]) inner →
      Ends doc inner (follow (stack ++ [target]) inner))
    (nodes : List Node) (hnodes : ∀ node ∈ nodes, Node.IsAmong branches node) :
    Ends doc nodes (ofBranches doc follow stack nodes) := by
  match nodes with
  | [] => exact Flattens.nil.ends
  | node :: rest =>
    have hnode := ends_ofBranch hway hfollow node (hnodes node mem_cons_self)
    have hrest := ends_ofBranches hway hfollow rest fun b hb => hnodes b (mem_cons_of_mem _ hb)
    rw [ofBranches]
    split
    next h =>
      rw [h] at hnode
      exact hnode
    next h =>
      rw [h] at hnode
      obtain ⟨b, hb, hblocks⟩ := hnode
      exact ⟨b, mem_cons.2 (.inl (mem_singleton.1 hb)), hblocks⟩
    next shapes h =>
      rw [h] at hnode
      split
      next h' =>
        rw [h'] at hrest
        exact hrest
      next others h' =>
        rw [h'] at hrest
        cases others with
        | none =>
          obtain ⟨b, hb, hblocks⟩ := hrest
          exact ⟨b, mem_cons_of_mem _ hb, hblocks⟩
        | some others => exact (Flattens.append hnode.1 hrest.1).ends

end

/-- Targets on the way are distinct definitions, so the number of definitions bounds the way. -/
lemma ends_flattenWithin (n : Nat) (hn : doc.definitions.length < n + stack.length)
    (hway : OnWay doc stack branches) : Ends doc branches (flattenWithin doc n stack branches) := by
  induction n generalizing stack branches with
  | zero =>
    have hlength := (hway.nodup.subperm hway.defined).length_le
    rw [length_map] at hlength
    omega
  | succ n ih =>
    refine ends_ofBranches hway (fun hinner => ih ?_ hinner) branches fun b hb => .branch hb
    simp only [length_append, length_singleton]
    omega

lemma onWay_nil (doc : Resolved) (branches : List Node) : OnWay doc [] branches :=
  ⟨nodup_nil, nil_subset _, fun _ _ => .singleton _⟩

/-- Flattening ends, whatever definitions refer to. -/
theorem flatten_ends (doc : Resolved) (branches : List Node) :
    Ends doc branches (flatten doc branches) :=
  ends_flattenWithin _ (by simp) (onWay_nil doc branches)

lemma flattens_of_flatten {shapes : List Shape} (h : flatten doc branches = .ok (some shapes)) :
    Flattens doc branches shapes := by
  have hends := ends_flattenWithin _ (Nat.lt_succ_self _) (onWay_nil doc branches)
  rw [← flatten, h] at hends
  exact hends.1

/-- A document can only give schemas to blame for a failure. -/
lemma exists_error_of_flatten {fault : Fault} (h : flatten doc branches = .error fault) :
    ∃ e, fault = .schema e := by
  have hends := ends_flattenWithin _ (Nat.lt_succ_self _) (onWay_nil doc branches)
  rw [← flatten, h] at hends
  obtain ⟨_, _, -, rfl⟩ := hends
  exact ⟨_, rfl⟩

/-- Every shape stems from an object that the branches lead to. -/
lemma Flattens.exists_object {shapes : List Shape} (h : Flattens doc branches shapes)
    {P : Node → Prop} (hP : doc.IsClosed P) (hbranches : ∀ b ∈ branches, P b) {shape : Shape}
    (hshape : shape ∈ shapes) :
    ∃ site, P (.object site shape.properties shape.required shape.additional shape.rules) := by
  induction h with
  | nil => cases hshape
  | @object site _ _ _ _ _ ih =>
    rcases mem_cons.1 hshape with rfl | hshape
    · exact ⟨site, hbranches _ mem_cons_self⟩
    · exact ih (fun b hb => hbranches b (mem_cons_of_mem _ hb)) hshape
  | allOf _ _ _ ih ih' =>
    rcases mem_append.1 hshape with hshape | hshape
    · exact ih (fun b hb => hP.child (hbranches _ mem_cons_self) hb) hshape
    · exact ih' (fun b hb => hbranches b (mem_cons_of_mem _ hb)) hshape
  | reference _ hnode _ _ ih ih' =>
    rcases mem_append.1 hshape with hshape | hshape
    · refine ih (fun b hb => ?_) hshape
      rw [mem_singleton.1 hb]
      exact hP.target (hbranches _ mem_cons_self) hnode
    · exact ih' (fun b hb => hbranches b (mem_cons_of_mem _ hb)) hshape

end Shape

end ApiSchema
