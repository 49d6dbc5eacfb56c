import ApiSchema.Proofs.Meaning.Basis
import ApiSchema.Proofs.Schema.Parts

/-!
# Meaning of schemas

A value meets a schema if it meets the constraints of its kind, or is null where null is allowed.
References make the meaning recursive: a value satisfies a schema of a document if it can be told
through finitely many definitions.

Objects of a conjunction can be read in two ways, and the `scope` of a conjunction tells which. Each
branch on its own: what a branch says on additional properties then concerns every key that this
branch does not declare. Or all of them together: it then concerns only the keys that no branch
declares.
-/

namespace ApiSchema

open List Filter

namespace Node

section

-- `scope` gives the names that the branches of a conjunction declare together, where they are read
-- together. `ref` gives the meaning of a target among such names.
variable (basis : Basis) (formats : Format.Registry) (scope : List Node → Option (List String))
  (ref : Option (List String) → String → Value → Prop)

mutual

/-- A value meets a schema that stands among the names `known`. -/
def Meets (known : Option (List String)) : Node → Value → Prop
  | any _, _ => True
  | null _, v => v = .null
  | boolean s, v => s.nullable ∧ v = .null ∨ ∃ b, v = .bool b
  | string s rules, v => s.nullable ∧ v = .null ∨ rules.Holds basis formats v
  | number s integer rules, v =>
    s.nullable ∧ v = .null ∨
      ∃ n, v.number? = some n ∧ (integer → basis.integer n) ∧ rules.Holds n
  | array s items rules, v =>
    s.nullable ∧ v = .null ∨
      ∃ xs, v = .list xs ∧ (Extent.mk rules.minItems rules.maxItems).Holds xs.length ∧
        (rules.isUnique → Check.areUnique xs) ∧ ∀ x ∈ xs, MeetsItems items x
  | object s properties required additional rules, v =>
    s.nullable ∧ v = .null ∨
      ∃ es, v = .map es ∧ (Validator.countOf rules).Holds es.length ∧
        (∀ k ∈ required, (Value.find? (.str k) es).isSome) ∧ MeetsProperties properties es ∧
        MeetsAdditional (properties.map (·.1) ++ known.getD []) additional es
  | anyOf s branches, v => s.nullable ∧ v = .null ∨ MeetsSome branches v
  | oneOf s branches, v => s.nullable ∧ v = .null ∨ MeetsSome branches v
  | allOf s branches, v =>
    s.nullable ∧ v = .null ∨ MeetsAll (known <|> scope branches) branches v
  | enum s values, v => s.nullable ∧ v = .null ∨ v.IsListed values
  | literal s values, v => s.nullable ∧ v = .null ∨ v.IsListed values
  | reference s target, v => s.nullable ∧ v = .null ∨ ref known target v

def MeetsItems : Option Node → Value → Prop
  | none, _ => True
  | some node, v => Meets none node v

def MeetsProperties : List (String × Node) → List (Scalar × Value) → Prop
  | [], _ => True
  | (k, node) :: rest, es =>
    (∀ x, Value.find? (.str k) es = some x → Meets none node x) ∧ MeetsProperties rest es

def MeetsAdditional (names : List String) : Additional Node → List (Scalar × Value) → Prop
  | .forbidden, es => ∀ e ∈ es, ¬ e.1.Lacks names
  | .typed node, es => ∀ e ∈ es, e.1.Lacks names → Meets none node e.2
  | .unstated, _ => True
  | .allowed, _ => True

def MeetsSome : List Node → Value → Prop
  | [], _ => False
  | node :: rest, v => Meets none node v ∨ MeetsSome rest v

def MeetsAll (known : Option (List String)) : List Node → Value → Prop
  | [], _ => True
  | node :: rest, v => Meets known node v ∧ MeetsAll known rest v

end

variable {basis formats scope ref} {known : Option (List String)}

lemma meetsProperties_iff {properties : List (String × Node)} {es : List (Scalar × Value)} :
    MeetsProperties basis formats scope ref properties es ↔
      ∀ p ∈ properties, ∀ x, Value.find? (.str p.1) es = some x →
        Meets basis formats scope ref none p.2 x := by
  induction properties with
  | nil => simp [MeetsProperties]
  | cons p rest ih => simp [MeetsProperties, ih]

lemma meetsAdditional_iff {names : List String} {additional : Additional Node}
    {es : List (Scalar × Value)} :
    MeetsAdditional basis formats scope ref names additional es ↔
      additional.Holds (Meets basis formats scope ref none) names es := by
  cases additional <;> simp [MeetsAdditional, Additional.Holds]

lemma meetsSome_iff {branches : List Node} {v : Value} :
    MeetsSome basis formats scope ref branches v ↔
      ∃ b ∈ branches, Meets basis formats scope ref none b v := by
  induction branches with
  | nil => simp [MeetsSome]
  | cons b rest ih => simp [MeetsSome, ih]

lemma meetsAll_iff {branches : List Node} {v : Value} :
    MeetsAll basis formats scope ref known branches v ↔
      ∀ b ∈ branches, Meets basis formats scope ref known b v := by
  induction branches with
  | nil => simp [MeetsAll]
  | cons b rest ih => simp [MeetsAll, ih]

variable (basis formats scope ref known) in
/-- A value meets a schema, null left aside. -/
def MeetsBare : Node → Value → Prop
  | any _, _ => True
  | null _, v => v = .null
  | boolean _, v => ∃ b, v = .bool b
  | string _ rules, v => rules.Holds basis formats v
  | number _ integer rules, v =>
    ∃ n, v.number? = some n ∧ (integer → basis.integer n) ∧ rules.Holds n
  | array _ items rules, v =>
    ∃ xs, v = .list xs ∧ (Extent.mk rules.minItems rules.maxItems).Holds xs.length ∧
      (rules.isUnique → Check.areUnique xs) ∧
      ∀ x ∈ xs, ∀ node ∈ items, Meets basis formats scope ref none node x
  | object _ properties required additional rules, v =>
    ∃ es, v = .map es ∧ (Validator.countOf rules).Holds es.length ∧
      (∀ k ∈ required, (Value.find? (.str k) es).isSome) ∧
      (∀ p ∈ properties, ∀ x, Value.find? (.str p.1) es = some x →
        Meets basis formats scope ref none p.2 x) ∧
      additional.Holds (Meets basis formats scope ref none)
        (properties.map (·.1) ++ known.getD []) es
  | anyOf _ branches, v => ∃ b ∈ branches, Meets basis formats scope ref none b v
  | oneOf _ branches, v => ∃ b ∈ branches, Meets basis formats scope ref none b v
  | allOf _ branches, v =>
    ∀ b ∈ branches, Meets basis formats scope ref (known <|> scope branches) b v
  | enum _ values, v => v.IsListed values
  | literal _ values, v => v.IsListed values
  | reference _ target, v => ref known target v

lemma meets_iff {node : Node} {v : Value} :
    Meets basis formats scope ref known node v ↔
      node.nullable ∧ v = .null ∨ MeetsBare basis formats scope ref known node v := by
  cases node with
  | any _ => simp [Meets, MeetsBare]
  | null _ =>
    simp only [Meets, MeetsBare]
    exact ⟨.inr, fun h => h.elim And.right id⟩
  | boolean _ | string _ _ | number _ _ _ | enum _ _ | literal _ _ | reference _ _ =>
    simp only [Meets, MeetsBare]
    rfl
  | array _ items _ =>
    simp only [Meets, MeetsBare]
    cases items with
    | none => simp [MeetsItems, nullable, site]
    | some node => simp [MeetsItems, nullable, site]
  | object _ _ _ _ _ =>
    simp only [Meets, MeetsBare, meetsProperties_iff, meetsAdditional_iff]
    rfl
  | anyOf _ _ | oneOf _ _ =>
    simp only [Meets, MeetsBare, meetsSome_iff]
    rfl
  | allOf _ _ =>
    simp only [Meets, MeetsBare, meetsAll_iff]
    rfl

end

/-! ### Weaker readings -/

section

variable {ι : Type} {l : Filter ι} {basis : Basis} {formats : Format.Registry}
  {rel : Option (List String) → Option (List String) → Prop}
  {scope scope' : List Node → Option (List String)}
  {ref ref' : Option (List String) → String → Value → Prop}
  {refs : ι → Option (List String) → String → Value → Prop}

variable (l rel scope scope' ref refs) in
/-- A chain of readings of conjunctions and targets that come to demand no more than another one. The
names that schemas stand among are related by `rel`; the chain has at least those of the other. -/
structure Weaker : Prop where
  none : rel none none
  names : ∀ {known known'}, rel known known' → known.getD [] ⊆ known'.getD []
  scope : ∀ {known known'} (branches : List Node), rel known known' →
    rel (known <|> scope branches) (known' <|> scope' branches)
  target : ∀ {known known'} {t : String} {v : Value}, rel known known' → ref known t v →
    ∀ᶠ n in l, refs n known' t v

/-- A value that meets a schema asks only finitely many targets, so it meets the schema late enough
in a chain of weaker readings. -/
lemma Meets.eventually (h : Weaker l rel scope scope' ref refs) {known known' : Option (List String)}
    (hk : rel known known') (node : Node) {v : Value}
    (hv : Meets basis formats scope ref known node v) :
    ∀ᶠ n in l, Meets basis formats scope' (refs n) known' node v := by
  induction node using children_induction generalizing known known' v with
  | step node ih =>
  simp only [meets_iff] at hv ⊢
  obtain hnull | hv := hv
  · exact Eventually.of_forall fun _ => .inl hnull
  refine Eventually.mono ?_ fun _ => .inr
  cases node with
  | any _ | null _ | boolean _ | string _ _ | number _ _ _ | enum _ _ | literal _ _ =>
    exact Eventually.of_forall fun _ => hv
  | array _ items rules =>
    obtain ⟨xs, rfl, hlength, hunique, hitems⟩ := hv
    have hlate : ∀ᶠ n in l, ∀ x ∈ xs, ∀ node ∈ items.toList,
        Meets basis formats scope' (refs n) none node x :=
      eventually_forall_mem fun x hx => eventually_forall_mem fun node hnode =>
        ih node hnode h.none (hitems x hx node (Option.mem_toList.1 hnode))
    exact hlate.mono fun n hn => ⟨xs, rfl, hlength, hunique,
      fun x hx node hnode => hn x hx node (Option.mem_toList.2 hnode)⟩
  | object _ properties required additional rules =>
    obtain ⟨es, rfl, hcount, hrequired, hproperties, hadditional⟩ := hv
    have hvalues (p : String × Node) (hp : p ∈ properties) :
        ∀ᶠ n in l, ∀ x ∈ (Value.find? (.str p.1) es).toList,
          Meets basis formats scope' (refs n) none p.2 x :=
      eventually_forall_mem fun x hx => ih p.2 (mem_append_left _ (mem_map_of_mem hp))
        h.none (hproperties p hp x (Option.mem_toList.1 hx))
    have hothers : ∀ᶠ n in l, additional.Holds (Meets basis formats scope' (refs n) none)
        (properties.map (·.1) ++ known'.getD []) es := by
      have hsub : properties.map (·.1) ++ known.getD [] ⊆ properties.map (·.1) ++ known'.getD [] :=
        append_subset.2 ⟨subset_append_left _ _,
          subset_append_of_subset_right _ (h.names hk)⟩
      cases additional with
      | unstated | allowed => exact Eventually.of_forall fun _ => trivial
      | forbidden => exact Eventually.of_forall fun _ e he hlacks => hadditional e he (hlacks.mono hsub)
      | typed node =>
        exact eventually_forall_mem fun e he => eventually_imp_distrib_left.2 fun hlacks =>
          ih node (by simp [children]) h.none (hadditional e he (hlacks.mono hsub))
    filter_upwards [eventually_forall_mem hvalues, hothers] with n hn hn'
    exact ⟨es, rfl, hcount, hrequired, fun p hp x hx => hn p hp x (Option.mem_toList.2 hx), hn'⟩
  | anyOf _ branches | oneOf _ branches =>
    obtain ⟨b, hb, hv⟩ := hv
    exact (ih b hb h.none hv).mono fun n hn => ⟨b, hb, hn⟩
  | allOf _ branches =>
    exact eventually_forall_mem fun b hb => ih b hb (h.scope branches hk) (hv b hb)
  | reference _ target => exact h.target hk hv

/-- What meets a schema meets it in a weaker reading. -/
lemma Meets.weaken (h : Weaker (pure ()) rel scope scope' ref fun _ => ref')
    {known known' : Option (List String)} (hk : rel known known') (node : Node) {v : Value}
    (hv : Meets basis formats scope ref known node v) :
    Meets basis formats scope' ref' known' node v :=
  eventually_pure.1 (Meets.eventually h hk node hv)

/-- Readings of targets that come to demand less, with conjunctions read as before. -/
lemma weaker_of_targets (h : ∀ {known t v}, ref known t v → ∀ᶠ n in l, refs n known t v) :
    Weaker l (· = ·) scope scope ref refs where
  none := rfl
  names := by rintro known _ rfl; exact List.Subset.refl _
  scope := by rintro known _ branches rfl; rfl
  target := by rintro known _ t x rfl ht; exact h ht

/-- What meets a schema meets it when targets demand less. -/
lemma Meets.mono {known : Option (List String)} {node : Node} {v : Value}
    (hv : Meets basis formats scope ref known node v)
    (h : ∀ {known t v}, ref known t v → ref' known t v) :
    Meets basis formats scope ref' known node v := by
  refine Meets.weaken ?_ rfl node hv
  exact weaker_of_targets fun ht => eventually_pure.2 (h ht)

end

end Node

/-! ### Documents -/

namespace Resolved

section

variable (basis : Basis) (formats : Format.Registry) (scope : List Node → Option (List String))
  (doc : Resolved)

/-- A value meets the definition of a target, as can be told through at most `n` definitions. -/
def TargetMeets : Nat → Option (List String) → String → Value → Prop
  | 0, _, _, _ => False
  | n + 1, known, target, v =>
    ∃ node, doc.definitions.lookup target = some node ∧
      node.Meets basis formats scope (TargetMeets n) known v

variable {basis formats scope doc}

lemma TargetMeets.succ {n : Nat} {known : Option (List String)} {target : String} {v : Value}
    (h : doc.TargetMeets basis formats scope n known target v) :
    doc.TargetMeets basis formats scope (n + 1) known target v := by
  induction n generalizing known target v with
  | zero => exact h.elim
  | succ n ih =>
    obtain ⟨node, hnode, hv⟩ := h
    exact ⟨node, hnode, hv.mono ih⟩

lemma TargetMeets.mono {m n : Nat} (hmn : m ≤ n) {known : Option (List String)} {target : String}
    {v : Value} (h : doc.TargetMeets basis formats scope m known target v) :
    doc.TargetMeets basis formats scope n known target v := by
  induction hmn with
  | refl => exact h
  | step _ ih => exact ih.succ

/-- A target that is met has a definition that is met. -/
lemma TargetMeets.exists_meets {n : Nat} {known : Option (List String)} {target : String}
    {v : Value} (h : doc.TargetMeets basis formats scope n known target v) :
    ∃ node, doc.definitions.lookup target = some node ∧
      node.Meets basis formats scope (doc.TargetMeets basis formats scope n) known v := by
  cases n with
  | zero => exact h.elim
  | succ n =>
    obtain ⟨node, hnode, hv⟩ := h
    exact ⟨node, hnode, hv.mono TargetMeets.succ⟩

lemma TargetMeets.eventually {n : Nat} {known : Option (List String)} {target : String} {v : Value}
    (h : doc.TargetMeets basis formats scope n known target v) :
    ∀ᶠ m in atTop, doc.TargetMeets basis formats scope m known target v :=
  (eventually_ge_atTop n).mono fun _ hm => h.mono hm

/-- What meets a schema with references read through any number of definitions meets it with
references read through some number. -/
lemma exists_meets_level {known : Option (List String)} {node : Node} {v : Value}
    (h : node.Meets basis formats scope
      (fun known t x => ∃ n, doc.TargetMeets basis formats scope n known t x) known v) :
    ∃ n, node.Meets basis formats scope (doc.TargetMeets basis formats scope n) known v := by
  have hlate : ∀ᶠ n in atTop,
      node.Meets basis formats scope (doc.TargetMeets basis formats scope n) known v :=
    Node.Meets.eventually (Node.weaker_of_targets fun ⟨_, hn⟩ => hn.eventually) rfl node h
  exact hlate.exists

end

/-- No conjunction has a scope: every branch is read on its own. -/
def apart : List Node → Option (List String) :=
  fun _ => none

/-- The names that shapes declare, if there are shapes. -/
def names? : Except Fault (Option (List Shape)) → Option (List String)
  | .ok (some shapes) => some (shapes.flatMap fun shape => shape.properties.map (·.1))
  | _ => none

/-- The names that several branches declare together, if all of them are objects. -/
def joint (doc : Resolved) : List Node → Option (List String)
  | [_] => none
  | branches => names? (Shape.flatten doc branches)

lemma joint_of_flatten {doc : Resolved} {branches : List Node} (hmany : ∀ b, branches ≠ [b])
    {shapes : List Shape} (h : Shape.flatten doc branches = .ok (some shapes)) :
    doc.joint branches = some (shapes.flatMap fun shape => shape.properties.map (·.1)) := by
  unfold joint
  split
  next b => exact absurd rfl (hmany b)
  next => rw [h, names?]

lemma joint_of_flatten_none {doc : Resolved} {branches : List Node}
    (h : Shape.flatten doc branches = .ok none) : doc.joint branches = none := by
  unfold joint
  split
  next => rfl
  next =>
    rw [h]
    rfl

variable (basis : Basis) (formats : Format.Registry) (doc : Resolved)

/-- A value satisfies a schema of a document, every branch of a conjunction on its own. -/
def Satisfies (node : Node) (v : Value) : Prop :=
  ∃ n, node.Meets basis formats apart (doc.TargetMeets basis formats apart n) none v

/-- A value satisfies a schema of a document, where objects of a conjunction are read together: what
they say on additional properties concerns the keys that none of them declares. -/
def SatisfiesJointly (node : Node) (v : Value) : Prop :=
  ∃ n, node.Meets basis formats doc.joint (doc.TargetMeets basis formats doc.joint n) none v

/-- A value satisfies a schema of a document that is read together with others: what it says on
additional properties does not concern the names `names`. -/
def SatisfiesAmong (names : List String) (node : Node) (v : Value) : Prop :=
  ∃ n, node.Meets basis formats doc.joint (doc.TargetMeets basis formats doc.joint n) (some names) v

variable {basis formats doc}

/-- Without a scope no schema stands among names, so any other reading is weaker. -/
lemma weaker_of_apart {scope : List Node → Option (List String)}
    {ref ref' : Option (List String) → String → Value → Prop}
    (h : ∀ {known t v}, ref none t v → ref' known t v) :
    Node.Weaker (pure ()) (fun known _ => known = none) apart scope ref fun _ => ref' where
  none := rfl
  names := by rintro _ known rfl; simp
  scope := by rintro _ known branches rfl; rfl
  target := by rintro _ known t v rfl hv; exact eventually_pure.2 (h hv)

lemma TargetMeets.of_apart {scope : List Node → Option (List String)} {n : Nat}
    {known : Option (List String)} {target : String} {v : Value}
    (h : doc.TargetMeets basis formats apart n none target v) :
    doc.TargetMeets basis formats scope n known target v := by
  induction n generalizing known target v with
  | zero => exact h.elim
  | succ n ih =>
    obtain ⟨node, hnode, hv⟩ := h
    exact ⟨node, hnode, Node.Meets.weaken (weaker_of_apart ih) rfl node hv⟩

/-- Reading objects of a conjunction together demands no more than reading them apart. -/
lemma Satisfies.jointly {node : Node} {v : Value} (h : doc.Satisfies basis formats node v) :
    doc.SatisfiesJointly basis formats node v := by
  obtain ⟨n, hv⟩ := h
  exact ⟨n, Node.Meets.weaken (weaker_of_apart TargetMeets.of_apart) rfl node hv⟩

end Resolved
end ApiSchema
