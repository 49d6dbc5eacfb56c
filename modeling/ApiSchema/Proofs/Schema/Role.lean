import ApiSchema.Proofs.Schema.Sources

/-!
# What raw values are read as

Documents are read part by part: a schema by its keywords, a path item by its methods, and so on. A
role says what a part is read as, and so which of its own parts are looked at. Main statement: where
the parts of one library have counterparts in another one, role by role, every schema that can be
read in the first one is read in the second one with the same result and the same demands.
-/

namespace ApiSchema

open List

/-! ### Roles -/

/-- What a raw value is read as. -/
inductive Role where
  | document
  | components
  /-- The mapping of component schemas. Its keys are read; the schemas are looked up by pointers. -/
  | table
  | schema
  /-- The schema of additional properties: an empty mapping is told from all others. -/
  | extra
  /-- A mapping of names to schemas. -/
  | properties
  /-- A list of schemas. -/
  | branches
  /-- Something that is used as it is. -/
  | data
  | paths
  | item
  | operation
  /-- A list of parameters. -/
  | parameters
  | parameter
  | body
  /-- A mapping of statuses to responses. -/
  | responses
  | response
  /-- A mapping of media types. -/
  | content
  | media
deriving DecidableEq

namespace Role

open Schema

variable {role : Role}

/-- Keywords of schemas whose values are used as they are. -/
def plainKeywords : List String :=
  ["$ref", "nullable", "type", "enum", "const", "required", "minProperties", "maxProperties",
    "minItems", "maxItems", "uniqueItems"] ++ stringKeywords ++ numberKeywords ++
    unsupportedKeywords

/-- The keys that a mapping is read by, each with the role of the value under it. -/
def fields : Role → List (String × Role)
  | document => [("components", .components), ("paths", .paths)]
  | components => [("schemas", .table)]
  | schema | extra =>
    [("properties", .properties), ("additionalProperties", .extra), ("items", .schema),
      ("allOf", .branches), ("anyOf", .branches), ("oneOf", .branches)] ++
      plainKeywords.map (·, .data)
  | item => [("$ref", .data), ("parameters", .parameters)] ++
      Route.methods.map fun method => (method.1, .operation)
  | operation => [("parameters", .parameters), ("requestBody", .body), ("responses", .responses)]
  | parameter => [("$ref", .data), ("name", .data), ("in", .data), ("required", .data),
      ("schema", .schema), ("content", .content)]
  | body | response => [("$ref", .data), ("content", .content)]
  | media => [("schema", .schema)]
  | _ => []

/-- The role of the values of a mapping that is read whole. -/
def member? : Role → Option Role
  | properties => some schema
  | paths => some item
  | responses => some response
  | content => some media
  | _ => none

/-- The role of the members of a list. -/
def element? : Role → Option Role
  | branches => some schema
  | parameters => some parameter
  | _ => none

/-- Parts of routes whose references are followed on the spot. -/
def followed : List Role :=
  [item, parameter, body, response]

/-- A schema, wherever it stands. -/
def IsSchema (role : Role) : Prop :=
  role = schema ∨ role = extra

lemma mem_fields_of_plain (h : role.IsSchema) {key : String} (hkey : key ∈ plainKeywords) :
    (key, data) ∈ role.fields := by
  obtain rfl | rfl := h
  all_goals exact mem_append_right _ (mem_map.2 ⟨key, hkey, rfl⟩)

lemma mem_fields_of_followed (h : role ∈ followed) : ("$ref", data) ∈ role.fields := by
  have hall : ∀ role ∈ followed, ("$ref", data) ∈ role.fields := by decide
  exact hall role h

end Role

namespace Value

/-- A value without its parts: of a sequence the length is left. -/
def shell : Value → Value
  | scalar s => scalar s
  | list xs => list (xs.map fun _ => .null)
  | tuple xs => tuple (xs.map fun _ => .null)
  | map _ => map []

section

variable {v v' : Value} (h : v'.shell = v.shell)

include h

lemma eq_scalar_iff_of_shell (s : Scalar) : v' = .scalar s ↔ v = .scalar s := by
  cases v <;> cases v' <;> simp_all [shell]

lemma eq_list_iff_of_shell : (∃ xs, v' = .list xs) ↔ ∃ xs, v = .list xs := by
  cases v <;> cases v' <;> simp_all [shell]

lemma eq_map_iff_of_shell : (∃ es, v' = .map es) ↔ ∃ es, v = .map es := by
  cases v <;> cases v' <;> simp_all [shell]

lemma isMap_of_shell : v'.isMap = v.isMap := by
  cases v <;> cases v' <;> simp_all [shell, isMap]

lemma isEmpty_of_shell (hmap : v.isMap = false) : v'.isEmpty = v.isEmpty := by
  cases v with
  | scalar s =>
    rw [(eq_scalar_iff_of_shell h s).2 rfl]
  | map es => cases hmap
  | list xs | tuple xs =>
    cases v' <;> simp only [shell, reduceCtorEq, list.injEq, tuple.injEq] at h
    have hlength := congrArg List.length h
    rw [length_map, length_map] at hlength
    rw [isEmpty, isEmpty, Bool.eq_iff_iff, isEmpty_iff_length_eq_zero,
      isEmpty_iff_length_eq_zero, hlength]

end

end Value

/-! ### Counterparts -/

namespace Library

/-- What stands at a fragment of a document. -/
def Holds (lib : Library) (uri fragment : String) (raw : Value) : Prop :=
  (lib.lookup "" uri fragment "").outcome = .ok raw

/-- Parts of one library have counterparts in another one: `R` relates them by their role and the
document they stand in. Only documents in `D` are looked at. -/
structure Simulates (lib lib' : Library) (D : String → Prop)
    (R : Role → String → Value → Value → Prop) : Prop where
  base : lib'.base = lib.base
  limit : lib.limit ≤ lib'.limit
  base_mem : D lib.base
  shell : ∀ {role : Role} {uri : String} {v v' : Value}, R role uri v v' → v'.shell = v.shell
  data : ∀ {uri : String} {v v' : Value}, R .data uri v v' → v' = v
  extra : ∀ {uri : String} {v v' : Value}, R .extra uri v v' → (v' = .map [] ↔ v = .map [])
  field : ∀ {role part : Role} {uri key : String} {v v' : Value}, R role uri v v' →
    (key, part) ∈ role.fields → Option.Rel (R part uri) (v.get? key) (v'.get? key)
  member : ∀ {role part : Role} {uri : String} {es es' : List (Scalar × Value)},
    R role uri (.map es) (.map es') → role.member? = some part →
      List.Forall₂ (fun e e' => e'.1 = e.1 ∧ R part uri e.2 e'.2) es es'
  element : ∀ {role part : Role} {uri : String} {xs xs' : List Value},
    R role uri (.list xs) (.list xs') → role.element? = some part →
      List.Forall₂ (R part uri) xs xs'
  paths : Option.Rel (R .paths lib.base) (lib.root.get? "paths") (lib'.root.get? "paths")
  /-- References between parts of routes. -/
  referent : ∀ {role : Role} {uri ref : String} {v v' raw : Value} {place : Location},
    role ∈ Role.followed → R role uri v v' → v.get? "$ref" = some (.str ref) →
      lib.locate ref uri "" = .ok place → D place.uri →
      lib.Holds place.uri place.fragment raw →
      ∃ raw', lib'.Holds place.uri place.fragment raw' ∧ R role place.uri raw raw'
  /-- References to schemas. -/
  target : ∀ {target uri : String} {raw : Value} {place : Location}, lib.Meets target uri →
    lib.locate target uri "" = .ok place → D place.uri → lib.Holds place.uri place.fragment raw →
      ∃ raw', lib'.Holds place.uri place.fragment raw' ∧ R .schema place.uri raw raw'

end Library

namespace Schema

open Traced

/-- If the first reading succeeds, looking at documents in `D` only, the second one has the same
demands, and its result is related to that of the first one. -/
def Carries {α β : Type} (D : String → Prop) (R : α → β → Prop) (x : Reading α) (y : Reading β) :
    Prop :=
  ∀ a, x.outcome = .ok a → (∀ uri, .document uri ∈ x.trace → D uri) →
    ∃ b, y = ⟨x.trace, .ok b⟩ ∧ R a b

section

variable {D : String → Prop} {α β γ δ : Type} {R : α → β → Prop} {S : γ → δ → Prop}

variable {a : α} {b : β} {y : Reading β} {x : Reading α} {f : α → Reading γ}

lemma carries_pure (h : R a b) : Carries D R (pure a) (pure b) := by
  intro a' ha' _
  cases ha'
  exact ⟨b, rfl, h⟩

lemma carries_throw {fault : Fault} : Carries D R (throw fault) y := by
  intro a ha
  cases ha

lemma carries_refl {R : α → α → Prop} (hR : ∀ a, R a a) (x : Reading α) : Carries D R x x := by
  intro a ha _
  obtain ⟨trace, outcome⟩ := x
  cases ha
  exact ⟨a, rfl, hR a⟩

lemma Carries.bind {g : β → Reading δ} (hxy : Carries D R x y)
    (hfg : ∀ a b, R a b → Carries D S (f a) (g b)) : Carries D S (x >>= f) (y >>= g) := by
  intro c hc hD
  obtain ⟨a, ha, hc⟩ := outcome_bind_eq_ok_iff.1 hc
  rw [trace_bind_of_ok ha] at hD ⊢
  obtain ⟨b, rfl, hab⟩ := hxy a ha fun uri huri => hD uri (mem_append_left _ huri)
  obtain ⟨d, hd, hcd⟩ := hfg a b hab c hc fun uri huri => hD uri (mem_append_right _ huri)
  refine ⟨d, ?_, hcd⟩
  rw [bind_ok, hd]

/-- Readings with the same result go on alike. -/
lemma Carries.then {y : Reading α} {g : α → Reading δ} (hxy : Carries D Eq x y)
    (hfg : ∀ a, Carries D S (f a) (g a)) : Carries D S (x >>= f) (y >>= g) := by
  refine hxy.bind fun a b hab => ?_
  subst hab
  exact hfg a

lemma carries_foldlM {f : α → γ → Reading α} {g : β → δ → Reading β} {cs : List γ} {ds : List δ}
    (hcs : Forall₂ S cs ds) (hfg : ∀ a b c d, R a b → S c d → Carries D R (f a c) (g b d))
    (hab : R a b) : Carries D R (cs.foldlM f a) (ds.foldlM g b) := by
  induction hcs generalizing a b with
  | nil => exact carries_pure hab
  | cons hcd _ ih =>
    rw [foldlM_cons, foldlM_cons]
    exact (hfg a b _ _ hab hcd).bind fun a' b' hab' => ih hab'

end

/-! ### Keywords -/

/-- Two schemas with the same plain keywords. -/
structure SameKeywords (raw raw' : Value) : Prop where
  get? : ∀ key ∈ Role.plainKeywords, raw'.get? key = raw.get? key
  has : ∀ key ∈ typedKeywords, raw'.has key = raw.has key

namespace SameKeywords

variable {raw raw' : Value} (h : SameKeywords raw raw') (pointer : String)

variable {key : String}

include h

lemma get (hkey : key ∈ Role.plainKeywords) : raw'.get key = raw.get key := by
  rw [Value.get, h.get? key hkey, Value.get]

lemma has_plain (hkey : key ∈ Role.plainKeywords) : raw'.has key = raw.has key := by
  rw [Value.has, h.get? key hkey, Value.has]

lemma given (hkey : key ∈ Role.plainKeywords) : Schema.given key raw' = Schema.given key raw := by
  rw [Schema.given, h.get? key hkey, Schema.given]

lemma hasAny {keywords : List String} (hkeys : ∀ key ∈ keywords, key ∈ typedKeywords) :
    Schema.hasAny keywords raw' = Schema.hasAny keywords raw := by
  unfold Schema.hasAny
  rw [Bool.eq_iff_iff, any_eq_true, any_eq_true]
  refine exists_congr fun key => and_congr_right fun hkey => ?_
  rw [h.has key (hkeys key hkey)]

lemma stringRules : readStringRules raw' = readStringRules raw := by
  rw [readStringRules, h.given (by decide), h.given (by decide), h.given (by decide),
    h.given (by decide), readStringRules]

lemma arrayRules : readArrayRules raw' = readArrayRules raw := by
  rw [readArrayRules, h.given (by decide), h.given (by decide), h.given (by decide),
    readArrayRules]

lemma countRules : readCountRules raw' = readCountRules raw := by
  rw [readCountRules, h.given (by decide), h.given (by decide), readCountRules]

lemma numberRules : readNumberRules raw' pointer = readNumberRules raw pointer := by
  have hbound {key : String} (hkey : key ∈ Role.plainKeywords) :
      readBound raw' pointer key = readBound raw pointer key := by
    rw [readBound, h.given hkey, readBound]
  have hexclusive {key : String} (hkey : key ∈ Role.plainKeywords) (inclusive : Option Number) :
      readExclusive raw' pointer key inclusive = readExclusive raw pointer key inclusive := by
    rw [readExclusive, h.given hkey, readExclusive]
  unfold readNumberRules
  simp only [hbound (show "minimum" ∈ Role.plainKeywords by decide),
    hbound (show "maximum" ∈ Role.plainKeywords by decide),
    hbound (show "multipleOf" ∈ Role.plainKeywords by decide),
    hexclusive (show "exclusiveMinimum" ∈ Role.plainKeywords by decide),
    hexclusive (show "exclusiveMaximum" ∈ Role.plainKeywords by decide)]

lemma listed : readListed raw' pointer = readListed raw pointer := by
  unfold readListed
  rw [h.get? "const" (by decide), h.get (show "enum" ∈ Role.plainKeywords by decide),
    h.get (show "type" ∈ Role.plainKeywords by decide)]

lemma unsupported : findUnsupported raw' = findUnsupported raw := by
  have hkeys : ∀ key ∈ unsupportedKeywords, key ∈ Role.plainKeywords := by decide
  exact List.find?_congr fun key hkey => h.has_plain (hkeys key hkey)

lemma types : declaredTypes raw' = declaredTypes raw := by
  rw [declaredTypes, h.get (by decide), declaredTypes]

end SameKeywords

/-! ### One layer -/

section

variable {lib lib' : Library} {D : String → Prop} {R : Role → String → Value → Value → Prop}
  (hlib : lib.Simulates lib' D R) {role : Role} {uri : String} {raw raw' : Value}

variable {key : String} {part : Role}

include hlib

lemma get?_of_simulates (h : R role uri raw raw') (hkey : (key, .data) ∈ role.fields) :
    raw'.get? key = raw.get? key := by
  have hrel := hlib.field h hkey
  generalize raw.get? key = found at hrel ⊢
  generalize raw'.get? key = found' at hrel ⊢
  cases hrel with
  | none => rfl
  | some hdata => rw [hlib.data hdata]

lemma has_of_simulates (h : R role uri raw raw') (hkey : (key, part) ∈ role.fields) :
    raw'.has key = raw.has key := by
  have hrel := hlib.field h hkey
  rw [Value.has, Value.has]
  generalize raw.get? key = found at hrel ⊢
  generalize raw'.get? key = found' at hrel ⊢
  cases hrel <;> rfl

/-- The value under a key is absent from both, or both have one. -/
lemma get_of_simulates (h : R role uri raw raw') (hkey : (key, part) ∈ role.fields) :
    (raw.get key = .null ∧ raw'.get key = .null) ∨
      R part uri (raw.get key) (raw'.get key) ∧ (raw'.get key).Inside raw' := by
  have hrel := hlib.field h hkey
  rw [Value.get, Value.get]
  cases hfound : raw.get? key with
  | none =>
    rw [hfound] at hrel
    generalize raw'.get? key = found' at hrel ⊢
    cases hrel
    exact .inl ⟨rfl, rfl⟩
  | some c =>
    cases hfound' : raw'.get? key with
    | none =>
      rw [hfound, hfound'] at hrel
      cases hrel
    | some c' =>
      rw [hfound, hfound'] at hrel
      cases hrel with
      | some hc => exact .inr ⟨hc, Value.inside_of_mem_parts (Value.mem_parts_of_get? hfound')⟩

lemma sameKeywords_of_simulates (hrole : role.IsSchema) (h : R role uri raw raw') :
    SameKeywords raw raw' := by
  refine ⟨fun key hkey => get?_of_simulates hlib h (Role.mem_fields_of_plain hrole hkey), ?_⟩
  have hfields : ∀ key ∈ typedKeywords, key ∈ Role.schema.fields.map (·.1) := by decide
  intro key hkey
  obtain ⟨⟨_, part⟩, hpart, rfl⟩ := mem_map.1 (hfields key hkey)
  obtain rfl | rfl := hrole
  all_goals exact has_of_simulates hlib h hpart

/-- What is read from the entries of a mapping, where a value that is empty counts as an empty
mapping. -/
lemma carries_entries {α β : Type} {S : α → β → Prop} (h : R role uri raw raw')
    (hpart : role.member? = some part) {f : List (Scalar × Value) → Reading α}
    {g : List (Scalar × Value) → Reading β} {x : Reading α} {y : Reading β}
    (hfg : ∀ es es', Forall₂ (fun e e' => e'.1 = e.1 ∧ R part uri e.2 e'.2) es es' →
      (∀ c ∈ es'.map (·.2), c ∈ raw'.parts) → Carries D S (f es) (g es')) (hx : Carries D S x y) :
    Carries D S
      (match raw with
        | .map es => f es
        | v => if v.isEmpty then f [] else x)
      (match raw' with
        | .map es => g es
        | v => if v.isEmpty then g [] else y) := by
  have hshell := hlib.shell h
  cases raw with
  | map es =>
    obtain ⟨es', rfl⟩ := (Value.eq_map_iff_of_shell hshell).2 ⟨es, rfl⟩
    exact hfg es es' (hlib.member h hpart) fun c hc => hc
  | scalar _ | list _ | tuple _ =>
    have hempty := Value.isEmpty_of_shell hshell rfl
    have hmap := Value.isMap_of_shell hshell
    cases raw' with
    | map es' => cases hmap
    | scalar _ | list _ | tuple _ =>
      dsimp only
      rw [hempty]
      split
      · exact hfg [] [] .nil nofun
      · exact hx

variable {inner inner' : Value → String → Reading Node}
  (hinner : ∀ {part : Role} {c c' : Value}, part.IsSchema → R part uri c c' → c'.Inside raw' →
    ∀ place, Carries D Eq (inner c place) (inner' c' place))

include hinner

omit hlib in
lemma carries_readBranches (place : String) (i : Nat) {members members' : List Value}
    (h : Forall₂ (R .schema uri) members members') (hinside : ∀ c ∈ members', c.Inside raw') :
    Carries D Eq (readBranches inner place i members) (readBranches inner' place i members') := by
  induction h generalizing i with
  | nil => exact carries_pure rfl
  | cons hmember _ ih =>
    refine (hinner (.inl rfl) hmember (hinside _ mem_cons_self) _).then fun node => ?_
    refine (ih (i + 1) fun c hc => hinside c (mem_cons_of_mem _ hc)).then fun nodes => ?_
    exact carries_pure rfl

omit hlib in
lemma carries_readProperties (place : String) {es es' : List (Scalar × Value)}
    (h : Forall₂ (fun e e' => e'.1 = e.1 ∧ R .schema uri e.2 e'.2) es es')
    (hinside : ∀ c ∈ es'.map (·.2), c.Inside raw') :
    Carries D Eq (readProperties inner place es) (readProperties inner' place es') := by
  induction h with
  | nil => exact carries_pure rfl
  | @cons e e' es es' he _ ih =>
    obtain ⟨hkey, hschema⟩ := he
    rw [readProperties, readProperties, hkey]
    refine (hinner (.inl rfl) hschema (hinside _ mem_cons_self) _).then fun node => ?_
    refine (ih fun c hc => hinside c (mem_cons_of_mem _ hc)).then fun nodes => ?_
    exact carries_pure rfl

variable (hrole : role.IsSchema) (h : R role uri raw raw') (pointer : String)

include hrole h

lemma carries_readAdditional :
    Carries D Eq (readAdditional inner raw pointer) (readAdditional inner' raw' pointer) := by
  have hfield : ("additionalProperties", Role.extra) ∈ role.fields := by
    obtain rfl | rfl := hrole <;> decide
  unfold readAdditional
  obtain ⟨hnull, hnull'⟩ | ⟨hextra, hinside⟩ := get_of_simulates hlib h hfield
  · rw [hnull, hnull']
    exact carries_pure rfl
  · have hscalar := Value.eq_scalar_iff_of_shell (hlib.shell hextra)
    have hempty := hlib.extra hextra
    generalize raw.get "additionalProperties" = v at *
    generalize raw'.get "additionalProperties" = v' at *
    split
    next =>
      rw [(hscalar _).2 rfl]
      exact carries_pure rfl
    next =>
      rw [(hscalar _).2 rfl]
      exact carries_pure rfl
    next =>
      rw [hempty.2 rfl]
      exact carries_pure rfl
    next hnull hbool hmap =>
      split
      next => exact (hnull ((hscalar _).1 rfl)).elim
      next b => exact (hbool b ((hscalar _).1 rfl)).elim
      next => exact (hmap (hempty.1 rfl)).elim
      next =>
        exact (hinner (.inr rfl) hextra hinside _).then fun node => carries_pure rfl

lemma carries_readObject :
    Carries D Eq (readObject inner raw pointer) (readObject inner' raw' pointer) := by
  have hsame := sameKeywords_of_simulates hlib hrole h
  have hfield : ("properties", Role.properties) ∈ role.fields := by
    obtain rfl | rfl := hrole <;> decide
  unfold readObject
  rw [hsame.get (show "required" ∈ Role.plainKeywords by decide), hsame.countRules]
  extract_lets properties next properties' next'
  have hnext (es es' : List (Scalar × Value))
      (hes : Forall₂ (fun e e' => e'.1 = e.1 ∧ R .schema uri e.2 e'.2) es es')
      (hinside : ∀ c ∈ es'.map (·.2), c.Inside raw') : Carries D Eq (next es) (next' es') := by
    unfold next next'
    extract_lets next next'
    have hnext (required : List Value) : Carries D Eq (next required) (next' required) := by
      refine (carries_readProperties hinner _ hes hinside).then fun declared => ?_
      refine (carries_readAdditional hlib hinner hrole h pointer).then fun additional => ?_
      exact carries_pure rfl
    split
    · exact hnext _
    · split
      · exact hnext _
      · exact carries_throw
  obtain ⟨hnull, hnull'⟩ | ⟨hproperties, hinside⟩ := get_of_simulates hlib h hfield
  · have hproperties : properties = .null := hnull
    have hproperties' : properties' = .null := hnull'
    rw [hproperties, hproperties']
    exact hnext [] [] .nil nofun
  · refine carries_entries hlib hproperties rfl (fun es es' hes hparts => ?_) carries_throw
    exact hnext es es' hes fun c hc => .of_mem_parts (hparts c hc) hinside

lemma carries_readArray :
    Carries D Eq (readArray inner raw pointer) (readArray inner' raw' pointer) := by
  have hsame := sameKeywords_of_simulates hlib hrole h
  have hfield : ("items", Role.schema) ∈ role.fields := by
    obtain rfl | rfl := hrole <;> decide
  unfold readArray
  rw [hsame.arrayRules]
  extract_lets next
  have hnext (items : Option Node) : Carries D Eq (next items) (next items) := carries_pure rfl
  obtain ⟨hnull, hnull'⟩ | ⟨hitems, hinside⟩ := get_of_simulates hlib h hfield
  · rw [hnull, hnull']
    exact hnext none
  · have hshell := hlib.shell hitems
    generalize raw.get "items" = v at *
    generalize raw'.get "items" = v' at *
    split
    next =>
      rw [(Value.eq_scalar_iff_of_shell hshell _).2 rfl]
      exact hnext none
    next => exact carries_throw
    next hnull hlist =>
      split
      next => exact (hnull ((Value.eq_scalar_iff_of_shell hshell _).1 rfl)).elim
      next xs =>
        obtain ⟨xs', hxs'⟩ := (Value.eq_list_iff_of_shell hshell).1 ⟨xs, rfl⟩
        exact (hlist xs' hxs').elim
      next => exact (hinner (.inl rfl) hitems hinside _).then fun node => hnext (some node)

lemma carries_readTyped (type : Value) :
    Carries D Eq (readTyped inner raw type pointer) (readTyped inner' raw' type pointer) := by
  have hsame := sameKeywords_of_simulates hlib hrole h
  unfold readTyped
  rw [hsame.stringRules, hsame.numberRules]
  split
  · exact carries_throw
  split_ifs
  · exact carries_pure rfl
  · exact carries_refl (fun _ => rfl) _
  · exact carries_pure rfl
  · exact carries_pure rfl
  · exact carries_readArray hlib hinner hrole h pointer
  · exact carries_readObject hlib hinner hrole h pointer

lemma carries_readEveryType {types : List (String × List String)}
    (htypes : ∀ type ∈ types, ∀ key ∈ type.2, key ∈ typedKeywords) :
    Carries D Eq (readEveryType inner raw pointer types)
      (readEveryType inner' raw' pointer types) := by
  have hsame := sameKeywords_of_simulates hlib hrole h
  induction types with
  | nil => exact carries_pure rfl
  | cons type rest ih =>
    unfold readEveryType
    rw [hsame.hasAny (htypes type mem_cons_self)]
    extract_lets next next'
    have hnext (node : Node) : Carries D Eq (next node) (next' node) := by
      refine (ih fun type ht => htypes type (mem_cons_of_mem _ ht)).then fun nodes => ?_
      exact carries_pure rfl
    split
    · exact (carries_readTyped hlib hinner hrole h pointer _).then hnext
    · exact hnext _

lemma carries_readUntyped :
    Carries D Eq (readUntyped inner raw pointer) (readUntyped inner' raw' pointer) := by
  have hsame := sameKeywords_of_simulates hlib hrole h
  unfold readUntyped
  rw [hsame.hasAny (by decide), hsame.hasAny (by decide)]
  split_ifs
  · refine (carries_readEveryType hlib hinner hrole h pointer (by decide)).then fun _ => ?_
    exact carries_pure rfl
  · exact carries_readTyped hlib hinner hrole h pointer _
  · exact carries_readTyped hlib hinner hrole h pointer _

lemma carries_readTypes (types : List Value) :
    Carries D Eq (readTypes inner raw pointer types) (readTypes inner' raw' pointer types) := by
  induction types with
  | nil => exact carries_pure rfl
  | cons type rest ih =>
    refine (carries_readTyped hlib hinner hrole h pointer type).then fun node => ?_
    exact ih.then fun nodes => carries_pure rfl

lemma carries_readShape (types : List Value) :
    Carries D Eq (readShape inner raw types pointer) (readShape inner' raw' types pointer) := by
  unfold readShape
  split
  · exact carries_readUntyped hlib hinner hrole h pointer
  · exact carries_readTyped hlib hinner hrole h pointer _
  · exact (carries_readTypes hlib hinner hrole h pointer _).then fun _ => carries_pure rfl

lemma carries_readBase (types : List Value) :
    Carries D Eq (readBase inner raw types pointer) (readBase inner' raw' types pointer) := by
  have hsame := sameKeywords_of_simulates hlib hrole h
  have hshape := carries_readShape hlib hinner hrole h pointer types
  unfold readBase
  rw [hsame.has_plain (show "enum" ∈ Role.plainKeywords by decide),
    hsame.has_plain (show "const" ∈ Role.plainKeywords by decide), hsame.listed,
    hsame.hasAny fun _ => id]
  split
  · refine (carries_refl (fun _ => rfl) _).then fun values => ?_
    split
    · exact hshape.then fun shape => carries_pure rfl
    · exact carries_pure rfl
  · exact hshape

omit hrole in
lemma carries_readCombination {keyword : String} (hkeyword : (keyword, Role.branches) ∈ role.fields)
    (make : Site → List Node → Node) :
    Carries D Eq (readCombination inner raw pointer keyword make)
      (readCombination inner' raw' pointer keyword make) := by
  have hrel := hlib.field h hkeyword
  unfold readCombination
  cases hfound : raw.get? keyword with
  | none =>
    rw [hfound] at hrel
    generalize raw'.get? keyword = found' at hrel ⊢
    cases hrel
    exact carries_pure rfl
  | some v =>
    cases hfound' : raw'.get? keyword with
    | none =>
      rw [hfound, hfound'] at hrel
      cases hrel
    | some v' =>
      rw [hfound, hfound'] at hrel
      cases hrel with
      | some hv =>
        split
        next hnone => cases hnone
        next m ms hlist =>
          cases hlist
          obtain ⟨xs', rfl⟩ := (Value.eq_list_iff_of_shell (hlib.shell hv)).2 ⟨_, rfl⟩
          have hbranches := hlib.element hv rfl
          have hinside : ∀ c ∈ xs', c.Inside raw' := fun c hc =>
            .of_mem_parts (y := .list xs') hc (.single (Value.mem_parts_of_get? hfound'))
          cases hbranches with
          | cons hm hms =>
            refine (carries_readBranches hinner _ _ (.cons hm hms) hinside).then fun branches => ?_
            exact carries_pure rfl
        next => exact carries_throw

lemma carries_readMapping :
    Carries D Eq (readMapping inner raw pointer) (readMapping inner' raw' pointer) := by
  have hsame := sameKeywords_of_simulates hlib hrole h
  have hfield {keyword : String} (hkeyword : keyword ∈ ["allOf", "anyOf", "oneOf"]) :
      (keyword, Role.branches) ∈ role.fields := by
    have hall : ∀ keyword ∈ ["allOf", "anyOf", "oneOf"],
        (keyword, Role.branches) ∈ Role.schema.fields := by decide
    obtain rfl | rfl := hrole
    all_goals exact hall keyword hkeyword
  have hcombination {keyword : String} (hkeyword : keyword ∈ ["allOf", "anyOf", "oneOf"]) :=
    carries_readCombination hlib hinner h pointer (hfield hkeyword)
  unfold readMapping
  rw [hsame.unsupported, hsame.types, hsame.get (show "nullable" ∈ Role.plainKeywords by decide),
    hsame.get (show "type" ∈ Role.plainKeywords by decide),
    hsame.has_plain (show "enum" ∈ Role.plainKeywords by decide),
    hsame.has_plain (show "const" ∈ Role.plainKeywords by decide), hsame.hasAny fun _ => id]
  extract_lets next next'
  have hnext (_ : Unit) : Carries D Eq (next ()) (next' ()) := by
    unfold next next'
    split
    extract_lets nullable onlyNull hasBase next next'
    have hnext (base : List Node) : Carries D Eq (next base) (next' base) := by
      refine (hcombination (by simp) _).then fun allOf => ?_
      refine (hcombination (by simp) _).then fun anyOf => ?_
      refine (hcombination (by simp) _).then fun oneOf => ?_
      exact carries_refl (fun _ => rfl) _
    split
    · exact (carries_readBase hlib hinner hrole h pointer _).then fun node => hnext [node]
    · exact hnext []
  split
  · exact carries_throw
  · exact hnext ()

end

/-! ### All layers -/

lemma locate_of_base {lib lib' : Library} (hbase : lib'.base = lib.base) :
    lib'.locate = lib.locate := by
  funext ref doc referrer
  unfold Library.locate
  rw [hbase]

-- An empty mapping is read like any other one.
lemma readLayer_map (lib : Library) (doc : String) (inner : Value → String → Reading Node)
    (es : List (Scalar × Value)) (pointer : String) :
    readLayer lib doc inner (.map es) pointer =
      match (Value.map es).get? "$ref" with
      | some ref => readReference lib doc (.map es) ref pointer
      | none => readMapping inner (.map es) pointer := by
  cases es <;> rfl

section

variable {lib lib' : Library} {D : String → Prop} {R : Role → String → Value → Value → Prop}
  (hlib : lib.Simulates lib' D R)

variable {role : Role} {uri : String} {raw raw' : Value}

include hlib

lemma carries_readLayer (hrole : role.IsSchema) (h : R role uri raw raw')
    {inner inner' : Value → String → Reading Node}
    (hinner : ∀ {part : Role} {c c' : Value}, part.IsSchema → R part uri c c' → c'.Inside raw' →
      ∀ place, Carries D Eq (inner c place) (inner' c' place)) (pointer : String) :
    Carries D Eq (readLayer lib uri inner raw pointer) (readLayer lib' uri inner' raw' pointer) := by
  have hshell := hlib.shell h
  cases raw with
  | map es =>
    obtain ⟨es', rfl⟩ := (Value.eq_map_iff_of_shell hshell).2 ⟨es, rfl⟩
    have hsame := sameKeywords_of_simulates hlib hrole h
    rw [readLayer_map, readLayer_map, hsame.get? "$ref" (by decide)]
    split
    · unfold readReference
      rw [locate_of_base hlib.base, hsame.get (by decide)]
      exact carries_refl (fun _ => rfl) _
    · exact carries_readMapping hlib hinner hrole h pointer
  | scalar s =>
    rw [(Value.eq_scalar_iff_of_shell hshell s).2 rfl]
    unfold readLayer
    exact carries_refl (fun _ => rfl) _
  | list _ | tuple _ => exact carries_throw

lemma carries_readWithin (hrole : role.IsSchema) (h : R role uri raw raw') (n : Nat) {n' : Nat}
    (hn' : raw'.depth < n') (pointer : String) :
    Carries D Eq (readWithin lib uri n raw pointer) (readWithin lib' uri n' raw' pointer) := by
  induction n generalizing role raw raw' n' pointer with
  | zero => exact carries_throw
  | succ n ih =>
    obtain ⟨n', rfl⟩ : ∃ k, n' = k + 1 := ⟨n' - 1, by omega⟩
    refine carries_readLayer hlib hrole h (fun hpart hc hinside place => ?_) pointer
    have hdepth := hinside.depth_lt
    exact ih hpart hc (by omega) place

/-- A schema is read like its counterpart. -/
theorem carries_read (h : R .schema uri raw raw') (pointer : String) :
    Carries D Eq (read lib uri raw pointer) (read lib' uri raw' pointer) :=
  carries_readWithin hlib (.inl rfl) h _ raw'.depth.lt_succ_self pointer

/-! ### Targets -/

omit hlib in
lemma trace_lookup (lib : Library) (ref uri fragment referrer : String) :
    (lib.lookup ref uri fragment referrer).trace =
      if uri = lib.base then [] else [.document uri] := by
  have hsilent {α β : Type} {x : Reading α} {f : α → Reading β} (hf : ∀ a, (f a).trace = []) :
      (x >>= f).trace = x.trace := by
    obtain ⟨trace, outcome⟩ := x
    cases outcome with
    | error fault => rfl
    | ok a => rw [bind_ok, hf, append_nil]
  unfold Library.lookup
  rw [hsilent fun doc => by split <;> [rfl; (split <;> rfl)]]
  unfold Library.document
  split
  · rfl
  · rw [hsilent fun _ => by split <;> rfl]
    rfl

lemma carries_lookup {S : Value → Value → Prop} {fragment : String}
    (h : ∀ raw, D uri → lib.Holds uri fragment raw →
      ∃ raw', lib'.Holds uri fragment raw' ∧ S raw raw') (ref referrer : String) :
    Carries D S (lib.lookup ref uri fragment referrer) (lib'.lookup ref uri fragment referrer) := by
  intro raw hraw hD
  have huri : D uri := by
    by_cases hbase : uri = lib.base
    · rw [hbase]
      exact hlib.base_mem
    · refine hD uri ?_
      rw [trace_lookup, if_neg hbase]
      exact mem_singleton.2 rfl
  obtain ⟨raw', hraw', hS⟩ := h raw huri (lookup_referrer hraw "" "")
  refine ⟨raw', ?_, hS⟩
  have htrace : (lib'.lookup ref uri fragment referrer).trace =
      (lib.lookup ref uri fragment referrer).trace := by
    rw [trace_lookup, trace_lookup, hlib.base]
  rw [← htrace, ← lookup_referrer hraw' ref referrer]

/-- The schema of a target is read alike in both libraries. -/
theorem carries_readAt {target : String} (hmeets : lib.Meets target uri) :
    Carries D Eq (readAt lib target uri) (readAt lib' target uri) := by
  unfold readAt
  rw [locate_of_base hlib.base]
  cases hplace : lib.locate target uri "" with
  | error fault => exact carries_throw
  | ok place =>
    show Carries D Eq (pure place >>= _) (pure place >>= _)
    rw [pure_bind, pure_bind]
    refine (carries_lookup hlib (fun raw hD => hlib.target hmeets hplace hD) _ _).bind
      fun raw raw' hraw => ?_
    exact carries_read hlib hraw target

end

end Schema

end ApiSchema
