import TypedClient.Proofs.Schema.References
import TypedClient.Schema.Resolve

namespace TypedClient

section Resolve

variable {remaining : Schemas} {key last : String} {schema : Value}

theorem resolveIn_absent (absent : remaining.find? key = none) :
    resolveIn remaining key = .ok none := by
  unfold resolveIn
  split
  · rfl
  · simp_all

theorem resolveIn_own (found : remaining.find? key = some schema) (own : schema.ref? = none) :
    resolveIn remaining key = .ok (some (key, schema)) := by
  unfold resolveIn
  split <;> simp_all

theorem resolveIn_alias {target : Value} (found : remaining.find? key = some schema)
    (held : schema.ref? = some target) :
    resolveIn remaining key =
      target.toText >>= fun next => resolveIn (remaining.without key) (schemaKey next) := by
  rw [resolveIn]
  split
  · simp_all
  · rename_i other same
    obtain rfl : schema = other := by simpa [found] using same
    rw [held]
    dsimp only
    cases target.toText with
    | error failure => rfl
    | ok next => rfl

theorem ends_of_resolveIn (led : resolveIn remaining key = .ok (some (last, schema))) :
    (last, schema) ∈ remaining ∧ schema.ref? = none := by
  induction remaining, key using resolveIn.induct with
  | case1 remaining key absent =>
      simp [resolveIn_absent absent] at led
  | case2 remaining key other found target held next read ih =>
      rw [resolveIn_alias found held, read] at led
      obtain ⟨member, own⟩ := ih led
      exact ⟨List.mem_of_mem_filter member, own⟩
  | case3 remaining key other found target held failure read =>
      rw [resolveIn_alias found held, read] at led
      cases led
  | case4 remaining key other found own =>
      rw [resolveIn_own found own] at led
      cases led
      exact ⟨Schemas.mem_of_find found, own⟩

/-- A chain of aliases ends at a schema of the collection that is no alias. -/
theorem ends_of_resolve {schemas : Schemas} {ref : String}
    (led : resolve schemas ref = .ok (some (last, schema))) :
    (last, schema) ∈ schemas ∧ schema.ref? = none :=
  ends_of_resolveIn led

theorem isModel_of_single {schemas : Schemas} {entries : Entries}
    (named : isModelName (SchemaName.parse [] key).fileName = true)
    (single : Entries.find? entries "allOf" = none) :
    isModel schemas key (.object entries) = .ok (Entries.field entries "properties").isTrue := by
  have flat : flatten schemas (.object entries) = .ok (.object entries) := by
    rw [flatten, flattenIn]
    split
    · rename_i parts found
      cases single.symm.trans found
    · rfl
  rw [isModel, if_pos named, flat]
  rfl

end Resolve

structure OpenFor (Edge : String → String → Prop) (schemas remaining : Schemas) (key : String) :
    Prop where
  part : ∀ {other schema}, remaining.find? other = some schema → schemas.find? other = some schema
  behind : ∀ {other}, (schemas.find? other).isSome = true → remaining.find? other = none →
    Relation.TransGen Edge other key

namespace OpenFor

variable {Edge : String → String → Prop} {schemas remaining : Schemas} {key child : String}

theorem start (Edge : String → String → Prop) (schemas : Schemas) (key : String) :
    OpenFor Edge schemas schemas key := by
  constructor
  · exact id
  · intro other present absent
    simp [absent] at present

theorem step (branch : OpenFor Edge schemas remaining key) (edge : Edge key child) :
    OpenFor Edge schemas (remaining.without key) child := by
  constructor
  · intro other schema found
    rw [Schemas.find_without] at found
    split at found
    · cases found
    · exact branch.part found
  · intro other present absent
    rw [Schemas.find_without] at absent
    split at absent
    · rename_i same
      subst same
      exact .single edge
    · exact (branch.behind present absent).tail edge

end OpenFor

/-- The schema under a key is an alias of another key. -/
def AliasOf (schemas : Schemas) (key next : String) : Prop :=
  ∃ schema ref, schemas.find? key = some schema ∧ schema.ref? = some (.text ref) ∧
    schemaKey ref = next

/-- Following aliases leads from one key to another. -/
abbrev AliasChain (schemas : Schemas) : String → String → Prop :=
  Relation.ReflTransGen (AliasOf schemas)

/-- What stands at a key that a chain of aliases does not go beyond: a schema that is no alias,
nothing, or an alias of what is no text. -/
inductive Stops (schemas : Schemas) (key : String) : Except Error (Option (String × Value)) → Prop
  | schema {schema} (found : schemas.find? key = some schema) (own : schema.ref? = none) :
      Stops schemas key (.ok (some (key, schema)))
  | absent (absent : schemas.find? key = none) : Stops schemas key (.ok none)
  | broken {schema value} (found : schemas.find? key = some schema)
      (held : schema.ref? = some value) (strange : ∀ ref, value ≠ .text ref) :
      Stops schemas key (.error .notAText)

inductive ChainEnds (schemas : Schemas) (start : String) :
    Except Error (Option (String × Value)) → Prop
  | stops {key result} (chain : AliasChain schemas start key) (stops : Stops schemas key result) :
      ChainEnds schemas start result
  | repeats {key} (chain : AliasChain schemas start key)
      (cycle : Relation.TransGen (AliasOf schemas) key key) : ChainEnds schemas start (.ok none)

section Chain

variable {schemas remaining : Schemas} {start key next : String}
  {result other : Except Error (Option (String × Value))}

theorem AliasOf.rightUnique (schemas : Schemas) : Relator.RightUnique (AliasOf schemas) := by
  rintro key next other ⟨schema, ref, found, held, rfl⟩ ⟨schema', ref', found', held', rfl⟩
  cases found.symm.trans found'
  cases held.symm.trans held'
  rfl

namespace Stops

theorem not_aliasOf (stops : Stops schemas key result) : ¬ AliasOf schemas key next := by
  rintro ⟨schema, ref, found, held, -⟩
  cases stops with
  | schema found' own =>
      cases found.symm.trans found'
      cases own.symm.trans held
  | absent absent => cases absent.symm.trans found
  | broken found' held' strange =>
      cases found.symm.trans found'
      cases held.symm.trans held'
      exact strange ref rfl

theorem unique (stops : Stops schemas key result) (stops' : Stops schemas key other) :
    result = other := by
  cases stops with
  | schema found own =>
      cases stops' with
      | schema found' => rw [Option.some.inj (found.symm.trans found')]
      | absent absent => cases found.symm.trans absent
      | broken found' held =>
          cases found.symm.trans found'
          cases own.symm.trans held
  | absent absent =>
      cases stops' with
      | schema found => cases absent.symm.trans found
      | absent => rfl
      | broken found => cases absent.symm.trans found
  | broken found held =>
      cases stops' with
      | schema found' own =>
          cases found.symm.trans found'
          cases own.symm.trans held
      | absent absent => cases found.symm.trans absent
      | broken => rfl

theorem eq_of_chain (stops : Stops schemas key result) (chain : AliasChain schemas key next) :
    next = key := by
  rcases Relation.ReflTransGen.cases_head chain with same | ⟨between, edge, -⟩
  · exact same.symm
  · exact absurd edge stops.not_aliasOf

/-- Every key of a chain that stops leads to where it stops. -/
theorem chain_of_chain (stops : Stops schemas key result) (chain : AliasChain schemas start key)
    (chain' : AliasChain schemas start next) : AliasChain schemas next key := by
  rcases Relation.ReflTransGen.total_of_right_unique (AliasOf.rightUnique schemas) chain chain'
    with onwards | back
  · rw [stops.eq_of_chain onwards]
  · exact back

theorem not_cycle (stops : Stops schemas key result) (chain : AliasChain schemas start key) :
    ¬ Relation.TransGen (AliasOf schemas) start start := by
  induction chain using Relation.ReflTransGen.head_induction_on with
  | refl =>
      intro cycle
      obtain ⟨after, edge, -⟩ := Relation.TransGen.head'_iff.mp cycle
      exact stops.not_aliasOf edge
  | head edge _ ih =>
      intro cycle
      obtain ⟨after, edge', around⟩ := Relation.TransGen.head'_iff.mp cycle
      cases AliasOf.rightUnique schemas edge edge'
      exact ih (Relation.TransGen.tail' around edge)

end Stops

theorem ChainEnds.unique (ends : ChainEnds schemas start result)
    (ends' : ChainEnds schemas start other) : result = other := by
  cases ends with
  | stops chain stops =>
      cases ends' with
      | stops chain' stops' =>
          have same := stops.eq_of_chain (stops'.chain_of_chain chain' chain)
          subst same
          exact stops.unique stops'
      | repeats chain' cycle =>
          exact absurd cycle (stops.not_cycle (stops.chain_of_chain chain chain'))
  | repeats chain cycle =>
      cases ends' with
      | stops chain' stops =>
          exact absurd cycle (stops.not_cycle (stops.chain_of_chain chain' chain))
      | repeats => rfl

theorem ChainEnds.head (edge : AliasOf schemas key next) (ends : ChainEnds schemas next result) :
    ChainEnds schemas key result := by
  cases ends with
  | stops chain stops => exact .stops (chain.head edge) stops
  | repeats chain cycle => exact .repeats (chain.head edge) cycle

theorem toText_eq_error {value : Value} {failure : Error} (read : value.toText = .error failure) :
    failure = .notAText ∧ ∀ ref, value ≠ .text ref := by
  unfold Value.toText at read
  split at read
  · cases read
  · rename_i strange
    cases read
    exact ⟨rfl, strange⟩

theorem chainEnds_resolveIn (branch : OpenFor (AliasOf schemas) schemas remaining key) :
    ChainEnds schemas key (resolveIn remaining key) := by
  induction remaining, key using resolveIn.induct with
  | case1 remaining key absent =>
      rw [resolveIn_absent absent]
      cases found : schemas.find? key with
      | none => exact .stops .refl (.absent found)
      | some schema => exact .repeats .refl (branch.behind (by simp [found]) absent)
  | case2 remaining key schema found target held next read ih =>
      have named := toText_eq_ok read
      subst named
      have edge : AliasOf schemas key (schemaKey next) :=
        ⟨schema, next, branch.part found, held, rfl⟩
      rw [resolveIn_alias found held, read]
      exact .head edge (ih (branch.step edge))
  | case3 remaining key schema found target held failure read =>
      obtain ⟨rfl, strange⟩ := toText_eq_error read
      rw [resolveIn_alias found held, read]
      exact .stops .refl (.broken (branch.part found) held strange)
  | case4 remaining key schema found own =>
      rw [resolveIn_own found own]
      exact .stops .refl (.schema (branch.part found) own)

/-- Following a reference comes to what the chain of aliases from its key comes to. -/
theorem resolve_eq_iff {ref : String} :
    resolve schemas ref = result ↔ ChainEnds schemas (schemaKey ref) result := by
  have ends : ChainEnds schemas (schemaKey ref) (resolve schemas ref) :=
    chainEnds_resolveIn (.start _ _ _)
  constructor
  · rintro rfl
    exact ends
  · exact ends.unique

end Chain

section Typing

variable {schemas remaining : Schemas} {key ref : String} {schema : Value}

/-- The names that a key decodes to as it stands. -/
def SchemaName.ofKey (key : String) : SchemaName :=
  let typeName := (TypeNode.parse key).render (fun name => (TypeMapping.find? [] name).getD name)
    false
  ⟨typeName, fileNameOf typeName⟩

/-- Whether the name of a key stands for a primitive type. -/
def isPrimitiveKey (key : String) : Bool :=
  let primitive := (TypeMapping.find? [] (SchemaName.ofKey key).typeName).getD "any"
  isBaseType primitive && primitive != "any"

theorem isPrimitiveRef_eq (schemas : Schemas) (ref : String) :
    isPrimitiveRef ⟨[], schemas⟩ ref = isPrimitiveKey (schemaKey ref) := rfl

theorem typeOfRef_of_resolveIn
    (branch : OpenFor (AliasOf schemas) schemas remaining (schemaKey ref))
    (led : resolveIn remaining (schemaKey ref) = .ok (some (key, schema)))
    (judged : isModel schemas key schema = .ok true)
    (named : ∀ link, AliasChain schemas (schemaKey ref) link → isPrimitiveKey link = false) :
    ∃ last, schemaKey last = key ∧
      typeOfRef ⟨[], schemas⟩ remaining ref = .ok (.named ⟨[], schemas⟩ last) := by
  have other : isPrimitiveRef ⟨[], schemas⟩ ref = false :=
    (isPrimitiveRef_eq schemas ref).trans (named _ .refl)
  generalize start : schemaKey ref = first at branch led named
  induction remaining, first using resolveIn.induct generalizing ref with
  | case1 remaining first absent =>
      rw [resolveIn_absent absent] at led
      cases led
  | case2 remaining first target found value held next read ih =>
      have text := toText_eq_ok read
      subst text start
      have edge : AliasOf schemas (schemaKey ref) (schemaKey next) :=
        ⟨target, next, branch.part found, held, rfl⟩
      rw [resolveIn_alias found held, read] at led
      obtain ⟨last, leads, typed⟩ := ih (named _ (.single edge)) rfl (branch.step edge) led
        fun link chain => named link (chain.head edge)
      exact ⟨last, leads, (typeOfRef_aliased rfl other found held).trans typed⟩
  | case3 remaining first target found value held failure read =>
      rw [resolveIn_alias found held, read] at led
      cases led
  | case4 remaining first target found own =>
      subst start
      rw [resolveIn_own found own] at led
      cases led
      exact ⟨ref, rfl, typeOfRef_model rfl other found own judged⟩

/-- Following a reference comes to the first schema on its chain that is no alias, comes to nothing
if the chain leaves the collection or repeats a key, and fails at an alias of what is no text. If it
comes to a model and no key on the way names a primitive type, then the reference has the type that
the key of the model decodes to, and rests on one reference to that key. -/
theorem resolve_agrees_with_typeOf (schemas : Schemas) (ref : String) :
    (∀ key schema, resolve schemas ref = .ok (some (key, schema)) ↔
      AliasChain schemas (schemaKey ref) key ∧ schemas.find? key = some schema ∧
        schema.ref? = none) ∧
    (resolve schemas ref = .ok none ↔ ∃ key, AliasChain schemas (schemaKey ref) key ∧
      (schemas.find? key = none ∨ Relation.TransGen (AliasOf schemas) key key)) ∧
    (∀ failure, resolve schemas ref = .error failure ↔ failure = .notAText ∧
      ∃ key schema value, AliasChain schemas (schemaKey ref) key ∧
        schemas.find? key = some schema ∧ schema.ref? = some value ∧
        ∀ next, value ≠ .text next) ∧
    (∀ key schema, ref ≠ "" → resolve schemas ref = .ok (some (key, schema)) →
      isModel schemas key schema = .ok true →
      (∀ link, AliasChain schemas (schemaKey ref) link → isPrimitiveKey link = false) →
      ∃ last, schemaKey last = key ∧
        typeOf ⟨[], schemas⟩ schemas (.record [("$ref", .text ref)]) =
          .ok ⟨.plain (SchemaName.ofKey key).typeName, [last],
            [(SchemaName.ofKey key).fileName]⟩) := by
  refine ⟨fun key schema => ?_, ?_, fun failure => ?_, fun key schema given led judged named => ?_⟩
  · rw [resolve_eq_iff]
    constructor
    · rintro ⟨chain, ⟨found, own⟩⟩
      exact ⟨chain, found, own⟩
    · rintro ⟨chain, found, own⟩
      exact .stops chain (.schema found own)
  · rw [resolve_eq_iff]
    constructor
    · intro ends
      cases ends with
      | stops chain stops =>
          cases stops with
          | absent absent => exact ⟨_, chain, .inl absent⟩
      | repeats chain cycle => exact ⟨_, chain, .inr cycle⟩
    · rintro ⟨key, chain, absent | cycle⟩
      · exact .stops chain (.absent absent)
      · exact .repeats chain cycle
  · rw [resolve_eq_iff]
    constructor
    · intro ends
      cases ends with
      | stops chain stops =>
          cases stops with
          | broken found held strange => exact ⟨rfl, _, _, _, chain, found, held, strange⟩
    · rintro ⟨rfl, key, schema, value, chain, found, held, strange⟩
      exact .stops chain (.broken found held strange)
  · obtain ⟨last, leads, typed⟩ := typeOfRef_of_resolveIn (.start _ _ _) led judged named
    refine ⟨last, leads, (typeOf_ref rfl given).trans (typed.trans ?_)⟩
    subst leads
    rfl

/-- A model under one name, and a second name for it. -/
def userModel : Value :=
  .record [("properties", .record [("id", .record [("type", .text "integer")])])]

def renamedUser : Schemas :=
  [("UserAlias", .record [("$ref", .text (refTo "User"))]), ("User", userModel)]

theorem resolve_agrees_with_typeOf_renamedUser :
    resolve renamedUser (refTo "UserAlias") = .ok (some ("User", userModel)) ∧
    ∃ last, schemaKey last = "User" ∧
      typeOf ⟨[], renamedUser⟩ renamedUser (.record [("$ref", .text (refTo "UserAlias"))]) =
        .ok ⟨.plain "User", [last], ["User"]⟩ := by
  obtain ⟨found, -, -, agrees⟩ := resolve_agrees_with_typeOf renamedUser (refTo "UserAlias")
  have start : schemaKey (refTo "UserAlias") = "UserAlias" := by decide
  have edge : AliasOf renamedUser "UserAlias" "User" := ⟨_, _, rfl, rfl, by decide⟩
  have stops : Stops renamedUser "User" (.ok (some ("User", userModel))) := .schema rfl rfl
  have led := (found "User" userModel).mpr ⟨start ▸ .single edge, rfl, rfl⟩
  refine ⟨led, agrees _ _ (by decide) led (isModel_of_single (by decide +kernel) rfl) ?_⟩
  rw [start]
  intro link chain
  rcases Relation.ReflTransGen.cases_head chain with rfl | ⟨next, first, rest⟩
  · decide
  · cases AliasOf.rightUnique renamedUser edge first
    cases stops.eq_of_chain rest
    decide

/-- An alias under the empty key. -/
def unnamedAlias : Schemas := [("", .record [("$ref", .text (refTo "User"))]), ("User", userModel)]

/-- A key that holds the prefix of references itself. -/
def prefixedKey : Schemas := [("A#/components/schemas/B", userModel)]

/-- Following an alias of what is no text fails; the empty reference is no reference to a type; and
the name of a key that holds the prefix is not that of the key without the prefix. -/
theorem resolve_differs_from_typeOf :
    resolve [("A", .record [("$ref", .int 5)])] "A" = .error .notAText ∧
    (resolve unnamedAlias "" = .ok (some ("User", userModel)) ∧
      isModel unnamedAlias "User" userModel = .ok true ∧
      (∀ link, AliasChain unnamedAlias (schemaKey "") link →
        isPrimitiveRef ⟨[], unnamedAlias⟩ link = false) ∧
      typeOf ⟨[], unnamedAlias⟩ unnamedAlias (.record [("$ref", .text "")]) =
        .ok ⟨.plain "any", [], []⟩) ∧
    (resolve prefixedKey "A#/components#/components/schemas//schemas/B" =
        .ok (some ("A#/components/schemas/B", userModel)) ∧
      isModel prefixedKey "A#/components/schemas/B" userModel = .ok true ∧
      (∀ link, AliasChain prefixedKey
        (schemaKey "A#/components#/components/schemas//schemas/B") link →
        isPrimitiveRef ⟨[], prefixedKey⟩ link = false) ∧
      (SchemaName.parse [] "A#/components/schemas/B").typeName = "AB" ∧
      typeOf ⟨[], prefixedKey⟩ prefixedKey
          (.record [("$ref", .text "A#/components#/components/schemas//schemas/B")]) =
        .ok ⟨.plain "B", ["A#/components#/components/schemas//schemas/B"], ["B"]⟩) := by
  have empty : schemaKey "" = "" := by decide
  have twice : schemaKey "A#/components#/components/schemas//schemas/B" =
      "A#/components/schemas/B" := by decide
  have edge : AliasOf unnamedAlias "" "User" := ⟨_, _, rfl, rfl, by decide⟩
  have stops : Stops unnamedAlias "User" (.ok (some ("User", userModel))) := .schema rfl rfl
  have holds : Stops prefixedKey "A#/components/schemas/B"
      (.ok (some ("A#/components/schemas/B", userModel))) := .schema rfl rfl
  have model : isModel prefixedKey "A#/components/schemas/B" userModel = .ok true :=
    isModel_of_single (by decide) rfl
  refine ⟨?_, ⟨?_, isModel_of_single (by decide) rfl, ?_, ?_⟩,
    ⟨?_, model, ?_, by decide +kernel, ?_⟩⟩
  · exact resolve_eq_iff.mpr (.stops .refl (.broken rfl rfl (by simp)))
  · exact resolve_eq_iff.mpr (empty ▸ .stops (.single edge) stops)
  · rw [empty]
    intro link chain
    rcases Relation.ReflTransGen.cases_head chain with rfl | ⟨next, first, rest⟩
    · decide
    · cases AliasOf.rightUnique unnamedAlias edge first
      cases stops.eq_of_chain rest
      decide
  · refine (typeOf_plain ⟨rfl, rfl, rfl, rfl⟩).trans ?_
    rfl
  · rw [resolve_eq_iff, twice]
    exact .stops .refl holds
  · rw [twice]
    intro link chain
    cases holds.eq_of_chain chain
    decide
  · refine (typeOf_ref rfl (by decide)).trans ?_
    have found : prefixedKey.find? (schemaKey "A#/components#/components/schemas//schemas/B") =
        some userModel := by
      rw [twice]
      rfl
    refine (typeOfRef_model rfl (by decide) found rfl (twice ▸ model)).trans ?_
    have decoded : SchemaName.parse [] "A#/components#/components/schemas//schemas/B" =
        ⟨"B", "B"⟩ := by decide
    rw [Typed.named, decoded]

end Typing

end TypedClient
