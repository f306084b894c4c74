import Mathlib.Data.List.Perm.Subperm
import TypedClient.Proofs.Schema.Followed
import TypedClient.Proofs.Schema.Gathering

/-!
What is gone through to merge the parts of a schema and to find its type, by rules that carry the
keys opened on the branch. The rules do not say that the way ends; it does in every collection,
and no branch opens a key twice.
-/

namespace TypedClient

/-- The way through a schema: to its parts, to the schema under a key that is opened, and to the
test whether a key has a model, which goes its own way. -/
inductive Unfolding
  | parts (inner : List Unfolding)
  | opened (key : String) (inside : Unfolding)
  | tested (test after : Unfolding)

namespace Unfolding

inductive Branch : Unfolding → List String → Prop
  | stop (tree : Unfolding) : Branch tree []
  | part {inner : List Unfolding} {tree : Unfolding} {keys : List String} (member : tree ∈ inner)
      (rest : Branch tree keys) : Branch (.parts inner) keys
  | opened {key : String} {inside : Unfolding} {keys : List String} (rest : Branch inside keys) :
      Branch (.opened key inside) (key :: keys)
  | after {test after : Unfolding} {keys : List String} (rest : Branch after keys) :
      Branch (.tested test after) keys

/-- A test that is made somewhere on the way. -/
inductive HasTest : Unfolding → Unfolding → Prop
  | here {test after : Unfolding} : HasTest (.tested test after) test
  | after {test other after : Unfolding} (rest : HasTest after test) :
      HasTest (.tested other after) test
  | part {inner : List Unfolding} {tree test : Unfolding} (member : tree ∈ inner)
      (rest : HasTest tree test) : HasTest (.parts inner) test
  | opened {key : String} {inside test : Unfolding} (rest : HasTest inside test) :
      HasTest (.opened key inside) test

end Unfolding

section Merging

variable (schemas : Schemas)

mutual

/-- The parts of a schema are merged, with the keys opened on the branch; the nearest is first. -/
inductive MergeRun : List String → Value → Except Error Value → Unfolding → Prop
  | loose {opened : List String} {schema : Value} (loose : schema.isObject = false) :
      MergeRun opened schema (.ok schema) (.parts [])
  | kept {opened : List String} {entries : Entries}
      (kept : ∀ parts, Entries.find? entries "allOf" = some (.list parts) →
        needsMerge entries parts = false) :
      MergeRun opened (.object entries) (.ok (.object entries)) (.parts [])
  | merged {opened : List String} {entries : Entries} {parts : List Value}
      {result : Except Error Members} {trees : List Unfolding}
      (listed : Entries.find? entries "allOf" = some (.list parts))
      (needed : needsMerge entries parts = true)
      (gathered : GatherRun opened parts {} result trees) :
      MergeRun opened (.object entries)
        (result >>= fun members => members.add (.object entries) >>= withMembers entries)
        (.parts trees)

inductive PartRun : List String → Value → Except Error Value → Unfolding → Prop
  | own {opened : List String} {part : Value} {flat : Except Error Value} {tree : Unfolding}
      (own : part.ref? = none) (inner : MergeRun opened part flat tree) :
      PartRun opened part flat tree
  | target {opened : List String} {part target : Value} {ref : String} {flat : Except Error Value}
      {tree : Unfolding} (held : part.ref? = some (.text ref)) (fresh : schemaKey ref ∉ opened)
      (found : schemas.find? (schemaKey ref) = some target)
      (inner : MergeRun (schemaKey ref :: opened) target flat tree) :
      PartRun opened part flat (.opened (schemaKey ref) tree)

/-- The members of parts, one part after the other, up to the first fault. A reference to a key that
is open, or that the collection does not hold, contributes nothing. -/
inductive GatherRun :
    List String → List Value → Members → Except Error Members → List Unfolding → Prop
  | nil {opened : List String} {members : Members} : GatherRun opened [] members (.ok members) []
  | strange {opened : List String} {part value : Value} {rest : List Value} {members : Members}
      (held : part.ref? = some value) (strange : ∀ ref, value = .text ref → False) :
      GatherRun opened (part :: rest) members (.error .notAText) []
  | closed {opened : List String} {part : Value} {rest : List Value} {members : Members}
      {ref : String} {result : Except Error Members} {trees : List Unfolding}
      (held : part.ref? = some (.text ref))
      (closed : schemaKey ref ∈ opened ∨ schemas.find? (schemaKey ref) = none)
      (others : GatherRun opened rest members result trees) :
      GatherRun opened (part :: rest) members result trees
  | failed {opened : List String} {part : Value} {rest : List Value} {members : Members}
      {flat : Except Error Value} {tree : Unfolding} {failure : Error}
      (first : PartRun opened part flat tree) (fails : flat >>= members.add = .error failure) :
      GatherRun opened (part :: rest) members (.error failure) [tree]
  | added {opened : List String} {part : Value} {rest : List Value} {members next : Members}
      {flat : Except Error Value} {tree : Unfolding} {result : Except Error Members}
      {trees : List Unfolding} (first : PartRun opened part flat tree)
      (adds : flat >>= members.add = .ok next) (others : GatherRun opened rest next result trees) :
      GatherRun opened (part :: rest) members result (tree :: trees)

end

/-- The test whether the schema under a key has a model; it begins with no key opened. -/
inductive TestRun (key : String) (target : Value) : Except Error Bool → Unfolding → Prop
  | unnamed (other : isModelName (SchemaName.parse [] key).fileName = false) :
      TestRun key target (.ok false) (.parts [])
  | merged {flat : Except Error Value} {tree : Unfolding}
      (named : isModelName (SchemaName.parse [] key).fileName = true)
      (merged : MergeRun schemas [] target flat tree) :
      TestRun key target ((fun flat => (flat.field "properties").isTrue) <$> flat) tree

end Merging

section Typing

variable (context : TypeContext)

structure OpensKey (opened : List String) (ref : String) (target : Value) : Prop where
  unmapped : context.mapping.lookup (SchemaName.parse context.mapping ref).typeName = none
  named : isPrimitiveRef context ref = false
  fresh : schemaKey ref ∉ opened
  found : context.schemas.find? (schemaKey ref) = some target

mutual

/-- The type of a schema is found, with the keys opened on the branch; the nearest is first. -/
inductive TypingRun : List String → Value → Except Error Typed → Unfolding → Prop
  | shorthand {opened : List String} {name : String} :
      TypingRun opened (.text name) (.ok ⟨.ofName context.mapping name, [], []⟩) (.parts [])
  | other {opened : List String} {schema : Value} (unnamed : ∀ name, schema ≠ .text name)
      (loose : schema.isObject = false) :
      TypingRun opened schema (.ok ⟨.plain "any", [], []⟩) (.parts [])
  | broken {opened : List String} {entries : Entries}
      (given : (Entries.field entries "$ref").isTrue = true)
      (strange : ∀ ref, Entries.field entries "$ref" ≠ .text ref) :
      TypingRun opened (.object entries) (.error .notAText) (.parts [])
  | reference {opened : List String} {entries : Entries} {ref : String}
      {result : Except Error Typed} {tree : Unfolding}
      (held : Entries.field entries "$ref" = .text ref) (given : ref ≠ "")
      (inner : ReferenceRun opened ref result tree) : TypingRun opened (.object entries) result tree
  | variants {opened : List String} {entries : Entries} {form : List PropertyType → PropertyType}
      {variants : List Value} {result : Except Error TypedVariants} {trees : List Unfolding}
      (own : (Entries.field entries "$ref").isTrue = false)
      (chosen : chosenVariants? entries = some (form, variants))
      (all : VariantsRun opened variants result trees) :
      TypingRun opened (.object entries) ((·.combine form) <$> result) (.parts trees)
  | part {opened : List String} {entries : Entries} {part : Value} {result : Except Error Typed}
      {tree : Unfolding} (plain : IsPlainSchema entries)
      (single : (SchemaForm.ofEntries entries).part? = some part)
      (inner : TypingRun opened part result tree) :
      TypingRun opened (.object entries) ((fun typed =>
        { typed with type := (SchemaForm.ofEntries entries).wrap typed.type }) <$> result) tree
  | settled {opened : List String} {entries : Entries} (plain : IsPlainSchema entries)
      (whole : (SchemaForm.ofEntries entries).part? = none) :
      TypingRun opened (.object entries) (typeOfForm context [] (SchemaForm.ofEntries entries))
        (.parts [])

/-- The types of variants, one after the other, up to the first fault; those of type null are left
out. -/
inductive VariantsRun :
    List String → List Value → Except Error TypedVariants → List Unfolding → Prop
  | nil {opened : List String} : VariantsRun opened [] (.ok {}) []
  | null {opened : List String} {variant : Value} {rest : List Value}
      {result : Except Error TypedVariants} {trees : List Unfolding}
      (null : isNullSchema variant = true) (others : VariantsRun opened rest result trees) :
      VariantsRun opened (variant :: rest) result trees
  | failed {opened : List String} {variant : Value} {rest : List Value} {failure : Error}
      {tree : Unfolding} (given : isNullSchema variant = false)
      (first : TypingRun opened variant (.error failure) tree) :
      VariantsRun opened (variant :: rest) (.error failure) [tree]
  | typed {opened : List String} {variant : Value} {rest : List Value} {typed : Typed}
      {tree : Unfolding} {result : Except Error TypedVariants} {trees : List Unfolding}
      (given : isNullSchema variant = false) (first : TypingRun opened variant (.ok typed) tree)
      (others : VariantsRun opened rest result trees) :
      VariantsRun opened (variant :: rest) ((·.cons typed) <$> result) (tree :: trees)

inductive ReferenceRun : List String → String → Except Error Typed → Unfolding → Prop
  | mapped {opened : List String} {ref chosen : String}
      (mapped : context.mapping.lookup (SchemaName.parse context.mapping ref).typeName =
        some chosen) : ReferenceRun opened ref (.ok ⟨.plain chosen, [], []⟩) (.parts [])
  | primitive {opened : List String} {ref : String}
      (unmapped : context.mapping.lookup (SchemaName.parse context.mapping ref).typeName = none)
      (primitive : isPrimitiveRef context ref = true) :
      ReferenceRun opened ref (.ok ⟨.plain (primitiveOf context ref), [ref], []⟩) (.parts [])
  | closed {opened : List String} {ref : String}
      (unmapped : context.mapping.lookup (SchemaName.parse context.mapping ref).typeName = none)
      (named : isPrimitiveRef context ref = false)
      (closed : schemaKey ref ∈ opened ∨ context.schemas.find? (schemaKey ref) = none) :
      ReferenceRun opened ref (.ok (.named context ref)) (.parts [])
  | strange {opened : List String} {ref : String} {target value : Value}
      (opens : OpensKey context opened ref target) (held : target.ref? = some value)
      (strange : ∀ next, value = .text next → False) :
      ReferenceRun opened ref (.error .notAText) (.parts [])
  | aliased {opened : List String} {ref next : String} {target : Value}
      {result : Except Error Typed} {tree : Unfolding} (opens : OpensKey context opened ref target)
      (held : target.ref? = some (.text next))
      (inner : ReferenceRun (schemaKey ref :: opened) next result tree) :
      ReferenceRun opened ref result (.opened (schemaKey ref) tree)
  | failed {opened : List String} {ref : String} {target : Value} {failure : Error}
      {test : Unfolding} (opens : OpensKey context opened ref target) (own : target.ref? = none)
      (judged : TestRun context.schemas (schemaKey ref) target (.error failure) test) :
      ReferenceRun opened ref (.error failure) (.tested test (.parts []))
  | model {opened : List String} {ref : String} {target : Value} {test : Unfolding}
      (opens : OpensKey context opened ref target) (own : target.ref? = none)
      (judged : TestRun context.schemas (schemaKey ref) target (.ok true) test) :
      ReferenceRun opened ref (.ok (.named context ref)) (.tested test (.parts []))
  | inPlace {opened : List String} {ref : String} {target : Value} {result : Except Error Typed}
      {test tree : Unfolding} (opens : OpensKey context opened ref target)
      (own : target.ref? = none)
      (judged : TestRun context.schemas (schemaKey ref) target (.ok false) test)
      (inner : TypingRun (schemaKey ref :: opened) target result tree) :
      ReferenceRun opened ref result (.tested test (.opened (schemaKey ref) tree))

end

end Typing

def Schemas.behind (schemas : Schemas) : List String → Schemas
  | [] => schemas
  | key :: opened => (schemas.behind opened).without key

theorem Schemas.find_behind (schemas : Schemas) (opened : List String) (key : String) :
    (schemas.behind opened).find? key = if key ∈ opened then none else schemas.find? key := by
  induction opened with
  | nil => simp [behind]
  | cons first rest ih =>
      rw [behind, Schemas.find_without, ih]
      by_cases same : key = first
      · simp [same]
      · simp [same]

section Sound

variable {schemas : Schemas} {context : TypeContext}

theorem find_of_fresh {opened : List String} {key : String} (fresh : key ∉ opened) :
    (schemas.behind opened).find? key = schemas.find? key := by
  rw [Schemas.find_behind, if_neg fresh]

theorem find_of_closed {opened : List String} {key : String}
    (closed : key ∈ opened ∨ schemas.find? key = none) :
    (schemas.behind opened).find? key = none := by
  rw [Schemas.find_behind]
  split
  · rfl
  · rename_i fresh
    exact closed.resolve_left fresh

-- a key that is open is one that is no longer in what is left of the collection

mutual

theorem MergeRun.sound {opened : List String} {schema : Value} {result : Except Error Value}
    {tree : Unfolding} (run : MergeRun schemas opened schema result tree) :
    flattenIn (schemas.behind opened) schema = result := by
  match run with
  | .loose loose =>
      rw [flattenIn]
      rintro entries rfl
      cases loose
  | .kept kept => exact flattenIn_kept kept
  | .merged listed needed gathered => rw [flattenIn_merged listed needed, gathered.sound]

theorem PartRun.sound {opened : List String} {part : Value} {flat : Except Error Value}
    {tree : Unfolding} (run : PartRun schemas opened part flat tree) (rest : List Value)
    (members : Members) : gatherParts (schemas.behind opened) (part :: rest) members =
      (flat >>= members.add) >>= gatherParts (schemas.behind opened) rest := by
  match run with
  | .own own inner => rw [gatherParts_own own, inner.sound, bind_assoc]
  | .target held fresh found inner =>
      rw [gatherParts_opened held ((find_of_fresh fresh).trans found), ← Schemas.behind,
        inner.sound, bind_assoc]

theorem GatherRun.sound {opened : List String} {parts : List Value} {members : Members}
    {result : Except Error Members} {trees : List Unfolding}
    (run : GatherRun schemas opened parts members result trees) :
    gatherParts (schemas.behind opened) parts members = result := by
  match run with
  | .nil => exact gatherParts_nil
  | .strange held strange => exact gatherParts_broken held (toText_of_strange strange)
  | .closed held closed others => rw [gatherParts_absent held (find_of_closed closed), others.sound]
  | .failed first fails =>
      rw [first.sound, fails]
      rfl
  | .added first adds others =>
      rw [first.sound, adds]
      exact others.sound

end

theorem TestRun.sound {key : String} {target : Value} {verdict : Except Error Bool}
    {tree : Unfolding} (run : TestRun schemas key target verdict tree) :
    isModel schemas key target = verdict := by
  unfold isModel
  cases run with
  | unnamed other => rw [if_neg (ne_true_of_eq_false other)]; rfl
  | merged named merged =>
      rw [if_pos named, flatten, ← merged.sound]
      rfl

mutual

theorem TypingRun.sound {opened : List String} {schema : Value} {result : Except Error Typed}
    {tree : Unfolding} (run : TypingRun context opened schema result tree) :
    typeOf context (context.schemas.behind opened) schema = result := by
  match run with
  | .shorthand => rw [typeOf]
  | .other unnamed loose => exact typeOf_other unnamed loose
  | .broken given strange => exact typeOf_broken given strange
  | .reference held given inner => rw [typeOf_ref held given, inner.sound]
  | .variants own chosen all => rw [typeOf_chosenVariants own chosen, all.sound]
  | .part plain single inner => rw [typeOf_plain plain, typeOfForm_part single, inner.sound]
  | .settled plain whole => exact (typeOf_plain plain).trans (typeOfForm_settled [] whole rfl)

theorem VariantsRun.sound {opened : List String} {variants : List Value}
    {result : Except Error TypedVariants} {trees : List Unfolding}
    (run : VariantsRun context opened variants result trees) :
    typesOf context (context.schemas.behind opened) variants = result := by
  match run with
  | .nil => exact typesOf_nil
  | .null null others => rw [typesOf_null null, others.sound]
  | .failed given first =>
      rw [typesOf_cons given, first.sound]
      rfl
  | .typed given first others =>
      rw [typesOf_cons given, first.sound, others.sound]
      rfl

theorem ReferenceRun.sound {opened : List String} {ref : String} {result : Except Error Typed}
    {tree : Unfolding} (run : ReferenceRun context opened ref result tree) :
    typeOfRef context (context.schemas.behind opened) ref = result := by
  have left {target : Value} (opens : OpensKey context opened ref target) :
      (context.schemas.behind opened).find? (schemaKey ref) = some target :=
    (find_of_fresh opens.fresh).trans opens.found
  match run with
  | .mapped mapped => exact typeOfRef_mapped mapped
  | .primitive unmapped primitive => exact typeOfRef_primitive unmapped primitive
  | .closed unmapped named closed => exact typeOfRef_unopened unmapped named (find_of_closed closed)
  | .strange opens held strange =>
      rw [typeOfRef_alias opens.unmapped opens.named (left opens) held, toText_of_strange strange]
      rfl
  | .aliased opens held inner =>
      rw [typeOfRef_aliased opens.unmapped opens.named (left opens) held, ← Schemas.behind,
        inner.sound]
  | .failed opens own judged =>
      rw [typeOfRef_own opens.unmapped opens.named (left opens) own, judged.sound]
      rfl
  | .model opens own judged =>
      exact typeOfRef_model opens.unmapped opens.named (left opens) own judged.sound
  | .inPlace opens own judged inner =>
      rw [typeOfRef_inPlace opens.unmapped opens.named (left opens) own judged.sound,
        ← Schemas.behind, inner.sound]

end

end Sound

section Ends

variable {schemas : Schemas} {context : TypeContext} {opened : List String}

theorem exists_gatherRun {parts : List Value}
    (runs : ∀ part ∈ parts, ∃ flat tree, MergeRun schemas opened part flat tree)
    (targets : ∀ ref target, schemaKey ref ∉ opened → schemas.find? (schemaKey ref) = some target →
      ∃ flat tree, MergeRun schemas (schemaKey ref :: opened) target flat tree)
    (members : Members) : ∃ result trees, GatherRun schemas opened parts members result trees := by
  induction parts generalizing members with
  | nil => exact ⟨_, _, .nil⟩
  | cons part rest ih =>
      rw [List.forall_mem_cons] at runs
      obtain ⟨⟨own, tree, run⟩, others⟩ := runs
      have later := ih others
      -- a part that contributes either ends the gathering with its fault or is followed by the rest
      have onwards {flat : Except Error Value} {tree : Unfolding}
          (first : PartRun schemas opened part flat tree) :
          ∃ result trees, GatherRun schemas opened (part :: rest) members result trees := by
        cases adds : flat >>= members.add with
        | error failure => exact ⟨_, _, .failed first adds⟩
        | ok next =>
            obtain ⟨result, trees, gathered⟩ := later next
            exact ⟨_, _, .added first adds gathered⟩
      cases held : part.ref? with
      | none => exact onwards (.own held run)
      | some value =>
          by_cases text : ∃ ref, value = .text ref
          · obtain ⟨ref, rfl⟩ := text
            by_cases closed : schemaKey ref ∈ opened ∨ schemas.find? (schemaKey ref) = none
            · obtain ⟨result, trees, gathered⟩ := later members
              exact ⟨_, _, .closed held closed gathered⟩
            · rw [not_or] at closed
              obtain ⟨target, found⟩ := Option.ne_none_iff_exists'.mp closed.2
              obtain ⟨flat, inside, inner⟩ := targets ref target closed.1 found
              exact onwards (.target held closed.1 found inner)
          · exact ⟨_, _, .strange held fun ref same => text ⟨ref, same⟩⟩

theorem exists_mergeRun_of_parts {schema : Value}
    (parts : ∀ part, sizeOf part < sizeOf schema →
      ∃ flat tree, MergeRun schemas opened part flat tree)
    (targets : ∀ ref target, schemaKey ref ∉ opened → schemas.find? (schemaKey ref) = some target →
      ∃ flat tree, MergeRun schemas (schemaKey ref :: opened) target flat tree) :
    ∃ result tree, MergeRun schemas opened schema result tree := by
  cases schema with
  | scalar s => exact ⟨_, _, .loose rfl⟩
  | list items => exact ⟨_, _, .loose rfl⟩
  | object entries =>
      by_cases merges : ∃ listed, Entries.find? entries "allOf" = some (.list listed) ∧
          needsMerge entries listed = true
      · obtain ⟨listed, found, needed⟩ := merges
        have whole := Entries.sizeOf_find? found
        have runs (part : Value) (member : part ∈ listed) :
            ∃ flat tree, MergeRun schemas opened part flat tree := by
          have inner := List.sizeOf_lt_of_mem member
          simp only [Value.list.sizeOf_spec, Value.object.sizeOf_spec] at whole parts
          exact parts part (by omega)
        obtain ⟨result, trees, gathered⟩ := exists_gatherRun runs targets {}
        exact ⟨_, _, .merged found needed gathered⟩
      · refine ⟨_, _, .kept fun listed found => ?_⟩
        rw [← Bool.not_eq_true]
        exact fun needed => merges ⟨listed, found, needed⟩

/-- The parts of every schema are merged, whatever is open: a key that is opened is one less that
may be, and on the branch the parts are smaller. -/
theorem exists_mergeRun (schemas : Schemas) (opened : List String) (schema : Value) :
    ∃ result tree, MergeRun schemas opened schema result tree := by
  refine (@typing_induction
    (fun remaining schema => ∀ opened, schemas.behind opened = remaining →
      ∃ result tree, MergeRun schemas opened schema result tree)
    (fun remaining ref => ∀ opened target, schemas.behind opened = remaining →
      remaining.find? (schemaKey ref) = some target →
      ∃ result tree, MergeRun schemas (schemaKey ref :: opened) target result tree)
    ?_ ?_ (schemas.behind opened)).1 schema opened rfl
  -- what is left does not tell which keys are open, so this is said of every list that leaves it
  · rintro _ schema parts references opened rfl
    refine exists_mergeRun_of_parts (fun part smaller => parts part smaller opened rfl) ?_
    intro ref target fresh found
    exact references ref opened target rfl ((find_of_fresh fresh).trans found)
  · rintro _ ref fewer opened target rfl found
    exact (fewer target found).2 _ rfl

theorem exists_testRun (schemas : Schemas) (key : String) (target : Value) :
    ∃ verdict test, TestRun schemas key target verdict test := by
  cases named : isModelName (SchemaName.parse [] key).fileName with
  | false => exact ⟨_, _, .unnamed named⟩
  | true =>
      obtain ⟨flat, tree, merged⟩ := exists_mergeRun schemas [] target
      exact ⟨_, _, .merged named merged⟩

theorem exists_variantsRun {variants : List Value}
    (runs : ∀ variant ∈ variants, ∃ result tree, TypingRun context opened variant result tree) :
    ∃ result trees, VariantsRun context opened variants result trees := by
  induction variants with
  | nil => exact ⟨_, _, .nil⟩
  | cons variant rest ih =>
      rw [List.forall_mem_cons] at runs
      obtain ⟨⟨own, tree, run⟩, others⟩ := runs
      obtain ⟨result, trees, later⟩ := ih others
      cases given : isNullSchema variant with
      | true => exact ⟨_, _, .null given later⟩
      | false =>
          cases own with
          | error failure => exact ⟨_, _, .failed given run⟩
          | ok typed => exact ⟨_, _, .typed given run later⟩

theorem exists_typingRun_of_parts {schema : Value}
    (parts : ∀ part, sizeOf part < sizeOf schema →
      ∃ result tree, TypingRun context opened part result tree)
    (references : ∀ ref, ∃ result tree, ReferenceRun context opened ref result tree) :
    ∃ result tree, TypingRun context opened schema result tree := by
  cases schemaKind schema with
  | shorthand name => exact ⟨_, _, .shorthand⟩
  | other unnamed loose => exact ⟨_, _, .other unnamed loose⟩
  | broken given strange => exact ⟨_, _, .broken given strange⟩
  | @reference entries ref held given =>
      obtain ⟨result, tree, inner⟩ := references ref
      exact ⟨_, _, .reference held given inner⟩
  | @variants entries form variants own chosen =>
      have runs (variant : Value) (member : variant ∈ variants) :
          ∃ result tree, TypingRun context opened variant result tree :=
        parts variant ((List.sizeOf_lt_of_mem member).trans (sizeOf_chosenVariants chosen))
      obtain ⟨result, trees, all⟩ := exists_variantsRun runs
      exact ⟨_, _, .variants own chosen all⟩
  | @plain entries plain =>
      cases single : (SchemaForm.ofEntries entries).part? with
      | none => exact ⟨_, _, .settled plain single⟩
      | some part =>
          obtain ⟨result, tree, inner⟩ := parts part (sizeOf_part? single)
          exact ⟨_, _, .part plain single inner⟩

theorem exists_referenceRun_of_opened {ref : String}
    (inside : ∀ target, schemaKey ref ∉ opened →
      context.schemas.find? (schemaKey ref) = some target →
      (∀ next, ∃ result tree, ReferenceRun context (schemaKey ref :: opened) next result tree) ∧
      ∃ result tree, TypingRun context (schemaKey ref :: opened) target result tree) :
    ∃ result tree, ReferenceRun context opened ref result tree := by
  cases unmapped : context.mapping.lookup (SchemaName.parse context.mapping ref).typeName with
  | some chosen => exact ⟨_, _, .mapped unmapped⟩
  | none =>
      cases named : isPrimitiveRef context ref with
      | true => exact ⟨_, _, .primitive unmapped named⟩
      | false =>
          by_cases closed : schemaKey ref ∈ opened ∨ context.schemas.find? (schemaKey ref) = none
          · exact ⟨_, _, .closed unmapped named closed⟩
          · rw [not_or] at closed
            obtain ⟨target, found⟩ := Option.ne_none_iff_exists'.mp closed.2
            have opens : OpensKey context opened ref target := ⟨unmapped, named, closed.1, found⟩
            obtain ⟨nexts, whole⟩ := inside target closed.1 found
            cases held : target.ref? with
            | some value =>
                by_cases text : ∃ next, value = .text next
                · obtain ⟨next, rfl⟩ := text
                  obtain ⟨result, tree, inner⟩ := nexts next
                  exact ⟨_, _, .aliased opens held inner⟩
                · exact ⟨_, _, .strange opens held fun next same => text ⟨next, same⟩⟩
            | none =>
                -- the test has its own run, which needs nothing of the branch
                obtain ⟨verdict, test, judged⟩ :=
                  exists_testRun context.schemas (schemaKey ref) target
                match verdict, judged with
                | .error failure, judged => exact ⟨_, _, .failed opens held judged⟩
                | .ok true, judged => exact ⟨_, _, .model opens held judged⟩
                | .ok false, judged =>
                    obtain ⟨result, tree, inner⟩ := whole
                    exact ⟨_, _, .inPlace opens held judged inner⟩

/-- The type of every schema is found, whatever is open. -/
theorem exists_typingRun (context : TypeContext) (opened : List String) (schema : Value) :
    ∃ result tree, TypingRun context opened schema result tree := by
  refine (@typing_induction
    (fun remaining schema => ∀ opened, context.schemas.behind opened = remaining →
      ∃ result tree, TypingRun context opened schema result tree)
    (fun remaining ref => ∀ opened, context.schemas.behind opened = remaining →
      ∃ result tree, ReferenceRun context opened ref result tree)
    ?_ ?_ (context.schemas.behind opened)).1 schema opened rfl
  · rintro _ schema parts references opened rfl
    exact exists_typingRun_of_parts (fun part smaller => parts part smaller opened rfl)
      fun ref => references ref opened rfl
  · rintro _ ref fewer opened rfl
    refine exists_referenceRun_of_opened fun target fresh found => ?_
    obtain ⟨nexts, whole⟩ := fewer target ((find_of_fresh fresh).trans found)
    exact ⟨fun next => nexts next _ rfl, whole _ rfl⟩

end Ends

namespace Unfolding

/-- On every branch a key of the collection is opened once, so that no more are opened one inside
the other than the collection has. -/
def OpensOnce (schemas : Schemas) (tree : Unfolding) : Prop :=
  ∀ keys, tree.Branch keys →
    keys.Nodup ∧ keys ⊆ schemas.map Prod.fst ∧ keys.length ≤ schemas.length

/-- On every branch a key of the collection is opened once, and none that is open already; every
test opens keys once on its own account. -/
structure Fresh (schemas : Schemas) (opened : List String) (tree : Unfolding) : Prop where
  branch : ∀ keys, tree.Branch keys →
    keys.Nodup ∧ ∀ key ∈ keys, key ∉ opened ∧ key ∈ schemas.map Prod.fst
  test : ∀ test, tree.HasTest test → test.OpensOnce schemas

variable {schemas : Schemas} {opened : List String} {key : String}

theorem Fresh.opensOnce {tree : Unfolding} (fresh : tree.Fresh schemas opened) :
    tree.OpensOnce schemas := by
  intro keys branch
  obtain ⟨distinct, inside⟩ := fresh.branch keys branch
  have known : keys ⊆ schemas.map Prod.fst := fun key member => (inside key member).2
  have bound := (distinct.subperm known).length_le
  rw [List.length_map] at bound
  exact ⟨distinct, known, bound⟩

theorem fresh_parts {trees : List Unfolding} (each : ∀ tree ∈ trees, tree.Fresh schemas opened) :
    (parts trees).Fresh schemas opened where
  branch := by
    intro keys branch
    cases branch with
    | stop => exact ⟨.nil, by simp⟩
    | part member rest => exact (each _ member).branch keys rest
  test := by
    intro test made
    cases made with
    | part member rest => exact (each _ member).test test rest

theorem fresh_nil : (parts []).Fresh schemas opened := fresh_parts (by simp)

theorem fresh_opened {inside : Unfolding} {target : Value} (unopened : key ∉ opened)
    (found : schemas.find? key = some target) (fresh : inside.Fresh schemas (key :: opened)) :
    (Unfolding.opened key inside).Fresh schemas opened where
  branch := by
    intro keys branch
    cases branch with
    | stop => exact ⟨.nil, by simp⟩
    | @opened _ _ keys rest =>
        obtain ⟨distinct, others⟩ := fresh.branch keys rest
        have first : key ∉ keys := fun member => (others key member).1 List.mem_cons_self
        have known : key ∈ schemas.map Prod.fst := List.mem_map_of_mem (Schemas.mem_of_find found)
        refine ⟨List.nodup_cons.mpr ⟨first, distinct⟩, List.forall_mem_cons.mpr
          ⟨⟨unopened, known⟩, fun other member => ?_⟩⟩
        obtain ⟨apart, held⟩ := others other member
        exact ⟨fun before => apart (List.mem_cons_of_mem _ before), held⟩
  test := by
    intro test made
    cases made with
    | opened rest => exact fresh.test test rest

theorem fresh_tested {test after : Unfolding} (own : test.OpensOnce schemas)
    (fresh : after.Fresh schemas opened) : (tested test after).Fresh schemas opened where
  branch := by
    intro keys branch
    cases branch with
    | stop => exact ⟨.nil, by simp⟩
    | after rest => exact fresh.branch keys rest
  test := by
    intro other made
    cases made with
    | here => exact own
    | after rest => exact fresh.test other rest

end Unfolding

section Once

variable {schemas : Schemas} {context : TypeContext}

open Unfolding

mutual

theorem MergeRun.fresh {opened : List String} {schema : Value} {result : Except Error Value}
    {tree : Unfolding} (run : MergeRun schemas opened schema result tree) :
    tree.Fresh schemas opened := by
  match run with
  | .loose _ => exact fresh_nil
  | .kept _ => exact fresh_nil
  | .merged _ _ gathered => exact fresh_parts gathered.fresh

theorem PartRun.fresh {opened : List String} {part : Value} {flat : Except Error Value}
    {tree : Unfolding} (run : PartRun schemas opened part flat tree) :
    tree.Fresh schemas opened := by
  match run with
  | .own _ inner => exact inner.fresh
  | .target _ unopened found inner => exact fresh_opened unopened found inner.fresh

theorem GatherRun.fresh {opened : List String} {parts : List Value} {members : Members}
    {result : Except Error Members} {trees : List Unfolding}
    (run : GatherRun schemas opened parts members result trees) :
    ∀ tree ∈ trees, tree.Fresh schemas opened := by
  match run with
  | .nil => simp
  | .strange _ _ => simp
  | .closed _ _ others => exact others.fresh
  | .failed first _ => exact List.forall_mem_cons.mpr ⟨first.fresh, by simp⟩
  | .added first _ others => exact List.forall_mem_cons.mpr ⟨first.fresh, others.fresh⟩

end

theorem TestRun.opensOnce {key : String} {target : Value} {verdict : Except Error Bool}
    {tree : Unfolding} (run : TestRun schemas key target verdict tree) :
    tree.OpensOnce schemas := by
  cases run with
  | unnamed other => exact (@fresh_nil schemas []).opensOnce
  | merged named merged => exact merged.fresh.opensOnce

mutual

theorem TypingRun.fresh {opened : List String} {schema : Value} {result : Except Error Typed}
    {tree : Unfolding} (run : TypingRun context opened schema result tree) :
    tree.Fresh context.schemas opened := by
  match run with
  | .shorthand => exact fresh_nil
  | .other _ _ => exact fresh_nil
  | .broken _ _ => exact fresh_nil
  | .reference _ _ inner => exact inner.fresh
  | .variants _ _ all => exact fresh_parts all.fresh
  | .part _ _ inner => exact inner.fresh
  | .settled _ _ => exact fresh_nil

theorem VariantsRun.fresh {opened : List String} {variants : List Value}
    {result : Except Error TypedVariants} {trees : List Unfolding}
    (run : VariantsRun context opened variants result trees) :
    ∀ tree ∈ trees, tree.Fresh context.schemas opened := by
  match run with
  | .nil => simp
  | .null _ others => exact others.fresh
  | .failed _ first => exact List.forall_mem_cons.mpr ⟨first.fresh, by simp⟩
  | .typed _ first others => exact List.forall_mem_cons.mpr ⟨first.fresh, others.fresh⟩

theorem ReferenceRun.fresh {opened : List String} {ref : String} {result : Except Error Typed}
    {tree : Unfolding} (run : ReferenceRun context opened ref result tree) :
    tree.Fresh context.schemas opened := by
  match run with
  | .mapped _ => exact fresh_nil
  | .primitive _ _ => exact fresh_nil
  | .closed _ _ _ => exact fresh_nil
  | .strange _ _ _ => exact fresh_nil
  | .aliased opens _ inner => exact fresh_opened opens.fresh opens.found inner.fresh
  | .failed _ _ judged => exact fresh_tested judged.opensOnce fresh_nil
  | .model _ _ judged => exact fresh_tested judged.opensOnce fresh_nil
  | .inPlace opens _ judged inner =>
      exact fresh_tested judged.opensOnce (fresh_opened opens.fresh opens.found inner.fresh)

end

end Once

/-- In every collection, cyclic or not, the parts of every schema are merged and its type is found.
Whatever way the rules go from no key opened, it ends with what is computed and opens no key twice
on a branch, so that at most as many are opened one inside the other as the collection has. So does
each test for a model on the way, which begins with no key opened wherever it is made. -/
theorem unfolding_ends (context : TypeContext) (schema : Value) :
    (∃ tree, MergeRun context.schemas [] schema (flatten context.schemas schema) tree) ∧
    (∀ result tree, MergeRun context.schemas [] schema result tree →
      result = flatten context.schemas schema ∧ tree.OpensOnce context.schemas) ∧
    (∃ tree, TypingRun context [] schema (typeOf context context.schemas schema) tree) ∧
    ∀ result tree, TypingRun context [] schema result tree →
      result = typeOf context context.schemas schema ∧ tree.OpensOnce context.schemas ∧
        ∀ test, tree.HasTest test → test.OpensOnce context.schemas := by
  have merges (result : Except Error Value) (tree : Unfolding)
      (run : MergeRun context.schemas [] schema result tree) :
      result = flatten context.schemas schema ∧ tree.OpensOnce context.schemas :=
    ⟨run.sound.symm, run.fresh.opensOnce⟩
  have types (result : Except Error Typed) (tree : Unfolding)
      (run : TypingRun context [] schema result tree) :
      result = typeOf context context.schemas schema ∧ tree.OpensOnce context.schemas ∧
        ∀ test, tree.HasTest test → test.OpensOnce context.schemas :=
    ⟨run.sound.symm, run.fresh.opensOnce, run.fresh.test⟩
  refine ⟨?_, merges, ?_, types⟩
  · obtain ⟨result, tree, run⟩ := exists_mergeRun context.schemas [] schema
    rw [← (merges result tree run).1]
    exact ⟨tree, run⟩
  · obtain ⟨result, tree, run⟩ := exists_typingRun context [] schema
    rw [← (types result tree run).1]
    exact ⟨tree, run⟩

section Trees

def treeSchemas : Schemas :=
  [("branch", .record [("$ref", .text (refTo "tree"))]),
    ("tree", .record [("type", .text "array"),
      ("items", .record [("$ref", .text (refTo "branch"))])])]

def branchSchema : Value := .record [("$ref", .text (refTo "branch"))]

theorem unfolding_ends_trees : ∃ tree : Unfolding, tree.Branch ["branch", "tree"] ∧
    TypingRun ⟨[], treeSchemas⟩ [] branchSchema
      (.ok ⟨.array (.plain "branch"), [refTo "branch"], ["branch"]⟩) tree ∧
    typeOf ⟨[], treeSchemas⟩ treeSchemas branchSchema =
      .ok ⟨.array (.plain "branch"), [refTo "branch"], ["branch"]⟩ ∧
    tree.OpensOnce treeSchemas := by
  have branchKey : schemaKey (refTo "branch") = "branch" := by decide
  have treeKey : schemaKey (refTo "tree") = "tree" := by decide
  have opensBranch : OpensKey ⟨[], treeSchemas⟩ [] (refTo "branch")
      (.record [("$ref", .text (refTo "tree"))]) :=
    ⟨rfl, by decide, by simp, by rw [branchKey]; rfl⟩
  have opensTree : OpensKey ⟨[], treeSchemas⟩ [schemaKey (refTo "branch")] (refTo "tree")
      (.record [("type", .text "array"), ("items", branchSchema)]) :=
    ⟨rfl, by decide, by decide, by rw [treeKey]; rfl⟩
  have decoded : SchemaName.parse [] (refTo "branch") = ⟨"branch", "branch"⟩ := by decide
  have named : Typed.named ⟨[], treeSchemas⟩ (refTo "branch") =
      ⟨.plain "branch", [refTo "branch"], ["branch"]⟩ := by
    rw [Typed.named, decoded]
  have again : ReferenceRun ⟨[], treeSchemas⟩
      [schemaKey (refTo "tree"), schemaKey (refTo "branch")] (refTo "branch")
      (.ok (.named ⟨[], treeSchemas⟩ (refTo "branch"))) (.parts []) :=
    .closed rfl (by decide) (.inl (by simp))
  rw [named] at again
  have items : TypingRun ⟨[], treeSchemas⟩
      [schemaKey (refTo "tree"), schemaKey (refTo "branch")]
      (.record [("type", .text "array"), ("items", branchSchema)])
      (.ok ⟨.array (.plain "branch"), [refTo "branch"], ["branch"]⟩) (.parts []) :=
    .part ⟨rfl, rfl, rfl, rfl⟩ rfl (.reference rfl (by decide) again)
  have run : TypingRun ⟨[], treeSchemas⟩ [] branchSchema
      (.ok ⟨.array (.plain "branch"), [refTo "branch"], ["branch"]⟩) _ :=
    .reference rfl (by decide) (.aliased opensBranch rfl
      (.inPlace opensTree rfl (.unnamed (by rw [treeKey]; decide)) items))
  obtain ⟨-, -, -, ends⟩ := unfolding_ends ⟨[], treeSchemas⟩ branchSchema
  obtain ⟨found, once, -⟩ := ends _ _ run
  rw [branchKey, treeKey] at run once
  exact ⟨_, .opened (.after (.opened (.stop _))), run, found.symm, once⟩

end Trees

end TypedClient
