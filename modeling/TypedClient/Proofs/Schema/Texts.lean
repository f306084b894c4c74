import TypedClient.Proofs.Schema.References

/-!
What the texts of the types of a document have in common: a property that base types have, and that
passes to each text from those that it is made of. One is that all names are known: those that the
references decode to, those of the literals and those that the language or the user's choices bring.
-/

namespace TypedClient

structure TextRules (P : String → Prop) : Prop where
  base : ∀ {text}, isBaseType text = true → P text
  array : ∀ {text}, P text → P (PropertyType.grouped text ++ "[]")
  record : ∀ {text}, P text → P ("Record<string, " ++ text ++ ">")
  joined : ∀ {separator texts}, separator = " | " ∨ separator = " & " → texts ≠ [] →
    (∀ text ∈ texts, P text) → P (separator.intercalate texts)

/-- The names that the references of a schema decode to have a property, unless a primitive type
stands for them, and so have the literals of every `enum` and what the user chooses for a name. -/
structure TextSource (mapping : TypeMapping) (P : String → Prop) (Schema : Value → Prop) :
    Prop where
  passes : PassesDown Schema
  chosen : ∀ {name type}, Schema (.text name) → mapping.lookup name = some type → P type
  chosenRefs : ∀ {value ref type}, Schema value → EntryWithin (.text "$ref", .text ref) value →
    mapping.lookup (SchemaName.parse mapping ref).typeName = some type → P type
  refs : ∀ {value ref}, Schema value → EntryWithin (.text "$ref", .text ref) value →
    isPrimitiveRef ⟨mapping, []⟩ ref = false → P (SchemaName.parse mapping ref).typeName
  literals : ∀ {value choices items}, Schema value → EntryWithin (.text "enum", choices) value →
    choices.elements = .ok items → ∀ item ∈ items, P (literalText item)

theorem ne_nil_of_true {value : Value} {items : List Value} (holds : value.isTrue = true)
    (listed : value.elements = .ok items) : items ≠ [] := by
  rintro rfl
  cases value with
  | list own =>
      obtain rfl : own = [] := by simpa [Value.elements] using listed
      cases holds
  | object entries =>
      obtain rfl : entries = [] := by simpa [Value.elements] using listed
      cases holds
  | scalar s =>
      cases s with
      | text text =>
          have none : text.toList = [] := by simpa [Value.elements] using listed
          obtain rfl : text = "" := by simpa using none
          cases holds
      | _ => cases listed

namespace TextRules

variable {P : String → Prop} {context : TypeContext} {Schema : Value → Prop}

theorem ofName (rules : TextRules P) {mapping : TypeMapping} {name : String}
    (chosen : ∀ type, mapping.lookup name = some type → P type) :
    P (PropertyType.ofName mapping name).render := by
  cases found : mapping.find? name with
  | none =>
      rw [PropertyType.ofName, found]
      change P "any"
      exact rules.base (by decide)
  | some type =>
      rw [PropertyType.ofName, found]
      rcases find_cases found with own | base
      · exact chosen type own
      · exact rules.base base

theorem ofVariants (rules : TextRules P) {name : String}
    {form : List PropertyType → PropertyType} {types : List PropertyType}
    (joins : (name, form) ∈ variantForms) (all : ∀ type ∈ types, P type.render) :
    P (PropertyType.ofVariants form types).render := by
  by_cases given : types = []
  · rw [given]
    change P "any"
    exact rules.base (by decide)
  · obtain ⟨separator, mark, text⟩ := render_ofVariants joins given
    rw [text]
    refine rules.joined mark ?_ fun text member => ?_
    · exact eraseDups_ne_nil (by simpa using given)
    · obtain ⟨type, inside, rfl⟩ := List.mem_map.mp (List.mem_eraseDups.mp member)
      exact all type inside

theorem ofEnum (rules : TextRules P) {choices : Value} {items : List Value} {type : PropertyType}
    (holds : choices.isTrue = true) (listed : choices.elements = .ok items)
    (literals : ∀ item ∈ items, P (literalText item))
    (made : PropertyType.ofEnum choices = .ok type) : P type.render := by
  rw [PropertyType.ofEnum, listed] at made
  cases made
  change P (" | ".intercalate (items.map literalText).eraseDups)
  refine rules.joined (.inl rfl) ?_ fun text member => ?_
  · exact eraseDups_ne_nil (by simpa using ne_nil_of_true holds listed)
  · obtain ⟨item, inside, rfl⟩ := List.mem_map.mp (List.mem_eraseDups.mp member)
    exact literals item inside

/-- The types of a schema have the property, whatever is written out in place. -/
theorem typing (rules : TextRules P) (source : TextSource context.mapping P Schema) :
    TypingRules context
      (fun remaining schema typed => Schema schema → (∀ entry ∈ remaining, Schema entry.2) →
        P typed.type.render)
      (fun remaining ref typed =>
        (∃ value, Schema value ∧ EntryWithin (.text "$ref", .text ref) value) →
        (∀ entry ∈ remaining, Schema entry.2) → P typed.type.render) where
  shorthand _ name whole _ := rules.ofName fun _ => source.chosen whole
  other _ _ _ _ _ _ := rules.base (by decide)
  reference held inner whole known :=
    inner ⟨_, whole, .here (Entries.mem_of_field held)⟩ known
  variants := by
    intro remaining entries name form variants parts joins found each whole known
    refine rules.ofVariants joins fun type member => ?_
    obtain ⟨part, place, rfl⟩ := List.mem_map.mp member
    obtain ⟨variant, inside, inner⟩ := partner_of_mem each place
    have given := source.passes.variants whole found
    exact inner (given variant (List.mem_of_mem_filter inside)) known
  array := by
    intro remaining entries items item form inner whole known
    rw [SchemaForm.eq_items form] at inner
    exact rules.array (inner (source.passes.field whole _) known)
  anyArray _ _ _ _ := rules.array (rules.base (by decide))
  choices := by
    intro remaining entries choices type form made whole _
    obtain ⟨items, listed, -⟩ := (bind_eq_ok _ _ _).mp made
    exact rules.ofEnum (SchemaForm.true_of_choices form) listed
      (source.literals whole (EntryWithin.of_choices form listed) listed) made
  record := by
    intro remaining entries value typed form inner whole known
    rw [SchemaForm.eq_record form] at inner
    exact rules.record (inner (source.passes.field whole _) known)
  structured _ _ _ := rules.base (by decide)
  keyword := by
    intro remaining entries keyword type form made whole _
    have given := source.passes.field whole "type"
    rw [← SchemaForm.eq_keyword form] at given
    rw [PropertyType.ofTypeField.eq_def] at made
    split at made
    · cases made
      exact rules.ofName fun _ => source.chosen given
    · cases made
      exact rules.base (by decide)
    · cases made
  chosen := by
    rintro remaining ref chosen found ⟨value, whole, within⟩ _
    exact source.chosenRefs whole within found
  primitive := by
    intro remaining ref primitive _ _
    rw [isPrimitiveRef, Bool.and_eq_true] at primitive
    exact rules.base primitive.1
  unopened := by
    rintro remaining ref foreign _ ⟨value, whole, within⟩ _
    exact source.refs whole within foreign
  aliased := by
    intro remaining ref target next typed _ found held inner _ known
    have own := known _ (Schemas.mem_of_find found)
    exact inner ⟨target, own, EntryWithin.of_ref held⟩ fun entry member =>
      known entry (List.mem_of_mem_filter member)
  model := by
    rintro remaining ref target foreign _ _ _ ⟨value, whole, within⟩ _
    exact source.refs whole within foreign
  inPlace := by
    intro remaining ref target typed _ found _ _ inner _ known
    exact inner (known _ (Schemas.mem_of_find found)) fun entry member =>
      known entry (List.mem_of_mem_filter member)

end TextRules

open TypeExpr

/-- The names that references decode to are known, unless a primitive type stands for them, and so
are those in the literals of every `enum`. -/
structure NamedValue (mapping : TypeMapping) (Known : String → Prop) (value : Value) : Prop where
  refs : ∀ ref, EntryWithin (.text "$ref", .text ref) value →
    isPrimitiveRef ⟨mapping, []⟩ ref = false →
    NamesAmong Known (SchemaName.parse mapping ref).typeName.toList
  literals : ∀ choices items, EntryWithin (.text "enum", choices) value →
    choices.elements = .ok items → ∀ item ∈ items, NamesAmong Known (literalText item).toList

theorem NamedValue.hereditary (mapping : TypeMapping) (Known : String → Prop) :
    Hereditary (NamedValue mapping Known) where
  scalar s := ⟨fun _ within => (by cases within), fun _ _ within => (by cases within)⟩
  item whole item member :=
    ⟨fun ref within => whole.refs ref (.item member within),
      fun choices items within => whole.literals choices items (.item member within)⟩
  entry whole entry member :=
    ⟨fun ref within => whole.refs ref (.entry member within),
      fun choices items within => whole.literals choices items (.entry member within)⟩

theorem NamedValue.source {mapping : TypeMapping} {Known : String → Prop}
    (chosen : ∀ choice ∈ mapping, NamesAmong Known choice.2.toList) :
    TextSource mapping (fun text => NamesAmong Known text.toList) (NamedValue mapping Known) where
  passes := (NamedValue.hereditary mapping Known).toPassesDown
  chosen _ found := chosen _ (mem_of_lookup found)
  chosenRefs _ _ found := chosen _ (mem_of_lookup found)
  refs whole within := whole.refs _ within
  literals whole within := whole.literals _ _ within

theorem namedTexts {Known : String → Prop} (builtin : ∀ name, isBuiltin name = true → Known name) :
    TextRules fun text => NamesAmong Known text.toList where
  base := among_baseType builtin _
  array := among_array
  record := among_record builtin
  joined mark _ all := by
    rcases mark with rfl | rfl
    · exact among_joined (by decide) (by decide) all
    · exact among_joined (by decide) (by decide) all

structure NamedContext (context : TypeContext) (Known : String → Prop) : Prop where
  builtin : ∀ name, isBuiltin name = true → Known name
  chosen : ∀ choice ∈ context.mapping, NamesAmong Known choice.2.toList
  schemas : ∀ entry ∈ context.schemas, NamedValue context.mapping Known entry.2

namespace NamedContext

variable {context : TypeContext} {Known : String → Prop}

/-- The names in the type of a schema are known, whatever is written out in place. -/
theorem typeOf (named : NamedContext context Known) {schema : Value} {typed : Typed}
    (whole : NamedValue context.mapping Known schema)
    (found : typeOf context context.schemas schema = .ok typed) :
    NamesAmong Known typed.type.render.toList :=
  ((namedTexts named.builtin).typing (NamedValue.source named.chosen)).ofSchema _ _ _ found whole
    named.schemas

end NamedContext

end TypedClient
