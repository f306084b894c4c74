import TypedClient.Proofs.Ignore.Native
import TypedClient.Proofs.Schema.Inlined
import TypedClient.Proofs.Schema.Texts

namespace TypedClient

open TypeExpr

/-- No reference stands in a value, at any depth. -/
def RefFree (value : Value) : Prop :=
  ∀ held, ¬ EntryWithin (.text "$ref", held) value

/-- The literal of a choice is an integer, `null`, a number written without letters, or a text in
quotes whose backslashes escape nothing. -/
def isSilent : Value → Bool
  | .bool _ => false
  | .int _ => true
  | .scalar (.float x) => (Scalar.float x).display.toList.all fun c => c != '\'' && !isNameStart c
  | .null => true
  | other => escapesApart other.display.toList

/-- Every `enum` at any depth holds silent choices only. -/
def ChoicesSilent (value : Value) : Prop :=
  ∀ choices items, EntryWithin (.text "enum", choices) value → choices.elements = .ok items →
    ∀ item ∈ items, isSilent item = true

/-- A schema whose type can be told: where a `type` is asked for it is a scalar, and where an `enum`
is, it has elements. -/
inductive Typable : Value → Prop
  | other {schema} (loose : schema.isObject = false) : Typable schema
  | variants {entries form variants} (chosen : chosenVariants? entries = some (form, variants))
      (each : ∀ variant ∈ variants, isNullSchema variant = false → Typable variant) :
      Typable (.object entries)
  | array {entries items} (plain : IsPlainSchema entries)
      (form : SchemaForm.ofEntries entries = .array items)
      (inner : items.isTrue = true → Typable items) : Typable (.object entries)
  | choices {entries choices items} (plain : IsPlainSchema entries)
      (form : SchemaForm.ofEntries entries = .enum choices)
      (listed : choices.elements = .ok items) : Typable (.object entries)
  | record {entries value} (plain : IsPlainSchema entries)
      (form : SchemaForm.ofEntries entries = .record value) (inner : Typable value) :
      Typable (.object entries)
  | structured {entries} (plain : IsPlainSchema entries)
      (form : SchemaForm.ofEntries entries = .object) : Typable (.object entries)
  | keyword {entries s} (plain : IsPlainSchema entries)
      (form : SchemaForm.ofEntries entries = .named (.scalar s)) : Typable (.object entries)

/-- The literal of a silent choice is `null`, holds no name, or stands in quotes that it closes. -/
theorem literal_of_isSilent {choice : Value} (silent : isSilent choice = true) :
    literalText choice = "null" ∨
    (∀ c ∈ (literalText choice).toList, c ≠ '\'' ∧ isNameStart c = false) ∨
    ∃ text, literalText choice = "'" ++ replaceText "'" "\\'" text ++ "'" ∧
      escapesApart text.toList = true := by
  cases choice with
  | scalar s =>
      cases s with
      | null => exact .inl rfl
      | bool b => cases silent
      | int n => exact .inr (.inl (int_unnamed n))
      | float x =>
          refine .inr (.inl fun c member => ?_)
          simpa using List.all_eq_true.mp silent c member
      | text text => exact .inr (.inr ⟨_, rfl, silent⟩)
      | foreign value => exact .inr (.inr ⟨_, rfl, silent⟩)
  | list items => exact .inr (.inr ⟨_, rfl, silent⟩)
  | object entries => exact .inr (.inr ⟨_, rfl, silent⟩)

theorem inert_of_isSilent {choice : Value} (silent : isSilent choice = true) : IsInert choice := by
  rcases literal_of_isSilent silent with null | unnamed | ⟨text, quoted, apart⟩
  · rw [IsInert, null]
    exact NamesAmong.name (by decide) (by decide)
  · exact NamesAmong.unnamed unnamed
  · exact inert_quoted quoted apart

theorem native_of_isSilent {choice : Value} (silent : isSilent choice = true) :
    NativeText (literalText choice) := by
  rcases literal_of_isSilent silent with null | unnamed | ⟨text, quoted, -⟩
  · rw [null]
    exact .of_builtin (by decide)
  · exact .of_silent unnamed
  · refine .of_mark (c := '\'') ?_ (by decide)
    rw [quoted]
    simp

theorem ChoicesSilent.hereditary : Hereditary ChoicesSilent where
  scalar s := fun _ _ within => by cases within
  item whole item member := fun choices items within => whole choices items (.item member within)
  entry whole entry member := fun choices items within => whole choices items (.entry member within)

namespace RefFree

theorem hereditary : Hereditary RefFree where
  scalar s := fun _ within => by cases within
  item whole item member := fun held within => whole held (.item member within)
  entry whole entry member := fun held within => whole held (.entry member within)

variable {context : TypeContext} {remaining : Schemas} {schema : Value}

theorem own {entries : Entries} (free : RefFree (.object entries)) :
    (Entries.field entries "$ref").isTrue = false := by
  unfold Entries.field
  cases found : Entries.find? entries "$ref" with
  | none => rfl
  | some value => exact absurd (.here (Entries.mem_of_find? found)) (free value)

theorem variants {entries : Entries} {form : List PropertyType → PropertyType}
    {variants : List Value} (free : RefFree (.object entries))
    (chosen : chosenVariants? entries = some (form, variants)) :
    ∀ variant ∈ variants, RefFree variant := by
  rcases chosenVariants_cases chosen with ⟨found, -⟩ | ⟨-, -, found | ⟨-, found⟩⟩
  · exact hereditary.variants free found
  · exact hereditary.variants free found
  · exact hereditary.variants free found

theorem items {entries : Entries} {items : Value} (free : RefFree (.object entries))
    (form : SchemaForm.ofEntries entries = .array items) : RefFree items := by
  rw [SchemaForm.eq_items form]
  exact hereditary.field free _

theorem additional {entries : Entries} {value : Value} (free : RefFree (.object entries))
    (form : SchemaForm.ofEntries entries = .record value) : RefFree value := by
  rw [SchemaForm.eq_record form]
  exact hereditary.field free _

theorem loose (free : RefFree schema) (ref : String) : ¬ Follows ref schema := by
  intro follows
  induction follows with
  | reference held given =>
      have none := free.own
      rw [held] at none
      simp [Value.isTrue, Scalar.isTrue, given] at none
  | variant own chosen member given inner ih => exact ih (free.variants chosen _ member)
  | item plain form given inner ih => exact ih (free.items form)
  | entry plain form inner ih => exact ih (free.additional form)

theorem typeOf_alone (free : RefFree schema) :
    typeOf context remaining schema = typeOf ⟨context.mapping, []⟩ [] schema := by
  have alike : AlikeOn (fun _ => False) context ⟨context.mapping, []⟩ remaining [] :=
    ⟨rfl, False.elim, False.elim, False.elim⟩
  exact alike.typeOf_eq fun ref follows => free.loose ref follows

theorem refs (free : RefFree schema) (unmapped : context.mapping = []) {typed : Typed}
    (found : typeOf context remaining schema = .ok typed) : typed.refs = [] := by
  rw [free.typeOf_alone, unmapped] at found
  have records := (@mem_refs [] []).1 schema typed found
  refine List.eq_nil_iff_forall_not_mem.mpr fun last member => ?_
  obtain ⟨ref, follows, -⟩ := (records last).mp member
  exact free.loose ref follows

end RefFree

/-- No reference stands in a value, and no literal of its choices names anything. -/
structure Standalone (value : Value) : Prop where
  free : RefFree value
  silent : ChoicesSilent value

namespace Standalone

theorem hereditary : Hereditary Standalone where
  scalar s := ⟨RefFree.hereditary.scalar s, ChoicesSilent.hereditary.scalar s⟩
  item whole item member :=
    ⟨RefFree.hereditary.item whole.free item member,
      ChoicesSilent.hereditary.item whole.silent item member⟩
  entry whole entry member :=
    ⟨RefFree.hereditary.entry whole.free entry member,
      ChoicesSilent.hereditary.entry whole.silent entry member⟩

/-- The text of the type of such a schema has what its literals and all texts made of them have. -/
theorem text {context : TypeContext} {remaining : Schemas} {schema : Value} {typed : Typed}
    {P : String → Prop} (rules : TextRules P)
    (literal : ∀ {choice}, isSilent choice = true → P (literalText choice))
    (whole : Standalone schema) (unmapped : context.mapping = [])
    (found : typeOf context remaining schema = .ok typed) : P typed.type.render := by
  have source : TextSource [] P Standalone :=
    { passes := hereditary.toPassesDown
      chosen := fun _ found => by cases found
      chosenRefs := fun _ _ found => by cases found
      refs := fun own within => absurd within (own.free _)
      literals := fun own within listed item member =>
        literal (own.silent _ _ within listed item member) }
  rw [whole.free.typeOf_alone, unmapped] at found
  exact (rules.typing source).ofSchema _ _ _ found whole (by simp)

end Standalone

theorem typesOf_total {context : TypeContext} {remaining : Schemas} {variants : List Value}
    (each : ∀ variant ∈ variants, isNullSchema variant = false →
      ∃ typed, typeOf context remaining variant = .ok typed) :
    ∃ gathered, typesOf context remaining variants = .ok gathered := by
  induction variants with
  | nil => exact ⟨_, typesOf_nil⟩
  | cons variant rest ih =>
      rw [List.forall_mem_cons] at each
      obtain ⟨gathered, others⟩ := ih each.2
      cases null : isNullSchema variant with
      | true => exact ⟨gathered, (typesOf_null null rest).trans others⟩
      | false =>
          obtain ⟨first, typed⟩ := each.1 null
          rw [typesOf_cons null, typed, others]
          exact ⟨_, rfl⟩

theorem Typable.typeOf {schema : Value} (typable : Typable schema) (free : RefFree schema)
    (context : TypeContext) (remaining : Schemas) :
    ∃ typed, typeOf context remaining schema = .ok typed := by
  induction typable with
  | @other schema loose =>
      by_cases named : ∃ name, schema = .text name
      · obtain ⟨name, rfl⟩ := named
        rw [TypedClient.typeOf]
        exact ⟨_, rfl⟩
      · exact ⟨_, typeOf_other (fun name same => named ⟨name, same⟩) loose⟩
  | variants chosen each ih =>
      obtain ⟨gathered, all⟩ := typesOf_total fun variant member given =>
        ih variant member given (free.variants chosen variant member)
      rw [typeOf_chosenVariants free.own chosen, all]
      exact ⟨_, rfl⟩
  | @array entries items plain form inner ih =>
      rw [typeOf_plain plain, form]
      cases given : items.isTrue with
      | false => exact ⟨_, typeOfForm_loose given⟩
      | true =>
          obtain ⟨item, typed⟩ := ih given (free.items form)
          rw [typeOfForm_array given, typed]
          exact ⟨_, rfl⟩
  | choices plain form listed =>
      rw [typeOf_plain plain, form, typeOfForm, PropertyType.ofEnum, listed]
      exact ⟨_, rfl⟩
  | record plain form inner ih =>
      obtain ⟨value, typed⟩ := ih (free.additional form)
      rw [typeOf_plain plain, form, typeOfForm, typed]
      exact ⟨_, rfl⟩
  | structured plain form =>
      rw [typeOf_plain plain, form]
      exact ⟨_, rfl⟩
  | @keyword entries s plain form =>
      rw [typeOf_plain plain, form, typeOfForm]
      cases s <;> exact ⟨_, rfl⟩

end TypedClient
