import TypedClient.Proofs.Ignore.Stripped
import TypedClient.Proofs.Schema.Texts

namespace TypedClient

open TypeExpr

/-- If the text is read as a type at all, it is the text of a tree that is read as it stands, inside
brackets too, and the names around it are known. -/
def Steady (Known : String → Prop) (text : String) : Prop :=
  isPlainType text = true → ∃ node : TypeNode, node.Settled true ∧ node.printsAsIs = true ∧
    text = node.toText ∧ ∀ name ∈ node.wrappers, IsLookedUp name → Known name

theorem isPlainType_append (front back : String) :
    isPlainType (front ++ back) = (isPlainType front && isPlainType back) := by
  simp [isPlainType]

theorem isPlainType_of_mem {text : String} {c : Char} (member : c ∈ text.toList)
    (mark : c ∈ "'\"|&\x7b\x7d();:".toList) : isPlainType text = false := by
  rw [isPlainType, List.all_eq_false]
  refine ⟨c, member, ?_⟩
  rw [List.contains_iff_mem.mpr mark]
  decide

/-- What is joined of several texts is not read as a type. -/
theorem isPlainType_joined {separator : String} (mark : separator = " | " ∨ separator = " & ")
    (first second : String) (rest : List String) :
    isPlainType (separator.intercalate (first :: second :: rest)) = false := by
  have inside : ∀ c ∈ separator.toList,
      c ∈ (separator.intercalate (first :: second :: rest)).toList := by
    intro c member
    rw [String.toList_intercalate, List.map_cons, List.map_cons, List.intercalate_cons_cons]
    simp [member]
  rcases mark with rfl | rfl
  · exact isPlainType_of_mem (inside '|' (by decide)) (by decide)
  · exact isPlainType_of_mem (inside '&' (by decide)) (by decide)

theorem TypeNode.wrappers_depth (name : String) (args : List TypeNode) (depth other : Nat) :
    (TypeNode.mk name args depth).wrappers = (TypeNode.mk name args other).wrappers := by
  cases args with
  | nil => simp [wrappers]
  | cons first rest => simp [wrappers]

namespace Steady

variable {Known : String → Prop} {text : String}

theorem lasting (steady : Steady Known text) : Lasting text := by
  intro plain
  obtain ⟨node, settled, asIs, same, -⟩ := steady plain
  exact ⟨node, settled.outer, asIs, same⟩

theorem wrappers (steady : Steady Known text) (plain : isPlainType text = true) {name : String}
    (member : name ∈ (TypeNode.parse text).wrappers) (lookedUp : IsLookedUp name) : Known name := by
  obtain ⟨node, settled, asIs, same, known⟩ := steady plain
  rw [same, parse_toText settled.outer asIs] at member
  exact known name member lookedUp

theorem of_mark {c : Char} (member : c ∈ text.toList) (mark : c ∈ "'\"|&\x7b\x7d();:".toList) :
    Steady Known text := by
  intro plain
  rw [isPlainType_of_mem member mark] at plain
  cases plain

theorem name (given : text ≠ "") (plain : ∀ c ∈ text.toList, c.isAlphanum = true)
    (other : text ≠ "List") (known : IsLookedUp text → Known text) : Steady Known text := by
  intro _
  refine ⟨⟨text, [], 0⟩, ⟨.of_isAlphanum given plain true, trivial⟩, ?_, ?_, ?_⟩
  · simp [TypeNode.printsAsIs, TypeNode.allPrintAsIs, other]
  · rw [toText_eq (by simp [TypeNode.printsAsIs, TypeNode.allPrintAsIs, other])]
    simp [TypeNode.arraySuffix]
  · intro name member lookedUp
    obtain rfl : name = text := by simpa [TypeNode.wrappers] using member
    exact known lookedUp

theorem baseType (base : isBaseType text = true) : Steady Known text := by
  obtain ⟨given, plain, other⟩ := plain_baseType base
  exact name given plain other fun lookedUp => absurd base (by simp [lookedUp.foreign])

theorem array (steady : Steady Known text) : Steady Known (PropertyType.grouped text ++ "[]") := by
  rw [PropertyType.grouped]
  split
  · exact of_mark (c := '(') (by simp) (by decide)
  · intro plain
    rw [isPlainType_append, Bool.and_eq_true] at plain
    obtain ⟨⟨name, args, depth⟩, settled, asIs, same, known⟩ := steady plain.1
    refine ⟨⟨name, args, depth + 1⟩, settled, asIs, ?_, ?_⟩
    · rw [same, toText_eq asIs, toText_eq (by simpa [TypeNode.printsAsIs] using asIs),
        arraySuffix_succ, String.append_assoc]
    · rw [TypeNode.wrappers_depth name args (depth + 1) depth]
      exact known

theorem record (known : Known "Record") (steady : Steady Known text) :
    Steady Known ("Record<string, " ++ text ++ ">") := by
  intro plain
  have inner : isPlainType text = true := by
    simp only [isPlainType_append, Bool.and_eq_true] at plain
    exact plain.1.2
  obtain ⟨node, settled, asIs, same, -⟩ := steady inner
  have word (name : String) (given : name ≠ "") (all : name.toList.all Char.isAlphanum = true) :
      IsSettledName true name := .of_isAlphanum given (List.all_eq_true.mp all) true
  have record := word "Record" (by decide) (by decide)
  have key := word "string" (by decide) (by decide)
  have printed : (⟨"Record", [⟨"string", [], 0⟩, node], 0⟩ : TypeNode).printsAsIs = true := by
    simp [TypeNode.printsAsIs, TypeNode.allPrintAsIs, asIs]
  refine ⟨⟨"Record", [⟨"string", [], 0⟩, node], 0⟩, ?_, printed, ?_, ?_⟩
  · exact ⟨record, ⟨key, trivial⟩, settled, trivial⟩
  · have string : (⟨"string", [], 0⟩ : TypeNode).toText = "string" := (toText_baseType rfl).2
    rw [toText_eq printed]
    simp only [TypeNode.renderAll, render_id, string, ← same, List.isEmpty_cons]
    apply String.toList_inj.mp
    simp [TypeNode.arraySuffix]
  · intro name member lookedUp
    simp only [TypeNode.wrappers, List.mem_cons, List.not_mem_nil, or_false] at member
    rcases member with rfl | rfl
    · exact known
    · exact absurd lookedUp.foreign (by decide)

theorem joined {separator : String} {texts : List String} (given : texts ≠ [])
    (mark : separator = " | " ∨ separator = " & ") (all : ∀ text ∈ texts, Steady Known text) :
    Steady Known (separator.intercalate texts) := by
  match texts, given with
  | [text], _ =>
      rw [String.intercalate_singleton]
      exact all text (by simp)
  | first :: second :: rest, _ =>
      intro plain
      rw [isPlainType_joined mark] at plain
      cases plain

theorem texts (record : Known "Record") : TextRules (Steady Known) where
  base := baseType
  array := array
  record := Steady.record record
  joined mark given all := joined given mark all

end Steady

/-- The names that references decode to are steady, and so are the literals of every `enum`. -/
structure SteadyValue (mapping : TypeMapping) (Known : String → Prop) (value : Value) : Prop where
  refs : ∀ ref, EntryWithin (.text "$ref", .text ref) value →
    Steady Known (SchemaName.parse mapping ref).typeName
  choices : ∀ choices items, EntryWithin (.text "enum", choices) value →
    choices.elements = .ok items → ∀ item ∈ items, Steady Known (literalText item)

theorem SteadyValue.hereditary (mapping : TypeMapping) (Known : String → Prop) :
    Hereditary (SteadyValue mapping Known) where
  scalar s := ⟨fun _ within => (by cases within), fun _ _ within => (by cases within)⟩
  item whole item member :=
    ⟨fun ref within => whole.refs ref (.item member within),
      fun choices items within => whole.choices choices items (.item member within)⟩
  entry whole entry member :=
    ⟨fun ref within => whole.refs ref (.entry member within),
      fun choices items within => whole.choices choices items (.entry member within)⟩

theorem SteadyValue.source {mapping : TypeMapping} {Known : String → Prop}
    (chosen : ∀ choice ∈ mapping, Steady Known choice.2) :
    TextSource mapping (Steady Known) (SteadyValue mapping Known) where
  passes := (SteadyValue.hereditary mapping Known).toPassesDown
  chosen _ found := chosen _ (mem_of_lookup found)
  chosenRefs _ _ found := chosen _ (mem_of_lookup found)
  refs whole within _ := whole.refs _ within
  literals whole within := whole.choices _ _ within

structure SteadyContext (context : TypeContext) (Known : String → Prop) : Prop where
  record : Known "Record"
  chosen : ∀ choice ∈ context.mapping, Steady Known choice.2
  schemas : ∀ entry ∈ context.schemas, SteadyValue context.mapping Known entry.2

theorem SteadyContext.typeOf {context : TypeContext} {Known : String → Prop}
    (steady : SteadyContext context Known) {schema : Value} {typed : Typed}
    (whole : SteadyValue context.mapping Known schema)
    (found : typeOf context context.schemas schema = .ok typed) : Steady Known typed.type.render :=
  ((Steady.texts steady.record).typing (SteadyValue.source steady.chosen)).ofSchema
    _ _ _ found whole steady.schemas

end TypedClient
