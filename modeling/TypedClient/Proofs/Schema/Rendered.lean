import TypedClient.Proofs.Distinct
import TypedClient.Proofs.Schema.Typing
import TypedClient.Proofs.Text.Case
import TypedClient.Proofs.TypeExpr.Names

namespace TypedClient

open TypeExpr

/-- A name that needs no import. -/
def isBuiltin (name : String) : Bool := isBaseType name || builtinTypes.contains name

def IsInert (choice : Value) : Prop :=
  NamesAmong (isBuiltin · = true) (literalText choice).toList

theorem mem_modelNames {Known : String → Prop} {type name : String}
    (among : NamesAmong Known type.toList) (member : name ∈ modelNames type) :
    Known name ∧ isBuiltin name = false := by
  obtain ⟨member, foreign⟩ := List.mem_filter.mp (List.mem_eraseDups.mp member)
  refine ⟨among.known name member, ?_⟩
  simpa [isBuiltin] using foreign

section Literals

def escaped (text : List Char) : List Char :=
  text.flatMap fun c => if c == '\'' then ['\\', '\''] else [c]

theorem replaceAll_quote (text : List Char) :
    Text.replaceAll ['\''] ['\\', '\''] text = escaped text := by
  unfold Text.replaceAll
  induction text with
  | nil => rfl
  | cons c rest ih =>
      rw [Text.replaceFrom]
      by_cases quote : c = '\''
      · subst quote
        simp [escaped, ih]
      · simp [escaped, ih, quote, Ne.symm quote]

def escapesApart : List Char → Bool
  | [] => true
  | ['\\'] => false
  | '\\' :: c :: rest => c != '\'' && c != '\n' && escapesApart rest
  | _ :: rest => escapesApart rest

theorem escapesApart_of_plain {text : List Char} (plain : '\\' ∉ text) :
    escapesApart text = true := by
  induction text with
  | nil => rfl
  | cons c rest ih =>
      have other : c ≠ '\\' := fun same => plain (by simp [same])
      rw [escapesApart]
      · exact ih fun member => plain (by simp [member])
      all_goals simp [other]

theorem escaped_cons {c : Char} (other : c ≠ '\'') (text : List Char) :
    escaped (c :: text) = c :: escaped text := by
  simp [escaped, other]

/-- The literal of a text ends where its own quote closes it. -/
theorem afterQuote_escaped {text : List Char} (apart : escapesApart text = true)
    (rest : List Char) : afterQuote (escaped text ++ '\'' :: rest) = some rest := by
  fun_induction escapesApart text with
  | case1 => rfl
  | case2 => cases apart
  | case3 c more ih =>
      simp only [Bool.and_eq_true, bne_iff_ne] at apart
      obtain ⟨⟨quote, feed⟩, later⟩ := apart
      rw [escaped_cons (by decide), escaped_cons quote, List.cons_append, List.cons_append,
        afterQuote, if_neg (by simpa using feed)]
      exact ih later
  | case4 c more last other ih =>
      have later := ih apart
      have plain : c ≠ '\\' := by
        rintro rfl
        cases more with
        | nil => exact last rfl rfl
        | cons d more => exact other d more rfl rfl
      by_cases quote : c = '\''
      · subst quote
        simpa [escaped, afterQuote] using later
      · rw [escaped_cons quote, List.cons_append, afterQuote]
        · exact later
        · exact quote
        all_goals simp [plain]

theorem inert_quoted {choice : Value} {text : String}
    (spelled : literalText choice = "'" ++ replaceText "'" "\\'" text ++ "'")
    (apart : escapesApart text.toList = true) : IsInert choice := by
  have whole : (literalText choice).toList = '\'' :: (escaped text.toList ++ ['\'']) := by
    simp [spelled, replaceText, replaceAll_quote]
  rw [IsInert, whole]
  apply NamesAmong.literal
  intro rest
  rw [List.append_assoc]
  exact afterQuote_escaped apart rest

theorem inert_text {text : String} (plain : '\\' ∉ text.toList) : IsInert (.text text) :=
  inert_quoted rfl (escapesApart_of_plain plain)

theorem digit_unnamed {c : Char} (digit : c.isDigit = true) : c ≠ '\'' ∧ isNameStart c = false := by
  have bound := Text.ascii_of_isAlphanum (Text.isAlphanum_of_isDigit digit)
  constructor
  · rintro rfl
    cases digit
  · simp [isNameStart, Text.isDecimal, bound, digit]

theorem int_unnamed (n : Int) :
    ∀ c ∈ (literalText (.int n)).toList, c ≠ '\'' ∧ isNameStart c = false := by
  have digits : ∀ m : Nat, ∀ c ∈ m.repr.toList, c ≠ '\'' ∧ isNameStart c = false := by
    intro m c member
    rw [Nat.repr, String.toList_ofList] at member
    exact digit_unnamed (Nat.isDigit_of_mem_toDigits (by decide) (by decide) member)
  intro c member
  cases n with
  | ofNat m => exact digits m c member
  | negSucc m =>
      change c ∈ ("-" ++ (m + 1).repr).toList at member
      rw [String.toList_append] at member
      rcases List.mem_append.mp member with sign | digit
      · obtain rfl := List.mem_singleton.mp sign
        decide
      · exact digits _ c digit

theorem inert_int (n : Int) : IsInert (.int n) := NamesAmong.unnamed (int_unnamed n)

end Literals

section Forms

variable {Known : String → Prop}

theorem among_baseType (builtin : ∀ name, isBuiltin name = true → Known name) (text : String)
    (base : isBaseType text = true) : NamesAmong Known text.toList := by
  have member : text ∈ baseTypes := by simpa [isBaseType] using base
  have named : ∀ name ∈ baseTypes, isName name = true := by
    simp only [baseTypes, List.forall_mem_cons]
    decide
  exact NamesAmong.name (named text member) (builtin text (by simp [isBuiltin, base]))

theorem modelNames_baseType {text : String} (base : isBaseType text = true) :
    modelNames text = [] := by
  apply List.eq_nil_iff_forall_not_mem.mpr
  intro name member
  obtain ⟨known, foreign⟩ := mem_modelNames (among_baseType (fun _ known => known) text base) member
  rw [known] at foreign
  cases foreign

theorem among_array {text : String} (among : NamesAmong Known text.toList) :
    NamesAmong Known (PropertyType.grouped text ++ "[]").toList := by
  unfold PropertyType.grouped
  rw [String.toList_append]
  split
  · rw [String.toList_append, String.toList_append]
    exact (NamesAmong.cons (by decide) (among.concat (by decide))).marked
  · exact among.marked

theorem among_record (builtin : ∀ name, isBuiltin name = true → Known name) {text : String}
    (among : NamesAmong Known text.toList) :
    NamesAmong Known ("Record<string, " ++ text ++ ">").toList := by
  have record : NamesAmong Known "Record".toList :=
    NamesAmong.name (by decide) (builtin _ (by decide))
  have key := among_baseType builtin "string" (by decide)
  have value := NamesAmong.cons (c := ' ') (by decide) (among.concat (c := '>') (by decide))
  have whole := record.join (c := '<') (by decide) (key.join (c := ',') (by decide) value)
  simpa using whole

theorem renderAll_eq (types : List PropertyType) :
    PropertyType.renderAll types = types.map PropertyType.render := by
  induction types with
  | nil => rfl
  | cons type rest ih => exact congrArg (type.render :: ·) ih

theorem render_union (types : List PropertyType) :
    (PropertyType.union types).render = " | ".intercalate (types.map PropertyType.render) :=
  congrArg (" | ".intercalate ·) (renderAll_eq types)

theorem render_intersection (types : List PropertyType) :
    (PropertyType.intersection types).render =
      " & ".intercalate (types.map PropertyType.render) :=
  congrArg (" & ".intercalate ·) (renderAll_eq types)

theorem form_cases {name : String} {form : List PropertyType → PropertyType}
    (joins : (name, form) ∈ variantForms) : form = .intersection ∨ form = .union := by
  simp only [variantForms, List.mem_cons, Prod.mk.injEq, List.not_mem_nil, or_false] at joins
  rcases joins with ⟨-, same⟩ | ⟨-, same⟩ | ⟨-, same⟩
  · exact .inl same
  · exact .inr same
  · exact .inr same

/-- The text of variants: those of different texts, joined by the sign of their form. -/
theorem render_ofVariants {name : String} {form : List PropertyType → PropertyType}
    (joins : (name, form) ∈ variantForms) {types : List PropertyType} (given : types ≠ []) :
    ∃ separator, (separator = " | " ∨ separator = " & ") ∧
      (PropertyType.ofVariants form types).render =
        separator.intercalate (types.map PropertyType.render).eraseDups := by
  have filled : types.isEmpty = false := by simpa using given
  rw [PropertyType.ofVariants, filled, if_neg Bool.false_ne_true, ← map_eraseDupsBy]
  rcases form_cases joins with rfl | rfl
  · exact ⟨_, .inr rfl, render_intersection _⟩
  · exact ⟨_, .inl rfl, render_union _⟩

theorem among_variants (builtin : ∀ name, isBuiltin name = true → Known name)
    {name : String} {form : List PropertyType → PropertyType} {types : List PropertyType}
    (joins : (name, form) ∈ variantForms)
    (all : ∀ type ∈ types, NamesAmong Known type.render.toList) :
    NamesAmong Known (PropertyType.ofVariants form types).render.toList := by
  by_cases given : types = []
  · rw [given]
    exact among_baseType builtin "any" (by decide)
  · obtain ⟨separator, mark, text⟩ := render_ofVariants joins given
    have kept : ∀ text ∈ (types.map PropertyType.render).eraseDups,
        NamesAmong Known text.toList := by
      intro text member
      obtain ⟨type, inside, rfl⟩ := List.mem_map.mp (List.mem_eraseDups.mp member)
      exact all type inside
    rw [text]
    rcases mark with rfl | rfl
    · exact among_joined (by decide) (by decide) kept
    · exact among_joined (by decide) (by decide) kept

theorem among_literals {choices : Value} {type : PropertyType} {items : List Value}
    (listed : choices.elements = .ok items)
    (known : ∀ item ∈ items, NamesAmong Known (literalText item).toList)
    (made : PropertyType.ofEnum choices = .ok type) : NamesAmong Known type.render.toList := by
  unfold PropertyType.ofEnum at made
  rw [listed] at made
  cases made
  change NamesAmong Known (" | ".intercalate (items.map literalText).eraseDups).toList
  apply among_joined (by decide) (by decide)
  intro text member
  obtain ⟨item, inside, rfl⟩ := List.mem_map.mp (List.mem_eraseDups.mp member)
  exact known item inside

theorem among_choices {choices : Value} {type : PropertyType} {items : List Value}
    (builtin : ∀ name, isBuiltin name = true → Known name) (listed : choices.elements = .ok items)
    (inert : ∀ item ∈ items, IsInert item) (made : PropertyType.ofEnum choices = .ok type) :
    NamesAmong Known type.render.toList :=
  among_literals listed (fun item member => (inert item member).mono builtin) made

end Forms

end TypedClient
