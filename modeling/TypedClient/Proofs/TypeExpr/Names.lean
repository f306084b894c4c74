import TypedClient.Schema.PropertyType
import TypedClient.TypeExpr.Names

namespace TypedClient.TypeExpr

def isBreak (c : Char) : Bool := !Naming.isFieldChar c && c != '\''

theorem isFieldChar_of_isNameStart {c : Char} (start : isNameStart c = true) :
    Naming.isFieldChar c = true := by
  simp [isNameStart, Naming.isFieldChar] at *
  exact .inl start.1

theorem namesFrom_append_break {c : Char} (breaks : Naming.isFieldChar c = false)
    (gathered front back : List Char) :
    namesFrom gathered (front ++ c :: back) = namesFrom gathered front ++ namesFrom [] back := by
  have shut : isNameStart c = false := by
    rw [Bool.eq_false_iff]
    intro start
    rw [isFieldChar_of_isNameStart start] at breaks
    cases breaks
  induction front generalizing gathered with
  | nil =>
      cases gathered with
      | nil => simp [namesFrom, shut]
      | cons last earlier => simp [namesFrom, breaks]
  | cons first rest ih =>
      cases gathered with
      | nil =>
          rw [List.cons_append, namesFrom, namesFrom]
          split
          · exact ih _
          · exact ih _
      | cons last earlier =>
          rw [List.cons_append, namesFrom, namesFrom]
          split
          · exact ih _
          · rw [ih, List.cons_append]
          all_goals simp

theorem namesFrom_open {gathered rest : List Char} (started : gathered ≠ [])
    (inside : ∀ c ∈ rest, Naming.isFieldChar c = true) :
    namesFrom gathered rest = [String.ofList (gathered.reverse ++ rest)] := by
  induction rest generalizing gathered with
  | nil =>
      cases gathered with
      | nil => exact absurd rfl started
      | cons last earlier => simp [namesFrom]
  | cons c rest ih =>
      cases gathered with
      | nil => exact absurd rfl started
      | cons last earlier =>
          rw [namesFrom, if_pos (inside c (by simp)), ih (by simp)]
          · simp
          · exact fun other member => inside other (by simp [member])
          · simp

/-- A name alone is its only name. -/
theorem namesFrom_name {first : Char} {rest : List Char} (start : isNameStart first = true)
    (inside : ∀ c ∈ rest, Naming.isFieldChar c = true) :
    namesFrom [] (first :: rest) = [String.ofList (first :: rest)] := by
  rw [namesFrom, if_pos start, namesFrom_open (by simp) inside]
  rfl

/-- A text that is one name. -/
def isName (word : String) : Bool :=
  match word.toList with
  | first :: rest => isNameStart first && rest.all Naming.isFieldChar
  | [] => false

theorem spelled_of_isName {word : String} (named : isName word = true) :
    ∃ first rest, word.toList = first :: rest ∧ isNameStart first = true ∧
      ∀ c ∈ rest, Naming.isFieldChar c = true := by
  unfold isName at named
  cases spelled : word.toList with
  | nil => simp [spelled] at named
  | cons first rest =>
      simp only [spelled, Bool.and_eq_true, List.all_eq_true] at named
      exact ⟨first, rest, rfl, named⟩

theorem dropLiterals_cons {c : Char} (plain : c ≠ '\'') (text : List Char) :
    dropLiterals (c :: text) = c :: dropLiterals text := by
  rw [dropLiterals]
  simp [plain]

theorem dropLiterals_literal {text rest : List Char} (closed : afterQuote text = some rest) :
    dropLiterals ('\'' :: text) = dropLiterals rest := by
  rw [dropLiterals, if_pos (by simp)]
  split
  · rename_i other found
    rw [closed] at found
    cases found
    rfl
  · simp_all

theorem dropLiterals_of_plain {text : List Char} (plain : ∀ c ∈ text, c ≠ '\'')
    (rest : List Char) : dropLiterals (text ++ rest) = text ++ dropLiterals rest := by
  induction text with
  | nil => rfl
  | cons c text ih =>
      rw [List.cons_append, dropLiterals_cons (plain c (by simp)),
        ih fun c member => plain c (by simp [member])]
      rfl

theorem dropLiterals_of_unquoted {text : List Char} (plain : ∀ c ∈ text, c ≠ '\'') :
    dropLiterals text = text := by
  have whole := dropLiterals_of_plain plain []
  have nothing : dropLiterals [] = [] := by rw [dropLiterals]
  rwa [List.append_nil, nothing, List.append_nil] at whole

theorem ne_quote_of_isFieldChar {c : Char} (inside : Naming.isFieldChar c = true) : c ≠ '\'' := by
  rintro rfl
  revert inside
  decide

structure HasNames (names : List String) (text : List Char) : Prop where
  complete : ∀ rest, dropLiterals (text ++ rest) = dropLiterals text ++ dropLiterals rest
  listed : namesFrom [] (dropLiterals text) = names

namespace HasNames

variable {names more : List String} {text other : List Char}

theorem nil : HasNames [] [] := by
  constructor
  · intro rest
    simp [dropLiterals]
  · simp [dropLiterals, namesFrom]

theorem join {c : Char} (breaks : isBreak c = true) (front : HasNames names text)
    (back : HasNames more other) : HasNames (names ++ more) (text ++ c :: other) := by
  obtain ⟨apart, plain⟩ : Naming.isFieldChar c = false ∧ c ≠ '\'' := by
    simpa [isBreak] using breaks
  constructor
  · intro rest
    rw [List.append_assoc, List.cons_append, front.complete, front.complete,
      dropLiterals_cons plain, dropLiterals_cons plain, back.complete]
    simp
  · rw [front.complete, dropLiterals_cons plain, namesFrom_append_break apart, front.listed,
      back.listed]

theorem cons {c : Char} (breaks : isBreak c = true) (back : HasNames more other) :
    HasNames more (c :: other) :=
  join breaks nil back

theorem concat {c : Char} (front : HasNames names text) (breaks : isBreak c = true) :
    HasNames names (text ++ [c]) := by
  have whole := join breaks front nil
  rwa [List.append_nil] at whole

theorem marked (front : HasNames names text) : HasNames names (text ++ ['[', ']']) := by
  rw [← List.singleton_append, ← List.append_assoc]
  exact (front.concat (by decide)).concat (by decide)

theorem name {word : String} (named : isName word = true) : HasNames [word] word.toList := by
  obtain ⟨first, rest, spelled, start, inside⟩ := spelled_of_isName named
  have plain : ∀ c ∈ first :: rest, c ≠ '\'' := by
    intro c member
    rcases List.mem_cons.mp member with rfl | member
    · exact ne_quote_of_isFieldChar (isFieldChar_of_isNameStart start)
    · exact ne_quote_of_isFieldChar (inside c member)
  have own := dropLiterals_of_unquoted plain
  rw [spelled]
  constructor
  · intro tail
    rw [dropLiterals_of_plain plain, own]
  · rw [own, namesFrom_name start inside, ← spelled, String.ofList_toList]

theorem unnamed (plain : ∀ c ∈ text, c ≠ '\'' ∧ isNameStart c = false) : HasNames [] text := by
  have own : dropLiterals text = text :=
    dropLiterals_of_unquoted fun c member => (plain c member).1
  have none : namesFrom [] text = [] := by
    clear own
    induction text with
    | nil => rfl
    | cons c text ih =>
        rw [namesFrom, if_neg (by simp [(plain c (by simp)).2])]
        exact ih fun c member => plain c (by simp [member])
  constructor
  · intro rest
    rw [dropLiterals_of_plain (fun c member => (plain c member).1), own]
  · rw [own, none]

theorem literal (closed : ∀ rest, afterQuote (text ++ rest) = some rest) :
    HasNames [] ('\'' :: text) := by
  have dropped : dropLiterals ('\'' :: text) = [] := by
    have own := closed []
    rw [List.append_nil] at own
    rw [dropLiterals_literal own, dropLiterals]
  constructor
  · intro rest
    rw [List.cons_append, dropLiterals_literal (closed rest), dropped]
    rfl
  · rw [dropped, namesFrom]

theorem breaks_append {separator : List Char} (breaks : ∀ c ∈ separator, isBreak c = true)
    (back : HasNames more other) : HasNames more (separator ++ other) := by
  induction separator with
  | nil => exact back
  | cons c rest ih =>
      exact cons (breaks c (by simp)) (ih fun c member => breaks c (by simp [member]))

theorem intercalate {α : Type} {separator : List Char} {items : List α} {shown : α → List Char}
    {listed : α → List String} (given : separator ≠ [])
    (breaks : ∀ c ∈ separator, isBreak c = true)
    (each : ∀ item ∈ items, HasNames (listed item) (shown item)) :
    HasNames (items.flatMap listed) (separator.intercalate (items.map shown)) := by
  obtain ⟨c, rest, rfl⟩ := List.exists_cons_of_ne_nil given
  induction items with
  | nil => exact nil
  | cons item others ih =>
      have later := ih fun item member => each item (by simp [member])
      have own := each item (by simp)
      cases others with
      | nil => simpa using own
      | cons next others =>
          rw [List.flatMap_cons, List.map_cons, List.map_cons, List.intercalate_cons_cons,
            List.append_assoc]
          refine join (breaks c (by simp)) own (breaks_append ?_ later)
          exact fun other member => breaks other (by simp [member])

end HasNames

structure NamesAmong (Known : String → Prop) (text : List Char) : Prop where
  complete : ∀ rest, dropLiterals (text ++ rest) = dropLiterals text ++ dropLiterals rest
  known : ∀ name ∈ namesFrom [] (dropLiterals text), Known name

namespace NamesAmong

variable {Known : String → Prop} {text other : List Char}

theorem listed (among : NamesAmong Known text) :
    HasNames (namesFrom [] (dropLiterals text)) text :=
  ⟨among.complete, rfl⟩

theorem of_listed {names : List String} (has : HasNames names text)
    (known : ∀ name ∈ names, Known name) : NamesAmong Known text :=
  ⟨has.complete, fun name member => known name (has.listed ▸ member)⟩

theorem mono {More : String → Prop} (among : NamesAmong Known text)
    (wider : ∀ name, Known name → More name) : NamesAmong More text :=
  ⟨among.complete, fun name member => wider name (among.known name member)⟩

theorem nil : NamesAmong Known [] :=
  of_listed .nil (by simp)

theorem join {c : Char} (breaks : isBreak c = true) (front : NamesAmong Known text)
    (back : NamesAmong Known other) : NamesAmong Known (text ++ c :: other) :=
  of_listed (front.listed.join breaks back.listed)
    (List.forall_mem_append.mpr ⟨front.known, back.known⟩)

theorem cons {c : Char} (breaks : isBreak c = true) (back : NamesAmong Known other) :
    NamesAmong Known (c :: other) :=
  join breaks nil back

theorem concat {c : Char} (front : NamesAmong Known text) (breaks : isBreak c = true) :
    NamesAmong Known (text ++ [c]) :=
  join breaks front nil

theorem marked (front : NamesAmong Known text) : NamesAmong Known (text ++ ['[', ']']) :=
  of_listed front.listed.marked front.known

theorem name {word : String} (named : isName word = true) (known : Known word) :
    NamesAmong Known word.toList :=
  of_listed (.name named) (by simpa using known)

theorem unnamed (plain : ∀ c ∈ text, c ≠ '\'' ∧ isNameStart c = false) : NamesAmong Known text :=
  of_listed (.unnamed plain) (by simp)

theorem literal (closed : ∀ rest, afterQuote (text ++ rest) = some rest) :
    NamesAmong Known ('\'' :: text) :=
  of_listed (.literal closed) (by simp)

theorem intercalate {separator : List Char} {texts : List (List Char)} (given : separator ≠ [])
    (breaks : ∀ c ∈ separator, isBreak c = true) (all : ∀ text ∈ texts, NamesAmong Known text) :
    NamesAmong Known (separator.intercalate texts) := by
  have joined := HasNames.intercalate given breaks fun text member => (all text member).listed
  rw [List.map_id'] at joined
  refine of_listed joined fun name member => ?_
  obtain ⟨text, inside, held⟩ := List.mem_flatMap.mp member
  exact (all text inside).known name held

theorem of_unquoted (unquoted : ∀ c ∈ text, c ≠ '\'') :
    NamesAmong Known text ↔ ∀ name ∈ namesFrom [] text, Known name := by
  have own := dropLiterals_of_unquoted unquoted
  constructor
  · intro among
    rw [← own]
    exact among.known
  · intro known
    refine ⟨fun rest => ?_, by rwa [own]⟩
    rw [dropLiterals_of_plain unquoted, own]

/-- Cutting a text without quotes at a character that no name holds cuts no name. -/
theorem split {c : Char} (apart : Naming.isFieldChar c = false)
    (unquoted : ∀ d ∈ text ++ c :: other, d ≠ '\'')
    (among : NamesAmong Known (text ++ c :: other)) :
    NamesAmong Known text ∧ NamesAmong Known other := by
  rw [of_unquoted unquoted, namesFrom_append_break apart, List.forall_mem_append] at among
  simp only [List.forall_mem_append, List.forall_mem_cons] at unquoted
  exact ⟨(of_unquoted unquoted.1).mpr among.1, (of_unquoted unquoted.2.2).mpr among.2⟩

end NamesAmong

theorem among_joined {Known : String → Prop} {separator : String} {texts : List String}
    (given : separator ≠ "") (breaks : separator.toList.all isBreak = true)
    (all : ∀ text ∈ texts, NamesAmong Known text.toList) :
    NamesAmong Known (separator.intercalate texts).toList := by
  rw [String.toList_intercalate]
  have spelled : separator.toList ≠ [] := by simpa using given
  apply NamesAmong.intercalate spelled (List.all_eq_true.mp breaks)
  intro text member
  obtain ⟨whole, inside, rfl⟩ := List.mem_map.mp member
  exact all whole inside

end TypedClient.TypeExpr
