import TypedClient.Proofs.Interface.GenericModel
import TypedClient.Proofs.Ignore.Stripped
import TypedClient.Proofs.TypeExpr.Spelling

/-!
Parameters for arguments as a renaming. Over any run of calls each argument keeps the parameter that
it gets, no two share one, and what is printed with parameters can be read back.
-/

namespace TypedClient

namespace Generics

/-- The answers to calls that are made one after another, and the parameters in use after them. -/
def answers (generics : Generics) : List (String × Bool) → List (Option String) × Generics
  | [] => ([], generics)
  | call :: rest =>
    let (answer, later) := generics.respond call
    let (others, last) := later.answers rest
    (answer :: others, last)

variable {arguments : List String}

theorem answers_admitted (asked : List String) (calls : List (String × Bool)) :
    let later := admitted (asked ++ argumentsAsked arguments calls)
    (inUse arguments (admitted asked)).answers calls =
      (calls.map (answer arguments (parameterTable later)), inUse arguments later) := by
  induction calls generalizing asked with
  | nil => simp [answers, argumentsAsked]
  | cons call rest ih =>
      have others := ih (asked ++ argumentsAsked arguments [call])
      have own := List.subset_append_right asked (argumentsAsked arguments [call])
      have first := answer_admitted own (argumentsAsked arguments rest)
      rw [List.append_assoc, ← argumentsAsked_append, List.singleton_append] at others first
      simp only [answers, respond_admitted, others, first, List.map_cons]

theorem answers_ofTypeName (typeName : String) (calls : List (String × Bool)) :
    let start := ofTypeName typeName
    let later := admitted (argumentsAsked start.arguments calls)
    start.answers calls =
      (calls.map (answer start.arguments (parameterTable later)), inUse start.arguments later) :=
  answers_admitted [] calls

end Generics

section Records

/-- Arguments with the parameters that they have got. -/
structure IsRenaming (arguments : List String) (recorded : List (String × String)) : Prop where
  known : ∀ entry ∈ recorded, entry.1 ∈ arguments
  single : (recorded.map Prod.fst).Nodup
  injective : (recorded.map Prod.snd).Nodup
  names : recorded.map Prod.snd <+: parameterNames

/-- A parameter stands in an answer for the argument that a type is built on. A base type, also with
array marks, has a parameter only by reference. -/
def Renames (arguments : List String) (recorded : List (String × String)) (call : String × Bool)
    (text : String) : Prop :=
  ∃ argument parameter depth, argument ∈ arguments ∧ (argument, parameter) ∈ recorded ∧
    call.1 = argument ++ TypeNode.arraySuffix depth ∧
    text = parameter ++ TypeNode.arraySuffix depth ∧
    ∀ base marks, isBaseType base = true → argument = base ++ TypeNode.arraySuffix marks →
      call.2 = true

theorem keys_parameterTable {used : List String} (few : used.length ≤ parameterNames.length) :
    (parameterTable used).map Prod.fst = used :=
  List.map_fst_zip (Nat.le_of_eq (length_firstParameters few).symm)

theorem isRenaming_admitted {arguments asked : List String} (known : asked ⊆ arguments) :
    IsRenaming arguments (parameterTable (admitted asked)) := by
  have few := length_admitted_le asked
  have values : (parameterTable (admitted asked)).map Prod.snd = firstParameters _ :=
    @Generics.names_inUse arguments _ few
  refine ⟨fun entry member => ?_, ?_, ?_, ?_⟩
  · exact known (admitted_subset asked (List.of_mem_zip member).1)
  · rw [keys_parameterTable few]
    exact nodup_admitted asked
  · rw [values]
    exact nodup_firstParameters _
  · rw [values]
    exact List.take_prefix _ _

theorem parameterTable_extends {used later : List String} (extended : used <+: later)
    (few : used.length ≤ parameterNames.length) : parameterTable used <+: parameterTable later := by
  obtain ⟨more, rfl⟩ := extended
  rw [parameterTable_append few]
  exact List.prefix_append _ _

theorem renames_of_answer {arguments : List String} {recorded : List (String × String)}
    {call : String × Bool} {text : String}
    (given : Generics.answer arguments recorded call = some text) :
    Renames arguments recorded call text := by
  obtain ⟨⟨argument, marks⟩, asked, named⟩ := Option.bind_eq_some_iff.mp given
  obtain ⟨parameter, listed, rfl⟩ := Option.map_eq_some_iff.mp named
  obtain ⟨found, allowed⟩ := Option.filter_eq_some_iff.mp asked
  obtain ⟨known, depth, rfl, whole⟩ := argumentOf?_spec found
  refine ⟨argument, parameter, depth, known, mem_of_lookup listed, whole, rfl, ?_⟩
  rintro base marks primitive rfl
  have plain : ¬ ['[', ']'] <:+: base.toList := fun inside =>
    absurd ((plain_baseType primitive).2.1 '[' (inside.subset (by simp))) (by decide)
  simpa [replaceText_arraySuffix plain, primitive] using allowed

end Records

def parametersAsked (asked : List String) : List String :=
  asked.filterMap fun argument => (parameterTable (admitted asked)).lookup argument

theorem parametersAsked_append_single (asked : List String) (argument : String) :
    parametersAsked (asked ++ [argument]) = parametersAsked asked ++
      ((parameterTable (admitted (asked ++ [argument]))).lookup argument).toList := by
  have front : (asked.filterMap fun own =>
        (parameterTable (admitted (asked ++ [argument]))).lookup own) = parametersAsked asked :=
    List.filterMap_congr fun own member => lookup_admitted_append member [argument]
  rw [parametersAsked, List.filterMap_append, front]
  cases found : (parameterTable (admitted (asked ++ [argument]))).lookup argument <;> simp [found]

theorem next_not_mem_parametersAsked {asked : List String}
    (room : (admitted asked).length < parameterNames.length) :
    parameterNames[(admitted asked).length] ∉ parametersAsked asked := by
  intro before
  obtain ⟨own, -, listed⟩ := List.mem_filterMap.mp before
  have early : parameterNames[(admitted asked).length] ∈ firstParameters (admitted asked).length :=
    (List.of_mem_zip (mem_of_lookup listed)).2
  have distinct := nodup_firstParameters ((admitted asked).length + 1)
  rw [firstParameters, List.take_succ_eq_append_getElem room] at distinct
  exact (List.nodup_append.mp distinct).2.2 _ early _ (List.mem_singleton_self _) rfl

/-- The parameters that are asked for come first in the order in which they are given. -/
theorem eraseDups_parametersAsked (asked : List String) :
    (parametersAsked asked).eraseDups = firstParameters (admitted asked).length := by
  induction asked using List.reverseRecOn with
  | nil => rfl
  | append_singleton asked argument ih =>
      have bound := length_admitted_le asked
      rw [parametersAsked_append_single]
      by_cases member : argument ∈ admitted asked
      · -- its parameter has come before
        obtain ⟨parameter, -, listed⟩ := lookup_parameterTable bound member
        have before : parameter ∈ parametersAsked asked :=
          List.mem_filterMap.mpr ⟨argument, admitted_subset asked member, listed⟩
        rw [admitted_append_single, if_pos (.inl member), listed, Option.toList_some,
          eraseDups_append_known before, ih]
      · by_cases full : (admitted asked).length = parameterNames.length
        · have left : (parameterTable (admitted asked)).lookup argument = none :=
            lookup_zip_of_not_mem member
          rw [admitted_append_single, if_pos (.inr full), left, Option.toList_none,
            List.append_nil, ih]
        · have room := Nat.lt_of_le_of_ne bound full
          rw [admitted_append_single, if_neg (not_or.mpr ⟨member, full⟩),
            lookup_parameterTable_new member room, Option.toList_some,
            eraseDups_append_new (next_not_mem_parametersAsked room), ih, List.length_append,
            List.length_singleton, firstParameters, firstParameters,
            List.take_succ_eq_append_getElem room]

/-- What is printed for a piece: text, a type that stays, or a parameter with array marks. -/
inductive Shown
  | fixed (text : String)
  | kept (type : String)
  | parameter (name : String) (depth : Nat)
  deriving DecidableEq, Repr

namespace Shown

def text : Shown → String
  | fixed text => text
  | kept type => type
  | parameter name depth => name ++ TypeNode.arraySuffix depth

/-- The answer that is printed for a type. -/
def answer? : Shown → Option (Option String)
  | fixed _ => none
  | kept _ => some none
  | parameter name depth => some (some (name ++ TypeNode.arraySuffix depth))

def parameter? : Shown → Option String
  | parameter name _ => some name
  | _ => none

/-- What is printed with the argument in the place of its parameter. -/
def restored (recorded : List (String × String)) : Shown → String
  | fixed text => text
  | kept type => type
  | parameter name depth =>
    ((recorded.map Prod.swap).lookup name).getD name ++ TypeNode.arraySuffix depth

end Shown

theorem IsRenaming.lookup_swap {arguments : List String} {recorded : List (String × String)}
    {argument parameter : String} (faithful : IsRenaming arguments recorded)
    (listed : recorded.lookup argument = some parameter) :
    (recorded.map Prod.swap).lookup parameter = some argument := by
  apply lookup_of_mem
  · rw [List.map_map]
    exact faithful.injective
  · exact List.mem_map.mpr ⟨_, mem_of_lookup listed, rfl⟩

/-- What is printed for a piece tells the answer to its call and can be read back. -/
theorem exists_shown {arguments : List String} {recorded : List (String × String)}
    (faithful : IsRenaming arguments recorded) (piece : Piece) :
    ∃ shown : Shown, shown.text = (piece.parameterized arguments recorded).text ∧
      shown.restored recorded = piece.text ∧
      shown.answer? = piece.call?.map (Generics.answer arguments recorded) ∧
      shown.parameter? = (piece.argument? arguments).bind fun found => recorded.lookup found.1 := by
  cases piece with
  | fixed text => exact ⟨.fixed text, rfl, rfl, rfl, rfl⟩
  | type text refs =>
      have answer : Generics.answer arguments recorded (text, !refs.isEmpty) =
          ((Piece.type text refs).argument? arguments).bind fun found =>
            (recorded.lookup found.1).map (· ++ found.2) := by
        rw [Piece.argument?_type]
        rfl
      rw [Piece.text_parameterized, Piece.call?, Option.map_some, answer]
      cases found : (Piece.type text refs).argument? arguments with
      | none => exact ⟨.kept text, rfl, rfl, rfl, rfl⟩
      | some pair =>
          obtain ⟨argument, marks⟩ := pair
          obtain ⟨-, depth, rfl, whole⟩ := Piece.argument?_spec found
          cases listed : recorded.lookup argument with
          | none =>
              refine ⟨.kept text, ?_, rfl, ?_, ?_⟩ <;> simp [listed, Shown.text, Shown.answer?,
                Shown.parameter?]
          | some parameter =>
              refine ⟨.parameter parameter depth, ?_, ?_, ?_, ?_⟩
              · simp [listed, Shown.text]
              · simp [Shown.restored, faithful.lookup_swap listed, Piece.text, whole]
              · simp [listed, Shown.answer?]
              · simp [listed, Shown.parameter?]

theorem exists_shown_all {arguments asked : List String} {pieces : List Piece}
    (whole : argumentsIn arguments pieces = asked) :
    ∃ shown : List Shown,
      let recorded := parameterTable (admitted asked)
      String.join (shown.map Shown.text) =
        spelled (pieces.map (Piece.parameterized arguments recorded)) ∧
      shown.map (Shown.restored recorded) = pieces.map Piece.text ∧
      shown.filterMap Shown.answer? =
        (pieces.filterMap Piece.call?).map (Generics.answer arguments recorded) ∧
      (shown.filterMap Shown.parameter?).eraseDups = recorded.map Prod.snd := by
  have faithful : IsRenaming arguments (parameterTable (admitted asked)) :=
    isRenaming_admitted (whole ▸ argumentsIn_subset pieces)
  choose display texts restored answer parameter using fun piece => exists_shown faithful piece
  refine ⟨pieces.map display, ?_, ?_, ?_, ?_⟩
  · rw [spelled, List.map_map, List.map_map]
    exact congrArg String.join (List.map_congr_left fun piece _ => texts piece)
  · rw [List.map_map]
    exact List.map_congr_left fun piece _ => restored piece
  · rw [List.filterMap_map, List.map_filterMap]
    exact List.filterMap_congr fun piece _ => answer piece
  · have values : (parameterTable (admitted asked)).map Prod.snd = firstParameters _ :=
      @Generics.names_inUse arguments _ (length_admitted_le asked)
    have given (recorded : List (String × String)) :
        (argumentsIn arguments pieces).filterMap (fun argument => recorded.lookup argument) =
          pieces.filterMap fun piece =>
            (piece.argument? arguments).bind fun found => recorded.lookup found.1 := by
      rw [argumentsIn, List.filterMap_map, List.filterMap_filterMap]
      rfl
    have printed : (pieces.map display).filterMap Shown.parameter? = parametersAsked asked := by
      have asks := given (parameterTable (admitted asked))
      rw [whole] at asks
      rw [parametersAsked, asks, List.filterMap_map]
      exact List.filterMap_congr fun piece _ => parameter piece
    rw [printed, values, eraseDups_parametersAsked]

theorem ModelCode.typeNames_of_pieces {context : FieldContext} {ref : String} {flat : Value}
    {pieces : List Piece} {code : ModelCode} (same : ofPieces context ref flat pieces = code) :
    code.typeNames = importedNames code.fileName code.generics
      ((Generics.inUse code.arguments []).fill pieces).1.typeNames := by
  subst same
  rw [arguments, ← Generics.ofTypeName_eq]
  unfold ofPieces
  dsimp only

/-- An interface declares the parameters of the arguments that its fields ask for, prints the fields
with them, and imports what the other types name. -/
theorem ModelCode.exists_pieces {context : FieldContext} {ref : String} {schema : Value}
    {code : ModelCode} (made : modelCode context ref schema = .ok code) :
    ∃ flat plain,
      let recorded := parameterTable (admitted (argumentsIn code.arguments plain))
      code.typeName = (SchemaName.parse context.mapping (schemaKey ref)).typeName ∧
      flatten context.schemas schema = .ok flat ∧ interfacePieces context flat = .ok plain ∧
      code.generics = recorded.map Prod.snd ∧
      code.text = interfaceText code.typeNames code.generics code.fileName code.key
        (flat.field "description")
        (spelled (plain.map (Piece.parameterized code.arguments recorded))) ∧
      code.typeNames = importedNames code.fileName code.generics
        ((Generics.inUse code.arguments []).fill plain).1.typeNames := by
  rw [modelCode_eq] at made
  simp only [bind_eq_ok, pure_eq_ok] at made
  obtain ⟨flat, flattened, plain, typed, same⟩ := made
  obtain ⟨named, generics, text⟩ := ModelCode.of_pieces same
  obtain ⟨fields, after⟩ := @Generics.fill_admitted code.arguments [] plain
  rw [List.nil_append] at fields after
  refine ⟨flat, plain, named, flattened, typed, ?_, ?_, ?_⟩
  · exact generics.trans (congrArg Generics.names after)
  · rw [text]
    exact congrArg _ fields
  · exact ModelCode.typeNames_of_pieces same

/-- Parameters for arguments are a renaming over any run of calls: each argument keeps its
parameter, no two share one, and the parameters are used in their order. So the types of an
interface without parameters can be read back, and the interface declares the parameters in the
order of first use. -/
theorem substitution_renames :
    (∀ (typeName : String) (calls more : List (String × Bool)),
      let start := Generics.ofTypeName typeName
      let run := start.answers calls
      List.Forall₂ (fun call answer => ∀ text, answer = some text →
        Renames start.arguments run.2.assigned call text) calls run.1 ∧
      IsRenaming start.arguments run.2.assigned ∧
      run.2.assigned <+: (start.answers (calls ++ more)).2.assigned) ∧
    ∀ (context : FieldContext) (ref : String) (schema : Value) (code : ModelCode),
      modelCode context ref schema = .ok code →
      ∃ flat plain body, ∃ shown : List Shown,
        code.typeName = (SchemaName.parse context.mapping (schemaKey ref)).typeName ∧
        flatten context.schemas schema = .ok flat ∧
        interfacePieces context flat = .ok plain ∧
        interfaceCode context {} flat = .ok (body, {}) ∧
        body.text = spelled plain ∧
        let run := (Generics.ofTypeName code.typeName).answers (plain.filterMap Piece.call?)
        shown.filterMap Shown.answer? = run.1 ∧
        code.text = interfaceText code.typeNames code.generics code.fileName code.key
          (flat.field "description") (String.join (shown.map Shown.text)) ∧
        shown.map (Shown.restored run.2.assigned) = plain.map Piece.text ∧
        code.generics = run.2.assigned.map Prod.snd ∧
        (shown.filterMap Shown.parameter?).eraseDups = code.generics := by
  constructor
  · intro typeName calls more start run
    have ended : run = _ := Generics.answers_ofTypeName typeName calls
    have ended' := Generics.answers_ofTypeName typeName (calls ++ more)
    rw [ended, ended']
    refine ⟨?_, isRenaming_admitted (argumentsAsked_subset calls), ?_⟩
    · rw [List.forall₂_map_right_iff, List.forall₂_same]
      exact fun call _ text given => renames_of_answer given
    · rw [argumentsAsked_append]
      exact parameterTable_extends (admitted_extends _ _) (length_admitted_le _)
  · intro context ref schema code made
    obtain ⟨flat, plain, named, flattened, typed, declared, text, -⟩ := ModelCode.exists_pieces made
    obtain ⟨body, unchanged, spelling⟩ := Generics.fill_plain plain
    have without : interfaceCode context {} flat = .ok (body, {}) := by
      rw [interfaceCode_eq, typed, ← unchanged]
      rfl
    obtain ⟨shown, printed, restored, answered, first⟩ :=
      exists_shown_all (@argumentsIn_eq code.arguments plain)
    have ended := Generics.answers_ofTypeName code.typeName (plain.filterMap Piece.call?)
    rw [argumentsIn_eq] at declared text
    refine ⟨flat, plain, body, shown, named, flattened, typed, without, spelling, ?_⟩
    simp only [ended]
    exact ⟨answered, by rw [text, printed], restored, declared, first.trans declared.symm⟩

def sextetFields : List (String × String) :=
  [("f", "F"), ("e", "E"), ("d", "D"), ("c", "C"), ("b", "B"), ("a", "A")]

def sextet : ModelCode := containerCode "Six«A,B,C,D,E,F»" sextetFields

theorem substitution_renames_sextet :
    modelCode {} "Six«A,B,C,D,E,F»" (container sextetFields) = .ok sextet ∧
      sextet.generics = ["T", "E", "U", "K", "V"] ∧
      ∃ shown : List Shown,
        sextet.text = interfaceText ["A"] ["T", "E", "U", "K", "V"] "Six" "Six«A,B,C,D,E,F»" .null
          (String.join (shown.map Shown.text)) ∧
        shown.map (Shown.restored
          [("F", "T"), ("E", "E"), ("D", "U"), ("C", "K"), ("B", "V")]) =
            (containerPieces sextetFields).map Piece.text ∧
        (shown.filterMap Shown.parameter?).eraseDups = ["T", "E", "U", "K", "V"] := by
  have plain : ∀ field ∈ sextetFields, isPlainKey field.2 = true := by decide
  have made : modelCode {} "Six«A,B,C,D,E,F»" (container sextetFields) = .ok sextet :=
    modelCode_container "Six«A,B,C,D,E,F»" plain
  obtain ⟨flat, pieces, body, shown, -, flattened, typed, -, -, answered, text, restored, declared,
    first⟩ := substitution_renames.2 {} _ _ _ made
  cases (flatten_container sextetFields).symm.trans flattened
  cases (interfacePieces_container plain).symm.trans typed
  have recorded : ((Generics.ofTypeName sextet.typeName).answers
      ((containerPieces sextetFields).filterMap Piece.call?)).2.assigned =
        [("F", "T"), ("E", "E"), ("D", "U"), ("C", "K"), ("B", "V")] := by decide +kernel
  have silent : (container sextetFields).field "description" = .null := by rfl
  have foreign : sextet.typeNames = ["A"] := by decide +kernel
  have file : sextet.fileName = "Six" := by decide +kernel
  have key : sextet.key = "Six«A,B,C,D,E,F»" := by decide +kernel
  have names : sextet.generics = ["T", "E", "U", "K", "V"] := by
    rw [declared, recorded]
    rfl
  rw [foreign, file, key, silent, names] at text
  rw [recorded] at restored
  exact ⟨made, names, shown, text, restored, first.trans names⟩

end TypedClient
