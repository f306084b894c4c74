import TypedClient.Proofs.Outcome
import TypedClient.Proofs.Path
import TypedClient.Proofs.Schema.Parts
import TypedClient.Proofs.Value.Entries
import TypedClient.Settings.Basic

/-!
Settings that are written as a record and read again. Each field is read from one value; what it is
written as reads the same, and what is left out of the record stands for its default.
-/

namespace TypedClient

namespace Entries

variable {entries : Entries} {name : String} {value : Value}

theorem find_of_absent (absent : ∀ entry ∈ entries, entry.1 ≠ .text name) :
    find? entries name = none := by
  induction entries with
  | nil => rfl
  | cons first rest ih =>
      obtain ⟨own, others⟩ := List.forall_mem_cons.mp absent
      rw [find?, if_neg own, ih others]

/-- A field of what is left of a record is the one that it had, if that is left. -/
theorem field_filter (keep : Value → Bool) (distinct : Distinct entries)
    (member : (.text name, value) ∈ entries) :
    field (entries.filter fun entry => keep entry.2) name =
      if keep value then value else .null := by
  induction entries with
  | nil => cases member
  | cons first rest ih =>
      obtain ⟨apart, later⟩ := List.pairwise_cons.mp distinct
      rw [List.filter_cons]
      rcases List.mem_cons.mp member with rfl | inside
      · have absent : find? (rest.filter fun entry => keep entry.2) name = none := by
          apply find_of_absent
          intro entry among same
          have differs := apart entry (List.mem_of_mem_filter among)
          rw [Scalar.same_comm, same_text, same] at differs
          simp at differs
        dsimp only
        split
        · simp [field, find?]
        · rw [field, absent]
          rfl
      · have other : first.1 ≠ .text name := by
          intro same
          have differs := apart _ inside
          rw [same_text, same] at differs
          simp at differs
        rw [← ih later inside]
        split
        · rw [field, find?, if_neg other]
          rfl
        · rfl

end Entries

section Mapping

variable {mapping : TypeMapping} {pair : String × String}

def TypeMapping.Distinct (mapping : TypeMapping) : Prop :=
  (mapping.map Prod.fst).Nodup

theorem distinct_putMapping (distinct : mapping.Distinct) : (putMapping mapping pair).Distinct := by
  unfold putMapping
  split
  · have kept : (mapping.map fun entry =>
        if entry.1 == pair.1 then (entry.1, pair.2) else entry).map Prod.fst =
          mapping.map Prod.fst := by
      rw [List.map_map]
      apply List.map_congr_left
      intro entry _
      rw [Function.comp_apply]
      split <;> rfl
    rw [TypeMapping.Distinct, kept]
    exact distinct
  · rename_i new
    rw [TypeMapping.Distinct, List.map_append, List.nodup_append]
    refine ⟨distinct, List.nodup_singleton _, ?_⟩
    intro first inside second single same
    rw [List.mem_singleton.mp single] at same
    obtain ⟨entry, among, rfl⟩ := List.mem_map.mp inside
    exact new (List.any_eq_true.mpr ⟨entry, among, beq_iff_eq.mpr same⟩)

theorem distinct_foldl_putMapping (pairs : List (String × String)) (distinct : mapping.Distinct) :
    TypeMapping.Distinct (pairs.foldl putMapping mapping) := by
  induction pairs generalizing mapping with
  | nil => exact distinct
  | cons first rest ih => exact ih (distinct_putMapping distinct)

theorem foldl_putMapping {pairs : List (String × String)}
    (distinct : TypeMapping.Distinct (mapping ++ pairs)) :
    pairs.foldl putMapping mapping = mapping ++ pairs := by
  induction pairs generalizing mapping with
  | nil => exact (List.append_nil mapping).symm
  | cons first rest ih =>
      have put : putMapping mapping first = mapping ++ [first] := by
        rw [putMapping, if_neg]
        intro met
        obtain ⟨entry, among, same⟩ := List.any_eq_true.mp met
        rw [TypeMapping.Distinct, List.map_append, List.nodup_append] at distinct
        exact distinct.2.2 entry.1 (List.mem_map_of_mem among) first.1 (by simp)
          (beq_iff_eq.mp same)
      rw [List.append_cons] at distinct ⊢
      rw [List.foldl_cons, put, ih distinct]

theorem distinct_of_readMapping {path : String} {value : Value}
    (ran : readMapping path value = .ok mapping) : mapping.Distinct := by
  unfold readMapping at ran
  split at ran
  · cases ran
    exact List.nodup_nil
  · split at ran
    · cases ran
      exact distinct_foldl_putMapping _ List.nodup_nil
    · obtain ⟨pairs, -, same⟩ := (bind_eq_ok _ _ _).mp ran
      cases same
      exact distinct_foldl_putMapping _ List.nodup_nil
    · cases ran

end Mapping

namespace Settings

section Fields

variable {path : String} {value : Value}

/-- A value as a record holds it: one that is left out reads as null. -/
def shown (value : Value) : Value := if isBlankSetting value then .null else value

theorem shown_of_given (given : value = .null ∨ value.isTrue = true) : shown value = value := by
  rcases given with rfl | given
  · rfl
  · rw [shown, if_neg]
    intro blank
    unfold isBlankSetting at blank
    split at blank
    · cases given
    · cases given
    · cases given
    · cases blank

def readOutput (path : String) (value : Value) : Except Error OutputSetting :=
  if value.isTrue then OutputSetting.ofValue path value else .ok (.single "src/api")

def readImports (value : Value) : Except Error (List Value) :=
  match value with
  | .text s => .ok (if s == "" then [] else [value])
  | _ => value.givenElements

def readIgnores (value : Value) : Except Error (List Ignore) := do
  (← value.givenElements).mapM fun item => readIgnore item.display

theorem readOutput_toValue {output : OutputSetting} (ran : readOutput path value = .ok output)
    (other : String) : readOutput other (shown output.toValue) = .ok output := by
  unfold readOutput at ran
  split at ran
  · rename_i given
    unfold OutputSetting.ofValue at ran
    split at ran
    · cases ran
      rw [OutputSetting.toValue, shown_of_given (.inr given), readOutput, if_pos given]
      rfl
    · cases ran
      rfl
    · cases ran
      rfl
    · cases ran
    · rename_i plain single pair list
      cases ran
      rw [OutputSetting.toValue, shown_of_given (.inr given), readOutput, if_pos given,
        OutputSetting.ofValue] <;> assumption
  · cases ran
    rfl

theorem readMapping_record {mapping : TypeMapping} (ran : readMapping path value = .ok mapping)
    (other : String) : readMapping other
      (shown (.record (mapping.map fun pair => (pair.1, .text pair.2)))) = .ok mapping := by
  have distinct := distinct_of_readMapping ran
  cases mapping with
  | nil => rfl
  | cons first rest =>
      have read : (((first :: rest).map fun pair => (pair.1, Value.text pair.2)).map fun field =>
          (Scalar.text field.1, field.2)).map (fun entry => (entry.1.display, entry.2.display)) =
          first :: rest := by
        rw [List.map_map, List.map_map]
        exact List.map_id _
      calc readMapping other
            (shown (.record ((first :: rest).map fun pair => (pair.1, .text pair.2))))
        _ = .ok (((((first :: rest).map fun pair => (pair.1, Value.text pair.2)).map fun field =>
              (Scalar.text field.1, field.2)).map fun entry =>
                (entry.1.display, entry.2.display)).foldl putMapping []) := rfl
        _ = .ok (first :: rest) := by rw [read, foldl_putMapping distinct, List.nil_append]

theorem readImports_list (imports : List Value) :
    readImports (shown (.list imports)) = .ok imports := by
  cases imports <;> rfl

theorem enclosed_eq {text : String} (long : 2 < text.length)
    (closed : Path.endsWith "/" text = true) (opened : Path.isAbsolute text = true) :
    "/" ++ String.ofList ((text.toList.drop 1).take (text.length - 2)) ++ "/" = text := by
  obtain ⟨front, rfl⟩ := Path.endsWith_slash closed
  rw [Path.isAbsolute, String.toList_ofList, beq_iff_eq] at opened
  rw [String.length_ofList] at long
  obtain ⟨first, middle, rfl⟩ : ∃ first middle, front = first :: middle :=
    List.exists_cons_of_ne_nil (by rintro rfl; simp at long)
  obtain rfl : first = '/' := by simpa using opened
  have inner : (('/' :: middle ++ ['/']).drop 1).take (('/' :: middle ++ ['/']).length - 2) =
      middle := by
    rw [List.cons_append, List.drop_one, List.tail_cons, List.length_cons, List.length_append]
    exact List.take_left
  apply String.toList_inj.mp
  simp only [String.length_ofList, String.toList_ofList, inner, String.toList_append]
  rfl

/-- An entry is written as the text that it was read from, be it a name or a pattern. -/
theorem setting_of_readIgnore {text : String} {ignore : Ignore}
    (ran : readIgnore text = .ok ignore) : ignore.setting = text := by
  unfold readIgnore at ran
  split at ran
  · rename_i enclosed
    rw [Bool.and_eq_true, Bool.and_eq_true, decide_eq_true_eq] at enclosed
    dsimp only at ran
    split at ran
    · cases ran
      exact enclosed_eq enclosed.1.1 enclosed.1.2 enclosed.2
    · cases ran
  · cases ran
    rfl

theorem readIgnores_texts {ignores : List Ignore} (ran : readIgnores value = .ok ignores) :
    readIgnores (shown (.texts (ignores.map Ignore.setting))) = .ok ignores := by
  obtain ⟨items, -, read⟩ := (bind_eq_ok _ _ _).mp ran
  have given : (shown (.texts (ignores.map Ignore.setting))).givenElements =
      .ok ((ignores.map Ignore.setting).map .text) := by
    cases ignores <;> rfl
  rw [readIgnores, given]
  refine (mapM_eq_ok _ _ _).mpr ?_
  rw [List.map_map, List.forall₂_map_left_iff, List.forall₂_same]
  intro ignore member
  obtain ⟨item, -, own⟩ := source_of_mapM read member
  rw [← setting_of_readIgnore own] at own
  exact own

end Fields

section Record

variable {directory path : String} {entries : Entries} {settings : Settings}

structure Reads (directory path : String) (entries : Entries) (settings : Settings) : Prop where
  source : settings.source = .place (if (Entries.field entries "input").isTrue then
    Entries.field entries "input" else Entries.field entries "openapiUrl")
  output : readOutput path (Entries.field entries "output") = .ok settings.output
  cacheFile : settings.cacheFile = Entries.field entries "cacheFile"
  mapping : readMapping path (Entries.field entries "typeMapping") = .ok settings.mapping
  hookEntry : settings.hookEntry = Entries.field entries "funcTpl"
  onlyModel : settings.onlyModel = (Entries.field entries "onlyModel").isTrue
  globalModel : settings.globalModel = (Entries.field entries "asGlobalModel").isTrue
  imports : readImports (Entries.field entries "imports") = .ok settings.imports
  ignores : readIgnores (Entries.field entries "ignores") = .ok settings.ignores
  directory : settings.directory = directory

theorem ofEntries_eq (directory path : String) (entries : Entries) :
    ofEntries directory path entries = do
      let output ← readOutput path (Entries.field entries "output")
      let mapping ← readMapping path (Entries.field entries "typeMapping")
      let imports ← readImports (Entries.field entries "imports")
      let ignores ← readIgnores (Entries.field entries "ignores")
      return ⟨.place (if (Entries.field entries "input").isTrue then
        Entries.field entries "input" else Entries.field entries "openapiUrl"), output,
        Entries.field entries "cacheFile", mapping, Entries.field entries "funcTpl",
        (Entries.field entries "onlyModel").isTrue, (Entries.field entries "asGlobalModel").isTrue,
        imports, ignores, directory⟩ := by
  unfold ofEntries readOutput readImports readIgnores
  simp only [bind_assoc]
  generalize Entries.field entries "imports" = imports
  split <;> rcases imports with (_ | _ | _ | _ | _ | _) | _ | _ <;> rfl

theorem ofEntries_eq_ok :
    ofEntries directory path entries = .ok settings ↔ Reads directory path entries settings := by
  rw [ofEntries_eq]
  simp only [bind_eq_ok, pure_eq_ok]
  constructor
  · rintro ⟨output, put, mapping, mapped, imports, listed, ignores, left, rfl⟩
    exact ⟨rfl, put, rfl, mapped, rfl, rfl, rfl, listed, left, rfl⟩
  · intro reads
    refine ⟨_, reads.output, _, reads.mapping, _, reads.imports, _, reads.ignores, ?_⟩
    rw [← reads.source, ← reads.cacheFile, ← reads.hookEntry, ← reads.onlyModel,
      ← reads.globalModel, ← reads.directory]

def fields (settings : Settings) : Entries :=
  let source := match settings.source with
    | .program _ => Value.null
    | .place value => value
  [(Scalar.text "input", source),
    (.text "output", settings.output.toValue),
    (.text "cacheFile", settings.cacheFile),
    (.text "typeMapping", .record (settings.mapping.map fun pair => (pair.1, .text pair.2))),
    (.text "funcTpl", settings.hookEntry),
    (.text "onlyModel", .bool settings.onlyModel),
    (.text "asGlobalModel", .bool settings.globalModel),
    (.text "imports", .list settings.imports),
    (.text "ignores", .texts (settings.ignores.map Ignore.setting))]

theorem toEntries_eq (settings : Settings) :
    settings.toEntries = settings.fields.filter fun entry => !isBlankSetting entry.2 := rfl

theorem distinct_fields (settings : Settings) : settings.fields.Distinct := by
  rw [Entries.distinct_iff]
  exact (by decide : (["input", "output", "cacheFile", "typeMapping", "funcTpl", "onlyModel",
    "asGlobalModel", "imports", "ignores"].map Scalar.text).Pairwise fun first second =>
      first.same second = false)

theorem field_toEntries {name : String} (value : Value)
    (member : (.text name, value) ∈ settings.fields) :
    Entries.field settings.toEntries name = shown value := by
  rw [toEntries_eq, Entries.field_filter (fun value => !isBlankSetting value)
    settings.distinct_fields member, shown]
  cases isBlankSetting value <;> rfl

theorem field_toEntries_absent {name : String} (absent : ∀ entry ∈ settings.fields,
    entry.1 ≠ .text name) : Entries.field settings.toEntries name = .null := by
  rw [toEntries_eq, Entries.field, Entries.find_of_absent fun entry member =>
    absent entry (List.mem_of_mem_filter member)]
  rfl

/-- Settings that are written and read again are the same ones, if no place and no hook is given as
an empty one. -/
theorem ofEntries_toEntries (found : ofEntries directory path entries = .ok settings)
    (given : ∀ name ∈ ["input", "openapiUrl", "cacheFile", "funcTpl"],
      Entries.field entries name = .null ∨ (Entries.field entries name).isTrue = true)
    (other : String) : ofEntries directory other settings.toEntries = .ok settings := by
  have reads := ofEntries_eq_ok.mp found
  obtain ⟨place, named, told⟩ : ∃ place, settings.source = .place place ∧
      (place = .null ∨ place.isTrue = true) := by
    refine ⟨_, reads.source, ?_⟩
    split
    · rename_i chosen
      exact .inr chosen
    · exact given "openapiUrl" (by simp)
  have input : Entries.field settings.toEntries "input" = place := by
    rw [field_toEntries place (by simp [fields, named]), shown_of_given told]
  have url : Entries.field settings.toEntries "openapiUrl" = .null :=
    field_toEntries_absent (by simp [fields])
  have kept {name : String} {value : Value} (held : value = Entries.field entries name)
      (listed : name ∈ ["input", "openapiUrl", "cacheFile", "funcTpl"])
      (member : (.text name, value) ∈ settings.fields) :
      value = Entries.field settings.toEntries name := by
    rw [field_toEntries value member, shown_of_given (held ▸ given name listed)]
  refine ofEntries_eq_ok.mpr ⟨?_, ?_, ?_, ?_, ?_, ?_, ?_, ?_, ?_, reads.directory⟩
  · rw [input, url, named]
    rcases told with rfl | told
    · rfl
    · rw [if_pos told]
  · rw [field_toEntries settings.output.toValue (by simp [fields])]
    exact readOutput_toValue reads.output other
  · exact kept reads.cacheFile (by simp) (by simp [fields])
  · rw [field_toEntries (.record (settings.mapping.map fun pair => (pair.1, .text pair.2)))
      (by simp [fields])]
    exact readMapping_record reads.mapping other
  · exact kept reads.hookEntry (by simp) (by simp [fields])
  · rw [field_toEntries (.bool settings.onlyModel) (by simp [fields])]
    rfl
  · rw [field_toEntries (.bool settings.globalModel) (by simp [fields])]
    rfl
  · rw [field_toEntries (.list settings.imports) (by simp [fields])]
    exact readImports_list settings.imports
  · rw [field_toEntries (.texts (settings.ignores.map Ignore.setting)) (by simp [fields])]
    exact readIgnores_texts reads.ignores

/-- A place under its other name, one part of an output, pairs with a double, a single import, and
texts on both sides of being patterns. -/
def mixedEntries : Entries :=
  [(.text "openapiUrl", .text "openapi.json"), (.text "output", .texts ["src/api"]),
    (.text "typeMapping", .list [.texts ["Long", "string"], .list [.text "Code", .int 1],
      .texts ["Long", "bigint"]]),
    (.text "asGlobalModel", .int 1), (.text "imports", .text "import './setup'"),
    (.text "ignores", .texts ["/", "//", "///", "/^A/", "Page"])]

theorem ofEntries_toEntries_mixed : ∃ settings,
    ofEntries "/home" settingsFile mixedEntries = .ok settings ∧
      settings.mapping = [("Long", "bigint"), ("Code", "1")] ∧
      settings.ignores.map Ignore.name? = [some "/", some "//", none, none, some "Page"] ∧
      ofEntries "/home" settingsFile settings.toEntries = .ok settings := by
  obtain ⟨settings, found, mapping, ignores⟩ : ∃ settings,
      ofEntries "/home" settingsFile mixedEntries = .ok settings ∧
        settings.mapping = [("Long", "bigint"), ("Code", "1")] ∧
        settings.ignores.map Ignore.name? = [some "/", some "//", none, none, some "Page"] :=
    ⟨_, rfl, rfl, rfl⟩
  refine ⟨settings, found, mapping, ignores, ofEntries_toEntries found ?_ settingsFile⟩
  simp only [List.forall_mem_cons]
  exact ⟨.inl rfl, .inr rfl, .inl rfl, .inl rfl, by simp⟩

end Record

end Settings

end TypedClient
