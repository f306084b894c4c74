import TypedClient.Proofs.Interface.Comment
import TypedClient.Proofs.Naming.Coincidence
import TypedClient.Proofs.Output.Marks

/-!
A function that is written twice. The built-in form of a function holds its mark, unless the mark
breaks a line or closes the comment that it stands in. A file that took such a function is left as
it is afterwards.
-/

namespace TypedClient

section Marked

variable {context : FunctionContext} {method url : String}

/-- The mark of an operation that the comment of a function leaves as it is. -/
structure IsPrintable (mark : String) : Prop where
  unbroken : Text.Unbroken mark.toList
  closes : ¬ "*/".toList <:+: mark.toList

theorem infix_declare (printable : IsPrintable (operationMark context.method context.url))
    (types : List String) :
    (operationMark context.method context.url).toList <:+: (context.declare types).toList := by
  have listed : operationMark context.method context.url ∈ context.commentTexts :=
    List.mem_append_right _ (List.mem_singleton_self _)
  have lines := commentLines_of_line printable.unbroken printable.closes
    (getLast_operationMark _ _) (by decide)
  have comment : (operationMark context.method context.url).toList <:+:
      (docComment "" context.commentTexts).toList :=
    infix_docComment listed (lines ▸ List.mem_singleton_self _)
  refine comment.trans ?_
  unfold FunctionContext.declare
  simp only [String.toList_append, List.append_assoc]
  exact (List.prefix_append _ _).isInfix

end Marked

theorem yields_write_again {path : String} {first second : FileCall} {before after : Workspace}
    {written : Bool} (same : second.api = first.api)
    (marked : containsText first.api.mark first.api.sourceCode = true)
    (block : Text.IsBlock first.api.mark.toList)
    (ran : Yields (first.write path) before written after) :
    Yields (second.write path) after false after := by
  apply yields_write_false
  rw [same]
  rcases yields_write ran with ⟨-, rfl, settled⟩ | ⟨-, -, content, imports, -, -, -, saved⟩
  · exact settled
  · have extended : first.api.mark.toList <:+:
        (extendSource content imports first.api.sourceCode).toList :=
      infix_extendSource (List.mem_append_right _ (List.mem_singleton_self _))
        (infix_trimBreaks block ((Text.contains_iff _ _).mp marked))
    refine .inr ⟨_, Work.yields_fileText_of_saveFile saved, ?_⟩
    rw [containsText, Text.contains_iff, reread, String.toList_ofList]
    exact Text.infix_unifyBreaks block extended

/-- An operation in the built-in form carries its mark, unless the mark breaks a line or closes a
comment, so a file takes it once: writing it again changes nothing. -/
theorem function_written_once {options : GenerateOptions} {operation : Operation} {api : Api}
    {notices : List Notice}
    (silent : ∀ own ∈ options.hook, ∀ context,
      (own context).bind FunctionContext.hookText? = none)
    (made : (generateApi options operation).outcome = (.ok api, notices))
    (filled : api.sourceCode ≠ "") (printable : IsPrintable api.mark) :
    containsText api.mark api.sourceCode = true ∧
      ∀ (path : String) (first second : FileCall) (before after : Workspace) (written : Bool),
        first.api = api → second.api = api → Yields (first.write path) before written after →
          Yields (second.write path) after false after := by
  rw [Noted.yields_outcome, yields_generateApi] at made
  obtain ⟨shown, source, -, sourced, rfl⟩ := made
  have marked : containsText (operation.api options shown source).mark
      (operation.api options shown source).sourceCode = true := by
    rw [sourceOf] at sourced
    split at sourced
    · obtain ⟨blank, -⟩ := (yields_pure _ _ _ _).mp sourced
      exact absurd blank filled
    · have built := defaultText_of_text (fun own given => silent own given _) sourced
      rw [defaultText_eq] at built
      obtain ⟨types, -, rfl⟩ := (map_eq_ok _ _ _).mp built
      rw [Operation.api_mark] at printable ⊢
      have inside := @infix_declare (operation.context options shown)
        (by simpa using printable) (types.map spelled)
      rw [Operation.context_method, Operation.context_url] at inside
      rw [Operation.api_sourceCode]
      exact (Text.contains_iff _ _).mpr inside
  refine ⟨marked, fun path first second before after written own other ran => ?_⟩
  rw [← own] at marked printable
  have block := isBlock_mark fun c member breaks =>
    absurd (printable.unbroken c member) (by simp [breaks])
  exact yields_write_again (other.trans own.symm) marked block ran

section Users

/-- A function without models and parameters needs no imports. -/
theorem imports_bareOperation (path method source : String) (directory : Place) (file : String) :
    FileCall.imports directory file { api := (bareOperation path method).api {} {} source } =
      .ok [] := by
  unfold FileCall.imports apiImports ownImports modelImports queryImports
  simp
  rfl

theorem function_written_once_users : ∃ api after,
    (generateApi {} (bareOperation "/users/\x7bid\x7d" "get")).outcome = (.ok api, []) ∧
    api.sourceCode ≠ "" ∧ IsPrintable api.mark ∧
    Yields (FileCall.write "users.ts" { api }) {} true after ∧
    Yields (FileCall.write "users.ts" { api }) after false after := by
  obtain ⟨source, filled, made⟩ := yields_bareOperation "/users/\x7bid\x7d" "get"
  have mark := (bareOperation "/users/\x7bid\x7d" "get").api_mark {} {} source
  have text := (bareOperation "/users/\x7bid\x7d" "get").api_sourceCode {} {} source
  have built := imports_bareOperation "/users/\x7bid\x7d" "get" source [] "users.ts"
  generalize (bareOperation "/users/\x7bid\x7d" "get").api {} {} source = api
    at made mark text built
  rw [← text] at filled
  have printable : IsPrintable api.mark := by
    rw [mark]
    refine ⟨Text.unbroken_of_all (by decide +kernel), fun inside => ?_⟩
    rw [← Text.contains_iff] at inside
    exact absurd inside (by decide +kernel)
  have saved : Yields (Work.saveFile "users.ts" (extendSource "" [] api.sourceCode)) {} () _ :=
    Work.yields_saveFile_iff.mpr ⟨{}, ["users.ts"], by decide +kernel, by rfl, rfl⟩
  have found : Yields (Work.fileText "users.ts") {} "" {} := yields_of_check (by decide +kernel)
  have absent : containsText api.mark "" = false := by
    rw [mark]
    decide +kernel
  have wrote : Yields (FileCall.write "users.ts" { api }) {} true _ :=
    yields_write_true filled found absent built saved
  have once := function_written_once (fun _ own => by cases own) made filled printable
  exact ⟨api, _, made, filled, printable, wrote,
    once.2 "users.ts" { api } { api } _ _ true rfl rfl wrote⟩

end Users

end TypedClient
