import TypedClient.Proofs.Output.ApiFile
import TypedClient.Proofs.Text.Block

namespace TypedClient

/-- Source code as the writer leaves it: statements without marks first, then lines that open no
import. -/
structure Tidy (content : String) : Prop where
  unified : '\r' ∉ content.toList
  parts : ∃ front back, Text.lines content.toList = front ++ back ∧
    (∀ line ∈ front, ImportText.IsStatement line ∧ Unmarked line) ∧
    ∀ line ∈ back, ImportText.opens (Text.trim line) = false

theorem tidy_empty : Tidy "" where
  unified := by simp
  parts := ⟨[], [], rfl, List.forall_mem_nil _, List.forall_mem_nil _⟩

namespace Tidy

variable {content : String}

theorem plainLines_eq (tidy : Tidy content) : ∃ front,
    Text.lines content.toList = front ++ plainLines content ∧
      (∀ line ∈ front, ImportText.IsStatement line ∧ Unmarked line) ∧
      statementLines content = front := by
  rcases tidy.parts with ⟨front, back, shape, statements, plain⟩
  have fronts := statementsIn_of_isStatement fun line member => (statements line member).1
  have backs := statementsIn_of_plain plain
  have rest : plainLines content = back := by
    rw [plainLines, shape, ImportText.plainIn, List.filter_append]
    exact (congrArg₂ _ fronts.2 backs.2).trans (List.nil_append _)
  have start : statementLines content = front := by
    rw [statementLines, shape, ImportText.statementsIn, List.map_append, List.filter_append]
    exact (congrArg₂ _ fronts.1 backs.1).trans (List.append_nil _)
  exact ⟨front, by rw [rest, shape], statements, start⟩

theorem clean (tidy : Tidy content) : CleanStatements content := by
  rcases tidy.plainLines_eq with ⟨front, -, statements, start⟩
  intro line member
  rw [start] at member
  rcases statements line member with ⟨statement, unmarked⟩
  exact ⟨statement.unbroken, statement.complete, unmarked⟩

end Tidy

theorem getLast_operationMark (method url : String) :
    (operationMark method url).toList.getLast? = some ']' := by
  rw [operationMark, String.toList_append, List.getLast?_append_of_ne_nil _ (by decide)]
  rfl

theorem isBlock_mark {api : Api}
    (feeds : ∀ c ∈ api.mark.toList, Text.isLineBreak c = true → c = '\n') :
    Text.IsBlock api.mark.toList where
  given := by
    intro nothing
    have start := mark_starts api
    rw [nothing, List.prefix_nil] at start
    exact absurd start (by decide)
  feeds := feeds
  tight := by
    constructor
    · rcases mark_starts api with ⟨rest, shape⟩
      rw [← shape]
      intro c first
      cases first
      decide
    · intro c last
      rw [Api.mark, getLast_operationMark] at last
      cases last
      decide

section Extended

variable {content code : String} {incoming : List ImportEntry} {api : Api}

theorem Tidy.infix_body (tidy : Tidy content) (block : Text.IsBlock api.mark.toList)
    (held : api.mark.toList <:+: content.toList) :
    api.mark.toList <:+: ['\n'].intercalate (plainLines content) := by
  rcases tidy.plainLines_eq with ⟨front, shape, statements, -⟩
  have joined := Text.infix_join_lines block tidy.unified held
  rw [shape] at joined
  have solid : markStart ≠ [] := by decide
  have absent : '\n' ∉ markStart := by decide
  have apart : ['\n'].Disjoint markStart := List.singleton_disjoint.mpr absent
  have free : ¬ markStart <:+: ['\n'].intercalate front := by
    intro marked
    rcases Text.exists_of_infix_join (List.cons_ne_nil _ _) apart solid marked with
      ⟨line, member, inside⟩
    exact (statements line member).2 inside
  rcases mark_starts api with ⟨more, start⟩
  by_cases none_front : front = []
  · rwa [none_front, List.nil_append] at joined
  · by_cases none_back : plainLines content = []
    · rw [none_back, List.append_nil] at joined
      exact absurd ((infix_mark api).trans joined) free
    · rw [Text.join_append _ none_front none_back, List.append_assoc, List.singleton_append,
        ← start] at joined
      rw [← start]
      exact Text.infix_behind solid absent free joined

theorem infix_extendSource {part text : List Char}
    (member : text ∈ block (trimBreaks (['\n'].intercalate (splitSource content).others)) ++
      [trimBreaks code.toList]) (inside : part <:+: text) :
    part <:+: (extendSource content incoming code).toList := by
  rw [toList_extendSource, List.append_assoc]
  have listed := List.mem_append_right
    ((block (mergedWith content incoming)).map fun merged => (importsText merged).toList) member
  exact (inside.trans (Text.infix_join_of_mem _ listed)).trans (List.prefix_append _ _).isInfix

theorem infix_trimBreaks {text : List Char} (block : Text.IsBlock api.mark.toList)
    (inside : api.mark.toList <:+: text) : api.mark.toList <:+: trimBreaks text := by
  have stays : ∀ c, Text.isLineBreak c = false → isBreak c = false := by
    intro c other
    rw [isBreak, beq_eq_false_iff_ne]
    rintro rfl
    exact absurd other (by decide)
  exact Text.infix_trimWhere_of_tight block.given
    ⟨fun c first => stays c (block.tight.1 c first), fun c last => stays c (block.tight.2 c last)⟩
    inside

/-- A mark in the file or in the added function stands in the file that is read again. -/
theorem Tidy.holds_mark (tidy : Tidy content) (block' : Text.IsBlock api.mark.toList)
    (held : containsText api.mark content = true ∨ containsText api.mark code = true) :
    containsText api.mark (reread (extendSource content incoming code)) = true := by
  unfold containsText at *
  rw [Text.contains_iff, Text.contains_iff] at held
  rw [Text.contains_iff, reread, String.toList_ofList]
  apply Text.infix_unifyBreaks block'
  rcases held with old | new
  · have body := infix_trimBreaks block' (tidy.infix_body block' old)
    have others : (splitSource content).others = plainLines content := by
      rw [splitSource_of_whole tidy.clean.whole]
    rw [← others] at body
    have given : trimBreaks (['\n'].intercalate (splitSource content).others) ≠ [] := by
      intro nothing
      rw [nothing, List.infix_nil] at body
      exact block'.given body
    refine infix_extendSource (List.mem_append_left _ ?_) body
    rw [block, if_neg (by simpa using given)]
    exact List.mem_singleton.mpr rfl
  · exact infix_extendSource (List.mem_append_right _ (List.mem_singleton.mpr rfl))
      (infix_trimBreaks block' new)

theorem opens_of_mem_added {line : List Char} (plain : statementLines code = [])
    (member : line ∈ [[]].intercalate (block (bodyLines content) ++
      [Text.lines (trimBreaks code.toList ++ ['\n'])])) :
    ImportText.opens (Text.trim line) = false := by
  rcases mem_join_blocks member with rfl | ⟨lines, listed, inside⟩
  · rfl
  · rcases List.mem_append.mp listed with old | new
    · rw [eq_of_mem_block old] at inside
      exact plain_of_mem_bodyLines inside
    · rw [List.mem_singleton.mp new] at inside
      exact plain_of_statementLines_nil plain inside

theorem Tidy.extended (tidy : Tidy content) (clean : ∀ entry ∈ incoming, entry.IsClean)
    (plain : statementLines code = []) : Tidy (reread (extendSource content incoming code)) where
  unified := by
    rw [reread, String.toList_ofList]
    exact Text.return_not_mem_unifyBreaks _
  parts := by
    have entries := isClean_mergedWith tidy.clean clean
    have printable := fun entry member => (entries entry member).printable
    have statements : ∀ line ∈ (mergedWith content incoming).flatMap ImportEntry.lines,
        ImportText.IsStatement line ∧ Unmarked line := by
      intro line member
      rcases List.mem_flatMap.mp member with ⟨entry, held, inside⟩
      exact ⟨(printable entry held).isStatement inside,
        (entries entry held).unmarked.line framed_unmarked inside⟩
    rw [lines_reread, lines_extendSource tidy.clean.whole printable]
    by_cases none_left : (mergedWith content incoming).flatMap ImportEntry.lines = []
    · have nothing : block ([] : List (List Char)) = [] := rfl
      rw [none_left, nothing, List.nil_append]
      exact ⟨[], _, (List.nil_append _).symm, List.forall_mem_nil _,
        fun line member => opens_of_mem_added plain member⟩
    · have own : block ((mergedWith content incoming).flatMap ImportEntry.lines) =
          [(mergedWith content incoming).flatMap ImportEntry.lines] := by
        rw [block, if_neg (by simpa using none_left)]
      rw [own, List.append_assoc, List.singleton_append, List.intercalate_cons_of_ne_nil (by simp),
        List.append_assoc, List.singleton_append]
      refine ⟨_, _, rfl, statements, ?_⟩
      intro line member
      rcases List.mem_cons.mp member with rfl | inside
      · rfl
      · exact opens_of_mem_added plain inside

end Extended

end TypedClient
