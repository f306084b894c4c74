import Mathlib.Data.List.ReduceOption
import TypedClient.Interface.Comment
import TypedClient.Proofs.Text.Part

namespace TypedClient

variable {indent text : String} {texts : List String} {line : List Char}

/-- A line that does not close the comment stands in it as it is. -/
theorem commentLines_of_line (whole : Text.Unbroken text.toList)
    (safe : ¬ "*/".toList <:+: text.toList) {last : Char} (ended : last ∈ text.toList.getLast?)
    (solid : Text.isBlank last = false) : commentLines text = [text.toList] := by
  have given : text.toList ≠ [] := by
    intro empty
    simp [empty] at ended
  have inked : text.toList.all Text.isBlank = false := by
    rw [List.all_eq_false]
    exact ⟨last, List.mem_of_mem_getLast? ended, by simp [solid]⟩
  have trimmed : Text.trimEnd text.toList = text.toList := by
    apply Text.dropTrailing_of_last
    intro other ended'
    rwa [Option.mem_unique ended' ended]
  unfold commentLines
  dsimp only
  rw [Text.replaceAll_untouched _ safe, Text.lines_of_unbroken whole given]
  simp [inked, trimmed]

/-- A line that closes the comment does not. -/
example : commentLines "@UNOAPI[get:/files/*/raw]" =
    ["@UNOAPI[get:/files/*\\/raw]".toList] := by
  decide

theorem infix_join {texts : List String} (member : text ∈ texts) :
    text.toList <:+: (String.join texts).toList := by
  induction texts with
  | nil => cases member
  | cons first rest ih =>
      rw [String.join_cons, String.toList_append]
      rcases List.mem_cons.mp member with rfl | later
      · exact (List.prefix_append _ _).isInfix
      · exact (ih later).trans (List.suffix_append _ _).isInfix

theorem infix_docComment (member : text ∈ texts) (inside : line ∈ commentLines text) :
    line <:+: (docComment indent texts).toList := by
  have held : line ∈ texts.flatMap commentLines := List.mem_flatMap.mpr ⟨text, member, inside⟩
  have listed := List.mem_map_of_mem
    (f := fun line => indent ++ " * " ++ String.ofList line ++ "\n")
    held
  have own : line <:+: (indent ++ " * " ++ String.ofList line ++ "\n").toList := by
    simp only [String.toList_append, String.toList_ofList]
    exact List.infix_append _ _ _
  unfold docComment
  dsimp only
  rw [if_neg (by simpa using List.ne_nil_of_mem held)]
  simp only [String.toList_append]
  have body := (own.trans (infix_join listed)).trans
    (List.infix_append (indent.toList ++ "/**\n".toList) _ indent.toList)
  exact body.trans (List.prefix_append _ _).isInfix

section Enclosed

def closingMark : List Char := ['*', '/']

def defused (text : List Char) : List Char :=
  Text.replaceAll closingMark ['*', '\\', '/'] text

theorem not_closed_defused (text : List Char) : ¬ closingMark <:+: defused text := by
  unfold defused Text.replaceAll closingMark
  generalize 0 = pending
  fun_induction Text.replaceFrom ['*', '/'] ['*', '\\', '/'] pending text with
  | case1 => decide
  | case2 pending c rest ih => exact ih
  | case3 c rest found ih => simpa [List.infix_cons_iff] using ih
  | case4 c rest other ih =>
      intro inside
      rcases List.infix_cons_iff.mp inside with front | later
      · -- the slash behind the asterisk would have been there before
        obtain ⟨rfl, more, shape⟩ := List.cons_prefix_cons.mp front
        have heads : (Text.replaceAll ['*', '/'] ['*', '\\', '/'] rest).head? = rest.head? :=
          Text.head?_replaceAll (by simp) (by rfl) rest
        rw [Text.replaceAll, ← shape] at heads
        obtain ⟨after, rfl⟩ := List.head?_eq_some_iff.mp heads.symm
        exact other (by simp)
      · exact ih later

/-- The lines of a text that are not blank, as a comment shows them. -/
def shownLines (text : String) : List (List Char) :=
  ((Text.lines text.toList).filter fun line => !line.all Text.isBlank).map fun line =>
    Text.trimEnd (defused line)

theorem commentLines_eq (text : String) : commentLines text = shownLines text := by
  have cut : Text.lines (defused text.toList) = (Text.lines text.toList).map defused :=
    Text.lines_replaceAll (by decide) (by decide) (Text.unbroken_of_all (by decide))
      (Text.unbroken_of_all (by decide)) text.toList
  have blank (line : List Char) : (defused line).all Text.isBlank = line.all Text.isBlank :=
    Text.all_isBlank_replaceAll (by decide) (by decide) line
  have same : commentLines text =
      ((Text.lines (defused text.toList)).filter fun line => !line.all Text.isBlank).map
        Text.trimEnd := rfl
  rw [same, cut, List.filter_map, List.map_map]
  simp only [Function.comp_def, blank]
  rfl

def openLines (indent : List Char) (shown : List (List Char)) : List (List Char) :=
  (indent ++ ['/', '*', '*']) :: shown.map (indent ++ [' ', '*', ' '] ++ ·)

def framedLines (indent : List Char) (shown : List (List Char)) : List (List Char) :=
  openLines indent shown ++ [indent ++ ' ' :: closingMark]

theorem docComment_eq_empty (none : texts.flatMap shownLines = []) :
    docComment indent texts = "" := by
  have shown : texts.flatMap commentLines = texts.flatMap shownLines :=
    List.flatMap_congr fun text _ => commentLines_eq text
  unfold docComment
  dsimp only
  rw [shown, none]
  rfl

theorem toList_docComment (given : texts.flatMap shownLines ≠ []) :
    (docComment indent texts).toList =
      (framedLines indent.toList (texts.flatMap shownLines)).flatMap (· ++ ['\n']) := by
  have shown : texts.flatMap commentLines = texts.flatMap shownLines :=
    List.flatMap_congr fun text _ => commentLines_eq text
  unfold docComment
  dsimp only
  rw [shown, if_neg (by simpa using given)]
  simp [framedLines, openLines, closingMark, String.toList_join, List.flatMap_map]

theorem unbroken_of_mem_shownLines (member : line ∈ shownLines text) : Text.Unbroken line := by
  obtain ⟨own, kept, rfl⟩ := List.mem_map.mp member
  have whole := Text.unbroken_of_mem_lines (List.mem_filter.mp kept).1
  have still : Text.Unbroken (defused own) := by
    intro c inside
    rcases Text.mem_replaceFrom inside with new | old
    · have bare : Text.Unbroken ['*', '\\', '/'] := Text.unbroken_of_all (by decide)
      exact bare c new
    · exact whole c old
  exact still.of_subset (List.rdropWhile_prefix _ _).subset

theorem not_closed_of_mem_shownLines (member : line ∈ shownLines text) :
    ¬ closingMark <:+: line := by
  obtain ⟨own, -, rfl⟩ := List.mem_map.mp member
  intro inside
  exact not_closed_defused own (inside.trans (List.rdropWhile_prefix _ _).isInfix)

/-- A comment around lines: it is opened and closed, and behind the only mark that closes it just
the line ends. -/
structure Encloses (indent : List Char) (shown : List (List Char)) (comment : List Char) :
    Prop where
  opens : indent ++ ['/', '*', '*'] <+: comment
  closes : closingMark ++ ['\n'] <:+ comment
  once : ∀ front back, comment = front ++ closingMark ++ back → back = ['\n']
  lines : Text.lines comment = framedLines indent shown

/-- The only mark that closes a comment is the one at the end if none stands in front of its
slash. -/
theorem eq_feed_of_closed {start front back : List Char}
    (absent : ¬ closingMark <:+: start ++ ['*'])
    (whole : start ++ closingMark ++ ['\n'] = front ++ closingMark ++ back) : back = ['\n'] := by
  have cut : (start ++ ['*']) ++ ['/', '\n'] = (front ++ ['*', '/']) ++ back := by
    simpa [closingMark] using whole
  have early (more : List Char) (same : start ++ ['*'] = front ++ ['*', '/'] ++ more) : False :=
    absent ⟨front, more, same.symm⟩
  rcases List.append_eq_append_iff.mp cut with ⟨more, longer, rest⟩ | ⟨more, shorter, rest⟩
  · match more with
    | [] => exact (early [] (by simpa using longer.symm)).elim
    | [slash] => exact (List.cons.inj rest).2.symm
    | slash :: feed :: others =>
        obtain ⟨rfl, rfl, rfl, rfl⟩ : slash = '/' ∧ feed = '\n' ∧ others = [] ∧ back = [] := by
          simpa [eq_comm] using rest
        have last := congrArg List.getLast? longer
        simp at last
  · exact (early more shorter).elim

section Lines

variable {margin : List Char} {shown : List (List Char)}

theorem unbroken_of_mem_framedLines (bare : Text.Unbroken margin)
    (whole : ∀ line ∈ shown, Text.Unbroken line) (member : line ∈ framedLines margin shown) :
    Text.Unbroken line := by
  have mark {mark : List Char} (checked : mark.all (!Text.isLineBreak ·) = true) :
      Text.Unbroken (margin ++ mark) :=
    (Text.unbroken_append _ _).mpr ⟨bare, Text.unbroken_of_all checked⟩
  simp only [framedLines, openLines, List.mem_append, List.mem_cons, List.mem_map,
    List.not_mem_nil, or_false] at member
  rcases member with (rfl | ⟨own, held, rfl⟩) | rfl
  · exact mark (by decide)
  · exact (Text.unbroken_append _ _).mpr ⟨mark (by decide), whole own held⟩
  · exact mark (by decide)

theorem not_closed_of_mem_openLines (bare : '*' ∉ margin)
    (safe : ∀ line ∈ shown, ¬ closingMark <:+: line) (member : line ∈ openLines margin shown) :
    ¬ closingMark <:+: line := by
  intro inside
  rcases List.mem_cons.mp member with rfl | later
  · exact absurd (Text.infix_of_absent bare inside) (by decide)
  · obtain ⟨own, held, rfl⟩ := List.mem_map.mp later
    rw [List.append_assoc] at inside
    have behind := Text.infix_of_absent bare inside
    exact safe own held (by simpa [closingMark, List.infix_cons_iff] using behind)

/-- A comment of which no line closes it is closed at its end. -/
theorem encloses_of_lines (bare : Text.Unbroken margin ∧ '*' ∉ margin)
    (whole : ∀ line ∈ shown, Text.Unbroken line) (safe : ∀ line ∈ shown, ¬ closingMark <:+: line) :
    Encloses margin shown ((framedLines margin shown).flatMap (· ++ ['\n'])) := by
  have unbroken : ∀ line ∈ framedLines margin shown, Text.Unbroken line :=
    fun line member => unbroken_of_mem_framedLines bare.1 whole member
  have shape : (framedLines margin shown).flatMap (· ++ ['\n']) =
      ((openLines margin shown).flatMap (· ++ ['\n']) ++ (margin ++ [' '])) ++ closingMark ++
        ['\n'] := by
    simp [framedLines]
  constructor
  · simp [framedLines, openLines]
  · rw [shape, List.append_assoc]
    exact List.suffix_append _ _
  · intro front back same
    rw [shape] at same
    refine eq_feed_of_closed (fun inside => ?_) same
    -- up to the last asterisk the mark would stand in one of the lines
    have last : Text.Unbroken (margin ++ [' ', '*']) :=
      (Text.unbroken_append _ _).mpr ⟨bare.1, Text.unbroken_of_all (by decide)⟩
    have cut := Text.lines_ended_append
      (fun line member => unbroken line (List.mem_append_left _ member)) (margin ++ [' ', '*'])
    rw [Text.lines_of_unbroken last (by simp)] at cut
    rw [List.append_assoc, List.append_assoc, List.singleton_append,
      Text.infix_lines (Text.unbroken_of_all (by decide)) (by decide), cut] at inside
    obtain ⟨line, member, held⟩ := inside
    rcases List.mem_append.mp member with early | late
    · exact not_closed_of_mem_openLines bare.2 safe early held
    · rw [List.mem_singleton.mp late] at held
      exact absurd (Text.infix_of_absent bare.2 held) (by decide)
  · exact Text.lines_ended unbroken

end Lines

/-- Whatever texts a comment is made of, it is closed at its end only, and between its marks stand
the lines of the texts that are not blank. -/
theorem docComment_closed_at_end (width : Nat) (items : List (Option String)) :
    (docComment (String.ofList (List.replicate width ' ')) items.reduceOption = "" ↔
        ∀ text, some text ∈ items → ∀ line ∈ Text.lines text.toList, line.all Text.isBlank = true) ∧
      (docComment (String.ofList (List.replicate width ' ')) items.reduceOption ≠ "" →
        Encloses (List.replicate width ' ') (items.reduceOption.flatMap shownLines)
          (docComment (String.ofList (List.replicate width ' ')) items.reduceOption).toList) := by
  have blank : items.reduceOption.flatMap shownLines = [] ↔
      ∀ text, some text ∈ items →
        ∀ line ∈ Text.lines text.toList, line.all Text.isBlank = true := by
    simp only [List.flatMap_eq_nil_iff, List.reduceOption_mem_iff, shownLines, List.map_eq_nil_iff,
      List.filter_eq_nil_iff, Bool.not_eq_true', Bool.not_eq_false]
  have empty : docComment (String.ofList (List.replicate width ' ')) items.reduceOption = "" ↔
      items.reduceOption.flatMap shownLines = [] := by
    refine ⟨fun nothing => ?_, docComment_eq_empty⟩
    by_contra given
    have text := @toList_docComment (String.ofList (List.replicate width ' ')) _ given
    rw [nothing] at text
    simp [framedLines] at text
  refine ⟨empty.trans blank, fun given => ?_⟩
  rw [toList_docComment (mt empty.mpr given), String.toList_ofList]
  apply encloses_of_lines
  · exact ⟨fun c member => by rw [List.eq_of_mem_replicate member]; decide,
      fun member => absurd (List.eq_of_mem_replicate member) (by decide)⟩
  · intro line member
    obtain ⟨text, -, inside⟩ := List.mem_flatMap.mp member
    exact unbroken_of_mem_shownLines inside
  · intro line member
    obtain ⟨text, -, inside⟩ := List.mem_flatMap.mp member
    exact not_closed_of_mem_shownLines inside

theorem docComment_closed_at_end_glob :
    docComment (String.ofList (List.replicate 2 ' '))
        [some "Files of src/**/raw\n \n */ ends\t", none].reduceOption =
      "  /**\n   * Files of src/**\\/raw\n   *  *\\/ ends\n   */\n" ∧
    Encloses [' ', ' '] ["Files of src/**\\/raw".toList, " *\\/ ends".toList]
      "  /**\n   * Files of src/**\\/raw\n   *  *\\/ ends\n   */\n".toList := by
  have text : docComment (String.ofList (List.replicate 2 ' '))
      [some "Files of src/**/raw\n \n */ ends\t", none].reduceOption =
        "  /**\n   * Files of src/**\\/raw\n   *  *\\/ ends\n   */\n" := by decide +kernel
  have closed := docComment_closed_at_end 2 [some "Files of src/**/raw\n \n */ ends\t", none]
  rw [text] at closed
  exact ⟨text, closed.2 (by decide)⟩

end Enclosed

end TypedClient
