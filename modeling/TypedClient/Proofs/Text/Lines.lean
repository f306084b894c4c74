import Mathlib.Data.List.Infix
import Mathlib.Data.List.TakeWhile
import TypedClient.Proofs.Text.Trim
import TypedClient.Text.Lines
import TypedClient.Text.Replace

namespace TypedClient.Text

def Unbroken (text : List Char) : Prop := ∀ c ∈ text, isLineBreak c = false

theorem unbroken_of_all {text : List Char} (checked : text.all (!isLineBreak ·) = true) :
    Unbroken text := by
  intro c member
  simpa using List.all_eq_true.mp checked c member

@[simp] theorem unbroken_nil : Unbroken [] := by simp [Unbroken]

@[simp] theorem unbroken_cons (c : Char) (text : List Char) :
    Unbroken (c :: text) ↔ isLineBreak c = false ∧ Unbroken text := by
  simp [Unbroken]

@[simp] theorem unbroken_append (front back : List Char) :
    Unbroken (front ++ back) ↔ Unbroken front ∧ Unbroken back := by
  simp [Unbroken, or_imp, forall_and]

theorem Unbroken.of_subset {part text : List Char} (whole : Unbroken text) (inside : part ⊆ text) :
    Unbroken part :=
  fun c member => whole c (inside member)

theorem Unbroken.no_feed {text : List Char} (whole : Unbroken text) : '\n' ∉ text :=
  fun member => absurd (whole _ member) (by decide)

theorem isBlank_of_isLineBreak {c : Char} (breaks : isLineBreak c = true) : isBlank c = true := by
  simp only [isLineBreak, isBlank, Bool.or_eq_true, Bool.and_eq_true, decide_eq_true_eq,
    beq_iff_eq] at *
  omega

section Lines

attribute [local simp] lines

variable {line text : List Char}

/-- A character that is no break belongs to the first line of the rest. -/
theorem lines_solid {c : Char} (solid : isLineBreak c = false) (rest : List Char) :
    lines (c :: rest) = (c :: (lines rest).headD []) :: (lines rest).tail := by
  rw [lines]
  · rw [if_neg (by simp [solid])]
    cases lines rest <;> rfl
  · rintro _ rfl _
    exact absurd solid (by decide)

theorem lines_of_unbroken (whole : Unbroken line) (given : line ≠ []) : lines line = [line] := by
  induction line with
  | nil => exact absurd rfl given
  | cons c rest ih =>
      rw [unbroken_cons] at whole
      rw [lines_solid whole.1]
      by_cases empty : rest = []
      · simp [empty]
      · simp [ih whole.2 empty]

theorem lines_append_return_feed (whole : Unbroken line) (rest : List Char) :
    lines (line ++ '\r' :: '\n' :: rest) = line :: lines rest := by
  induction line with
  | nil => simp
  | cons c more ih =>
      rw [unbroken_cons] at whole
      rw [List.cons_append, lines_solid whole.1, ih whole.2]
      rfl

theorem lines_append_break {c : Char} {rest : List Char} (whole : Unbroken line)
    (breaks : isLineBreak c = true) (alone : ¬(c = '\r' ∧ rest.head? = some '\n')) :
    lines (line ++ c :: rest) = line :: lines rest := by
  induction line with
  | nil =>
      rw [List.nil_append, lines]
      · rw [if_pos breaks]
      · rintro _ rfl rfl
        exact alone ⟨rfl, rfl⟩
  | cons first more ih =>
      rw [unbroken_cons] at whole
      rw [List.cons_append, lines_solid whole.1, ih whole.2]
      rfl

theorem lines_append_feed (whole : Unbroken line) (rest : List Char) :
    lines (line ++ '\n' :: rest) = line :: lines rest :=
  lines_append_break whole (by decide) (by simp)

theorem induction_on_lines {motive : List Char → Prop}
    (last : ∀ line, Unbroken line → motive line)
    (pair : ∀ line rest, Unbroken line → motive rest → motive (line ++ '\r' :: '\n' :: rest))
    (single : ∀ line c rest, Unbroken line → isLineBreak c = true →
      ¬(c = '\r' ∧ rest.head? = some '\n') → motive rest → motive (line ++ c :: rest))
    (text : List Char) : motive text := by
  induction size : text.length using Nat.strong_induction_on generalizing text with
  | _ size ih =>
      have cut := List.takeWhile_append_dropWhile (p := (!isLineBreak ·)) (l := text)
      have whole : Unbroken (text.takeWhile (!isLineBreak ·)) := by
        intro c member
        simpa using List.mem_takeWhile_imp member
      generalize text.takeWhile (!isLineBreak ·) = line at cut whole
      cases rest : text.dropWhile (!isLineBreak ·) with
      | nil =>
          rw [rest, List.append_nil] at cut
          exact cut ▸ last line whole
      | cons c rest' =>
          have breaks : isLineBreak c = true := by
            have stopped := List.head_dropWhile_not (!isLineBreak ·) (by rw [rest]; simp)
            simpa [rest] using stopped
          rw [rest] at cut
          subst cut
          simp only [List.length_append, List.length_cons] at size
          by_cases follows : c = '\r' ∧ rest'.head? = some '\n'
          · obtain ⟨rfl, feed⟩ := follows
            obtain ⟨after, rfl⟩ := List.head?_eq_some_iff.mp feed
            simp only [List.length_cons] at size
            exact pair line after whole (ih after.length (by omega) after rfl)
          · exact single line c rest' whole breaks follows (ih rest'.length (by omega) rest' rfl)

theorem unbroken_of_mem_lines (member : line ∈ lines text) : Unbroken line := by
  induction text using induction_on_lines with
  | last whole_text whole =>
      by_cases empty : whole_text = []
      · simp [empty] at member
      · rw [lines_of_unbroken whole empty, List.mem_singleton] at member
        exact member ▸ whole
  | pair front rest whole ih =>
      rw [lines_append_return_feed whole] at member
      rcases List.mem_cons.mp member with rfl | later
      · exact whole
      · exact ih later
  | single front c rest whole breaks alone ih =>
      rw [lines_append_break whole breaks alone] at member
      rcases List.mem_cons.mp member with rfl | later
      · exact whole
      · exact ih later

/-- A break that is alone stays so before more text, unless it is a carriage return at the end. -/
theorem alone_append {c : Char} {rest : List Char} (alone : ¬(c = '\r' ∧ rest.head? = some '\n'))
    (inner : ¬(c = '\r' ∧ rest = [])) (more : List Char) :
    ¬(c = '\r' ∧ (rest ++ more).head? = some '\n') := by
  rintro ⟨carriage, feed⟩
  cases rest with
  | nil => exact inner ⟨carriage, rfl⟩
  | cons first others => exact alone ⟨carriage, by simpa using feed⟩

theorem lines_append (front back : List Char) :
    lines (front ++ '\n' :: back) = lines (front ++ ['\n']) ++ lines back := by
  induction front using induction_on_lines with
  | last line whole =>
      rw [lines_append_feed whole, lines_append_feed whole]
      simp
  | pair line rest whole ih =>
      simp only [List.append_assoc, List.cons_append, lines_append_return_feed whole, ih]
  | single line c rest whole breaks alone ih =>
      rw [List.append_assoc, List.append_assoc, List.cons_append, List.cons_append]
      -- A carriage return at the end makes one break with the line feed behind it.
      by_cases ends : c = '\r' ∧ rest = []
      · obtain ⟨rfl, rfl⟩ := ends
        simp [lines_append_return_feed whole]
      · have still := alone_append alone ends
        rw [lines_append_break whole breaks (still _), lines_append_break whole breaks (still _),
          ih, List.cons_append]

theorem lines_feeds_append (count : Nat) (rest : List Char) :
    lines (List.replicate count '\n' ++ rest) = List.replicate count [] ++ lines rest := by
  induction count with
  | zero => rfl
  | succ count ih =>
      have first := lines_append_feed unbroken_nil (List.replicate count '\n' ++ rest)
      rw [List.replicate_succ, List.replicate_succ, List.cons_append, List.cons_append, ← ih]
      exact first

theorem lines_intercalate (count : Nat) {texts : List (List Char)} (given : texts ≠ []) :
    lines ((List.replicate (count + 1) '\n').intercalate texts ++ ['\n']) =
      (List.replicate count []).intercalate (texts.map fun text => lines (text ++ ['\n'])) := by
  induction texts with
  | nil => exact absurd rfl given
  | cons first rest ih =>
      cases rest with
      | nil => simp
      | cons second more =>
          have later := ih (by simp)
          rw [List.map_cons] at later
          rw [List.map_cons, List.map_cons, List.intercalate_cons_cons,
            List.intercalate_cons_cons, ← later]
          simp only [List.replicate_succ, List.append_assoc, List.cons_append]
          rw [lines_append, lines_feeds_append]

theorem lines_join {texts : List (List Char)} (given : texts ≠ [])
    (whole : ∀ text ∈ texts, Unbroken text) :
    lines (['\n'].intercalate texts ++ ['\n']) = texts := by
  induction texts with
  | nil => exact absurd rfl given
  | cons first rest ih =>
      have own := whole first (by simp)
      cases rest with
      | nil =>
          rw [List.intercalate_singleton, lines_append_feed own]
          rfl
      | cons second more =>
          rw [List.intercalate_cons_cons, List.append_assoc, List.append_assoc,
            List.singleton_append, lines_append_feed own, ih (by simp)]
          exact fun text member => whole text (by simp [member])

/-- So do lines without a feed at the end, if none is empty. -/
theorem lines_join_solid {texts : List (List Char)} (whole : ∀ text ∈ texts, Unbroken text)
    (solid : [] ∉ texts) : lines (['\n'].intercalate texts) = texts := by
  induction texts with
  | nil => rfl
  | cons first rest ih =>
      have own := whole first (by simp)
      cases rest with
      | nil =>
          rw [List.intercalate_singleton]
          exact lines_of_unbroken own fun empty => solid (by simp [empty])
      | cons second more =>
          rw [List.intercalate_cons_cons, List.append_assoc, List.singleton_append,
            lines_append_feed own, ih]
          · exact fun text member => whole text (by simp [member])
          · exact fun member => solid (List.mem_cons_of_mem _ member)

/-- Lines that each end with a feed come apart from each other and from what follows. -/
theorem lines_ended_append {texts : List (List Char)} (whole : ∀ text ∈ texts, Unbroken text)
    (rest : List Char) : lines (texts.flatMap (· ++ ['\n']) ++ rest) = texts ++ lines rest := by
  induction texts with
  | nil => rfl
  | cons first others ih =>
      rw [List.flatMap_cons, List.append_assoc, List.append_assoc, List.singleton_append,
        lines_append_feed (whole first (by simp)), ih, List.cons_append]
      exact fun text member => whole text (by simp [member])

theorem lines_ended {texts : List (List Char)} (whole : ∀ text ∈ texts, Unbroken text) :
    lines (texts.flatMap (· ++ ['\n'])) = texts := by
  have all := lines_ended_append whole []
  rwa [List.append_nil, show lines [] = [] from rfl, List.append_nil] at all

theorem mem_lines_append_feed (member : line ∈ lines (text ++ ['\n'])) :
    line = [] ∨ line ∈ lines text := by
  induction text using induction_on_lines with
  | last front whole =>
      rw [lines_append_feed whole, lines, List.mem_singleton] at member
      subst member
      by_cases empty : line = []
      · exact .inl empty
      · simp [lines_of_unbroken whole empty]
  | pair front rest whole ih =>
      simp only [List.append_assoc, List.cons_append, lines_append_return_feed whole,
        List.mem_cons] at *
      rcases member with rfl | later
      · exact .inr (.inl rfl)
      · exact (ih later).imp_right .inr
  | single front c rest whole breaks alone ih =>
      rw [lines_append_break whole breaks alone, List.mem_cons]
      rw [List.append_assoc, List.cons_append] at member
      by_cases ends : c = '\r' ∧ rest = []
      · obtain ⟨rfl, rfl⟩ := ends
        rw [List.nil_append, lines_append_return_feed whole, lines, List.mem_singleton] at member
        exact .inr (.inl member)
      · rw [lines_append_break whole breaks (alone_append alone ends _), List.mem_cons] at member
        rcases member with rfl | later
        · exact .inr (.inl rfl)
        · exact (ih later).imp_right .inr

/-- Behind a break something follows if the text does not end with one. -/
theorem ended_behind_break {front rest : List Char} {c : Char} (breaks : isLineBreak c = true)
    (ended : ∀ last ∈ (front ++ c :: rest).getLast?, isLineBreak last = false) :
    rest ≠ [] ∧ ∀ last ∈ rest.getLast?, isLineBreak last = false := by
  have more : rest ≠ [] := by
    rintro rfl
    rw [ended c (by simp)] at breaks
    cases breaks
  rw [List.append_cons, List.getLast?_append_of_ne_nil _ more] at ended
  exact ⟨more, ended⟩

theorem lines_append_feed_of_ended (given : text ≠ [])
    (ended : ∀ last ∈ text.getLast?, isLineBreak last = false) :
    lines (text ++ ['\n']) = lines text := by
  induction text using induction_on_lines with
  | last line whole =>
      rw [lines_append_feed whole, lines_of_unbroken whole given]
      rfl
  | pair line rest whole ih =>
      rw [List.append_cons] at ended
      have behind := ended_behind_break (by decide) ended
      simp only [List.append_assoc, List.cons_append, lines_append_return_feed whole,
        ih behind.1 behind.2]
  | single line c rest whole breaks alone ih =>
      have behind := ended_behind_break breaks ended
      rw [List.append_assoc, List.cons_append, lines_append_break whole breaks alone,
        lines_append_break whole breaks, ih behind.1 behind.2]
      rw [List.head?_append_of_ne_nil _ behind.1]
      exact alone

theorem lines_ne_nil (given : text ≠ []) : lines text ≠ [] := by
  induction text using induction_on_lines with
  | last line whole => simp [lines_of_unbroken whole given]
  | pair line rest whole _ => simp [lines_append_return_feed whole]
  | single line c rest whole breaks alone _ => simp [lines_append_break whole breaks alone]

/-- A text without breaks at its ends has no empty lines at its ends. -/
theorem tight_lines (tight : Tight isLineBreak text) : Tight List.isEmpty (lines text) := by
  constructor
  · cases text with
    | nil => simp
    | cons c rest =>
        rw [lines_solid (tight.1 c rfl)]
        simp
  · have ended := tight.2
    clear tight
    induction text using induction_on_lines with
    | last line whole =>
        by_cases empty : line = []
        · simp [empty]
        · simp [lines_of_unbroken whole empty, empty]
    | pair line rest whole ih =>
        rw [List.append_cons] at ended
        have behind := ended_behind_break (by decide) ended
        rw [lines_append_return_feed whole,
          List.getLast?_cons_of_ne_nil (lines_ne_nil behind.1)]
        exact ih behind.2
    | single line c rest whole breaks alone ih =>
        have behind := ended_behind_break breaks ended
        rw [lines_append_break whole breaks alone,
          List.getLast?_cons_of_ne_nil (lines_ne_nil behind.1)]
        exact ih behind.2

end Lines

section UnifyBreaks

theorem unifyBreaks_append {line : List Char} (whole : Unbroken line) (rest : List Char) :
    unifyBreaks (line ++ rest) = line ++ unifyBreaks rest := by
  induction line with
  | nil => rfl
  | cons c more ih =>
      rw [unbroken_cons] at whole
      have other : c ≠ '\r' := by
        rintro rfl
        exact absurd whole.1 (by decide)
      rw [List.cons_append, unifyBreaks]
      · simp [other, ih whole.2]
      · exact fun _ same _ => other same

theorem lines_unifyBreaks (text : List Char) : lines (unifyBreaks text) = lines text := by
  induction text using induction_on_lines with
  | last line whole =>
      have same := unifyBreaks_append whole []
      rw [List.append_nil] at same
      rw [same, unifyBreaks, List.append_nil]
  | pair line rest whole ih =>
      rw [unifyBreaks_append whole, unifyBreaks, lines_append_feed whole, ih,
        lines_append_return_feed whole]
  | single line c rest whole breaks alone ih =>
      have step : unifyBreaks (c :: rest) =
          (if c == '\r' then '\n' else c) :: unifyBreaks rest := by
        rw [unifyBreaks]
        rintro more rfl rfl
        exact alone ⟨rfl, rfl⟩
      rw [unifyBreaks_append whole, step, lines_append_break whole breaks alone]
      by_cases carriage : c = '\r'
      · rw [if_pos (by simpa using carriage), lines_append_feed whole, ih]
      · rw [if_neg (by simpa using carriage), lines_append_break whole breaks, ih]
        exact fun both => carriage both.1

end UnifyBreaks

end TypedClient.Text
