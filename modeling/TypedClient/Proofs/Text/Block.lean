import TypedClient.Proofs.Text.Part

namespace TypedClient.Text

variable {part text : List Char}

theorem infix_of_all_append {p : Char → Bool} {front back : List Char} (solid : part ≠ [])
    (start : ∀ c ∈ part.head?, p c = false) (dropped : ∀ c ∈ front, p c = true)
    (inside : part <:+: front ++ back) : part <:+: back := by
  induction front with
  | nil => exact inside
  | cons first rest ih =>
      rw [List.cons_append, List.infix_cons_iff] at inside
      refine ih (fun c member => dropped c (by simp [member])) (inside.resolve_left ?_)
      intro front
      rcases List.exists_cons_of_ne_nil solid with ⟨c, more, rfl⟩
      rw [List.cons_prefix_cons] at front
      have kept := start c rfl
      rw [front.1, dropped first (by simp)] at kept
      cases kept

theorem infix_of_append_all {p : Char → Bool} {front back : List Char} (solid : part ≠ [])
    (ends : ∀ c ∈ part.getLast?, p c = false) (dropped : ∀ c ∈ back, p c = true)
    (inside : part <:+: front ++ back) : part <:+: front := by
  rw [← List.reverse_infix, List.reverse_append] at inside
  have start : ∀ c ∈ part.reverse.head?, p c = false := by simpa using ends
  have dropped' : ∀ c ∈ back.reverse, p c = true := by simpa using dropped
  rw [← List.reverse_infix]
  exact infix_of_all_append (by simpa using solid) start dropped' inside

theorem infix_trimWhere_of_tight {p : Char → Bool} (solid : part ≠ []) (tight : Tight p part)
    (inside : part <:+: text) : part <:+: trimWhere p text := by
  rcases exists_trimWhere p text with ⟨front, back, before, after, whole⟩
  rw [whole, List.append_assoc] at inside
  exact infix_of_append_all solid tight.2 after (infix_of_all_append solid tight.1 before inside)

/-- A part that begins with what does not stand in front stands behind. -/
theorem infix_behind {start more front back : List Char} {c : Char} (given : start ≠ [])
    (absent : c ∉ start) (free : ¬ start <:+: front)
    (inside : start ++ more <:+: front ++ c :: back) : start ++ more <:+: back := by
  induction front with
  | nil =>
      rw [List.nil_append, List.infix_cons_iff] at inside
      refine inside.resolve_left fun whole => ?_
      have first := (List.prefix_append start more).trans whole
      have nothing := (prefix_append_cons absent [] back).mp first
      exact given (List.prefix_nil.mp nothing)
  | cons first rest ih =>
      rw [List.infix_cons_iff, not_or] at free
      rw [List.cons_append, List.infix_cons_iff] at inside
      refine ih free.2 (inside.resolve_left fun whole => ?_)
      have first := (List.prefix_append start more).trans whole
      exact free.1 ((prefix_append_cons absent (_ :: rest) back).mp first)

structure IsBlock (text : List Char) : Prop where
  given : text ≠ []
  feeds : ∀ c ∈ text, isLineBreak c = true → c = '\n'
  tight : Tight isLineBreak text

theorem IsBlock.no_return (block : IsBlock part) : '\r' ∉ part :=
  fun member => absurd (block.feeds '\r' member (by decide)) (by decide)

theorem return_not_mem_unifyBreaks (text : List Char) : '\r' ∉ unifyBreaks text := by
  induction text using unifyBreaks.induct with
  | case1 => simp [unifyBreaks]
  | case2 rest ih => simp [unifyBreaks, ih]
  | case3 c rest other ih =>
      rw [unifyBreaks]
      · intro member
        rcases List.mem_cons.mp member with same | later
        · split at same
          · cases same
          · rename_i differs
            exact differs (by simp [← same])
        · exact ih later
      · exact other

theorem unifyBreaks_append_of_no_return (absent : '\r' ∉ part) (rest : List Char) :
    unifyBreaks (part ++ rest) = part ++ unifyBreaks rest := by
  induction part with
  | nil => rfl
  | cons c more ih =>
      have other : c ≠ '\r' := fun same => absent (by simp [same])
      rw [List.cons_append, unifyBreaks]
      · rw [ih fun member => absent (by simp [member]), if_neg (by simpa using other),
          List.cons_append]
      · exact fun _ same _ => other same

theorem infix_unifyBreaks (block : IsBlock part) (inside : part <:+: text) :
    part <:+: unifyBreaks text := by
  have front : ∀ text, part <+: text → part <:+: unifyBreaks text := by
    rintro text ⟨rest, rfl⟩
    rw [unifyBreaks_append_of_no_return block.no_return]
    exact (List.prefix_append _ _).isInfix
  induction text using unifyBreaks.induct with
  | case1 => exact front [] (by simpa using inside)
  | case2 rest ih =>
      have start : ∀ c ∈ part.head?, isLineBreak c = false := block.tight.1
      have behind : part <:+: ['\r', '\n'] ++ rest := inside
      have later := ih (infix_of_all_append block.given start (forall_of_all (by decide)) behind)
      rw [unifyBreaks]
      exact later.trans (List.suffix_cons _ _).isInfix
  | case3 c rest other ih =>
      rcases List.infix_cons_iff.mp inside with here | later
      · exact front _ here
      · rw [unifyBreaks]
        · exact (ih later).trans (List.suffix_cons _ _).isInfix
        · exact other

def feed (c : Char) : Char := if isLineBreak c then '\n' else c

theorem map_feed (feeds : ∀ c ∈ text, isLineBreak c = true → c = '\n') : text.map feed = text := by
  have same : text.map feed = text.map id := by
    apply List.map_congr_left
    intro c member
    unfold feed
    split
    · rename_i breaks
      exact (feeds c member breaks).symm
    · rfl
  rw [same, List.map_id]

theorem map_feed_of_unbroken {line : List Char} (whole : Unbroken line) : line.map feed = line := by
  apply map_feed
  intro c member breaks
  rw [whole c member] at breaks
  cases breaks

theorem join_lines (absent : '\r' ∉ text) :
    text.map feed = ['\n'].intercalate (lines text) ∨
      text.map feed = ['\n'].intercalate (lines text) ++ ['\n'] := by
  induction text using induction_on_lines with
  | last line whole =>
      left
      rw [map_feed_of_unbroken whole]
      by_cases empty : line = []
      · simp [empty, lines]
      · simp [lines_of_unbroken whole empty]
  | pair line rest whole ih => exact absurd (by simp) absent
  | single line c rest whole breaks alone ih =>
      have step : feed c = '\n' := if_pos breaks
      rw [lines_append_break whole breaks alone, List.map_append, List.map_cons, step,
        map_feed_of_unbroken whole]
      by_cases empty : rest = []
      · right
        simp [empty, lines]
      · have more : lines rest ≠ [] := lines_ne_nil empty
        rw [List.intercalate_cons_of_ne_nil more]
        rcases ih (fun member => absent (by simp [member])) with same | same
        · left
          simp [same]
        · right
          simp [same]

theorem infix_join_lines (block : IsBlock part) (absent : '\r' ∉ text) (inside : part <:+: text) :
    part <:+: ['\n'].intercalate (lines text) := by
  have held := inside.map feed
  rw [map_feed block.feeds] at held
  rcases join_lines absent with same | same
  · rwa [same] at held
  · rw [same] at held
    exact infix_of_append_all block.given block.tight.2 (forall_of_all (by decide)) held

end TypedClient.Text
