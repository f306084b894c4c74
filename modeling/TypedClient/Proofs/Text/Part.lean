import TypedClient.Proofs.Text.Lines

/-! Parts of texts: a part stays on one side of whatever it does not hold. Where a part is replaced,
the rest stays, and so do the lines that are not blank. -/

namespace TypedClient.Text

variable {part gap text : List Char}

theorem contains_iff (part text : List Char) : contains part text = true ↔ part <:+: text := by
  induction text with
  | nil => simp [contains]
  | cons c rest ih =>
      rw [contains, Bool.or_eq_true, ih, List.isPrefixOf_iff_prefix, List.infix_cons_iff]

theorem prefix_append_cons {c : Char} (absent : c ∉ part) (front back : List Char) :
    part <+: front ++ c :: back ↔ part <+: front := by
  induction front generalizing part with
  | nil =>
      cases part with
      | nil => simp
      | cons first rest =>
          have differs : first ≠ c := fun same => absent (by simp [same])
          simp [List.cons_prefix_cons, differs]
  | cons start more ih =>
      cases part with
      | nil => simp
      | cons first rest =>
          rw [List.cons_append, List.cons_prefix_cons, List.cons_prefix_cons,
            ih fun member => absent (by simp [member])]

theorem infix_append_cons {c : Char} (absent : c ∉ part) (front back : List Char) :
    part <:+: front ++ c :: back ↔ part <:+: front ∨ part <:+: back := by
  induction front with
  | nil =>
      have start := prefix_append_cons absent [] back
      rw [List.nil_append] at *
      rw [List.infix_cons_iff, start, List.prefix_nil, List.infix_nil]
  | cons first rest ih =>
      have start := prefix_append_cons absent (first :: rest) back
      rw [List.cons_append] at *
      rw [List.infix_cons_iff, start, ih, List.infix_cons_iff, or_assoc]

/-- A part begins behind a text that does not hold its first character. -/
theorem infix_of_absent {c : Char} {front back : List Char} (absent : c ∉ front)
    (inside : c :: part <:+: front ++ back) : c :: part <:+: back := by
  induction front with
  | nil => exact inside
  | cons first rest ih =>
      simp only [List.mem_cons, not_or] at absent
      rw [List.cons_append, List.infix_cons_iff, List.cons_prefix_cons] at inside
      exact ih absent.2 (inside.resolve_left fun here => absent.1 here.1)

/-- A text that shares no character with the part keeps both sides apart. -/
theorem infix_append_gap (given : gap ≠ []) (apart : gap.Disjoint part) (solid : part ≠ [])
    (front back : List Char) :
    part <:+: front ++ gap ++ back ↔ part <:+: front ∨ part <:+: back := by
  induction gap generalizing front with
  | nil => exact absurd rfl given
  | cons c rest ih =>
      have absent : c ∉ part := fun member => apart (by simp) member
      rw [List.append_assoc, List.cons_append, infix_append_cons absent]
      by_cases more : rest = []
      · simp [more]
      · have later := ih more (fun other member => apart (by simp [member])) []
        rw [List.nil_append, List.infix_nil] at later
        rw [later]
        simp [solid]

theorem infix_join_of_mem {texts : List (List Char)} (gap : List Char) (member : text ∈ texts) :
    text <:+: gap.intercalate texts := by
  induction texts with
  | nil => cases member
  | cons first rest ih =>
      by_cases more : rest = []
      · rw [more, List.mem_singleton] at member
        rw [more, List.intercalate_singleton, member]
      · rw [List.intercalate_cons_of_ne_nil more]
        rcases List.mem_cons.mp member with rfl | later
        · rw [List.append_assoc]
          exact (List.prefix_append _ _).isInfix
        · exact (ih later).trans (List.suffix_append _ _).isInfix

theorem exists_of_infix_join {texts : List (List Char)} (given : gap ≠ [])
    (apart : gap.Disjoint part) (solid : part ≠ []) (inside : part <:+: gap.intercalate texts) :
    ∃ text ∈ texts, part <:+: text := by
  induction texts with
  | nil => exact absurd (List.infix_nil.mp inside) solid
  | cons first rest ih =>
      by_cases more : rest = []
      · rw [more, List.intercalate_singleton] at inside
        exact ⟨first, by simp, inside⟩
      · rw [List.intercalate_cons_of_ne_nil more,
          infix_append_gap given apart solid] at inside
        rcases inside with first_inside | later
        · exact ⟨first, by simp, first_inside⟩
        · rcases ih later with ⟨text, member, held⟩
          exact ⟨text, by simp [member], held⟩

theorem infix_lines (whole : Unbroken part) (solid : part ≠ []) :
    part <:+: text ↔ ∃ line ∈ lines text, part <:+: line := by
  have absent : ∀ c, isLineBreak c = true → c ∉ part := by
    intro c breaks member
    rw [whole c member] at breaks
    cases breaks
  induction text using induction_on_lines with
  | last line own =>
      by_cases empty : line = []
      · simp [empty, lines, solid]
      · simp [lines_of_unbroken own empty]
  | pair line rest own ih =>
      have before := infix_append_cons (absent '\r' (by decide)) line ('\n' :: rest)
      have after := infix_append_cons (absent '\n' (by decide)) [] rest
      rw [List.nil_append, List.infix_nil] at after
      simp [lines_append_return_feed own, before, after, solid, ih]
  | single line c rest own breaks alone ih =>
      simp [lines_append_break own breaks alone, infix_append_cons (absent c breaks), ih]

theorem infix_trimWhere (p : Char → Bool) (text : List Char) : trimWhere p text <:+: text := by
  obtain ⟨front, back, -, -, whole⟩ := exists_trimWhere p text
  exact ⟨front, back, whole.symm⟩

theorem infix_of_append_gap {front : List Char} (apart : gap.Disjoint part) (solid : part ≠ [])
    (inside : part <:+: front ++ gap) : part <:+: front := by
  by_cases empty : gap = []
  · simpa [empty] using inside
  · rw [← List.append_nil (front ++ gap), infix_append_gap empty apart solid, List.infix_nil]
      at inside
    exact inside.resolve_right solid

theorem infix_of_gap_append {back : List Char} (apart : gap.Disjoint part) (solid : part ≠ [])
    (inside : part <:+: gap ++ back) : part <:+: back := by
  by_cases empty : gap = []
  · simpa [empty] using inside
  · rw [← List.nil_append gap, infix_append_gap empty apart solid, List.infix_nil] at inside
    exact inside.resolve_left solid

/-- A part that holds nothing of what is trimmed stands in what is left. -/
theorem infix_trimWhere_of_apart {p : Char → Bool} (solid : part ≠ [])
    (apart : ∀ c ∈ part, p c = false) (inside : part <:+: text) : part <:+: trimWhere p text := by
  rcases exists_trimWhere p text with ⟨front, back, before, after, whole⟩
  have edge : ∀ gap : List Char, (∀ c ∈ gap, p c = true) → gap.Disjoint part := by
    intro gap dropped c member held
    have kept := apart c held
    rw [dropped c member] at kept
    cases kept
  rw [whole] at inside
  exact infix_of_gap_append (edge front before) solid
    (infix_of_append_gap (edge back after) solid inside)

theorem splitWhere_parts (p : Char → Bool) (text : List Char) :
    ∃ first rest, splitWhere p text = first :: rest ∧ first <+: text ∧
      ∀ piece ∈ rest, piece <:+: text := by
  induction text with
  | nil => exact ⟨[], [], rfl, List.prefix_rfl, by simp⟩
  | cons c more ih =>
      rcases ih with ⟨first, rest, split, front, inside⟩
      have within : ∀ piece ∈ rest, piece <:+: c :: more :=
        fun piece member => List.infix_cons (inside piece member)
      by_cases separates : p c = true
      · refine ⟨[], first :: rest, by rw [splitWhere, if_pos separates, split], by simp, ?_⟩
        intro piece member
        rcases List.mem_cons.mp member with rfl | later
        · exact List.infix_cons front.isInfix
        · exact within piece later
      · refine ⟨c :: first, rest, by rw [splitWhere, if_neg separates, split], ?_, within⟩
        exact (List.prefix_cons_inj c).mpr front

theorem infix_of_mem_splitWhere {p : Char → Bool} {piece : List Char}
    (member : piece ∈ splitWhere p text) : piece <:+: text := by
  rcases splitWhere_parts p text with ⟨first, rest, split, front, inside⟩
  rw [split] at member
  rcases List.mem_cons.mp member with rfl | later
  · exact front.isInfix
  · exact inside piece later

theorem infix_of_mem_words {word : List Char} (member : word ∈ words text) : word <:+: text :=
  infix_of_mem_splitWhere (List.mem_filter.mp member).1

/-- Words one blank apart hold only what the text holds. -/
theorem infix_of_infix_words (unblank : ' ' ∉ part) (solid : part ≠ [])
    (inside : part <:+: [' '].intercalate (words text)) : part <:+: text := by
  rcases exists_of_infix_join (by simp) (by simpa using unblank) solid inside with
    ⟨word, member, held⟩
  exact held.trans (infix_of_mem_words member)

theorem mem_of_mem_words {c : Char} (member : c ∈ [' '].intercalate (words text)) :
    c = ' ' ∨ c ∈ text := by
  by_cases blank : c = ' '
  · exact .inl blank
  · have inside := (List.singleton_infix_iff c _).mpr member
    have kept := infix_of_infix_words (by simpa using Ne.symm blank) (by simp) inside
    exact .inr ((List.singleton_infix_iff c text).mp kept)

section Replace

variable {old new text : List Char}

/-- A text that does not hold what is replaced stays as it is. -/
theorem replaceAll_untouched (new : List Char) (absent : ¬ old <:+: text) :
    replaceAll old new text = text := by
  unfold replaceAll
  induction text with
  | nil => rfl
  | cons c rest ih =>
      have later := ih fun inside => absent (List.infix_cons inside)
      rw [replaceFrom, if_neg, later]
      intro front
      exact absent (List.isPrefixOf_iff_prefix.mp front).isInfix

theorem replaceFrom_skip (count : Nat) :
    replaceFrom old new count text = replaceFrom old new 0 (text.drop count) := by
  induction text generalizing count with
  | nil => cases count <;> rfl
  | cons c rest ih =>
      cases count with
      | zero => rfl
      | succ count => exact ih count

theorem replaceAll_of_absent (new : List Char) {first : Char} (head : old.head? = some first)
    (absent : first ∉ text) : replaceAll old new text = text := by
  obtain ⟨more, rfl⟩ := List.head?_eq_some_iff.mp head
  exact replaceAll_untouched new fun inside => absent (inside.subset (by simp))

theorem replaceAll_own (given : old ≠ []) (new text : List Char) :
    replaceAll old new (old ++ text) = new ++ replaceAll old new text := by
  obtain ⟨first, more, rfl⟩ := List.exists_cons_of_ne_nil given
  have front : (first :: more).isPrefixOf (first :: (more ++ text)) = true :=
    List.isPrefixOf_iff_prefix.mpr (List.prefix_append (first :: more) text)
  rw [replaceAll, List.cons_append, replaceFrom, if_pos front, replaceFrom_skip]
  simp [replaceAll]

/-- A text at the front is replaced once and does not come again. -/
theorem replaceAll_front {first : Char} (head : old.head? = some first) (absent : first ∉ text) :
    replaceAll old new (old ++ text) = new ++ text := by
  have given : old ≠ [] := by
    rintro rfl
    cases head
  rw [replaceAll_own given, replaceAll_of_absent new head absent]

theorem replaceAll_append {rest : List Char} {first : Char}
    (head : old.head? = some first) (absent : first ∉ text) :
    replaceAll old new (text ++ rest) = text ++ replaceAll old new rest := by
  obtain ⟨more, rfl⟩ := List.head?_eq_some_iff.mp head
  induction text with
  | nil => rfl
  | cons c text ih =>
      rw [List.mem_cons, not_or] at absent
      have other : (first :: more).isPrefixOf (c :: (text ++ rest)) = false := by
        simp [List.isPrefixOf, absent.1]
      rw [List.cons_append, replaceAll, replaceFrom, other, if_neg Bool.false_ne_true]
      exact congrArg (c :: ·) (ih absent.2)

/-- Replacing stays on one side of a character that is not replaced. -/
theorem replaceAll_append_cons {c : Char} (given : old ≠ []) (absent : c ∉ old)
    (front back : List Char) :
    replaceAll old new (front ++ c :: back) =
      replaceAll old new front ++ c :: replaceAll old new back := by
  have passes (pending : Nat) (inside : pending ≤ front.length) :
      replaceFrom old new pending (front ++ c :: back) =
        replaceFrom old new pending front ++ c :: replaceFrom old new 0 back := by
    induction front generalizing pending with
    | nil =>
        obtain rfl : pending = 0 := Nat.le_zero.mp inside
        have other : old.isPrefixOf (c :: back) = false := by
          rw [Bool.eq_false_iff]
          intro front
          have start := (prefix_append_cons absent [] back).mp (List.isPrefixOf_iff_prefix.mp front)
          exact given (List.prefix_nil.mp start)
        simp [replaceFrom, other]
    | cons first rest ih =>
        cases pending with
        | succ pending => exact ih pending (Nat.le_of_succ_le_succ inside)
        | zero =>
            have same := prefix_append_cons absent (first :: rest) back
            rw [List.cons_append] at same
            rw [List.cons_append, replaceFrom, replaceFrom]
            by_cases front : old <+: first :: rest
            · have short := front.length_le
              rw [if_pos (List.isPrefixOf_iff_prefix.mpr (same.mpr front)),
                if_pos (List.isPrefixOf_iff_prefix.mpr front),
                ih (old.length - 1) (by rw [List.length_cons] at short; omega), List.append_assoc]
            · rw [if_neg (mt (same.mp ∘ List.isPrefixOf_iff_prefix.mp) front),
                if_neg (mt List.isPrefixOf_iff_prefix.mp front), ih 0 (Nat.zero_le _),
                List.cons_append]
  exact passes 0 (Nat.zero_le _)

theorem replaceFrom_sublist (old : List Char) (pending : Nat) (text : List Char) :
    (replaceFrom old [] pending text).Sublist text := by
  fun_induction replaceFrom old [] pending text with
  | case1 => exact List.Sublist.refl _
  | case2 pending c rest ih => exact ih.cons c
  | case3 c rest found ih => exact ih.cons c
  | case4 c rest other ih => exact ih.cons_cons c

theorem mem_replaceFrom {c : Char} {pending : Nat}
    (member : c ∈ replaceFrom old new pending text) : c ∈ new ∨ c ∈ text := by
  fun_induction replaceFrom old new pending text with
  | case1 => cases member
  | case2 pending first rest ih => exact (ih member).imp_right (List.mem_cons_of_mem _)
  | case3 first rest found ih =>
      rcases List.mem_append.mp member with own | later
      · exact .inl own
      · exact (ih later).imp_right (List.mem_cons_of_mem _)
  | case4 first rest other ih =>
      rcases List.mem_cons.mp member with rfl | later
      · exact .inr List.mem_cons_self
      · exact (ih later).imp_right (List.mem_cons_of_mem _)

theorem infix_replaceAll (given : old ≠ []) (new : List Char) (inside : old <:+: text) :
    new <:+: replaceAll old new text := by
  unfold replaceAll
  induction text with
  | nil => exact absurd (List.infix_nil.mp inside) given
  | cons c rest ih =>
      rw [replaceFrom]
      split
      · exact (List.prefix_append _ _).isInfix
      · rename_i other
        rw [List.isPrefixOf_iff_prefix] at other
        exact List.infix_cons (ih ((List.infix_cons_iff.mp inside).resolve_left other))

section SameHead

variable (given : old ≠ []) (same : new.head? = old.head?)
include given same

theorem head?_replaceAll (text : List Char) : (replaceAll old new text).head? = text.head? := by
  unfold replaceAll
  cases text with
  | nil => rfl
  | cons c rest =>
      rw [replaceFrom]
      split
      · rename_i front
        obtain ⟨behind, whole⟩ := List.isPrefixOf_iff_prefix.mp front
        have started : new ≠ [] := by
          rintro rfl
          exact given (List.head?_eq_none_iff.mp same.symm)
        rw [List.head?_append_of_ne_nil _ started, same, ← whole,
          List.head?_append_of_ne_nil _ given]
      · rfl

theorem lines_replaceAll (whole : Unbroken old) (whole' : Unbroken new) (text : List Char) :
    lines (replaceAll old new text) = (lines text).map (replaceAll old new) := by
  have absent {c : Char} (breaks : isLineBreak c = true) : c ∉ old := by
    intro member
    rw [whole c member] at breaks
    cases breaks
  have heads := head?_replaceAll given same
  have unbroken {line : List Char} (own : Unbroken line) : Unbroken (replaceAll old new line) :=
    fun c member => (mem_replaceFrom member).elim (whole' c) (own c)
  induction text using induction_on_lines with
  | last line own =>
      by_cases empty : line = []
      · subst empty
        rfl
      · have more : replaceAll old new line ≠ [] := by
          intro gone
          have none := heads line
          rw [gone] at none
          exact empty (List.head?_eq_none_iff.mp none.symm)
        rw [lines_of_unbroken own empty, lines_of_unbroken (unbroken own) more]
        rfl
  | pair line rest own ih =>
      have feed : replaceAll old new ('\n' :: rest) = '\n' :: replaceAll old new rest :=
        replaceAll_append_cons given (absent (by decide)) [] rest
      rw [replaceAll_append_cons given (absent (by decide)), feed,
        lines_append_return_feed (unbroken own), lines_append_return_feed own, ih, List.map_cons]
  | single line c rest own breaks alone ih =>
      have still : ¬(c = '\r' ∧ (replaceAll old new rest).head? = some '\n') := by rwa [heads]
      rw [replaceAll_append_cons given (absent breaks),
        lines_append_break (unbroken own) breaks still, lines_append_break own breaks alone, ih,
        List.map_cons]

end SameHead

/-- A text is blank if and only if it is so after a replacement of a solid text by one. -/
theorem all_isBlank_replaceAll (solid : old.all isBlank = false) (solid' : new.all isBlank = false)
    (text : List Char) : (replaceAll old new text).all isBlank = text.all isBlank := by
  have given : old ≠ [] := by
    rintro rfl
    cases solid
  by_cases inside : old <:+: text
  · have inked {part whole : List Char} (held : part <:+: whole)
        (solid : part.all isBlank = false) :
        whole.all isBlank = false := by
      obtain ⟨c, member, ink⟩ := List.all_eq_false.mp solid
      exact List.all_eq_false.mpr ⟨c, held.subset member, ink⟩
    rw [inked inside solid, inked (infix_replaceAll given new inside) solid']
  · rw [replaceAll_untouched new inside]

end Replace

end TypedClient.Text
