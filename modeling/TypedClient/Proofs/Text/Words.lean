import TypedClient.Proofs.Text.Part

namespace TypedClient.Text

section SplitWhere

variable {α : Type} {p : α → Bool}

theorem splitWhere_of_none {items : List α} (stays : ∀ item ∈ items, p item = false) :
    splitWhere p items = [items] := by
  induction items with
  | nil => rfl
  | cons item rest ih =>
      have own : p item = false := stays item (by simp)
      have later := ih fun other member => stays other (by simp [member])
      rw [splitWhere, if_neg (by simp [own]), later]

theorem splitWhere_append {item : α} (separates : p item = true) (front back : List α) :
    splitWhere p (front ++ item :: back) = splitWhere p front ++ splitWhere p back := by
  induction front with
  | nil => simp [splitWhere, separates]
  | cons first rest ih =>
      rw [List.cons_append, splitWhere, splitWhere]
      split
      · rw [ih, List.cons_append]
      · rw [ih]
        cases split : splitWhere p rest with
        | nil => exact absurd split (splitWhere_ne_nil p rest)
        | cons piece pieces => rfl

theorem stays_of_mem_splitWhere {items piece : List α} (member : piece ∈ splitWhere p items) :
    ∀ item ∈ piece, p item = false := by
  induction items generalizing piece with
  | nil =>
      rw [splitWhere, List.mem_singleton] at member
      simp [member]
  | cons first rest ih =>
      rw [splitWhere] at member
      split at member
      · rcases List.mem_cons.mp member with rfl | later
        · simp
        · exact ih later
      · rename_i stays
        cases split : splitWhere p rest with
        | nil => exact absurd split (splitWhere_ne_nil p rest)
        | cons head tail =>
            rw [split] at member ih
            rcases List.mem_cons.mp member with rfl | later
            · have others := ih List.mem_cons_self
              intro item held
              rcases List.mem_cons.mp held with rfl | inside
              · simpa using stays
              · exact others item inside
            · exact ih (List.mem_cons_of_mem _ later)

theorem isEmpty_of_mem_splitWhere {items : List α} (all : ∀ item ∈ items, p item = true) :
    ∀ piece ∈ splitWhere p items, piece.isEmpty = true := by
  induction items with
  | nil => simp [splitWhere]
  | cons first rest ih =>
      have later := ih fun item member => all item (by simp [member])
      rw [splitWhere, if_pos (all first (by simp))]
      simpa using later

theorem filter_splitWhere_append {front : List α} (all : ∀ item ∈ front, p item = true)
    (rest : List α) : (splitWhere p (front ++ rest)).filter (!·.isEmpty) =
      (splitWhere p rest).filter (!·.isEmpty) := by
  induction front with
  | nil => rfl
  | cons first more ih =>
      rw [List.cons_append, splitWhere, if_pos (all first (by simp))]
      exact ih fun item member => all item (by simp [member])

theorem filter_splitWhere_trimWhere (items : List α) :
    (splitWhere p (trimWhere p items)).filter (!·.isEmpty) =
      (splitWhere p items).filter (!·.isEmpty) := by
  obtain ⟨front, back, before, after, whole⟩ := exists_trimWhere p items
  generalize trimWhere p items = core at whole ⊢
  rw [whole, List.append_assoc, filter_splitWhere_append before]
  cases back with
  | nil => rw [List.append_nil]
  | cons first rest =>
      have nothing : (splitWhere p rest).filter (!·.isEmpty) = [] := by
        rw [List.filter_eq_nil_iff]
        intro piece member
        simp [isEmpty_of_mem_splitWhere (fun item held => after item (by simp [held])) piece member]
      rw [splitWhere_append (after first (by simp)), List.filter_append, nothing, List.append_nil]

theorem flatMap_splitWhere [DecidableEq α] (separator : α) (items : List α) :
    (splitWhere (· == separator) items).flatMap (separator :: ·) = separator :: items := by
  induction items with
  | nil => rfl
  | cons first rest ih =>
      by_cases separates : first = separator
      · rw [splitWhere, if_pos (by simp [separates]), List.flatMap_cons, ih, separates]
        rfl
      · rw [splitWhere, if_neg (by simp [separates])]
        cases split : splitWhere (· == separator) rest with
        | nil => exact absurd split (splitWhere_ne_nil _ rest)
        | cons head tail =>
            rw [split, List.flatMap_cons, List.cons_append, List.cons.injEq] at ih
            rw [List.flatMap_cons, List.cons_append, List.cons_append, ih.2]

end SplitWhere

def IsWord (word : List Char) : Prop := word ≠ [] ∧ ∀ c ∈ word, isBlank c = false

theorem isWord_of_all {text : List Char} (given : text ≠ [])
    (checked : text.all (!isBlank ·) = true) : IsWord text :=
  ⟨given, fun c member => by simpa using List.all_eq_true.mp checked c member⟩

theorem isWord_of_mem_words {text word : List Char} (member : word ∈ words text) : IsWord word := by
  rcases List.mem_filter.mp member with ⟨piece, given⟩
  exact ⟨by simpa using given, stays_of_mem_splitWhere piece⟩

theorem words_of_isWord {word : List Char} (solid : IsWord word) : words word = [word] := by
  rw [words, splitWhere_of_none solid.2]
  simp [solid.1]

theorem words_append_space (front back : List Char) :
    words (front ++ ' ' :: back) = words front ++ words back := by
  rw [words, splitWhere_append (by decide), List.filter_append]
  rfl

theorem words_join {pieces : List (List Char)} (solid : ∀ piece ∈ pieces, IsWord piece) :
    words ([' '].intercalate pieces) = pieces := by
  induction pieces with
  | nil => rfl
  | cons first rest ih =>
      have own := words_of_isWord (solid first (by simp))
      have later := ih fun piece member => solid piece (by simp [member])
      by_cases more : rest = []
      · simp [more, own]
      · rw [List.intercalate_cons_of_ne_nil more, List.append_assoc, List.singleton_append,
          words_append_space, own, later]
        rfl

theorem tight_join {pieces : List (List Char)} (solid : ∀ piece ∈ pieces, IsWord piece) :
    Tight isBlank ([' '].intercalate pieces) := by
  induction pieces with
  | nil => simp [Tight]
  | cons first rest ih =>
      have own := solid first (by simp)
      have later := ih fun piece member => solid piece (by simp [member])
      by_cases more : rest = []
      · simpa [more] using tight_of_none own.2
      · rw [List.intercalate_cons_of_ne_nil more]
        refine (tight_of_none own.2).append own.1 ?_ later [' ']
        rcases List.exists_cons_of_ne_nil more with ⟨second, others, rfl⟩
        have next := (solid second (by simp)).1
        cases others <;> simp [List.intercalate_cons_cons, next]

def Spaced (text : List Char) : Prop := [' '].intercalate (words text) = text

instance (text : List Char) : Decidable (Spaced text) := inferInstanceAs (Decidable (_ = _))

theorem spaced_join {pieces : List (List Char)} (solid : ∀ piece ∈ pieces, IsWord piece) :
    Spaced ([' '].intercalate pieces) := by
  rw [Spaced, words_join solid]

theorem spaced_of_isWord {word : List Char} (solid : IsWord word) : Spaced word := by
  rw [Spaced, words_of_isWord solid, List.intercalate_singleton]

theorem Spaced.tight {text : List Char} (spaced : Spaced text) : Tight isBlank text := by
  have joined := tight_join fun word (member : word ∈ words text) => isWord_of_mem_words member
  rwa [spaced] at joined

theorem unbroken_of_solid {text : List Char} (solid : ∀ c ∈ text, isBlank c = false) :
    Unbroken text := by
  intro c member
  rw [Bool.eq_false_iff]
  intro breaks
  have blank := isBlank_of_isLineBreak breaks
  rw [solid c member] at blank
  cases blank

theorem Spaced.unbroken {text : List Char} (spaced : Spaced text) : Unbroken text := by
  rw [← spaced]
  intro c member
  by_cases space : c = ' '
  · rw [space]
    decide
  · have apart : [' '].Disjoint [c] := by simpa using space
    rcases exists_of_infix_join (by simp) apart (by simp)
      ((List.singleton_infix_iff c _).mpr member) with ⟨word, own, inside⟩
    have solid := (isWord_of_mem_words own).2
    exact unbroken_of_solid solid c ((List.singleton_infix_iff c word).mp inside)

theorem words_ne_nil {text : List Char} (spaced : Spaced text) (given : text ≠ []) :
    words text ≠ [] := by
  intro nothing
  rw [Spaced, nothing] at spaced
  exact given spaced.symm

theorem Spaced.append_space {front back : List Char} (spaced : Spaced front) (given : front ≠ [])
    (spaced' : Spaced back) (given' : back ≠ []) : Spaced (front ++ ' ' :: back) := by
  rw [Spaced, words_append_space,
    join_append _ (words_ne_nil spaced given) (words_ne_nil spaced' given'), spaced, spaced']
  simp

theorem join_glue (pieces : List (List Char)) (last next : List Char) (others : List (List Char)) :
    [' '].intercalate (pieces ++ [last]) ++ [' '].intercalate (next :: others) =
      [' '].intercalate (pieces ++ (last ++ next) :: others) := by
  induction pieces with
  | nil => cases others <;> simp [List.intercalate_cons_cons]
  | cons first rest ih =>
      have more : rest ++ [last] ≠ [] := by simp
      have more' : rest ++ (last ++ next) :: others ≠ [] := by simp
      rw [List.cons_append, List.cons_append, List.intercalate_cons_of_ne_nil more,
        List.intercalate_cons_of_ne_nil more', List.append_assoc, ih]

/-- Of spaced texts the last word of one and the first of the other may become one. -/
theorem Spaced.append {front back : List Char} (spaced : Spaced front) (spaced' : Spaced back) :
    Spaced (front ++ back) := by
  by_cases empty : front = []
  · simpa [empty] using spaced'
  by_cases empty' : back = []
  · simpa [empty'] using spaced
  rcases List.eq_nil_or_concat (words front) with none_left | ⟨pieces, last, shape⟩
  · exact absurd none_left (words_ne_nil spaced empty)
  rcases List.exists_cons_of_ne_nil (words_ne_nil spaced' empty') with ⟨next, others, shape'⟩
  rw [List.concat_eq_append] at shape
  have solid : ∀ piece ∈ words front, IsWord piece := fun piece member => isWord_of_mem_words member
  have solid' : ∀ piece ∈ words back, IsWord piece := fun piece member => isWord_of_mem_words member
  rw [shape] at solid
  rw [shape'] at solid'
  rw [← spaced, ← spaced', shape, shape', join_glue]
  have ends := solid last (by simp)
  have starts := solid' next (by simp)
  have glued : IsWord (last ++ next) := by
    refine ⟨by simp [ends.1], fun c member => ?_⟩
    rcases List.mem_append.mp member with held | held
    · exact ends.2 c held
    · exact starts.2 c held
  apply spaced_join
  intro piece member
  rcases List.mem_append.mp member with before | after
  · exact solid piece (by simp [before])
  · rcases List.mem_cons.mp after with rfl | behind
    · exact glued
    · exact solid' piece (by simp [behind])

theorem trim_padded {core back : List Char} (tight : Tight isBlank core)
    (after : ∀ c ∈ back, isBlank c = true) : trim (' ' :: (core ++ back)) = core := by
  have before : ∀ c ∈ [' '], isBlank c = true := by
    intro c member
    rw [List.mem_singleton.mp member]
    decide
  exact trimWhere_append before tight after

end TypedClient.Text
