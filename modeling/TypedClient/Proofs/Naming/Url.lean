import TypedClient.Naming.Identifier
import TypedClient.Naming.Url
import TypedClient.Proofs.Text.Case
import TypedClient.Proofs.Text.Words

namespace TypedClient.Naming

theorem joinCamel_ne_nil {text : List Char} (given : text ≠ []) : joinCamel text ≠ [] := by
  fun_cases joinCamel text with
  | case1 => exact absurd rfl given
  | case2 c => exact List.cons_ne_nil _ _
  | case3 c d rest joined => simp [Text.upperForm_ne_nil]
  | case4 c d rest apart => exact List.cons_ne_nil _ _

/-- A character of a name in camel case is one of the text, or a form of a word character of it. -/
theorem mem_joinCamel {text : List Char} {d : Char} (member : d ∈ joinCamel text) :
    d ∈ text ∨ ∃ c ∈ text, Text.isWord c = true ∧ d ∈ Text.upperForm c := by
  fun_induction joinCamel text with
  | case1 => cases member
  | case2 c => exact .inl member
  | case3 c e rest joined ih =>
      rcases List.mem_append.mp member with form | later
      · exact .inr ⟨e, by simp, (Bool.and_eq_true _ _ ▸ joined).2, form⟩
      · rcases ih later with inside | ⟨source, inside, word, form⟩
        · exact .inl (by simp [inside])
        · exact .inr ⟨source, by simp [inside], word, form⟩
  | case4 c e rest apart ih =>
      rcases List.mem_cons.mp member with rfl | later
      · exact .inl (by simp)
      · rcases ih later with inside | ⟨source, inside, word, form⟩
        · exact .inl (List.mem_cons_of_mem _ inside)
        · exact .inr ⟨source, List.mem_cons_of_mem _ inside, word, form⟩

/-- Only a slash of the text becomes a slash in camel case. -/
theorem slash_of_joinCamel {text : List Char} (member : '/' ∈ joinCamel text) : '/' ∈ text := by
  rcases mem_joinCamel member with inside | ⟨c, inside, -, form⟩
  · exact inside
  · rcases Text.ascii_upperForm form (by decide) with capital | same
    · exact absurd capital (by decide)
    · rw [same]
      exact inside

section CaseSafe

inductive IsFormOf (c : Char) : Char → Prop
  | self : IsFormOf c c
  | upper {d e : Char} : IsFormOf c d → e ∈ Text.upperForm d → IsFormOf c e

def CaseSafe (c : Char) : Prop := ∀ d, IsFormOf c d → isFieldChar d = true

variable {c d : Char}

theorem IsFormOf.trans {e : Char} (first : IsFormOf c d) (second : IsFormOf d e) :
    IsFormOf c e := by
  induction second with
  | self => exact first
  | upper _ form ih => exact .upper ih form

theorem CaseSafe.isFieldChar (safe : CaseSafe c) : isFieldChar c = true := safe c .self

theorem CaseSafe.form (safe : CaseSafe c) (form : d ∈ Text.upperForm c) : CaseSafe d :=
  fun e later => safe e ((IsFormOf.upper .self form).trans later)

theorem caseSafe_of_ascii (field : Naming.isFieldChar c = true) (ascii : c.toNat < 128) :
    CaseSafe c := by
  have kept (d : Char) (form : IsFormOf c d) :
      Naming.isFieldChar d = true ∧ d.toNat < 128 := by
    induction form with
    | self => exact ⟨field, ascii⟩
    | @upper d e _ form ih =>
        obtain ⟨inside, low⟩ := ih
        rw [Text.upperForm, if_pos low, List.mem_singleton] at form
        rcases Text.toUpper_eq d with capital | same
        · rw [← form] at capital
          have plain := Text.isAlphanum_of_isUpper capital
          have bound := Text.ascii_of_isAlphanum plain
          refine ⟨?_, bound⟩
          simp [Naming.isFieldChar, Text.isWord, Text.isAlphanumeric, bound, plain]
        · rw [form, same]
          exact ⟨inside, low⟩
  exact fun d form => (kept d form).1

def Joinable : List Char → Prop
  | [] => True
  | c :: rest => (CaseSafe c ∨ c = '-' ∧ ∃ d ∈ rest.head?, Text.isWord d = true) ∧ Joinable rest

theorem joinable_of_ascii {text : List Char}
    (plain : text.all (fun c => Naming.isFieldChar c && c.toNat < 128) = true) : Joinable text := by
  induction text with
  | nil => trivial
  | cons c rest ih =>
      rw [List.all_cons, Bool.and_eq_true, Bool.and_eq_true, decide_eq_true_eq] at plain
      exact ⟨.inl (caseSafe_of_ascii plain.1.1 plain.1.2), ih plain.2⟩

theorem caseSafe_of_mem_joinCamel {text : List Char} (joinable : Joinable text) :
    ∀ d ∈ joinCamel text, CaseSafe d := by
  fun_induction joinCamel text with
  | case1 => exact fun _ member => absurd member List.not_mem_nil
  | case2 c =>
      rcases joinable.1 with safe | ⟨-, d, next, -⟩
      · simpa using safe
      · cases next
  | case3 c d rest joined ih =>
      obtain ⟨-, second, later⟩ := joinable
      have word := (Bool.and_eq_true _ _ ▸ joined).2
      have safe : CaseSafe d := by
        rcases second with safe | ⟨rfl, -⟩
        · exact safe
        · exact absurd word (by decide)
      intro e member
      rcases List.mem_append.mp member with form | inside
      · exact safe.form form
      · exact ih later e inside
  | case4 c d rest apart ih =>
      obtain ⟨first, later⟩ := joinable
      have safe : CaseSafe c := by
        rcases first with safe | ⟨rfl, e, next, word⟩
        · exact safe
        · cases next
          simp [word] at apart
      intro e member
      rcases List.mem_cons.mp member with rfl | inside
      · exact safe
      · exact ih later e inside

end CaseSafe

end TypedClient.Naming

namespace TypedClient

/-- A segment of a path is not empty and has no slash in it. -/
theorem solid_of_mem_segments {url segment : List Char} (member : segment ∈ Url.segments url) :
    segment ≠ [] ∧ '/' ∉ segment := by
  obtain ⟨piece, given⟩ := List.mem_filter.mp member
  refine ⟨by simpa using given, fun slash => ?_⟩
  have apart := Text.stays_of_mem_splitWhere piece '/' slash
  simp at apart

/-- A path from the root is its pieces, each behind a slash; those that are not empty are its
segments. -/
theorem Url.exists_pieces {url : List Char} (rooted : url.head? = some '/') (whole : '?' ∉ url) :
    ∃ pieces : List (List Char), url = pieces.flatMap ('/' :: ·) ∧
      Url.segments url = pieces.filter (!·.isEmpty) ∧ ∀ piece ∈ pieces, '/' ∉ piece := by
  obtain ⟨rest, rfl⟩ := List.head?_eq_some_iff.mp rooted
  refine ⟨Text.splitWhere (· == '/') rest, (Text.flatMap_splitWhere '/' rest).symm, ?_, ?_⟩
  · have unasked : ('/' :: rest).takeWhile (· != '?') = '/' :: rest := by
      rw [List.takeWhile_eq_self_iff]
      intro c member
      simpa using fun same : c = '?' => whole (same ▸ member)
    unfold Url.segments
    dsimp only
    rw [unasked, Text.filter_splitWhere_trimWhere, Text.splitWhere, if_pos (by simp)]
    rfl
  · intro piece member slash
    have apart := Text.stays_of_mem_splitWhere member '/' slash
    simp at apart

theorem UrlNames.pathParams_parse (url : String) : (UrlNames.parse url).pathParams =
    (Url.segments url.toList).filterMap fun text => (Url.parameter? text).map String.ofList := by
  have own : (UrlNames.parse url).pathParams = (segmentsOf url).filterMap Segment.param? := by
    rw [UrlNames.parse, UrlNames.ofSegments]
    split <;> rfl
  rw [own, segmentsOf, List.filterMap_map]
  congr 1
  funext text
  rw [Function.comp_apply, Segment.ofText]
  cases Url.parameter? text <;> rfl

theorem ofText_eq_name {text : List Char} {name : String}
    (same : Segment.ofText text = .name name) :
    name.toList = Naming.joinCamel text := by
  unfold Segment.ofText at same
  split at same
  · cases same
  · cases same
    simp [camelCase]

/-- A fixed name of a path is not empty and has no slash in it. -/
theorem solid_of_name {url name : String} (member : .name name ∈ segmentsOf url) :
    name ≠ "" ∧ '/' ∉ name.toList := by
  obtain ⟨text, inside, same⟩ := List.mem_map.mp member
  obtain ⟨given, whole⟩ := solid_of_mem_segments inside
  have spelled := ofText_eq_name same
  constructor
  · rintro rfl
    exact Naming.joinCamel_ne_nil given spelled.symm
  · rw [spelled]
    exact fun slash => whole (Naming.slash_of_joinCamel slash)

theorem mem_of_filterMap_name {segments : List Segment} {name : String}
    (listed : name ∈ segments.filterMap Segment.name?) : .name name ∈ segments := by
  obtain ⟨segment, inside, same⟩ := List.mem_filterMap.mp listed
  cases segment with
  | param text => cases same
  | name text =>
      cases same
      exact inside

theorem fileName_cases (segments : List Segment) :
    (UrlNames.ofSegments segments).fileName = "index" ∨
      .name (UrlNames.ofSegments segments).fileName ∈ segments := by
  unfold UrlNames.ofSegments
  dsimp only
  split
  · exact .inl rfl
  · rename_i last before names
    cases before with
    | nil => exact .inl rfl
    | cons file rest =>
        exact .inr (mem_of_filterMap_name (List.mem_reverse.mp (by simp [names])))

theorem slash_fileName (url : String) : '/' ∉ (UrlNames.parse url).fileName.toList := by
  rcases fileName_cases (segmentsOf url) with index | listed
  · rw [UrlNames.parse, index]
    decide
  · exact (solid_of_name listed).2

theorem funcName_ne_empty (url : String) : (UrlNames.parse url).funcName ≠ "" := by
  unfold UrlNames.parse UrlNames.ofSegments
  dsimp only
  split
  · exact (by decide : "index" ≠ "")
  · rename_i last before names
    have listed : last ∈ (segmentsOf url).filterMap Segment.name? :=
      List.mem_reverse.mp (by simp [names])
    have given := (solid_of_name (mem_of_filterMap_name listed)).1
    dsimp only
    split
    · exact given
    · simp [given]

theorem dirName_cases (segments : List Segment) :
    ∃ names : List String, (UrlNames.ofSegments segments).dirName = "/".intercalate names ∧
      ∀ name ∈ names, .name name ∈ segments := by
  unfold UrlNames.ofSegments
  dsimp only
  split
  · exact ⟨[], rfl, by simp⟩
  · rename_i last before names
    refine ⟨(before.drop 1).reverse, rfl, fun name member => ?_⟩
    have held : name ∈ before := List.drop_subset 1 before (List.mem_reverse.mp member)
    exact mem_of_filterMap_name (List.mem_reverse.mp (by simp [names, held]))

/-- The directory of a path does not begin with a slash. -/
theorem head_dirName (url : String) : (UrlNames.parse url).dirName.toList.head? ≠ some '/' := by
  obtain ⟨names, spelled, listed⟩ := dirName_cases (segmentsOf url)
  rw [UrlNames.parse, spelled]
  cases names with
  | nil => simp
  | cons first rest =>
      obtain ⟨given, whole⟩ := solid_of_name (listed first (by simp))
      obtain ⟨c, others, shape⟩ := List.exists_cons_of_ne_nil
        (mt String.toList_eq_nil_iff.mp given)
      have started : ("/".intercalate (first :: rest)).toList.head? = some c := by
        cases rest <;> simp [String.intercalate_cons_cons, shape]
      rw [started]
      rintro ⟨⟩
      exact whole (by simp [shape])

end TypedClient
