import TypedClient.Proofs.Path

/-!
The specifier by which a file imports a target leads to the target from the directory of the file.
It is relative unless the first name that it takes below that directory begins with a dot.
-/

namespace TypedClient.Path

variable {name path : String} {names front back : List String}

section Ending

/-- A path without the ending of a source file. -/
def withoutEnding (path : String) : String :=
  if endsWith ".ts" path then String.ofList (path.toList.take (path.length - 3)) else path

theorem withoutEnding_source (stem : String) : withoutEnding (stem ++ ".ts") = stem := by
  rw [withoutEnding, if_pos (endsWith_source stem), take_source]

theorem withoutEnding_other (other : endsWith ".ts" path ≠ true) : withoutEnding path = path :=
  if_neg other

theorem exists_stem (source : endsWith ".ts" path = true) : ∃ stem, path = stem ++ ".ts" := by
  rcases List.isSuffixOf_iff_suffix.mp source with ⟨stem, shape⟩
  exact ⟨String.ofList stem, String.toList_inj.mp (by simpa using shape.symm)⟩

/-- The ending holds no slash, so it belongs to the last name. -/
theorem withoutEnding_behind (front name : String) :
    withoutEnding (front ++ "/" ++ name) = front ++ "/" ++ withoutEnding name := by
  by_cases source : endsWith ".ts" name = true
  · rcases exists_stem source with ⟨stem, rfl⟩
    rw [← String.append_assoc, withoutEnding_source, withoutEnding_source]
  · have other : endsWith ".ts" (front ++ "/" ++ name) ≠ true := by
      intro ends
      have shape : (front ++ "/" ++ name).toList = front.toList ++ '/' :: name.toList := by simp
      have whole : ".ts".toList <:+ front.toList ++ '/' :: name.toList := by
        rw [← shape]
        exact List.isSuffixOf_iff_suffix.mp ends
      rcases List.suffix_or_suffix_of_suffix whole (List.suffix_append _ _) with short | long
      · rcases List.suffix_cons_iff.mp short with same | inside
        · exact absurd (List.cons.inj same).1 (by decide)
        · exact source (List.isSuffixOf_iff_suffix.mpr inside)
      · exact absurd (long.subset List.mem_cons_self) (by decide)
    rw [withoutEnding_other other, withoutEnding_other source]

theorem mem_of_mem_withoutEnding {c : Char} (member : c ∈ (withoutEnding path).toList) :
    c ∈ path.toList := by
  unfold withoutEnding at member
  split at member
  · rw [String.toList_ofList] at member
    exact List.mem_of_mem_take member
  · exact member

def shorten : List String → List String
  | [] => []
  | [last] => [withoutEnding last]
  | first :: second :: rest => first :: shorten (second :: rest)

theorem shorten_append (given : back ≠ []) (front : List String) :
    shorten (front ++ back) = front ++ shorten back := by
  induction front with
  | nil => rfl
  | cons first rest ih =>
      have more : rest ++ back ≠ [] := by simp [given]
      cases shape : rest ++ back with
      | nil => exact absurd shape more
      | cons second others => rw [List.cons_append, shape, shorten, ← shape, ih, List.cons_append]

theorem length_shorten (names : List String) : (shorten names).length = names.length := by
  induction names with
  | nil => rfl
  | cons first rest ih =>
      cases rest with
      | nil => rfl
      | cons second others =>
          rw [shorten, List.length_cons, ih]
          rfl

theorem withoutEnding_spelling (given : names ≠ []) :
    withoutEnding ("/".intercalate names) = "/".intercalate (shorten names) := by
  induction names with
  | nil => exact absurd rfl given
  | cons first rest ih =>
      cases rest with
      | nil => simp [shorten]
      | cons second others =>
          have later : shorten (second :: others) ≠ [] := by cases others <;> simp [shorten]
          rw [String.intercalate_cons_cons, withoutEnding_behind, ih (by simp), shorten,
            String.intercalate_cons_of_ne_nil later]

end Ending

section Spelling

def IsWhole (name : String) : Prop := ∀ c ∈ name.toList, isSlash c = false

instance (name : String) : Decidable (IsWhole name) :=
  decidable_of_iff (name.toList.all (!isSlash ·) = true) (by simp [IsWhole])

theorem isWhole_of_mem_shorten (whole : ∀ part ∈ names, IsWhole part) :
    ∀ part ∈ shorten names, IsWhole part := by
  induction names with
  | nil => simp [shorten]
  | cons first rest ih =>
      have own := whole first List.mem_cons_self
      have later := ih fun part member => whole part (List.mem_cons_of_mem first member)
      intro part member
      cases rest with
      | nil =>
          rw [shorten, List.mem_singleton] at member
          rw [member]
          exact fun c inside => own c (mem_of_mem_withoutEnding inside)
      | cons second others =>
          rcases List.mem_cons.mp member with rfl | inside
          · exact own
          · exact later part inside

theorem parts_of_isWhole (whole : IsWhole name) : parts name = [name].filter (· ≠ "") := by
  unfold parts
  rw [Text.splitWhere_of_none whole]
  by_cases empty : name = ""
  · simp [empty]
  · simp [empty]

theorem parts_spelling (whole : ∀ part ∈ names, IsWhole part) :
    parts ("/".intercalate names) = names.filter (· ≠ "") := by
  induction names with
  | nil => rfl
  | cons first rest ih =>
      have own := parts_of_isWhole (whole first List.mem_cons_self)
      have later := ih fun part member => whole part (List.mem_cons_of_mem first member)
      by_cases more : rest = []
      · simpa [more] using own
      · have shape : "/".intercalate (first :: rest) =
            String.ofList (first.toList ++ '/' :: ("/".intercalate rest).toList) := by
          rw [String.intercalate_cons_of_ne_nil more]
          apply String.toList_inj.mp
          simp
        rw [shape, parts_append_slash, String.ofList_toList, String.ofList_toList, own, later,
          ← List.filter_append, List.singleton_append]

/-- A place as an absolute path. -/
def spelled (place : List String) : String := "/" ++ "/".intercalate place

theorem withoutEnding_spelled (place : List String) :
    withoutEnding (spelled place) = spelled (shorten place) := by
  by_cases given : place = []
  · subst given
    decide
  · have whole : spelled place = "/".intercalate ("" :: place) := by
      rw [String.intercalate_cons_of_ne_nil given, String.empty_append, spelled]
    have other : shorten ("" :: place) = "" :: shorten place := by
      rw [← List.singleton_append, shorten_append given, List.singleton_append]
    have later : shorten place ≠ [] := by
      rcases List.exists_cons_of_ne_nil given with ⟨first, rest, rfl⟩
      cases rest <;> simp [shorten]
    rw [whole, withoutEnding_spelling (by simp), other, String.intercalate_cons_of_ne_nil later,
      String.empty_append, spelled]

theorem parts_spelled (whole : ∀ part ∈ names, IsWhole part) :
    parts (spelled names) = names.filter (· ≠ "") := by
  have shape : spelled names = String.ofList ([] ++ '/' :: ("/".intercalate names).toList) := by
    apply String.toList_inj.mp
    simp [spelled]
  have nothing : parts (String.ofList []) = [] := rfl
  rw [shape, parts_append_slash, String.ofList_toList, nothing, List.nil_append,
    parts_spelling whole]

theorem isAbsolute_spelled (place : List String) : isAbsolute (spelled place) = true := by
  simp [isAbsolute, spelled]

end Spelling

section Place

variable {directory : List String}

theorem foldl_enter_of_isStep (steps : ∀ part ∈ back, IsStep part) (place : List String) :
    back.foldl enter place = place ++ back := by
  induction back generalizing place with
  | nil => simp
  | cons part rest ih =>
      have own := enter_of_isStep (steps part List.mem_cons_self) place
      have later := ih fun other member => steps other (List.mem_cons_of_mem part member)
      rw [List.foldl_cons, own, later, List.append_assoc, List.singleton_append]

theorem foldl_enter_up (place names : List String) :
    (List.replicate names.length "..").foldl enter (place ++ names) = place := by
  induction names using List.reverseRecOn with
  | nil => simp
  | append_singleton front last ih =>
      have step : enter (place ++ (front ++ [last])) ".." = place ++ front := by
        rw [← List.append_assoc]
        exact List.dropLast_concat
      rw [List.length_append, List.length_singleton, List.replicate_succ, List.foldl_cons, step, ih]

theorem isStep_of_mem_foldl_enter {way place : List String}
    (clean : ∀ name ∈ place, IsStep name) (solid : ∀ part ∈ way, part ≠ "" ∧ IsWhole part) :
    ∀ name ∈ way.foldl enter place, IsStep name := by
  induction way generalizing place with
  | nil => exact clean
  | cons part rest ih =>
      apply ih _ fun other member => solid other (List.mem_cons_of_mem part member)
      intro name member
      unfold enter at member
      split at member
      · exact clean name member
      · rename_i moves
        split at member
        · exact clean name (List.mem_of_mem_dropLast member)
        · rename_i named
          rcases List.mem_append.mp member with old | new
          · exact clean name old
          · rw [List.mem_singleton.mp new]
            have own := solid part List.mem_cons_self
            exact ⟨own.1, own.2, by simpa using moves, by simpa using named⟩

theorem isStep_of_mem_absolute (clean : ∀ name ∈ directory, IsStep name) (path : String) :
    ∀ name ∈ absolute directory path, IsStep name := by
  apply isStep_of_mem_foldl_enter
  · split
    · simp
    · exact clean
  · intro part member
    rcases List.mem_map.mp member with ⟨piece, kept, rfl⟩
    rcases List.mem_filter.mp kept with ⟨inside, given⟩
    constructor
    · simpa using given
    · intro c held
      rw [String.toList_ofList] at held
      exact Text.stays_of_mem_splitWhere inside c held

structure Parting (source target shared up down : List String) : Prop where
  front : source = shared ++ up
  behind : target = shared ++ down
  apart : ∀ name first rest, up = name :: first → down ≠ name :: rest

theorem parting_dropShared (source target : List String) : ∃ shared,
    Parting source target shared (dropShared source target).1 (dropShared source target).2 := by
  induction source generalizing target with
  | nil => cases target <;> exact ⟨[], rfl, rfl, by simp [dropShared]⟩
  | cons first more ih =>
      cases target with
      | nil => exact ⟨[], rfl, rfl, by simp [dropShared]⟩
      | cons second others =>
          by_cases same : first = second
          · subst same
            have dropped : dropShared (first :: more) (first :: others) = dropShared more others :=
              if_pos (by simp)
            rw [dropped]
            rcases ih others with ⟨shared, up, down, apart⟩
            exact ⟨first :: shared, congrArg _ up, congrArg _ down, apart⟩
          · have kept : dropShared (first :: more) (second :: others) =
                (first :: more, second :: others) := if_neg (by simpa using same)
            rw [kept]
            refine ⟨[], rfl, rfl, fun name tail rest up down => same ?_⟩
            exact (List.cons.inj up).1.trans (List.cons.inj down).1.symm

end Place

section Relative

/-- What the loader of the emitted language looks for from the importing file on. -/
def IsRelative (specifier : String) : Prop :=
  specifier = "." ∨ specifier = ".." ∨
    "./".toList <+: specifier.toList ∨ "../".toList <+: specifier.toList

def IsHidden (name : String) : Prop := name.toList.head? = some '.' ∧ name ≠ "." ∧ name ≠ ".."

def dotted (way : String) : String :=
  if way.toList.head? == some '.' then way else "./" ++ way

theorem isAbsolute_dotted (way : String) : isAbsolute (dotted way) = false := by
  unfold dotted isAbsolute
  split
  · rename_i dot
    rw [beq_iff_eq.mp dot]
    rfl
  · simp

theorem foldl_enter_dotted (way : String) (place : List String) :
    (parts (dotted way)).foldl enter place = (parts way).foldl enter place := by
  unfold dotted
  split
  · rfl
  · have shape : "./" ++ way = String.ofList (['.'] ++ '/' :: way.toList) := by
      apply String.toList_inj.mp
      simp
    have here : parts (String.ofList ['.']) = ["."] := rfl
    rw [shape, parts_append_slash, String.ofList_toList, here]
    rfl

theorem takeWhile_isWhole (whole : IsWhole name) (tail : List Char)
    (ends : tail.head?.all isSlash = true) :
    (name.toList ++ tail).takeWhile (!isSlash ·) = name.toList := by
  have stops : tail.takeWhile (!isSlash ·) = [] := by
    cases tail with
    | nil => rfl
    | cons c rest =>
        have slash : isSlash c = true := by simpa using ends
        simp [slash]
  have stays : ∀ c ∈ name.toList, (!isSlash c) = true := by simpa [IsWhole] using whole
  rw [List.takeWhile_append_of_pos stays, stops, List.append_nil]

theorem exists_tail (first : String) (rest : List String) :
    ∃ tail : List Char, ("/".intercalate (first :: rest)).toList = first.toList ++ tail ∧
      tail.head?.all isSlash = true ∧ (tail = [] ∨ ∃ more, tail = '/' :: more) := by
  cases rest with
  | nil => exact ⟨[], by simp, rfl, .inl rfl⟩
  | cons second others =>
      refine ⟨'/' :: ("/".intercalate (second :: others)).toList, ?_, rfl, .inr ⟨_, rfl⟩⟩
      rw [String.intercalate_cons_cons]
      simp

theorem begins_iff {first word : String} (whole : IsWhole first) (solid : IsWhole word)
    (rest : List String) :
    ("/".intercalate (first :: rest) = word ∨
      (word ++ "/").toList <+: ("/".intercalate (first :: rest)).toList) ↔ first = word := by
  rcases exists_tail first rest with ⟨tail, shape, ends, forms⟩
  have own := takeWhile_isWhole whole tail ends
  rw [← shape] at own
  constructor
  · rintro (same | ⟨more, longer⟩)
    · have alone := takeWhile_isWhole solid [] rfl
      rw [List.append_nil, ← same] at alone
      rw [← same]
      exact String.toList_inj.mp (own.symm.trans alone)
    · have front := takeWhile_isWhole solid ('/' :: more) rfl
      have spelt : word.toList ++ '/' :: more = ("/".intercalate (first :: rest)).toList := by
        rw [← longer]
        simp
      rw [spelt] at front
      exact String.toList_inj.mp (own.symm.trans front)
  · rintro rfl
    rcases forms with rfl | ⟨more, rfl⟩
    · rw [List.append_nil] at shape
      exact .inl (String.toList_inj.mp shape)
    · refine .inr ⟨more, ?_⟩
      rw [shape]
      simp

/-- A way becomes a relative specifier unless it begins with a hidden name. -/
theorem isRelative_dotted {first : String} (whole : IsWhole first) (rest : List String) :
    IsRelative (dotted ("/".intercalate (first :: rest))) ↔ ¬ IsHidden first := by
  rcases exists_tail first rest with ⟨tail, shape, ends, -⟩
  have heads : ("/".intercalate (first :: rest)).toList.head? = some '.' ↔
      first.toList.head? = some '.' := by
    rw [shape]
    cases first.toList with
    | nil =>
        cases tail with
        | nil => rfl
        | cons c more =>
            have slash : c = '/' := by simpa [isSlash] using ends
            simp [slash]
    | cons c more => rfl
  have here := begins_iff whole (by decide : IsWhole ".") rest
  have up := begins_iff whole (by decide : IsWhole "..") rest
  unfold dotted
  by_cases dot : ("/".intercalate (first :: rest)).toList.head? = some '.'
  · rw [if_pos (by simpa using dot)]
    have hidden : ¬ IsHidden first ↔ first = "." ∨ first = ".." := by
      have begins := heads.mp dot
      simp only [IsHidden, begins, true_and, ne_eq, not_and_or, not_not]
    rw [hidden, ← here, ← up]
    unfold IsRelative
    have one : "." ++ "/" = "./" := rfl
    have two : ".." ++ "/" = "../" := rfl
    rw [one, two]
    exact or_assoc.symm.trans or_or_or_comm
  · rw [if_neg (by simpa using dot)]
    have visible : ¬ IsHidden first := fun hidden => dot (heads.mpr hidden.1)
    have front : "./".toList <+: ("./" ++ "/".intercalate (first :: rest)).toList := by
      rw [String.toList_append]
      exact List.prefix_append _ _
    exact iff_of_true (.inr (.inr (.inl front))) visible

end Relative

section Specifier

variable {source target shared up down : List String}

def specifierNames (up down : List String) : List String :=
  if up = [] ∧ down = [] then ["."] else List.replicate up.length ".." ++ shorten down

theorem shorten_replicate (count : Nat) :
    shorten (List.replicate count "..") = List.replicate count ".." := by
  have plain : shorten [".."] = [".."] := by decide
  cases count with
  | zero => rfl
  | succ count => rw [List.replicate_succ', shorten_append (by simp), plain]

theorem withoutEnding_relative (source target : List String) :
    withoutEnding (relative source target) = "/".intercalate
      (specifierNames (dropShared source target).1 (dropShared source target).2) := by
  unfold relative specifierNames
  rcases dropShared source target with ⟨up, down⟩
  dsimp only
  by_cases nowhere : up = [] ∧ down = []
  · rw [nowhere.1, nowhere.2]
    decide
  · have given : List.replicate up.length ".." ++ down ≠ [] := by
      simpa [List.append_eq_nil_iff] using nowhere
    have shortened : shorten (List.replicate up.length ".." ++ down) =
        List.replicate up.length ".." ++ shorten down := by
      by_cases last : down = []
      · rw [last, List.append_nil, shorten_replicate, shorten, List.append_nil]
      · exact shorten_append last _
    rw [if_neg (by simpa using given), if_neg nowhere, withoutEnding_spelling given, shortened]

theorem specifierNames_ne_nil (up down : List String) : specifierNames up down ≠ [] := by
  unfold specifierNames
  split
  · simp
  · rename_i moves
    intro nothing
    rw [List.append_eq_nil_iff, List.replicate_eq_nil_iff, List.length_eq_zero_iff] at nothing
    have none_below := length_shorten down
    rw [nothing.2, eq_comm, List.length_nil, List.length_eq_zero_iff] at none_below
    exact moves ⟨nothing.1, none_below⟩

theorem isWhole_of_mem_specifierNames (whole : ∀ name ∈ down, IsWhole name) :
    ∀ name ∈ specifierNames up down, IsWhole name := by
  intro name member
  unfold specifierNames at member
  split at member
  · rw [List.mem_singleton.mp member]
    decide
  · rcases List.mem_append.mp member with above | below
    · rw [List.eq_of_mem_replicate above]
      decide
    · exact isWhole_of_mem_shorten whole name below

theorem filter_of_isStep (steps : ∀ name ∈ names, IsStep name) :
    names.filter (· ≠ "") = names := by
  apply List.filter_eq_self.mpr
  intro name member
  simpa using (steps name member).given

namespace Parting

theorem steps (parting : Parting source target shared up down)
    (clean : ∀ name ∈ target, IsStep name) :
    (∀ name ∈ shared, IsStep name) ∧ ∀ name ∈ down, IsStep name := by
  rw [parting.behind, List.forall_mem_append] at clean
  exact clean

theorem prefix_iff (parting : Parting source target shared up down) :
    target <+: source ↔ down = [] := by
  rw [parting.front, parting.behind, List.prefix_append_right_inj]
  constructor
  · rintro ⟨rest, longer⟩
    cases down with
    | nil => rfl
    | cons name others => exact absurd rfl (parting.apart name _ _ longer.symm)
  · rintro rfl
    exact List.nil_prefix

/-- From its directory the names of a specifier lead to the target. Its last name has lost its
ending, unless the target is the directory or stands around it. -/
theorem foldl_enter (parting : Parting source target shared up down)
    (clean : ∀ name ∈ target, IsStep name) :
    ((specifierNames up down).filter (· ≠ "")).foldl enter source =
      if target <+: source then target
      else ((shorten target).filter (· ≠ "")).foldl enter [] := by
  have above : (List.replicate up.length "..").filter (· ≠ "") = List.replicate up.length ".." :=
    List.filter_eq_self.mpr fun name member => by rw [List.eq_of_mem_replicate member]; decide
  have climbs := foldl_enter_up shared up
  rw [← parting.front] at climbs
  by_cases around : down = []
  · have ends : target = shared := by rw [parting.behind, around, List.append_nil]
    rw [if_pos (parting.prefix_iff.mpr around), ends, around]
    by_cases same : up = []
    · have own : source = shared := by rw [parting.front, same, List.append_nil]
      rw [same, own]
      rfl
    · rw [specifierNames, if_neg (by simp [same]), shorten, List.append_nil, above, climbs]
  · have shares := (parting.steps clean).1
    have start : shared.foldl enter [] = shared := by
      rw [foldl_enter_of_isStep shares, List.nil_append]
    rw [if_neg (mt parting.prefix_iff.mp around), parting.behind, shorten_append around,
      List.filter_append, filter_of_isStep shares, List.foldl_append, start, specifierNames,
      if_neg (by simp [around]), List.filter_append, above, List.foldl_append, climbs]

/-- What is left of the names that go down begins as they do, unless there is one name only. -/
theorem filter_shorten {name : String} {others : List String} (step : IsStep name)
    (given : others ≠ []) : (shorten (name :: others)).filter (· ≠ "") =
      name :: (shorten others).filter (· ≠ "") := by
  have front := shorten_append given [name]
  rw [List.singleton_append, List.singleton_append] at front
  rw [front, List.filter_cons_of_pos (by simpa using step.given)]

theorem not_isHidden_up {first : String} {rest : List String} (climbs : up ≠ [])
    (names : specifierNames up down = first :: rest) : ¬ IsHidden first := by
  rcases List.exists_cons_of_ne_nil climbs with ⟨above, more, rfl⟩
  rw [specifierNames, if_neg (by simp), List.length_cons, List.replicate_succ, List.cons_append,
    List.cons.injEq] at names
  rw [← names.1]
  exact fun hidden => hidden.2.2 rfl

theorem hidden_iff_down {first : String} {rest : List String}
    (steps : ∀ name ∈ down, IsStep name) (given : down ≠ [])
    (names : specifierNames [] down = first :: rest) :
    IsHidden first ↔ ∃ name others,
      (shorten down).filter (· ≠ "") = name :: others ∧ IsHidden name := by
  have shortened : shorten down = first :: rest := by
    rw [← names, specifierNames, if_neg (by simp [given])]
    rfl
  constructor
  · intro hidden
    have solid : first ≠ "" := by
      rintro rfl
      cases hidden.1
    rw [shortened, List.filter_cons_of_pos (by simpa using solid)]
    exact ⟨first, _, rfl, hidden⟩
  · rintro ⟨name, others, filtered, hidden⟩
    rcases List.exists_cons_of_ne_nil given with ⟨below, more, rfl⟩
    by_cases last : more = []
    · subst last
      have alone : [withoutEnding below] = first :: rest := shortened
      rw [← (List.cons.inj alone).1]
      have member : name ∈ (shorten [below]).filter (· ≠ "") := by
        rw [filtered]
        exact List.mem_cons_self
      have only : name = withoutEnding below :=
        List.mem_singleton.mp (List.mem_filter.mp member).1
      rwa [← only]
    · have front := shorten_append last [below]
      rw [List.singleton_append, List.singleton_append, shortened] at front
      rw [filter_shorten (steps below List.mem_cons_self) last] at filtered
      rwa [(List.cons.inj front).1, (List.cons.inj filtered).1]

/-- The names of a specifier begin with a hidden one if and only if the target without its ending
stands below its directory and the first name there is hidden. -/
theorem hidden_iff (parting : Parting source target shared up down)
    (clean : ∀ name ∈ target, IsStep name) {first : String} {rest : List String}
    (names : specifierNames up down = first :: rest) :
    IsHidden first ↔ ∃ name others,
      (shorten target).filter (· ≠ "") = source ++ name :: others ∧ IsHidden name := by
  have lengths : ((shorten target).filter (· ≠ "")).length ≤ target.length :=
    (List.length_filter_le _ _).trans (length_shorten target).le
  by_cases around : down = []
  · have short : target.length ≤ source.length := by
      rw [parting.front, parting.behind, around, List.append_nil, List.length_append]
      omega
    have visible : ¬ IsHidden first := by
      by_cases same : up = []
      · rw [same, around, specifierNames, if_pos ⟨rfl, rfl⟩] at names
        rw [← (List.cons.inj names).1]
        exact fun hidden => hidden.2.1 rfl
      · exact not_isHidden_up same names
    refine iff_of_false visible ?_
    rintro ⟨name, others, filtered, -⟩
    have long := congrArg List.length filtered
    rw [List.length_append, List.length_cons] at long
    omega
  · rcases parting.steps clean with ⟨shares, below⟩
    have cut (rest : List String) : (shorten target).filter (· ≠ "") = source ++ rest ↔
        (shorten down).filter (· ≠ "") = up ++ rest := by
      rw [parting.behind, parting.front, shorten_append around, List.filter_append,
        filter_of_isStep shares, List.append_assoc, List.append_cancel_left_eq]
    simp only [cut]
    by_cases climbs : up = []
    · subst climbs
      exact hidden_iff_down below around names
    · refine iff_of_false (not_isHidden_up climbs names) ?_
      rintro ⟨name, others, filtered, -⟩
      rcases List.exists_cons_of_ne_nil climbs with ⟨above, more, rfl⟩
      rcases List.exists_cons_of_ne_nil around with ⟨first', rest', rfl⟩
      by_cases last : rest' = []
      · have long := congrArg List.length filtered
        have one : ((shorten [first']).filter (· ≠ "")).length ≤ 1 :=
          List.length_filter_le _ [withoutEnding first']
        rw [last] at long
        simp only [List.length_append, List.length_cons] at long
        omega
      · rw [filter_shorten (below first' List.mem_cons_self) last, List.cons_append,
          List.cons.injEq] at filtered
        exact parting.apart above more rest' rfl (by rw [filtered.1])

end Parting

theorem importSpecifier_eq {target : String} (given : target ≠ "") (directory : List String)
    (source : String) : importSpecifier directory source target =
      .ok (dotted ("/".intercalate (specifierNames
      (dropShared (absolute directory source) (absolute directory target)).1
      (dropShared (absolute directory source) (absolute directory target)).2))) := by
  rw [← withoutEnding_relative]
  exact if_neg (by simpa using given)

/-- Below the directory, the target without its ending begins with a hidden name. -/
def LeadsToHidden (directory : List String) (source target : String) : Prop :=
  ∃ name rest, parts (withoutEnding (spelled (absolute directory target))) =
    absolute directory source ++ name :: rest ∧ IsHidden name

/-- Every target has a specifier. Behind its directory it leads to the target without the ending of
a source file, or to the target itself if that is the directory or stands around it. It is relative
exactly if the first name below the directory is not hidden. -/
theorem importSpecifier_leads {directory : List String} {target : String}
    (clean : ∀ name ∈ directory, IsStep name) (given : target ≠ "") (source : String) :
    ∃ specifier, importSpecifier directory source target = .ok specifier ∧
      (IsRelative specifier ↔ ¬ LeadsToHidden directory source target) ∧
      absolute directory (join source specifier) =
        if absolute directory target <+: absolute directory source then absolute directory target
        else absolute directory (withoutEnding (spelled (absolute directory target))) := by
  have steps := isStep_of_mem_absolute clean target
  have whole : ∀ name ∈ absolute directory target, IsWhole name :=
    fun name member => (steps name member).whole
  have shortened : parts (withoutEnding (spelled (absolute directory target))) =
      (shorten (absolute directory target)).filter (· ≠ "") := by
    rw [withoutEnding_spelled, parts_spelled (isWhole_of_mem_shorten whole)]
  rcases parting_dropShared (absolute directory source) (absolute directory target)
    with ⟨shared, parting⟩
  have specified := importSpecifier_eq given directory source
  generalize (dropShared (absolute directory source) (absolute directory target)).1 = up,
    (dropShared (absolute directory source) (absolute directory target)).2 = down
    at parting specified
  have wholes : ∀ name ∈ specifierNames up down, IsWhole name :=
    isWhole_of_mem_specifierNames fun name member => ((parting.steps steps).2 name member).whole
  refine ⟨_, specified, ?_, ?_⟩
  · obtain ⟨first, rest, names⟩ : ∃ first rest, specifierNames up down = first :: rest :=
      List.exists_cons_of_ne_nil (specifierNames_ne_nil up down)
    have hidden := parting.hidden_iff steps names
    rw [names] at wholes ⊢
    rw [isRelative_dotted (wholes first List.mem_cons_self), hidden, LeadsToHidden, shortened]
  · rw [absolute_join_of_relative (isAbsolute_dotted _), foldl_enter_dotted,
      parts_spelling wholes, parting.foldl_enter steps]
    have start : absolute directory (withoutEnding (spelled (absolute directory target))) =
        ((shorten (absolute directory target)).filter (· ≠ "")).foldl enter [] := by
      rw [absolute, shortened, withoutEnding_spelled, if_pos (isAbsolute_spelled _)]
    rw [start]

theorem importSpecifier_leads_models :
    (∃ specifier, importSpecifier ["work"] "src/api" "src/model/User.ts" = .ok specifier ∧
      IsRelative specifier ∧
      absolute ["work"] (join "src/api" specifier) = ["work", "src", "model", "User"]) ∧
    ∃ specifier, importSpecifier ["work"] "src" "src/.models" = .ok specifier ∧
      ¬ IsRelative specifier := by
  have clean : ∀ name ∈ ["work"], IsStep name := by
    intro name member
    rw [List.mem_singleton.mp member]
    exact isStep_of_check (by decide)
  constructor
  · obtain ⟨specifier, specified, relative, leads⟩ :=
      importSpecifier_leads clean (by decide : "src/model/User.ts" ≠ "") "src/api"
    have visible : ¬ LeadsToHidden ["work"] "src/api" "src/model/User.ts" := by
      rintro ⟨name, rest, below, -⟩
      have names : parts (withoutEnding (spelled (absolute ["work"] "src/model/User.ts"))) =
          ["work", "src", "model", "User"] := by decide
      have around : absolute ["work"] "src/api" = ["work", "src", "api"] := by decide
      rw [names, around] at below
      simp at below
    rw [if_neg (by decide)] at leads
    exact ⟨specifier, specified, relative.mpr visible, leads.trans (by decide)⟩
  · obtain ⟨specifier, specified, relative, -⟩ :=
      importSpecifier_leads clean (by decide : "src/.models" ≠ "") "src"
    have hidden : LeadsToHidden ["work"] "src" "src/.models" :=
      ⟨".models", [], by decide, by decide, by decide, by decide⟩
    exact ⟨specifier, specified, fun held => relative.mp held hidden⟩

end Specifier

end TypedClient.Path
