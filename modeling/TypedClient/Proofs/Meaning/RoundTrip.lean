import TypedClient.Proofs.Meaning.Reading
import TypedClient.Proofs.Text.Part

namespace TypedClient

namespace Reading

section Scanning

attribute [local simp] scan

variable {text other : List Char} {before after : List Token}

theorem scan_sign {c : Char} {token : Token} (sign : sign? c = some token) (bracket : c ≠ '[')
    (gathered rest : List Char) :
    scan (.outside gathered) (c :: rest) = word gathered ++ token :: scan (.outside []) rest := by
  have quote : c ≠ '\'' := by
    intro same
    rw [same] at sign
    cases sign
  rw [scan, sign]
  · intro _ same _
    exact bracket same
  · exact quote

theorem scan_blank (gathered rest : List Char) :
    scan (.outside gathered) (' ' :: rest) = word gathered ++ scan (.outside []) rest := by
  rw [scan]
  · simp [sign?, Text.isBlank]
  · simp
  · simp

theorem scan_word {c : Char} (plain : isWordChar c = true) (gathered rest : List Char) :
    scan (.outside gathered) (c :: rest) = scan (.outside (c :: gathered)) rest := by
  simp only [isWordChar, Bool.and_eq_true, Option.isNone_iff_eq_none, bne_iff_ne, ne_eq,
    Bool.not_eq_true'] at plain
  obtain ⟨⟨sign, quote⟩, blank⟩ := plain
  rw [scan, sign, blank]
  · simp
  · rintro _ rfl _
    cases sign
  · exact quote

def Marks (mark : List Char) (tokens : List Token) : Prop :=
  ∀ gathered rest,
    scan (.outside gathered) (mark ++ rest) = word gathered ++ (tokens ++ scan (.outside []) rest)

theorem Marks.sign {c : Char} {token : Token} (sign : sign? c = some token) (bracket : c ≠ '[') :
    Marks [c] [token] :=
  fun gathered rest => scan_sign sign bracket gathered rest

theorem Marks.blank : Marks [' '] [] :=
  fun gathered rest => scan_blank gathered rest

theorem Marks.array : Marks ['[', ']'] [.marks] := by
  intro gathered rest
  exact scan.eq_2 gathered rest

theorem Marks.append {mark other : List Char} {tokens others : List Token}
    (front : Marks mark tokens) (back : Marks other others) :
    Marks (mark ++ other) (tokens ++ others) := by
  intro gathered rest
  rw [List.append_assoc, front, back, List.append_assoc]
  rfl

theorem Marks.separator (connective : Connective) :
    Marks connective.separator.toList [.sign connective] := by
  have sign : Marks [connective.sign] [.sign connective] := by
    cases connective with
    | union => exact Marks.sign rfl (by decide)
    | intersection => exact Marks.sign rfl (by decide)
  rw [Connective.separator, String.toList_ofList]
  exact Marks.blank.append (sign.append Marks.blank)

def Ends (rest : List Char) : Prop :=
  ∀ gathered, scan (.outside gathered) rest = word gathered ++ scan (.outside []) rest

theorem ends_nil : Ends [] := by
  intro gathered
  rw [scan, scan]
  simp [word]

theorem Marks.ends {mark : List Char} {tokens : List Token} (marks : Marks mark tokens)
    (rest : List Char) : Ends (mark ++ rest) := by
  intro gathered
  rw [marks, marks]
  rfl

def Scans (text : List Char) (tokens : List Token) : Prop :=
  ∀ rest, Ends rest → scan (.outside []) (text ++ rest) = tokens ++ scan (.outside []) rest

theorem Scans.word (given : text ≠ []) (plain : ∀ c ∈ text, isWordChar c = true) :
    Scans text [.word (String.ofList text)] := by
  have gather : ∀ gathered rest, scan (.outside gathered) (text ++ rest) =
      scan (.outside (text.reverse ++ gathered)) rest := by
    clear given
    induction text with
    | nil => exact fun _ _ => rfl
    | cons c text ih =>
        intro gathered rest
        have later := ih fun c member => plain c (by simp [member])
        rw [List.cons_append, scan_word (plain c (by simp)), later]
        simp
  intro rest ends
  rw [gather, ends]
  simp [Reading.word, given]

theorem scan_escaped (plain : ∀ c ∈ text, isLiteralChar c = true) (gathered rest : List Char) :
    scan (.quoted gathered) (escaped text ++ '\'' :: rest) =
      .literal (String.ofList (gathered.reverse ++ text)) :: scan (.outside []) rest := by
  induction text generalizing gathered with
  | nil => rw [escaped, List.flatMap_nil, List.nil_append, scan, List.append_nil]
  | cons c text ih =>
      have later := ih (fun c member => plain c (by simp [member])) (c :: gathered)
      rw [List.reverse_cons, List.append_assoc] at later
      obtain ⟨slash, line⟩ : c ≠ '\\' ∧ isLineEnd c = false := by
        simpa [isLiteralChar] using plain c (by simp)
      by_cases quote : c = '\''
      · subst quote
        have spelled : escaped ('\'' :: text) = '\\' :: '\'' :: escaped text := rfl
        rw [spelled, List.cons_append, List.cons_append, scan, scan, if_neg (by decide)]
        exact later
      · have spelled : escaped (c :: text) = c :: escaped text := by simp [escaped, quote]
        rw [spelled, List.cons_append, scan, line, if_neg Bool.false_ne_true]
        · exact later
        · exact quote
        · exact slash

theorem Scans.literal (plain : ∀ c ∈ text, isLiteralChar c = true) :
    Scans ('\'' :: (escaped text ++ ['\''])) [.literal (String.ofList text)] := by
  intro rest _
  rw [List.cons_append, List.append_assoc, List.singleton_append, scan, scan_escaped plain]
  rfl

theorem Scans.nil : Scans [] [] :=
  fun _ _ => rfl

theorem Scans.between {mark : List Char} {tokens : List Token} (front : Scans text before)
    (marks : Marks mark tokens) (back : Scans other after) :
    Scans (text ++ mark ++ other) (before ++ tokens ++ after) := by
  intro rest ends
  rw [List.append_assoc, List.append_assoc, front _ (marks.ends _), marks, back rest ends]
  simp [Reading.word]

end Scanning

namespace Sum

variable {sum first second third : Sum}

def glue (first second : Sum) : Sum :=
  match second.front with
  | [] => ⟨first.front, first.last ++ second.last⟩
  | product :: rest => ⟨first.front ++ (first.last ++ product) :: rest, second.last⟩

def atom (tree : TypeTree) : Sum := ⟨[], [tree]⟩

theorem empty_glue (sum : Sum) : glue {} sum = sum := by
  obtain ⟨front, last⟩ := sum
  cases front with
  | nil => rfl
  | cons product rest => rfl

theorem glue_assoc (first second third : Sum) :
    glue (glue first second) third = glue first (glue second third) := by
  obtain ⟨middle, last⟩ := second
  obtain ⟨front, tail⟩ := third
  cases middle with
  | nil =>
      cases front with
      | nil => simp [glue]
      | cons product rest => simp [glue]
  | cons product rest =>
      cases front with
      | nil => simp [glue]
      | cons other others => simp [glue]

theorem next_glue (first second : Sum) (connective : Connective) :
    (glue first second).next connective = glue first (second.next connective) := by
  cases connective with
  | intersection => rfl
  | union =>
      obtain ⟨front, last⟩ := second
      cases front with
      | nil => simp [glue, next, branch]
      | cons product rest => simp [glue, next, branch]

theorem push_inj {tree other : TypeTree} :
    first.push tree = second.push other ↔ first = second ∧ tree = other := by
  simp [Sum.ext_iff, push, and_assoc]

end Sum

section Running

variable {front back : List Token} {value other : Sum}

def Runs (tokens : List Token) (value : Sum) : Prop :=
  ∀ frames sum, ∃ before tree, before.push tree = sum.glue value ∧
    tokens.foldlM step ⟨frames, sum, none⟩ = some ⟨frames, before, some tree⟩

theorem Runs.word (text : String) : Runs [.word text] (.atom (.named text [])) :=
  fun _ sum => ⟨sum, _, rfl, rfl⟩

theorem Runs.literal (value : String) : Runs [.literal value] (.atom (.literal value)) :=
  fun _ sum => ⟨sum, _, rfl, rfl⟩

theorem Runs.marks {tree : TypeTree} (runs : Runs front (.atom tree)) :
    Runs (front ++ [.marks]) (.atom (.array tree)) := by
  intro frames sum
  obtain ⟨before, last, pushed, ran⟩ := runs frames sum
  obtain ⟨rfl, rfl⟩ := Sum.push_inj.mp (pushed : before.push last = sum.push tree)
  refine ⟨before, .array last, rfl, ?_⟩
  rw [List.foldlM_append, ran]
  rfl

theorem Runs.joined (connective : Connective) (first : Runs front value)
    (second : Runs back other) :
    Runs (front ++ [.sign connective] ++ back) ((value.next connective).glue other) := by
  intro frames sum
  obtain ⟨before, last, pushed, ran⟩ := first frames sum
  obtain ⟨inner, tree, pushed', ran'⟩ := second frames ((sum.glue value).next connective)
  refine ⟨inner, tree, ?_, ?_⟩
  · rw [pushed', Sum.next_glue, Sum.glue_assoc]
  · rw [List.append_assoc, List.foldlM_append, ran, ← ran', ← pushed]
    rfl

theorem Runs.group (runs : Runs front value) :
    Runs ([.opening] ++ front ++ [.closing]) (.atom value.tree) := by
  intro frames sum
  obtain ⟨before, last, pushed, ran⟩ := runs (.group sum :: frames) {}
  rw [Sum.empty_glue] at pushed
  refine ⟨sum, value.tree, rfl, ?_⟩
  rw [List.append_assoc, List.foldlM_append, ← pushed]
  change (front ++ [Token.closing]).foldlM step ⟨.group sum :: frames, {}, none⟩ = _
  rw [List.foldlM_append, ran]
  rfl

def RunsArguments (tokens : List Token) (trees : List TypeTree) : Prop :=
  ∀ frames outer name args, ∃ closed sum tree,
    closed ++ [Sum.tree (sum.push tree)] = args ++ trees ∧
    tokens.foldlM step ⟨.generic outer name args :: frames, {}, none⟩ =
      some ⟨.generic outer name closed :: frames, sum, some tree⟩

theorem Runs.argument (runs : Runs front value) : RunsArguments front [value.tree] := by
  intro frames outer name args
  obtain ⟨before, tree, pushed, ran⟩ := runs (.generic outer name args :: frames) {}
  rw [Sum.empty_glue] at pushed
  exact ⟨args, before, tree, by rw [pushed], ran⟩

theorem RunsArguments.cons {trees : List TypeTree} (first : Runs front value)
    (rest : RunsArguments back trees) :
    RunsArguments (front ++ [.comma] ++ back) (value.tree :: trees) := by
  intro frames outer name args
  obtain ⟨before, last, pushed, ran⟩ := first (.generic outer name args :: frames) {}
  rw [Sum.empty_glue] at pushed
  obtain ⟨closed, sum, tree, all, ran'⟩ := rest frames outer name (args ++ [value.tree])
  refine ⟨closed, sum, tree, ?_, ?_⟩
  · rw [all, List.append_assoc, List.singleton_append]
  · rw [List.append_assoc, List.foldlM_append, ran, ← ran', ← pushed]
    rfl

theorem RunsArguments.close {trees : List TypeTree} (runs : RunsArguments front trees)
    (name : String) :
    Runs ([.word name] ++ [.less] ++ front ++ [.greater]) (.atom (.named name trees)) := by
  intro frames sum
  obtain ⟨closed, before, tree, all, ran⟩ := runs frames sum name []
  refine ⟨sum, .named name trees, rfl, ?_⟩
  rw [List.append_assoc, List.append_assoc, List.foldlM_append]
  change (front ++ [Token.greater]).foldlM step ⟨.generic sum name [] :: frames, {}, none⟩ = _
  rw [List.foldlM_append, ran, ← List.nil_append trees, ← all]
  rfl

end Running

def Reads (text : String) (value : Sum) : Prop :=
  ∃ tokens, Scans text.toList tokens ∧ Runs tokens value

def meaning (text : String) : TypeTree := (TypeTree.read text).getD default

theorem Scans.name {name : String} (word : isWord name = true) :
    Scans name.toList [.word name] := by
  obtain ⟨given, plain⟩ : name.toList ≠ [] ∧ ∀ c ∈ name.toList, isWordChar c = true := by
    simpa [isWord] using word
  have scans := Scans.word given plain
  rw [String.ofList_toList] at scans
  exact scans

namespace Reads

variable {text other : String} {value next : Sum}

theorem read (reads : Reads text value) : TypeTree.read text = some value.tree := by
  obtain ⟨tokens, scans, runs⟩ := reads
  obtain ⟨before, tree, pushed, ran⟩ := runs [] {}
  have scanned := scans [] ends_nil
  rw [List.append_nil, scan, word, if_pos List.isEmpty_nil, List.append_nil] at scanned
  rw [Sum.empty_glue] at pushed
  rw [TypeTree.read, scanned]
  change (tokens.foldlM step ⟨[], {}, none⟩).bind State.tree? = _
  rw [ran, ← pushed]
  rfl

theorem meaning (reads : Reads text value) : Reading.meaning text = value.tree := by
  rw [Reading.meaning, reads.read, Option.getD_some]

theorem name (word : isWord text = true) : Reads text (.atom (.named text [])) :=
  ⟨_, .name word, .word text⟩

theorem literal (plain : text.toList.all isLiteralChar = true) :
    Reads ("'" ++ replaceText "'" "\\'" text ++ "'") (.atom (.literal text)) := by
  have scans := Scans.literal (List.all_eq_true.mp plain)
  rw [String.ofList_toList] at scans
  refine ⟨_, ?_, Runs.literal text⟩
  simpa [replaceText, replaceAll_quote] using scans

theorem array {tree : TypeTree} (reads : Reads text (.atom tree)) :
    Reads (text ++ "[]") (.atom (.array tree)) := by
  obtain ⟨tokens, scans, runs⟩ := reads
  refine ⟨_, ?_, runs.marks⟩
  rw [String.toList_append]
  simpa using scans.between Marks.array Scans.nil

theorem group (reads : Reads text value) : Reads ("(" ++ text ++ ")") (.atom value.tree) := by
  obtain ⟨tokens, scans, runs⟩ := reads
  refine ⟨_, ?_, runs.group⟩
  have opened := Scans.nil.between (Marks.sign (c := '(') rfl (by decide)) scans
  have closed := opened.between (Marks.sign (c := ')') rfl (by decide)) Scans.nil
  simpa using closed

theorem joined (connective : Connective) (first : Reads text value) (second : Reads other next) :
    Reads (text ++ connective.separator ++ other) ((value.next connective).glue next) := by
  obtain ⟨front, scans, runs⟩ := first
  obtain ⟨back, scans', runs'⟩ := second
  refine ⟨_, ?_, runs.joined connective runs'⟩
  rw [String.toList_append, String.toList_append]
  exact scans.between (Marks.separator connective) scans'

theorem arguments {texts : List String} (given : texts ≠ [])
    (reads : ∀ text ∈ texts, ∃ value, Reads text value) :
    ∃ tokens, Scans (", ".intercalate texts).toList tokens ∧
      RunsArguments tokens (texts.map Reading.meaning) := by
  induction texts with
  | nil => exact absurd rfl given
  | cons text rest ih =>
      obtain ⟨value, head⟩ := reads text (by simp)
      obtain ⟨front, scans, runs⟩ := id head
      cases rest with
      | nil =>
          rw [String.intercalate_singleton, List.map_singleton, head.meaning]
          exact ⟨front, scans, runs.argument⟩
      | cons other rest =>
          obtain ⟨back, scans', runs'⟩ :=
            ih (by simp) fun text member => reads text (by simp [member])
          have comma : Marks ", ".toList [.comma] :=
            (Marks.sign (c := ',') rfl (by decide)).append Marks.blank
          rw [String.intercalate_cons_cons, List.map_cons, head.meaning, String.toList_append,
            String.toList_append]
          exact ⟨_, scans.between comma scans', .cons runs runs'⟩

theorem generic {texts : List String} (word : isWord text = true) (given : texts ≠ [])
    (reads : ∀ text ∈ texts, ∃ value, Reads text value) :
    Reads (text ++ "<" ++ ", ".intercalate texts ++ ">")
      (.atom (.named text (texts.map Reading.meaning))) := by
  obtain ⟨tokens, scans, runs⟩ := arguments given reads
  refine ⟨_, ?_, runs.close text⟩
  have opened := (Scans.name word).between (Marks.sign (c := '<') rfl (by decide)) scans
  have closed := opened.between (Marks.sign (c := '>') rfl (by decide)) Scans.nil
  simpa using closed

end Reads

open TypeTree (Same)

section Joining

variable {connective : Connective} {value next : Sum}

namespace Sum

def operands (sum : Sum) : Connective → List TypeTree
  | .union => sum.products.map (join .intersection)
  | .intersection => sum.last

def Fits (sum : Sum) (connective : Connective) : Prop :=
  connective = .intersection → sum.front = []

theorem tree_operands (fits : value.Fits connective) :
    value.tree = join connective (value.operands connective) := by
  cases connective with
  | union => rfl
  | intersection =>
      obtain ⟨front, last⟩ := value
      obtain rfl : front = [] := fits rfl
      rfl

theorem fits_glue (first : value.Fits connective) (second : next.Fits connective) :
    Fits ((value.next connective).glue next) connective := by
  rintro rfl
  obtain ⟨front, last⟩ := next
  obtain rfl : front = [] := second rfl
  exact first rfl

theorem operands_glue (fits : next.Fits connective) :
    ((value.next connective).glue next).operands connective =
      value.operands connective ++ next.operands connective := by
  obtain ⟨front, last⟩ := next
  cases connective with
  | union =>
      cases front with
      | nil => simp [operands, Sum.next, branch, glue, products]
      | cons product rest => simp [operands, Sum.next, branch, glue, products]
  | intersection =>
      obtain rfl : front = [] := fits rfl
      rfl

end Sum

theorem same_join (connective : Connective) (trees : List TypeTree) :
    Same (.joined connective trees) (join connective trees) := by
  match trees with
  | [] => exact Same.refl _
  | [tree] => exact Same.single connective tree
  | _ :: _ :: _ => exact Same.refl _

theorem same_operands (fits : value.Fits connective) (before after : List TypeTree) :
    Same (.joined connective (before ++ value.operands connective ++ after))
      (.joined connective (before ++ value.tree :: after)) := by
  rw [Sum.tree_operands fits]
  exact (Same.nested connective before _ after).symm.trans
    (Same.part connective before after (same_join connective _))

theorem reads_joined {texts : List String} (given : texts ≠ [])
    (reads : ∀ text ∈ texts, ∃ value, Reads text value ∧ value.Fits connective) :
    ∃ value, Reads (connective.separator.intercalate texts) value ∧ value.Fits connective ∧
      ∀ before, Same (.joined connective (before ++ value.operands connective))
        (.joined connective (before ++ texts.map meaning)) := by
  -- for all operands before, since those of the first text stand before those of the rest
  induction texts with
  | nil => exact absurd rfl given
  | cons text rest ih =>
      obtain ⟨value, head, fits⟩ := reads text (by simp)
      cases rest with
      | nil =>
          refine ⟨value, ?_, fits, ?_⟩
          · rw [String.intercalate_singleton]
            exact head
          · intro before
            have single := same_operands fits before []
            rw [List.append_nil, ← head.meaning] at single
            exact single
      | cons other rest =>
          obtain ⟨next, tail, fits', same⟩ :=
            ih (by simp) fun text member => reads text (by simp [member])
          refine ⟨_, ?_, Sum.fits_glue fits fits', ?_⟩
          · rw [String.intercalate_cons_cons]
            exact head.joined connective tail
          · intro before
            have front := same (before ++ value.operands connective)
            have back := same_operands fits before ((other :: rest).map meaning)
            rw [List.append_assoc] at front
            rw [Sum.operands_glue fits', List.map_cons, head.meaning]
            exact front.trans back

end Joining

def isJoint (text : String) : Bool := containsText " | " text || containsText " & " text

theorem isJoint_joined (connective : Connective) (front back : String) :
    isJoint (front ++ connective.separator ++ back) = true := by
  have inside :
      containsText connective.separator (front ++ connective.separator ++ back) = true := by
    rw [containsText, Text.contains_iff, String.toList_append, String.toList_append]
    exact ⟨_, _, rfl⟩
  cases connective with
  | union => exact Bool.or_eq_true_iff.mpr (.inl inside)
  | intersection => exact Bool.or_eq_true_iff.mpr (.inr inside)

/-- How the text of a tree is read: as a sum that means the same. It is one operand if the text does
not split, and a single factor unless an array of it gets parentheses. -/
structure Renders (tree : TypeTree) (value : Sum) : Prop where
  reads : Reads tree.spell value
  same : Same value.tree tree
  whole : tree.splits = false → value.front = []
  single : (∃ item, value = .atom item) ∨ isJoint tree.spell = true

namespace Renders

variable {tree : TypeTree} {value : Sum}

theorem meaning (renders : Renders tree value) : Same (Reading.meaning tree.spell) tree := by
  rw [renders.reads.meaning]
  exact renders.same

theorem meanings {trees : List TypeTree} (renders : ∀ tree ∈ trees, ∃ value, Renders tree value) :
    List.Forall₂ Same (trees.map fun tree => Reading.meaning tree.spell) trees := by
  rw [List.forall₂_map_left_iff, List.forall₂_same]
  intro tree member
  obtain ⟨value, own⟩ := renders tree member
  exact own.meaning

theorem named {name : String} {args : List TypeTree} (word : isWord name = true)
    (renders : ∀ arg ∈ args, ∃ value, Renders arg value) :
    ∃ value, Renders (.named name args) value := by
  cases args with
  | nil => exact ⟨_, .name word, .refl _, fun _ => rfl, .inl ⟨_, rfl⟩⟩
  | cons first rest =>
      have reads : ∀ text ∈ (first :: rest).map TypeTree.spell, ∃ value, Reads text value := by
        intro text member
        obtain ⟨arg, inside, rfl⟩ := List.mem_map.mp member
        obtain ⟨value, own⟩ := renders arg inside
        exact ⟨value, own.reads⟩
      have whole := Reads.generic word (by simp) reads
      have same := Same.args name [] (meanings renders)
      rw [List.map_map] at whole
      rw [← TypeTree.spellAll_eq] at whole
      exact ⟨.atom _, whole, same, fun _ => rfl, .inl ⟨_, rfl⟩⟩

theorem literal {text : String} (plain : text.toList.all isLiteralChar = true) :
    ∃ value, Renders (.literal text) value :=
  ⟨_, .literal plain, .refl _, fun _ => rfl, .inl ⟨_, rfl⟩⟩

theorem array {item : TypeTree} (renders : Renders item value) :
    ∃ value, Renders (.array item) value := by
  have whole : ∃ tree, Reads (PropertyType.grouped item.spell) (.atom tree) ∧ Same tree item := by
    rw [PropertyType.grouped]
    split
    · exact ⟨value.tree, renders.reads.group, renders.same⟩
    · rename_i plain
      rcases renders.single with ⟨tree, rfl⟩ | joint
      · exact ⟨tree, renders.reads, renders.same⟩
      · exact absurd joint plain
  obtain ⟨tree, reads, same⟩ := whole
  exact ⟨_, reads.array, same.array, fun _ => rfl, .inl ⟨_, rfl⟩⟩

section Parts

variable {connective : Connective} {parts : List TypeTree}
  (renders : ∀ part ∈ parts, ∃ value, Renders part value)

theorem part_of_text {text : String} (member : text ∈ (TypeTree.spellAll parts).eraseDups) :
    ∃ part ∈ parts, part.spell = text := by
  rw [TypeTree.spellAll_eq, List.mem_eraseDups] at member
  exact List.mem_map.mp member

include renders

theorem same_texts :
    Same (.joined connective ((TypeTree.spellAll parts).eraseDups.map Reading.meaning))
      (.joined connective parts) := by
  have dropped := Same.eraseDups connective Reading.meaning [] (TypeTree.spellAll parts)
  rw [TypeTree.spellAll_eq, List.map_map] at dropped
  rw [TypeTree.spellAll_eq]
  exact dropped.trans (Same.parts connective [] (meanings renders))

/-- Parts of one text leave no trace of their connective. -/
theorem joined_single {text : String} (shape : (TypeTree.spellAll parts).eraseDups = [text]) :
    ∃ value, Renders (.joined connective parts) value := by
  obtain ⟨part, inside, rfl⟩ := part_of_text (shape ▸ List.mem_singleton_self text)
  obtain ⟨value, own⟩ := renders part inside
  have spelled : (TypeTree.joined connective parts).spell = part.spell := by
    rw [TypeTree.spell, shape, String.intercalate_singleton]
  have same : Same (.joined connective _) (.joined connective parts) := same_texts renders
  rw [shape, List.map_singleton, own.reads.meaning] at same
  refine ⟨value, spelled ▸ own.reads, (Same.single connective _).symm.trans same, ?_,
    spelled ▸ own.single⟩
  intro unsplit
  rw [TypeTree.splits, Bool.or_eq_false_iff, TypeTree.anySplits_eq, List.any_eq_false] at unsplit
  exact own.whole (by simpa using unsplit.2 part inside)

theorem joined_several {first second : String} {rest : List String}
    (shape : (TypeTree.spellAll parts).eraseDups = first :: second :: rest)
    (apart : connective = .intersection → TypeTree.anySplits parts = false) :
    ∃ value, Renders (.joined connective parts) value := by
  have fits : ∀ text ∈ first :: second :: rest,
      ∃ value, Reads text value ∧ value.Fits connective := by
    intro text member
    obtain ⟨part, inside, rfl⟩ := part_of_text (shape ▸ member)
    obtain ⟨value, own⟩ := renders part inside
    refine ⟨value, own.reads, ?_⟩
    intro intersection
    have none := apart intersection
    rw [TypeTree.anySplits_eq, List.any_eq_false] at none
    exact own.whole (by simpa using none part inside)
  obtain ⟨value, reads, fit, joined⟩ := reads_joined (by simp) fits
  have spelled : (TypeTree.joined connective parts).spell =
      connective.separator.intercalate (first :: second :: rest) := by
    rw [TypeTree.spell, shape]
  have same : Same (.joined connective _) (.joined connective parts) := same_texts renders
  rw [shape] at same
  refine ⟨value, spelled ▸ reads, ?_, ?_, .inr ?_⟩
  · rw [Sum.tree_operands fit]
    exact ((same_join connective _).symm.trans (joined [])).trans same
  · -- a union of several texts splits, so that only an intersection is left
    intro unsplit
    apply fit
    cases connective with
    | union => simp [TypeTree.splits, shape] at unsplit
    | intersection => rfl
  · rw [spelled, String.intercalate_cons_cons]
    exact isJoint_joined connective first _

theorem joined (given : parts ≠ [])
    (apart : connective = .intersection → 2 ≤ (TypeTree.spellAll parts).eraseDups.length →
      TypeTree.anySplits parts = false) :
    ∃ value, Renders (.joined connective parts) value := by
  match shape : (TypeTree.spellAll parts).eraseDups with
  | [] =>
    rw [TypeTree.spellAll_eq] at shape
    exact absurd shape (eraseDups_ne_nil (by simpa using given))
  | [text] => exact joined_single renders shape
  | first :: second :: rest =>
    exact joined_several renders shape fun intersection => apart intersection (by simp [shape])

end Parts

theorem of_isLegible (tree : TypeTree) (legible : tree.isLegible = true)
    (apart : tree.isApart = true) : ∃ value, Renders tree value := by
  induction tree with
  | named name args ih =>
      simp only [TypeTree.isLegible, TypeTree.isApart, TypeTree.allLegible_eq,
        TypeTree.allApart_eq, Bool.and_eq_true, List.all_eq_true] at legible apart
      exact named legible.1 fun arg member =>
        ih arg member (legible.2 arg member) (apart arg member)
  | literal value => exact literal legible
  | array item ih =>
      obtain ⟨value, renders⟩ := ih legible apart
      exact renders.array
  | joined connective parts ih =>
      simp only [TypeTree.isLegible, TypeTree.isApart, TypeTree.allLegible_eq,
        TypeTree.allApart_eq, Bool.and_eq_true, List.all_eq_true] at legible apart
      apply joined
      · exact fun part member => ih part member (legible.2 part member) (apart.2 part member)
      · simpa using legible.1
      · rintro rfl several
        have choices : (TypeTree.spellAll parts).eraseDups.length ≤ 1 ∨
            TypeTree.anySplits parts = false := by simpa using apart.1
        exact choices.resolve_left (Nat.not_le.mpr several)

end Renders

end Reading

/-- The text of a tree is read as the tree, if no intersection has a part that splits. -/
theorem TypeTree.read_spell {tree : TypeTree} (legible : tree.isLegible = true)
    (apart : tree.isApart = true) :
    ∃ read, TypeTree.read tree.spell = some read ∧ Same read tree := by
  obtain ⟨value, renders⟩ := Reading.Renders.of_isLegible tree legible apart
  exact ⟨value.tree, renders.reads.read, renders.same⟩

end TypedClient
