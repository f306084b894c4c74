import TypedClient.Proofs.Text.Case
import TypedClient.Proofs.Text.Trim
import TypedClient.TypeExpr.Basic

namespace TypedClient

namespace TypeExpr

def isNameChar (c : Char) : Bool := !List.contains ['<', '>', ',', '«', '»', '[', ']', '\n'] c

/-- What stands in front of a name: nothing, or a text that ends with a point. -/
structure IsPackage (package : List Char) : Prop where
  plain : ∀ c ∈ package, isNameChar c = true
  ended : package = [] ∨ package.getLast? = some '.'

/-- A name that is read as it stands: not empty, not blank at its ends and without a package. Inside
brackets it consists of ASCII letters and digits, or holds none. -/
structure IsSettledName (nested : Bool) (name : String) : Prop where
  given : name.toList ≠ []
  tight : Text.Tight Text.isBlank name.toList
  plain : ∀ c ∈ name.toList, isNameChar c = true ∧ c ≠ '.' ∧ c ≠ '/'
  kept : nested = true → (∀ c ∈ name.toList, c.isAlphanum = true) ∨
    ∀ c ∈ name.toList, c.isAlphanum = false

/-- A name without a package: not empty, not blank at its ends, without points and slashes. -/
structure IsBareName (name : String) : Prop where
  given : name.toList ≠ []
  tight : Text.Tight Text.isBlank name.toList
  plain : ∀ c ∈ name.toList, isNameChar c = true ∧ c ≠ '.' ∧ c ≠ '/'

theorem IsBareName.of_check {name : String}
    (checked : (name != "" && name.toList.all fun c =>
      !Text.isBlank c && isNameChar c && c != '.' && c != '/') = true) : IsBareName name := by
  simp only [Bool.and_eq_true, bne_iff_ne, List.all_eq_true, Bool.not_eq_true'] at checked
  refine ⟨by simpa using checked.1, ?_, fun c member => ?_⟩
  · exact Text.tight_of_none fun c member => (checked.2 c member).1.1.1
  · obtain ⟨⟨⟨-, plain⟩, point⟩, slash⟩ := checked.2 c member
    exact ⟨plain, point, slash⟩

def shortName (nested : Bool) (name : String) : String :=
  let kept := name.toList.filter Char.isAlphanum
  if !nested || kept.isEmpty then name else String.ofList kept

theorem IsSettledName.bare {nested : Bool} {name : String} (settled : IsSettledName nested name) :
    IsBareName name :=
  ⟨settled.given, settled.tight, settled.plain⟩

theorem shortName_of_settled {nested : Bool} {name : String}
    (settled : IsSettledName nested name) : shortName nested name = name := by
  unfold shortName
  cases nested with
  | false => simp
  | true =>
      rcases settled.kept rfl with all | none
      · simp [List.filter_eq_self.mpr all]
      · have nothing : name.toList.filter Char.isAlphanum = [] :=
          List.filter_eq_nil_iff.mpr fun c member => by simp [none c member]
        simp [nothing]

theorem ne_of_isAlphanum {c other : Char} (plain : c.isAlphanum = true)
    (mark : other.isAlphanum = false) : c ≠ other := by
  rintro rfl
  rw [plain] at mark
  cases mark

theorem isNameChar_of_isAlphanum {c : Char} (plain : c.isAlphanum = true) :
    isNameChar c = true ∧ c ≠ '.' ∧ c ≠ '/' := by
  have marks : ['<', '>', ',', '«', '»', '[', ']', '\n', '.', '/'].all (!·.isAlphanum) = true := rfl
  have apart : ∀ mark ∈ ['<', '>', ',', '«', '»', '[', ']', '\n', '.', '/'], c ≠ mark := by
    intro mark member
    apply ne_of_isAlphanum plain
    simpa using List.all_eq_true.mp marks mark member
  simpa [isNameChar, and_assoc] using apart

theorem IsSettledName.of_isAlphanum {name : String} (given : name ≠ "")
    (plain : ∀ c ∈ name.toList, c.isAlphanum = true) (nested : Bool) :
    IsSettledName nested name where
  given := by simpa using given
  tight := Text.tight_of_none fun c member => Text.isBlank_of_isAlphanum (plain c member)
  plain c member := isNameChar_of_isAlphanum (plain c member)
  kept _ := .inl plain

section Names

variable {name : String} {package : List Char}

theorem ne_feed_of_isNameChar {c : Char} (plain : isNameChar c = true) : c ≠ '\n' := by
  rintro rfl
  cases plain

theorem dropPackage_append (packaged : IsPackage package) (bare : IsBareName name) :
    dropPackage (package ++ name.toList) = name.toList := by
  have line : (package ++ name.toList).takeWhile (· != '\n') = package ++ name.toList := by
    apply List.takeWhile_eq_self_iff.mpr
    intro c member
    rw [bne_iff_ne]
    rcases List.mem_append.mp member with front | back
    · exact ne_feed_of_isNameChar (packaged.plain c front)
    · exact ne_feed_of_isNameChar (bare.plain c back).1
  have unmarked : ∀ c ∈ name.toList, (c == '.' || c == '/') = false := by
    intro c member
    obtain ⟨-, point, slash⟩ := bare.plain c member
    simp [point, slash]
  rcases packaged.ended with rfl | ended
  · have none : name.toList.any (fun c => c == '.' || c == '/') = false := by
      simpa using unmarked
    rw [List.nil_append] at line ⊢
    simp only [dropPackage, line, none, Bool.false_eq_true, if_false]
  · obtain ⟨start, rfl⟩ := List.getLast?_eq_some_iff.mp ended
    have after : Text.afterLast (fun c => c == '.' || c == '/') (start ++ ['.'] ++ name.toList) =
        name.toList := by
      have stays : ∀ c ∈ name.toList.reverse, (!(c == '.' || c == '/')) = true := by
        intro c member
        simpa using unmarked c (List.mem_reverse.mp member)
      simp only [Text.afterLast, List.reverse_append, List.takeWhile_append_of_pos stays]
      simp
    have marked : (start ++ ['.'] ++ name.toList).any (fun c => c == '.' || c == '/') = true := by
      simp
    simp only [dropPackage, line, marked, if_true, after, List.drop_length, List.append_nil]

theorem cleanName_append (packaged : IsPackage package) (bare : IsBareName name) (nested : Bool) :
    cleanName nested (String.ofList (package ++ name.toList)) = shortName nested name := by
  have short := dropPackage_append packaged bare
  unfold cleanName shortName
  simp only [String.toList_ofList, short]
  split
  · rw [String.ofList_toList]
  · rfl

theorem nameToken_spelled {front back : List Char} (packaged : IsPackage package)
    (bare : IsBareName name) (before : ∀ c ∈ front, Text.isBlank c = true)
    (behind : ∀ c ∈ back, Text.isBlank c = true) :
    ∃ text, nameToken (front ++ package ++ name.toList ++ back).reverse = [.name text] ∧
      ∀ nested, cleanName nested text = shortName nested name := by
  let short := package.dropWhile Text.isBlank
  have split : package = package.takeWhile Text.isBlank ++ short :=
    List.takeWhile_append_dropWhile.symm
  have inside : short <:+ package := List.dropWhile_suffix _
  have shortened : IsPackage short := by
    constructor
    · exact fun c member => packaged.plain c (inside.subset member)
    · by_cases empty : short = []
      · exact .inl empty
      · rcases packaged.ended with rfl | ended
        · exact absurd rfl empty
        · refine .inr ?_
          rw [split, List.getLast?_append_of_ne_nil _ empty] at ended
          exact ended
  have tight : Text.Tight Text.isBlank (short ++ name.toList) := by
    constructor
    · intro c head
      by_cases empty : short = []
      · rw [empty, List.nil_append] at head
        exact bare.tight.1 c head
      · rw [List.head?_append_of_ne_nil _ empty] at head
        obtain ⟨rest, shape⟩ := List.head?_eq_some_iff.mp head
        have stopped := List.head_dropWhile_not Text.isBlank empty
        simpa [short, shape] using stopped
    · intro c last
      rw [List.getLast?_append_of_ne_nil _ bare.given] at last
      exact bare.tight.2 c last
  have trimmed : Text.trim (front ++ package ++ name.toList ++ back) = short ++ name.toList := by
    have whole : front ++ package ++ name.toList ++ back =
        (front ++ package.takeWhile Text.isBlank) ++ (short ++ name.toList) ++ back := by
      conv_lhs => rw [split]
      simp only [List.append_assoc]
    rw [whole, Text.trim]
    refine Text.trimWhere_append ?_ tight behind
    intro c member
    rcases List.mem_append.mp member with own | own
    · exact before c own
    · exact List.mem_takeWhile_imp own
  refine ⟨String.ofList (short ++ name.toList), ?_, cleanName_append shortened bare⟩
  have given : (short ++ name.toList).isEmpty = false := by simp [bare.given]
  simp only [nameToken, List.reverse_reverse, trimmed, given, Bool.false_eq_true, if_false]

end Names

section Characters

variable {text word rest : List Char}

theorem tokensFrom_append (plain : ∀ c ∈ word, delimiter? c = none ∧ c ≠ '[')
    (gathered rest : List Char) :
    tokensFrom gathered (word ++ rest) = tokensFrom (word.reverse ++ gathered) rest := by
  induction word generalizing gathered with
  | nil => rfl
  | cons c word ih =>
      obtain ⟨delimiter, bracket⟩ := plain c (by simp)
      have later := ih (fun other member => plain other (by simp [member])) (c :: gathered)
      rw [List.cons_append, tokensFrom]
      · rw [delimiter, later, List.reverse_cons, List.append_assoc, List.singleton_append]
      · intro more same
        exact absurd same bracket

def Stops (rest : List Char) : Prop :=
  ∀ gathered, tokensFrom gathered rest = nameToken gathered ++ tokensFrom [] rest

theorem nameToken_blank {blank : List Char} (all : ∀ c ∈ blank, Text.isBlank c = true) :
    nameToken blank = [] := by
  have trimmed : Text.trim blank.reverse = [] := by
    have dropped : blank.reverse.dropWhile Text.isBlank = [] :=
      List.dropWhile_eq_nil_iff.mpr (by simpa using all)
    rw [Text.trim, Text.trimWhere, dropped]
    rfl
  simp [nameToken, trimmed]

theorem Stops.nil : Stops [] := by
  intro gathered
  have empty : nameToken [] = [] := nameToken_blank (by simp)
  simp [tokensFrom, empty]

theorem tokensFrom_delimiter {c : Char} {token : Token} (delimiter : delimiter? c = some token)
    (gathered rest : List Char) :
    tokensFrom gathered (c :: rest) = nameToken gathered ++ token :: tokensFrom [] rest := by
  rw [tokensFrom]
  · rw [delimiter]
  · rintro more rfl
    cases delimiter

theorem tokensFrom_array (gathered rest : List Char) :
    tokensFrom gathered ('[' :: ']' :: rest) =
      nameToken gathered ++ .array :: tokensFrom [] rest := by
  rw [tokensFrom]

theorem nameToken_nil : nameToken [] = [] := nameToken_blank (by simp)

theorem Stops.delimiter {c : Char} {token : Token} (delimiter : delimiter? c = some token) :
    Stops (c :: rest) := by
  intro gathered
  rw [tokensFrom_delimiter delimiter, tokensFrom_delimiter delimiter, nameToken_nil]
  rfl

theorem Stops.array : Stops ('[' :: ']' :: rest) := by
  intro gathered
  rw [tokensFrom_array, tokensFrom_array, nameToken_nil]
  rfl

theorem Stops.tokensFrom_append (stops : Stops rest) (apart : rest.head? ≠ some ']')
    (gathered front : List Char) :
    tokensFrom gathered (front ++ rest) = tokensFrom gathered front ++ tokensFrom [] rest := by
  fun_induction tokensFrom gathered front with
  | case1 gathered => exact stops gathered
  | case2 gathered more ih =>
      rw [List.cons_append, List.cons_append, tokensFrom_array, ih, List.append_assoc,
        List.cons_append]
  | case3 gathered c more other token found ih =>
      rw [List.cons_append, tokensFrom_delimiter found, ih, List.append_assoc, List.cons_append]
  | case4 gathered c more other plain ih =>
      rw [List.cons_append, tokensFrom, plain]
      · exact ih
      · intro later same closes
        cases more with
        | nil => exact apart (by rw [← List.nil_append rest, closes, List.head?_cons])
        | cons second more =>
            obtain ⟨rfl, -⟩ := List.cons.inj closes
            exact other more same rfl

theorem tokensFrom_append_delimiter {c : Char} {token : Token}
    (delimiter : delimiter? c = some token) (gathered front back : List Char) :
    tokensFrom gathered (front ++ c :: back) =
      tokensFrom gathered front ++ token :: tokensFrom [] back := by
  have apart : (c :: back).head? ≠ some ']' := by
    rintro ⟨⟩
    cases delimiter
  rw [(Stops.delimiter delimiter).tokensFrom_append apart, tokensFrom_delimiter delimiter,
    nameToken_nil, List.nil_append]

/-- A blank in front of a text is no part of its tokens. -/
theorem tokensFrom_blank {c : Char} (blank : Text.isBlank c = true)
    (gathered rest : List Char) :
    tokensFrom (gathered ++ [c]) rest = tokensFrom gathered rest := by
  have token (gathered : List Char) : nameToken (gathered ++ [c]) = nameToken gathered := by
    have trimmed : Text.trim (c :: gathered.reverse) = Text.trim gathered.reverse := by
      rw [Text.trim, Text.trimWhere, List.dropWhile_cons_of_pos blank]
      rfl
    simp only [nameToken, List.reverse_append, List.reverse_singleton, List.singleton_append,
      trimmed]
  fun_induction tokensFrom gathered rest with
  | case1 gathered => exact token gathered
  | case2 gathered rest ih => rw [tokensFrom_array, token]
  | case3 gathered d rest other mark found ih => rw [tokensFrom_delimiter found, token]
  | case4 gathered d rest other plain ih =>
      rw [tokensFrom, plain]
      · exact ih
      · exact other

def Lexes (text : List Char) (tokens : List Token) : Prop :=
  ∀ rest, Stops rest → tokensFrom [] (text ++ rest) = tokens ++ tokensFrom [] rest

theorem quiet_of_isBlank {c : Char} (blank : Text.isBlank c = true) :
    delimiter? c = none ∧ c ≠ '[' := by
  constructor
  · unfold delimiter?
    split <;> first | rfl | (revert blank; decide)
  · rintro rfl
    revert blank
    decide

theorem quiet_of_isNameChar {c : Char} (plain : isNameChar c = true) :
    delimiter? c = none ∧ c ≠ '[' := by
  constructor
  · unfold delimiter?
    split <;> first | rfl | cases plain
  · rintro rfl
    cases plain

theorem lexes_blank {blank : List Char} (all : ∀ c ∈ blank, Text.isBlank c = true) :
    Lexes blank [] := by
  intro rest stops
  rw [tokensFrom_append (fun c member => quiet_of_isBlank (all c member)), List.append_nil, stops,
    nameToken_blank (by simpa using all)]

theorem Lexes.delimited {c : Char} {token : Token} {tokens : List Token} (lexes : Lexes text tokens)
    (delimiter : delimiter? c = some token) : Lexes (c :: text) (token :: tokens) := by
  intro rest stops
  rw [List.cons_append, tokensFrom_delimiter delimiter, nameToken_nil, lexes rest stops]
  rfl

theorem Lexes.append {front : List Char} {first second : List Token} (lexes : Lexes front first)
    (later : Lexes text second) (stopping : ∀ rest, Stops rest → Stops (text ++ rest)) :
    Lexes (front ++ text) (first ++ second) := by
  intro rest stops
  rw [List.append_assoc, lexes _ (stopping rest stops), later rest stops, List.append_assoc]

theorem lexes_name {name : String} {front package back : List Char} (packaged : IsPackage package)
    (bare : IsBareName name) (before : ∀ c ∈ front, Text.isBlank c = true)
    (behind : ∀ c ∈ back, Text.isBlank c = true) :
    ∃ text, Lexes (front ++ package ++ name.toList ++ back) [.name text] ∧
      ∀ nested, cleanName nested text = shortName nested name := by
  obtain ⟨text, token, clean⟩ := nameToken_spelled packaged bare before behind
  refine ⟨text, fun rest stops => ?_, clean⟩
  have quiet : ∀ c ∈ front ++ package ++ name.toList ++ back, delimiter? c = none ∧ c ≠ '[' := by
    intro c member
    simp only [List.mem_append] at member
    obtain ((own | own) | own) | own := member
    · exact quiet_of_isBlank (before c own)
    · exact quiet_of_isNameChar (packaged.plain c own)
    · exact quiet_of_isNameChar (bare.plain c own).1
    · exact quiet_of_isBlank (behind c own)
  rw [tokensFrom_append quiet, List.append_nil, stops, token]

end Characters

section Tokens

def Ends : List Token → Prop
  | [] => True
  | .closing :: _ => True
  | .comma :: _ => True
  | _ => False

theorem arrays_replicate {more : List Token} (ends : Ends more) (depth : Nat) :
    countArrays (List.replicate depth .array ++ more) = depth ∧
      dropArrays (List.replicate depth .array ++ more) = more := by
  induction depth with
  | zero =>
      rw [List.replicate_zero, List.nil_append]
      unfold Ends at ends
      split at ends <;> first | exact ⟨rfl, rfl⟩ | exact absurd ends id
  | succ depth ih =>
      rw [List.replicate_succ, List.cons_append, countArrays, dropArrays, ih.1]
      exact ⟨rfl, ih.2⟩

def ReadsAll (tokens : List Token) (args : List TypeNode) : Prop :=
  ∀ tail, (readArgs (tokens ++ .closing :: tail)).1 = args ∧
    (readArgs (tokens ++ .closing :: tail)).2.1 = tail

def ReadsArguments (brackets : List Token) (args : List TypeNode) : Prop :=
  ∀ nested text depth more, Ends more →
    readNode nested (.name text :: (brackets ++ (List.replicate depth .array ++ more))) =
      (⟨cleanName nested text, args, depth⟩, more)

theorem readsArguments_nil : ReadsArguments [] [] := by
  intro nested text depth more ends
  obtain ⟨count, drop⟩ := arrays_replicate ends depth
  rw [List.nil_append, readNode, splitName]
  dsimp only
  split
  · rename_i inner same
    cases depth with
    | zero =>
        rw [List.replicate_zero, List.nil_append] at same
        subst same
        exact absurd ends id
    | succ depth => cases same
  · rw [count, drop]

theorem ReadsAll.brackets {tokens : List Token} {args : List TypeNode}
    (reads : ReadsAll tokens args) : ReadsArguments (.opening :: tokens ++ [.closing]) args := by
  intro nested text depth more ends
  obtain ⟨own, behind⟩ := reads (List.replicate depth .array ++ more)
  obtain ⟨count, drop⟩ := arrays_replicate ends depth
  have whole : (Token.opening :: tokens ++ [.closing]) ++ (List.replicate depth .array ++ more) =
      .opening :: (tokens ++ .closing :: (List.replicate depth .array ++ more)) := by simp
  rw [whole, readNode, splitName]
  dsimp only
  rw [own, behind, count, drop]

theorem readsAll_nil : ReadsAll [] [] := by
  intro tail
  rw [List.nil_append, readArgs]
  exact ⟨rfl, rfl⟩

theorem ReadsAll.comma {tokens : List Token} {args : List TypeNode} (reads : ReadsAll tokens args) :
    ReadsAll (.comma :: tokens) args := by
  intro tail
  obtain ⟨own, behind⟩ := reads tail
  rw [List.cons_append, readArgs]
  exact ⟨own, behind⟩

theorem readArgs_name (text : String) (tail : List Token) :
    (readArgs (.name text :: tail)).1 = (readNode true (.name text :: tail)).1 ::
        (readArgs (readNode true (.name text :: tail)).2).1 ∧
      (readArgs (.name text :: tail)).2.1 =
        (readArgs (readNode true (.name text :: tail)).2).2.1 := by
  by_cases opened : ∃ inner, tail = .opening :: inner
  · obtain ⟨inner, rfl⟩ := opened
    rw [readArgs]
    exact ⟨rfl, rfl⟩
  · have other : ∀ inner, tail = .opening :: inner → False := fun inner same => opened ⟨inner, same⟩
    have node : readNode true (.name text :: tail) =
        (⟨cleanName true text, [], countArrays tail⟩, dropArrays tail) := by
      rw [readNode, splitName]
      dsimp only
      split
      · exact absurd rfl (other _)
      · rfl
    rw [node, readArgs]
    · exact ⟨rfl, rfl⟩
    · exact other

theorem ReadsAll.cons {text : String} {front tokens : List Token} {node : TypeNode}
    {args : List TypeNode}
    (first : ∀ more, Ends more → readNode true (.name text :: (front ++ more)) = (node, more))
    (others : ReadsAll tokens args) (apart : ∀ tail, Ends (tokens ++ .closing :: tail)) :
    ReadsAll (.name text :: front ++ tokens) (node :: args) := by
  intro tail
  have own := first _ (apart tail)
  obtain ⟨args, rest⟩ := readArgs_name text (front ++ (tokens ++ .closing :: tail))
  rw [own] at args rest
  have whole : (Token.name text :: front ++ tokens) ++ .closing :: tail =
      .name text :: (front ++ (tokens ++ .closing :: tail)) := by simp
  rw [whole, args, rest]
  exact ⟨congrArg _ (others tail).1, (others tail).2⟩

end Tokens

def brackets : List (Char × Char) := [('<', '>'), ('«', '»')]

inductive SpellsMarks : Nat → List Char → Prop
  | zero : SpellsMarks 0 []
  | succ {depth : Nat} (back : List Char) {marks : List Char}
      (blank : ∀ c ∈ back, Text.isBlank c = true) (others : SpellsMarks depth marks) :
      SpellsMarks (depth + 1) ('[' :: ']' :: back ++ marks)

mutual

/-- The spellings of a type: blanks around the tokens, a package in front of any name, and brackets
of either script around the arguments. -/
inductive Spells : TypeNode → List Char → Prop
  | node {name : String} {args : List TypeNode} {depth : Nat}
      (front package back : List Char) {arguments marks : List Char}
      (before : ∀ c ∈ front, Text.isBlank c = true) (packaged : IsPackage package)
      (behind : ∀ c ∈ back, Text.isBlank c = true) (inner : SpellsArguments args arguments)
      (outer : SpellsMarks depth marks) :
      Spells ⟨name, args, depth⟩
        (front ++ package ++ name.toList ++ back ++ (arguments ++ marks))

/-- Arguments with their brackets; no brackets where there are none. -/
inductive SpellsArguments : List TypeNode → List Char → Prop
  | none : SpellsArguments [] []
  | some {node : TypeNode} {rest : List TypeNode} {text more : List Char}
      (opening closing : Char) (back : List Char) (pair : (opening, closing) ∈ brackets)
      (first : Spells node text) (others : SpellsRest rest more)
      (blank : ∀ c ∈ back, Text.isBlank c = true) :
      SpellsArguments (node :: rest) (opening :: (text ++ more) ++ closing :: back)

inductive SpellsRest : List TypeNode → List Char → Prop
  | nil : SpellsRest [] []
  | cons {node : TypeNode} {rest : List TypeNode} {text more : List Char} (first : Spells node text)
      (others : SpellsRest rest more) : SpellsRest (node :: rest) (',' :: (text ++ more))

end

end TypeExpr

namespace TypeNode

open TypeExpr

mutual

/-- Every name in the tree is read as it stands. -/
def Settled (nested : Bool) : TypeNode → Prop
  | ⟨name, args, _⟩ => IsSettledName nested name ∧ AllSettled args
termination_by structural node => node

def AllSettled : List TypeNode → Prop
  | [] => True
  | node :: rest => Settled true node ∧ AllSettled rest
termination_by structural nodes => nodes

end

mutual

/-- No name in the tree has a package. -/
def Bare : TypeNode → Prop
  | ⟨name, args, _⟩ => IsBareName name ∧ AllBare args
termination_by structural node => node

def AllBare : List TypeNode → Prop
  | [] => True
  | node :: rest => Bare node ∧ AllBare rest
termination_by structural nodes => nodes

end

mutual

def shortened (nested : Bool) : TypeNode → TypeNode
  | ⟨name, args, depth⟩ => ⟨shortName nested name, allShortened args, depth⟩
termination_by structural node => node

def allShortened : List TypeNode → List TypeNode
  | [] => []
  | node :: rest => shortened true node :: allShortened rest
termination_by structural nodes => nodes

end

theorem Settled.outer {node : TypeNode} (settled : node.Settled true) : node.Settled false := by
  obtain ⟨name, args, depth⟩ := node
  obtain ⟨named, inner⟩ := settled
  exact ⟨⟨named.given, named.tight, named.plain, by simp⟩, inner⟩

mutual

theorem Settled.bare {nested : Bool} {node : TypeNode} (settled : node.Settled nested) :
    node.Bare := by
  match node, settled with
  | ⟨_, _, _⟩, ⟨named, args⟩ => exact ⟨named.bare, AllSettled.bare args⟩

theorem AllSettled.bare {nodes : List TypeNode} (settled : AllSettled nodes) : AllBare nodes := by
  match nodes, settled with
  | [], _ => trivial
  | _ :: _, ⟨own, rest⟩ => exact ⟨Settled.bare own, AllSettled.bare rest⟩

end

mutual

theorem shortened_of_settled {nested : Bool} {node : TypeNode} (settled : node.Settled nested) :
    node.shortened nested = node := by
  match node, settled with
  | ⟨_, _, _⟩, ⟨named, args⟩ =>
      rw [shortened, shortName_of_settled named, allShortened_of_settled args]

theorem allShortened_of_settled {nodes : List TypeNode} (settled : AllSettled nodes) :
    allShortened nodes = nodes := by
  match nodes, settled with
  | [], _ => rfl
  | _ :: _, ⟨own, rest⟩ =>
      rw [allShortened, shortened_of_settled own, allShortened_of_settled rest]

end

mutual

/-- The tree holds no list and no map of two arguments, which print as something else. -/
def printsAsIs : TypeNode → Bool
  | ⟨name, args, _⟩ => name != "List" && !(name == "Map" && args.length == 2) && allPrintAsIs args
termination_by structural node => node

def allPrintAsIs : List TypeNode → Bool
  | [] => true
  | node :: rest => printsAsIs node && allPrintAsIs rest
termination_by structural nodes => nodes

end

/-- The type with more array marks behind it. -/
def deepen (node : TypeNode) (extra : Nat) : TypeNode :=
  { node with arrayDepth := node.arrayDepth + extra }

theorem printsAsIs_deepen (node : TypeNode) (extra : Nat) :
    (node.deepen extra).printsAsIs = node.printsAsIs := by
  obtain ⟨name, args, depth⟩ := node
  rw [deepen, printsAsIs, printsAsIs]

end TypeNode

namespace TypeExpr

theorem lexes_marks {depth : Nat} {marks : List Char} (spelled : SpellsMarks depth marks) :
    Lexes marks (List.replicate depth .array) ∧ ∀ rest, Stops rest → Stops (marks ++ rest) := by
  induction spelled with
  | zero => exact ⟨fun _ _ => rfl, fun _ stops => stops⟩
  | succ back blank others ih =>
      rename_i depth marks
      refine ⟨fun rest stops => ?_, fun rest _ => Stops.array⟩
      have later := (lexes_blank blank).append ih.1 ih.2 rest stops
      have whole : ('[' :: ']' :: back ++ marks) ++ rest =
          '[' :: ']' :: (back ++ marks ++ rest) := by
        simp
      rw [whole, tokensFrom_array, nameToken_nil, later]
      rfl

theorem delimiters_of_brackets {opening closing : Char} (pair : (opening, closing) ∈ brackets) :
    delimiter? opening = some .opening ∧ delimiter? closing = some .closing := by
  simp only [brackets, List.mem_cons, Prod.mk.injEq, List.not_mem_nil, or_false] at pair
  obtain ⟨rfl, rfl⟩ | ⟨rfl, rfl⟩ := pair <;> exact ⟨rfl, rfl⟩

mutual

theorem Spells.reads {node : TypeNode} {text : List Char} (spelled : Spells node text)
    (bare : node.Bare) :
    ∃ name tokens, Lexes text (.name name :: tokens) ∧ ∀ nested more, Ends more →
      readNode nested (.name name :: (tokens ++ more)) = (node.shortened nested, more) := by
  match spelled, bare with
  | .node _ _ _ before packaged behind inner outer, ⟨named, args⟩ =>
      rename_i depth front package back arguments marks
      obtain ⟨spelling, lexes, clean⟩ := lexes_name packaged named before behind
      obtain ⟨tokens, lexed, stopping, reads⟩ := inner.reads args
      obtain ⟨marked, stops⟩ := lexes_marks outer
      refine ⟨spelling, tokens ++ List.replicate depth .array, ?_, ?_⟩
      · exact lexes.append (lexed.append marked stops) fun rest stop => by
          rw [List.append_assoc]
          exact stopping _ (stops rest stop)
      · intro nested more ends
        rw [List.append_assoc, reads nested spelling depth more ends, clean, TypeNode.shortened]

theorem SpellsArguments.reads {args : List TypeNode} {text : List Char}
    (spelled : SpellsArguments args text) (bare : TypeNode.AllBare args) :
    ∃ tokens, Lexes text tokens ∧ (∀ rest, Stops rest → Stops (text ++ rest)) ∧
      ReadsArguments tokens (TypeNode.allShortened args) := by
  match spelled, bare with
  | .none, _ => exact ⟨[], fun _ _ => rfl, fun _ stops => stops, readsArguments_nil⟩
  | .some _ _ _ pair first others blank, ⟨own, rest⟩ =>
      obtain ⟨opens, closes⟩ := delimiters_of_brackets pair
      obtain ⟨name, front, lexes, reads⟩ := first.reads own
      obtain ⟨tokens, lexed, stopping, apart, all⟩ := others.reads rest
      refine ⟨.opening :: (.name name :: front ++ tokens) ++ [.closing], ?_, ?_, ?_⟩
      · refine Lexes.append ?_ ((lexes_blank blank).delimited closes) fun _ _ => .delimiter closes
        exact (lexes.append lexed stopping).delimited opens
      · exact fun _ _ => .delimiter opens
      · exact (ReadsAll.cons (reads true) all apart).brackets

theorem SpellsRest.reads {args : List TypeNode} {text : List Char}
    (spelled : SpellsRest args text) (bare : TypeNode.AllBare args) :
    ∃ tokens, Lexes text tokens ∧ (∀ rest, Stops rest → Stops (text ++ rest)) ∧
      (∀ tail, Ends (tokens ++ .closing :: tail)) ∧
      ReadsAll tokens (TypeNode.allShortened args) := by
  match spelled, bare with
  | .nil, _ =>
      exact ⟨[], fun _ _ => rfl, fun _ stops => stops, fun _ => trivial, readsAll_nil⟩
  | .cons first others, ⟨own, rest⟩ =>
      obtain ⟨name, front, lexes, reads⟩ := first.reads own
      obtain ⟨tokens, lexed, stopping, apart, all⟩ := others.reads rest
      refine ⟨.comma :: (.name name :: front ++ tokens), ?_, ?_, ?_, ?_⟩
      · exact (lexes.append lexed stopping).delimited rfl
      · exact fun _ _ => .delimiter rfl
      · exact fun _ => trivial
      · exact (ReadsAll.cons (reads true) all apart).comma

end

/-- From every text that spells a tree the tree is read with what is left of its names. -/
theorem parse_of_bare {node : TypeNode} {text : List Char} (spelled : Spells node text)
    (bare : node.Bare) : TypeNode.parse (String.ofList text) = node.shortened false := by
  obtain ⟨name, tokens, lexes, reads⟩ := spelled.reads bare
  have whole : TypeExpr.tokens (String.ofList text) = .name name :: tokens := by
    have lexed := lexes [] .nil
    rw [List.append_nil] at lexed
    rw [TypeExpr.tokens, String.toList_ofList, lexed]
    simp [tokensFrom, nameToken_nil]
  have ended := reads false [] trivial
  rw [List.append_nil] at ended
  rw [TypeNode.parse, whole, ended]

theorem parse_of_spells {node : TypeNode} {text : List Char} (spelled : Spells node text)
    (settled : node.Settled false) : TypeNode.parse (String.ofList text) = node := by
  rw [parse_of_bare spelled settled.bare, TypeNode.shortened_of_settled settled]

theorem Spells.space {node : TypeNode} {text : List Char} (spelled : Spells node text) :
    Spells node (' ' :: text) := by
  match spelled with
  | .node _ _ _ before packaged behind inner outer =>
      rename_i name args depth front package back arguments marks
      have blank : ∀ c ∈ ' ' :: front, Text.isBlank c = true := by
        intro c member
        rcases List.mem_cons.mp member with rfl | own
        · decide
        · exact before c own
      exact .node _ _ _ blank packaged behind inner outer

theorem spellsMarks_arraySuffix (depth : Nat) :
    SpellsMarks depth (TypeNode.arraySuffix depth).toList := by
  induction depth with
  | zero => exact .zero
  | succ depth ih =>
      have whole : (TypeNode.arraySuffix (depth + 1)).toList =
          '[' :: ']' :: [] ++ (TypeNode.arraySuffix depth).toList := by
        simp [TypeNode.arraySuffix, List.replicate_succ]
      rw [whole]
      exact .succ _ (by simp) ih

theorem arraySuffix_succ (depth : Nat) :
    TypeNode.arraySuffix (depth + 1) = TypeNode.arraySuffix depth ++ "[]" := by
  apply String.toList_inj.mp
  simp [TypeNode.arraySuffix, List.replicate_succ']

theorem renderAll_map (rename : String → String) (nodes : List TypeNode) :
    TypeNode.renderAll rename nodes = nodes.map (TypeNode.render rename true) := by
  induction nodes with
  | nil => rfl
  | cons node rest ih => exact congrArg (node.render rename true :: ·) ih

theorem renderAll_length (rename : String → String) (nodes : List TypeNode) :
    (TypeNode.renderAll rename nodes).length = nodes.length := by
  rw [renderAll_map, List.length_map]

/-- Without renaming it does not matter whether a type stands inside brackets. -/
theorem render_id (nested : Bool) (node : TypeNode) : node.render id nested = node.toText := by
  obtain ⟨name, args, depth⟩ := node
  simp [TypeNode.toText, TypeNode.render]

/-- What a tree prints as, unless it holds lists or maps. -/
theorem toText_eq {name : String} {args : List TypeNode} {depth : Nat}
    (asIs : (TypeNode.mk name args depth).printsAsIs = true) :
    (TypeNode.mk name args depth).toText = name ++
      (if args.isEmpty then ""
        else "<" ++ ", ".intercalate (TypeNode.renderAll id args) ++ ">") ++
      TypeNode.arraySuffix depth := by
  simp only [TypeNode.printsAsIs, Bool.and_eq_true, bne_iff_ne, Bool.not_eq_true',
    Bool.and_eq_false_iff, beq_eq_false_iff_ne] at asIs
  obtain ⟨⟨other, apart⟩, -⟩ := asIs
  have size := renderAll_length id args
  have map : (name == "Map" && (TypeNode.renderAll id args).length == 2) = false := by
    rw [size]
    simpa [or_iff_not_imp_left] using apart
  have plain : (name == "List") = false := beq_false_of_ne other
  have none : (TypeNode.renderAll id args).isEmpty = args.isEmpty := by
    cases args <;> rfl
  rw [TypeNode.toText, TypeNode.render]
  simp only [plain, map, none, Bool.false_eq_true, if_false]
  split <;> simp [String.append_assoc]

theorem toList_joined (first : String) (rest : List String) :
    (", ".intercalate (first :: rest)).toList =
      first.toList ++ rest.flatMap fun text => ',' :: ' ' :: text.toList := by
  rw [String.toList_intercalate]
  induction rest generalizing first with
  | nil => simp
  | cons second rest ih =>
      have later := ih second
      rw [List.map_cons] at later
      rw [List.map_cons, List.map_cons, List.intercalate_cons_cons, List.flatMap_cons, later]
      simp

mutual

theorem spells_toText (node : TypeNode) (asIs : node.printsAsIs = true) :
    Spells node node.toText.toList := by
  match node, asIs with
  | ⟨name, args, depth⟩, asIs =>
      have all : TypeNode.allPrintAsIs args = true := by
        simp only [TypeNode.printsAsIs, Bool.and_eq_true] at asIs
        exact asIs.2
      have inner := spellsArguments_toText args all
      have whole : Spells ⟨name, args, depth⟩ _ :=
        .node [] [] [] (by simp) ⟨by simp, .inl rfl⟩ (by simp) inner (spellsMarks_arraySuffix depth)
      rw [toText_eq asIs]
      simpa using whole

theorem spellsArguments_toText (args : List TypeNode) (asIs : TypeNode.allPrintAsIs args = true) :
    SpellsArguments args (if args.isEmpty then ""
      else "<" ++ ", ".intercalate (TypeNode.renderAll id args) ++ ">").toList := by
  match args, asIs with
  | [], _ => exact .none
  | node :: rest, asIs =>
      simp only [TypeNode.allPrintAsIs, Bool.and_eq_true] at asIs
      have first := spells_toText node asIs.1
      have others := spellsRest_toText rest asIs.2
      have whole := SpellsArguments.some '<' '>' [] (by decide) first others (by simp)
      rw [if_neg (by simp), TypeNode.renderAll, render_id, String.toList_append,
        String.toList_append, toList_joined]
      simpa using whole

theorem spellsRest_toText (args : List TypeNode) (asIs : TypeNode.allPrintAsIs args = true) :
    SpellsRest args
      ((TypeNode.renderAll id args).flatMap fun text => ',' :: ' ' :: text.toList) := by
  match args, asIs with
  | [], _ => exact .nil
  | node :: rest, asIs =>
      simp only [TypeNode.allPrintAsIs, Bool.and_eq_true] at asIs
      have first := (spells_toText node asIs.1).space
      have others := spellsRest_toText rest asIs.2
      have whole := SpellsRest.cons first others
      simpa [TypeNode.renderAll, render_id] using whole

end

theorem parse_toText {node : TypeNode} (settled : node.Settled false)
    (asIs : node.printsAsIs = true) : TypeNode.parse node.toText = node := by
  have read := parse_of_spells (spells_toText node asIs) settled
  rwa [String.ofList_toList] at read

end TypeExpr

section Trees

open TypeExpr

/-- Every spelling of a settled tree is read as the tree, and so is what the tree prints as, unless
it holds lists or maps of two arguments, which print as arrays and records. -/
theorem spellings_read_back {node : TypeNode} (settled : node.Settled false) :
    (∀ text, Spells node text → TypeNode.parse (String.ofList text) = node) ∧
      (node.printsAsIs = true → TypeNode.parse node.toText = node) :=
  ⟨fun _ spelled => parse_of_spells spelled settled, parse_toText settled⟩

def pageOfItems : TypeNode := ⟨"Page", [⟨"User", [], 1⟩, ⟨"Item", [⟨"Id", [], 0⟩], 0⟩], 1⟩

theorem settled_pageOfItems : pageOfItems.Settled false := by
  have settled : ∀ name ∈ ["Page", "User", "Item", "Id"], ∀ nested, IsSettledName nested name := by
    intro name member
    have plain : ∀ name ∈ ["Page", "User", "Item", "Id"],
        name ≠ "" ∧ name.toList.all Char.isAlphanum = true := by decide
    exact .of_isAlphanum (plain name member).1 (List.all_eq_true.mp (plain name member).2)
  exact ⟨settled _ (by simp) _, ⟨settled _ (by simp) _, trivial⟩,
    ⟨settled _ (by simp) _, ⟨settled _ (by simp) _, trivial⟩, trivial⟩, trivial⟩

theorem spells_pageOfItems :
    Spells pageOfItems " com.example.Page «User [], it.Item<Id>» []".toList := by
  have blank : ∀ c ∈ [' '], Text.isBlank c = true := List.all_eq_true.mp rfl
  have vendor : IsPackage "it.".toList := ⟨List.all_eq_true.mp rfl, .inr rfl⟩
  have company : IsPackage "com.example.".toList := ⟨List.all_eq_true.mp rfl, .inr rfl⟩
  have id : Spells ⟨"Id", [], 0⟩ "Id".toList :=
    .node [] [] [] (by simp) ⟨by simp, .inl rfl⟩ (by simp) .none .zero
  have user : Spells ⟨"User", [], 1⟩ "User []".toList :=
    .node [] [] [' '] (by simp) ⟨by simp, .inl rfl⟩ blank .none (.succ [] (by simp) .zero)
  have item : Spells ⟨"Item", [⟨"Id", [], 0⟩], 0⟩ " it.Item<Id>".toList :=
    .node [' '] "it.".toList [] blank vendor (by simp)
      (.some '<' '>' [] (by decide) id .nil (by simp)) .zero
  exact .node [' '] "com.example.".toList [' '] blank company blank
    (.some '«' '»' [' '] (by decide) user (.cons item .nil) blank) (.succ [] (by simp) .zero)

theorem spellings_read_back_page : pageOfItems.Settled false ∧
    TypeNode.parse " com.example.Page «User [], it.Item<Id>» []" = pageOfItems ∧
    TypeNode.parse "Page<User[], Item<Id>>[]" = pageOfItems :=
  ⟨settled_pageOfItems,
    (spellings_read_back settled_pageOfItems).1 _ spells_pageOfItems,
    (spellings_read_back settled_pageOfItems).2 (by decide)⟩

end Trees

end TypedClient
