import TypedClient.Proofs.Meaning.Tree
import TypedClient.Text.Lines

/-!
Reading a text as a tree. Array marks bind tighter than intersections, and intersections tighter
than unions; parentheses and the brackets of arguments group.
-/

namespace TypedClient

namespace Reading

inductive Token
  | word (text : String)
  | literal (value : String)
  | sign (connective : Connective)
  | opening
  | closing
  | less
  | greater
  | comma
  | marks
  | broken
  deriving DecidableEq, Repr

def sign? : Char → Option Token
  | '|' => some (.sign .union)
  | '&' => some (.sign .intersection)
  | '(' => some .opening
  | ')' => some .closing
  | '<' => some .less
  | '>' => some .greater
  | ',' => some .comma
  | '[' => some .broken
  | ']' => some .broken
  | _ => none

/-- Where in a text the scanner is, with what it has gathered in reverse. -/
inductive Mode
  | outside (gathered : List Char)
  | quoted (gathered : List Char)
  | escaped (gathered : List Char)

def word (gathered : List Char) : List Token :=
  if gathered.isEmpty then [] else [.word (String.ofList gathered.reverse)]

def isLineEnd (c : Char) : Bool := c == '\n' || c == '\r'

/-- The tokens of a text. In a literal a backslash stands in front of a character that is meant as
it is; other escapes are not read. -/
def scan : Mode → List Char → List Token
  | .outside gathered, [] => word gathered
  | .outside gathered, '[' :: ']' :: rest => word gathered ++ .marks :: scan (.outside []) rest
  | .outside gathered, '\'' :: rest => word gathered ++ scan (.quoted []) rest
  | .outside gathered, c :: rest =>
    match sign? c with
    | some token => word gathered ++ token :: scan (.outside []) rest
    | none =>
      if Text.isBlank c then word gathered ++ scan (.outside []) rest
      else scan (.outside (c :: gathered)) rest
  | .quoted gathered, '\'' :: rest =>
    .literal (String.ofList gathered.reverse) :: scan (.outside []) rest
  | .quoted gathered, '\\' :: rest => scan (.escaped gathered) rest
  | .quoted gathered, c :: rest =>
    if isLineEnd c then [.broken] else scan (.quoted (c :: gathered)) rest
  | .escaped gathered, c :: rest =>
    if c.isAlphanum || Text.isLineBreak c then [.broken] else scan (.quoted (c :: gathered)) rest
  | _, [] => [.broken]

@[ext]
structure Sum where
  front : List (List TypeTree) := []
  last : List TypeTree := []

namespace Sum

def push (sum : Sum) (tree : TypeTree) : Sum := ⟨sum.front, sum.last ++ [tree]⟩

def branch (sum : Sum) : Sum := ⟨sum.front ++ [sum.last], []⟩

/-- What follows a sign: another factor or another operand. -/
def next (sum : Sum) : Connective → Sum
  | .union => sum.branch
  | .intersection => sum

def products (sum : Sum) : List (List TypeTree) := sum.front ++ [sum.last]

end Sum

/-- A connective where there are several parts. -/
def join (connective : Connective) : List TypeTree → TypeTree
  | [tree] => tree
  | trees => .joined connective trees

def Sum.tree (sum : Sum) : TypeTree := join .union (sum.products.map (join .intersection))

inductive Frame
  | group (outer : Sum)
  | generic (outer : Sum) (name : String) (args : List TypeTree)

structure State where
  frames : List Frame := []
  sum : Sum := {}
  operand : Option TypeTree := none

def step : State → Token → Option State
  | ⟨frames, sum, none⟩, .word text => some ⟨frames, sum, some (.named text [])⟩
  | ⟨frames, sum, none⟩, .literal value => some ⟨frames, sum, some (.literal value)⟩
  | ⟨frames, sum, none⟩, .opening => some ⟨.group sum :: frames, {}, none⟩
  | ⟨frames, sum, some tree⟩, .marks => some ⟨frames, sum, some (.array tree)⟩
  | ⟨frames, sum, some tree⟩, .sign connective =>
    some ⟨frames, (sum.push tree).next connective, none⟩
  | ⟨frames, sum, some (.named name [])⟩, .less => some ⟨.generic sum name [] :: frames, {}, none⟩
  | ⟨.group outer :: frames, sum, some tree⟩, .closing =>
    some ⟨frames, outer, some (sum.push tree).tree⟩
  | ⟨.generic outer name args :: frames, sum, some tree⟩, .comma =>
    some ⟨.generic outer name (args ++ [(sum.push tree).tree]) :: frames, {}, none⟩
  | ⟨.generic outer name args :: frames, sum, some tree⟩, .greater =>
    some ⟨frames, outer, some (.named name (args ++ [(sum.push tree).tree]))⟩
  | _, _ => none

def State.tree? : State → Option TypeTree
  | ⟨[], sum, some tree⟩ => some (sum.push tree).tree
  | _ => none

def isWordChar (c : Char) : Bool := (sign? c).isNone && c != '\'' && !Text.isBlank c

def isWord (name : String) : Bool := !name.isEmpty && name.toList.all isWordChar

def isLiteralChar (c : Char) : Bool := c != '\\' && !isLineEnd c

end Reading

/-- The tree of a text, if it is a type expression. -/
def TypeTree.read (text : String) : Option TypeTree :=
  ((Reading.scan (.outside []) text.toList).foldlM Reading.step {}).bind Reading.State.tree?

mutual

/-- Whether all names of a tree are words, and all its literals of characters that a literal holds;
a connective has parts. -/
def TypeTree.isLegible : TypeTree → Bool
  | named name args => Reading.isWord name && allLegible args
  | literal value => value.toList.all Reading.isLiteralChar
  | array item => item.isLegible
  | joined _ parts => !parts.isEmpty && allLegible parts

def TypeTree.allLegible : List TypeTree → Bool
  | [] => true
  | tree :: rest => tree.isLegible && allLegible rest

end

theorem TypeTree.allLegible_eq (trees : List TypeTree) :
    allLegible trees = trees.all isLegible := by
  induction trees with
  | nil => rfl
  | cons tree rest ih => exact congrArg (tree.isLegible && ·) ih

end TypedClient
