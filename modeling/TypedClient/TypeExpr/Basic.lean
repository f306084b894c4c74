import TypedClient.Text.Replace
import TypedClient.TypeExpr.Token

/-!
Type expressions `name<argument, …>[]` as trees: reading them from text and printing them. The
reader accepts every text; a bracket that is not closed closes at the end, and what follows a
complete expression is not read.
-/

namespace TypedClient

structure TypeNode where
  name : String
  args : List TypeNode := []
  arrayDepth : Nat := 0
  deriving Repr, Inhabited

namespace TypeExpr

def dropPackage (name : List Char) : List Char :=
  let isMark (c : Char) : Bool := c == '.' || c == '/'
  let line := name.takeWhile (· != '\n')
  if line.any isMark then Text.afterLast isMark line ++ name.drop line.length else name

/-- A name inside brackets keeps its ASCII letters and digits, unless it has none. -/
def cleanName (nested : Bool) (name : String) : String :=
  let short := dropPackage name.toList
  let kept := short.filter Char.isAlphanum
  String.ofList (if !nested || kept.isEmpty then short else kept)

def splitName (nested : Bool) : List Token → String × List Token
  | .name text :: rest => (cleanName nested text, rest)
  | tokens => ("", tokens)

def countArrays : List Token → Nat
  | .array :: rest => countArrays rest + 1
  | _ => 0

def dropArrays : List Token → List Token
  | .array :: rest => dropArrays rest
  | tokens => tokens

theorem length_dropArrays_le (tokens : List Token) :
    (dropArrays tokens).length ≤ tokens.length := by
  fun_induction dropArrays tokens with
  | case1 rest ih => exact Nat.le_succ_of_le ih
  | case2 => exact Nat.le_refl _

abbrev Rest (tokens : List Token) := { rest : List Token // rest.length ≤ tokens.length }

/-- The arguments up to the closing bracket or the end; commas only separate. -/
def readArgs (tokens : List Token) : List TypeNode × Rest tokens :=
  match tokens with
  | [] => ([], ⟨[], by simp⟩)
  | .closing :: rest => ([], ⟨rest, by simp⟩)
  | .comma :: rest =>
    let (args, ⟨rest, shorter⟩) := readArgs rest
    (args, ⟨rest, by simp only [List.length_cons]; omega⟩)
  | .name text :: .opening :: inner =>
    let (own, ⟨tail, shorter⟩) := readArgs inner
    have bound := length_dropArrays_le tail
    let (args, ⟨rest, less⟩) := readArgs (dropArrays tail)
    (⟨cleanName true text, own, countArrays tail⟩ :: args,
      ⟨rest, by simp only [List.length_cons]; omega⟩)
  | .name text :: tail =>
    have bound := length_dropArrays_le tail
    let (args, ⟨rest, less⟩) := readArgs (dropArrays tail)
    (⟨cleanName true text, [], countArrays tail⟩ :: args,
      ⟨rest, by simp only [List.length_cons]; omega⟩)
  | .opening :: inner =>
    let (own, ⟨tail, shorter⟩) := readArgs inner
    have bound := length_dropArrays_le tail
    let (args, ⟨rest, less⟩) := readArgs (dropArrays tail)
    (⟨"", own, countArrays tail⟩ :: args, ⟨rest, by simp only [List.length_cons]; omega⟩)
  | .array :: tail =>
    have bound := length_dropArrays_le tail
    let (args, ⟨rest, less⟩) := readArgs (dropArrays tail)
    (⟨"", [], countArrays tail + 1⟩ :: args, ⟨rest, by simp only [List.length_cons]; omega⟩)
termination_by tokens.length

def readNode (nested : Bool) (tokens : List Token) : TypeNode × List Token :=
  let (name, rest) := splitName nested tokens
  match rest with
  | .opening :: inner =>
    let (args, ⟨tail, _⟩) := readArgs inner
    (⟨name, args, countArrays tail⟩, dropArrays tail)
  | tail => (⟨name, [], countArrays tail⟩, dropArrays tail)

end TypeExpr

namespace TypeNode

def parse (text : String) : TypeNode := (TypeExpr.readNode false (TypeExpr.tokens text)).1

def arraySuffix (depth : Nat) : String := String.ofList (List.replicate depth ['[', ']']).flatten

mutual

/-- Lists print as arrays and maps of two arguments as records. A nested name without arguments
goes through `rename`. -/
def render (rename : String → String) (nested : Bool) : TypeNode → String
  | ⟨name, args, depth⟩ =>
    let parts := renderAll rename args
    let suffix := arraySuffix depth
    if name == "List" then parts.headD "any" ++ "[]" ++ suffix
    else if name == "Map" && parts.length == 2 then
      "Record<" ++ ", ".intercalate parts ++ ">" ++ suffix
    else if parts.isEmpty then (if nested then rename name else name) ++ suffix
    else name ++ "<" ++ ", ".intercalate parts ++ ">" ++ suffix
termination_by structural node => node

def renderAll (rename : String → String) : List TypeNode → List String
  | [] => []
  | node :: rest => render rename true node :: renderAll rename rest
termination_by structural nodes => nodes

end

def toText (node : TypeNode) : String := render id false node

end TypeNode

def isPlainType (text : String) : Bool :=
  text.toList.all fun c => !"'\"|&\x7b\x7d();:".toList.contains c

end TypedClient
