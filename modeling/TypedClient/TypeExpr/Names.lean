import TypedClient.Naming.Identifier

-- the names of the cases serve the proofs that the recursion ends
set_option linter.unusedVariables false

namespace TypedClient

namespace TypeExpr

/-- What follows the quote that closes a literal; none if it is not closed. -/
def afterQuote : List Char → Option (List Char)
  | [] => none
  | '\'' :: rest => some rest
  | ['\\'] => none
  | '\\' :: c :: rest => if c == '\n' then none else afterQuote rest
  | _ :: rest => afterQuote rest

theorem length_afterQuote {text rest : List Char} (closed : afterQuote text = some rest) :
    rest.length < text.length := by
  fun_induction afterQuote text <;> simp_all <;> omega

def dropLiterals (text : List Char) : List Char :=
  match text with
  | [] => []
  | c :: tail =>
    if c == '\'' then
      match closed : afterQuote tail with
      | some rest => dropLiterals rest
      | none => c :: dropLiterals tail
    else c :: dropLiterals tail
termination_by text.length
decreasing_by
  · have := length_afterQuote closed
    simp only [List.length_cons]
    omega
  all_goals exact Nat.lt_add_one _

def isNameStart (c : Char) : Bool := Text.isWord c && !Text.isDecimal c

def namesFrom : List Char → List Char → List String
  | [], [] => []
  | gathered, [] => [String.ofList gathered.reverse]
  | [], c :: rest => if isNameStart c then namesFrom [c] rest else namesFrom [] rest
  | gathered, c :: rest =>
    if Naming.isFieldChar c then namesFrom (c :: gathered) rest
    else String.ofList gathered.reverse :: namesFrom [] rest

end TypeExpr

def modelNames (type : String) : List String :=
  ((TypeExpr.namesFrom [] (TypeExpr.dropLiterals type.toList)).filter fun name =>
    !isBaseType name && !builtinTypes.contains name).eraseDups

end TypedClient
