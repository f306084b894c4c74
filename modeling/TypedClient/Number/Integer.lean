import TypedClient.Text.Blank
import TypedClient.Text.Word

namespace TypedClient

def digitLimit : Nat := 4300

def digitValue? (c : Char) : Option Nat :=
  if c.isLower then some (c.toNat - 87)
  else if c.isUpper then some (c.toNat - 55)
  else Text.decimalValue? c

def digitValues? (base : Nat) : List Char → Option (List Nat)
  | [] => some []
  | '_' :: c :: rest => do
    return (← (digitValue? c).filter (· < base)) :: (← digitValues? base rest)
  | c :: rest => do return (← (digitValue? c).filter (· < base)) :: (← digitValues? base rest)

def splitSign : List Char → Bool × List Char
  | '-' :: rest => (true, rest)
  | '+' :: rest => (false, rest)
  | rest => (false, rest)

def namedBase? (letter : Char) : Option Nat :=
  match letter.toLower with
  | 'x' => some 16
  | 'o' => some 8
  | 'b' => some 2
  | _ => none

def splitBase (base : Nat) (body : List Char) : Nat × List Char :=
  match body with
  | '0' :: letter :: rest =>
    match (namedBase? letter).filter fun named => base == 0 || base == named with
    | some named => (named, if rest.head? == some '_' then rest.drop 1 else rest)
    | none => (base, body)
  | _ => (base, body)

/-- A whole number, maybe behind a sign and between blanks. In base zero it may name its base, and
does not begin with a zero otherwise. -/
def readInteger? (base : Nat) (text : List Char) : Option Int := do
  let (negative, body) := splitSign (Text.trim text)
  let (named, digits) := splitBase base body
  let chosen := if named == 0 then 10 else named
  if digits.isEmpty || digits.head? == some '_' then none
  let values ← digitValues? chosen digits
  if chosen == 10 && digitLimit < values.length then none
  if named == 0 && values.head? == some 0 && values.any (· != 0) then none
  let size : Nat := values.foldl (fun value digit => value * chosen + digit) 0
  return if negative then -(size : Int) else size

end TypedClient
