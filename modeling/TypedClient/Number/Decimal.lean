import TypedClient.Number.Binary64
import TypedClient.Number.Integer

namespace TypedClient

def dropSeparators? : Bool → List Char → Option (List Char)
  | _, [] => some []
  | behindDigit, '_' :: rest =>
    if behindDigit && rest.head?.any Char.isDigit then dropSeparators? false rest else none
  | _, c :: rest => (dropSeparators? c.isDigit rest).map (c :: ·)

def plainDigit (c : Char) : Char :=
  match Text.decimalValue? c with
  | some value => Nat.digitChar value
  | none => c

def readDigits (text : List Char) : Nat :=
  text.foldl (fun value c => value * 10 + (c.toNat - 48)) 0

/-- The exponent behind a mantissa: nothing, or a mark, a sign if any, and digits. -/
def readExponent? : List Char → Option Int
  | [] => some 0
  | mark :: rest =>
    let (negative, digits) := splitSign rest
    if (mark == 'e' || mark == 'E') && !digits.isEmpty && digits.all Char.isDigit then
      some (if negative then -(readDigits digits : Int) else readDigits digits)
    else none

def readUnsigned? (negative : Bool) (body : List Char) : Option Binary64 :=
  match String.ofList (body.map Char.toLower) with
  | "inf" | "infinity" => some (.infinite negative)
  | "nan" => some .nan
  | _ =>
    let whole := body.takeWhile Char.isDigit
    let (fraction, rest) : List Char × List Char :=
      match body.drop whole.length with
      | '.' :: rest => (rest.takeWhile Char.isDigit, rest.dropWhile Char.isDigit)
      | rest => ([], rest)
    if whole.isEmpty && fraction.isEmpty then none
    else (readExponent? rest).map fun exponent =>
      .ofDecimal negative (readDigits (whole ++ fraction)) (exponent - fraction.length)

def readDecimal? (text : List Char) : Option Binary64 := do
  let (negative, body) := splitSign (← dropSeparators? false ((Text.trim text).map plainDigit))
  readUnsigned? negative body

end TypedClient
