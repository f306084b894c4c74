import TypedClient.Number.Decimal
import TypedClient.Value.Moment
import TypedClient.Yaml.Cursor

namespace TypedClient.Yaml

namespace Moment

/-- A number of as many digits as there are, `least` to `most`, and what follows. -/
def number? (least most : Nat) (text : List Char) : Option (Nat × List Char) :=
  let digits := (text.take most).takeWhile Char.isDigit
  if digits.length < least then none
  else some (readDigits digits, text.drop digits.length)

def mark? (mark : Char) : List Char → Option (List Char)
  | c :: rest => if c == mark then some rest else none
  | [] => none

def zone? : List Char → Option (Option (Char × Nat × Nat))
  | [] => some none
  | text =>
    match text.dropWhile isSpace with
    | ['Z'] => some (some ('+', 0, 0))
    | sign :: rest => do
      if sign != '+' && sign != '-' then none
      let (hours, rest) ← number? 1 2 rest
      if rest.isEmpty then return some (sign, hours, 0)
      let (minutes, rest) ← number? 2 2 (← mark? ':' rest)
      if rest.isEmpty then return some (sign, hours, minutes) else none
    | [] => none

def clock? (text : List Char) : Option Clock := do
  let (hour, rest) ← number? 1 2 text
  let (minute, rest) ← number? 2 2 (← mark? ':' rest)
  let (second, rest) ← number? 2 2 (← mark? ':' rest)
  let (fraction, rest) : List Char × List Char :=
    match rest with
    | '.' :: rest => (rest.takeWhile Char.isDigit, rest.dropWhile Char.isDigit)
    | rest => ([], rest)
  return ⟨hour, minute, second, fraction, ← zone? rest⟩

def read? (text : List Char) : Option Moment := do
  let (year, rest) ← number? 4 4 text
  let (month, rest) ← number? 1 2 (← mark? '-' rest)
  let (day, rest) ← number? 1 2 (← mark? '-' rest)
  match rest with
  | [] => return ⟨year, month, day, none⟩
  | c :: rest =>
    let behind := rest.dropWhile isSpace
    if c == 'T' || c == 't' then return ⟨year, month, day, ← clock? rest⟩
    else if isSpace c then return ⟨year, month, day, ← clock? behind⟩
    else none

end Moment

end TypedClient.Yaml
