import TypedClient.Number.Binary64

namespace TypedClient.Binary64

structure Rounding where
  low : Nat
  value : Nat
  high : Nat
  denominator : Nat
  closed : Bool

def rounding (mantissa : Nat) (exponent : Int) : Rounding :=
  let narrow := mantissa == power 2 52 && -1074 < exponent
  let scale := power 2 exponent
  { low := (4 * mantissa - (if narrow then 1 else 2)) * scale
    value := 4 * mantissa * scale
    high := (4 * mantissa + 2) * scale
    denominator := 4 * power 2 (-exponent)
    closed := mantissa % 2 == 0 }

/-- Whether `digits * 10 ^ place` rounds to the value. -/
def Rounding.holds (r : Rounding) (digits : Nat) (place : Int) : Bool :=
  let point := digits * power 10 place * r.denominator
  let unit := power 10 (-place)
  if r.closed then r.low * unit ≤ point && point ≤ r.high * unit
  else r.low * unit < point && point < r.high * unit

/-- The neighbours of the value on the grid of `10 ^ place`, the nearer one first, of two equally
near ones the even one. -/
def Rounding.neighbours (r : Rounding) (place : Int) : List Nat :=
  let numerator := r.value * power 10 (-place)
  let denominator := r.denominator * power 10 place
  let below := numerator / denominator
  let twice := 2 * (numerator % denominator)
  if twice < denominator || (twice == denominator && below % 2 == 0) then [below, below + 1]
  else [below + 1, below]

def Rounding.magnitude (r : Rounding) : Int :=
  let digitsOf (n : Nat) : Int := (Nat.toDigits 10 n).length
  let guess := digitsOf r.value - digitsOf r.denominator
  if r.value * power 10 (-guess) < r.denominator * power 10 guess then guess else guess + 1

/-- The first of the grids with at most `left + 1` more digits that holds the value. -/
def Rounding.search (r : Rounding) (magnitude : Int) (count : Nat) : Nat → Nat × Int
  | 0 => ((r.neighbours (magnitude - count)).headD 0, magnitude - count)
  | left + 1 =>
    let place := magnitude - count
    match (r.neighbours place).find? (r.holds · place) with
    | some digits => (digits, place)
    | none => r.search magnitude (count + 1) left

def shortest (mantissa : Nat) (exponent : Int) : Nat × Int :=
  let r := rounding mantissa exponent
  r.search r.magnitude 1 16

/-- Positional from `10 ^ -4` up to `10 ^ 16`, and with an exponent of two digits or more beyond. -/
def layout (digits : List Char) (point : Int) : String :=
  if -4 < point ∧ point ≤ 16 then
    if point ≤ 0 then "0." ++ String.ofList (List.replicate (-point).toNat '0' ++ digits)
    else
      let whole := digits.take point.toNat ++ List.replicate (point.toNat - digits.length) '0'
      let fraction := digits.drop point.toNat
      String.ofList (whole ++ '.' :: if fraction.isEmpty then ['0'] else fraction)
  else
    let exponent := point - 1
    let exponentText := toString exponent.natAbs
    let fraction := digits.drop 1
    String.ofList (digits.take 1 ++ if fraction.isEmpty then [] else '.' :: fraction) ++
      (if exponent < 0 then "e-" else "e+") ++
      (if exponentText.length < 2 then "0" else "") ++ exponentText

def toText (infinity notANumber : String) : Binary64 → String
  | .nan => notANumber
  | .infinite negative => if negative then "-" ++ infinity else infinity
  | .finite negative mantissa exponent =>
    let sign := if negative then "-" else ""
    if mantissa == 0 then sign ++ "0.0"
    else
      let (digits, place) := shortest mantissa exponent
      let all := Nat.toDigits 10 digits
      let kept := (all.reverse.dropWhile (· == '0')).reverse
      sign ++ layout kept (all.length + place)

end TypedClient.Binary64
