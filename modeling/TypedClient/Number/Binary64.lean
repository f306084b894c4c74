namespace TypedClient

/-- A finite double is `mantissa * 2 ^ exponent`, with the largest mantissa below `2 ^ 53` that an
exponent of at least -1074 allows. -/
inductive Binary64
  | finite (negative : Bool) (mantissa : Nat) (exponent : Int)
  | infinite (negative : Bool)
  | nan
  deriving DecidableEq, Repr, Inhabited

namespace Binary64

def power (base : Nat) (exponent : Int) : Nat := Nat.pow base exponent.toNat

def roundQuotient (numerator denominator : Nat) : Nat :=
  let quotient := numerator / denominator
  let twice := 2 * (numerator % denominator)
  if twice < denominator then quotient
  else if denominator < twice then quotient + 1
  else quotient + quotient % 2

/-- The quotient divided by `2 ^ exponent` and rounded. -/
def mantissaAt (numerator denominator : Nat) (exponent : Int) : Nat :=
  if 0 ≤ exponent then roundQuotient numerator (denominator * power 2 exponent)
  else roundQuotient (numerator * power 2 (-exponent)) denominator

def ofQuotient (negative : Bool) (numerator denominator : Nat) : Binary64 :=
  if numerator == 0 then finite negative 0 (-1074)
  else
    let guess : Int := (numerator.log2 : Int) - denominator.log2 - 53
    let fits (exponent : Int) : Bool := mantissaAt numerator denominator exponent < power 2 53
    let exponent := max (-1074) (if fits guess then guess else if fits (guess + 1) then guess + 1
      else guess + 2)
    if 971 < exponent then infinite negative
    else finite negative (mantissaAt numerator denominator exponent) exponent

/-- The double nearest to `digits * 10 ^ exponent`. -/
def ofDecimal (negative : Bool) (digits : Nat) (exponent : Int) : Binary64 :=
  let size : Int := (Nat.toDigits 10 digits).length + exponent
  if digits == 0 || size < -330 then finite negative 0 (-1074)
  else if 330 < size then infinite negative
  else if 0 ≤ exponent then ofQuotient negative (digits * power 10 exponent) 1
  else ofQuotient negative digits (power 10 (-exponent))

/-- The double nearest to `mantissa * 2 ^ exponent`. -/
def ofScaled (negative : Bool) (mantissa : Nat) (exponent : Int) : Binary64 :=
  if 0 ≤ exponent then ofQuotient negative (mantissa * power 2 exponent) 1
  else ofQuotient negative mantissa (power 2 (-exponent))

def ofNat (n : Nat) : Binary64 := ofQuotient false n 1

def isZero : Binary64 → Bool
  | finite _ mantissa _ => mantissa == 0
  | _ => false

def toInt? : Binary64 → Option Int
  | finite negative mantissa exponent =>
    let sign : Int := if negative then -1 else 1
    if 0 ≤ exponent then some (sign * (mantissa * power 2 exponent : Nat))
    else if mantissa % power 2 (-exponent) == 0 then
      some (sign * (mantissa / power 2 (-exponent) : Nat))
    else none
  | _ => none

def negate : Binary64 → Binary64
  | finite negative mantissa exponent => finite (!negative) mantissa exponent
  | infinite negative => infinite (!negative)
  | nan => nan

def isNegative : Binary64 → Bool
  | finite negative _ _ | infinite negative => negative
  | nan => false

def add : Binary64 → Binary64 → Binary64
  | finite s m e, finite t n f =>
    let low := min e f
    let signed (negative : Bool) (size : Nat) : Int := if negative then -size else size
    let sum := signed s (m * power 2 (e - low)) + signed t (n * power 2 (f - low))
    ofScaled (if sum == 0 then s && t else decide (sum < 0)) sum.natAbs low
  | infinite s, infinite t => if s == t then infinite s else nan
  | nan, _ | _, nan => nan
  | infinite s, finite _ _ _ | finite _ _ _, infinite s => infinite s

def mul (x y : Binary64) : Binary64 :=
  let negative := x.isNegative != y.isNegative
  match x, y with
  | finite _ m e, finite _ n f => ofScaled negative (m * n) (e + f)
  | nan, _ | _, nan => nan
  | infinite _, y => if y.isZero then nan else infinite negative
  | x, infinite _ => if x.isZero then nan else infinite negative

def same : Binary64 → Binary64 → Bool
  | x, y => x == y || (x.isZero && y.isZero)

end Binary64

end TypedClient
