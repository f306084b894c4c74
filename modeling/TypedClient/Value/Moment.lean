import TypedClient.Number.Decimal

namespace TypedClient

structure Clock where
  hour : Nat
  minute : Nat
  second : Nat
  /-- The digits behind the second. -/
  fraction : List Char := []
  /-- The sign, the hours and the minutes by which the clock is ahead. -/
  zone : Option (Char × Nat × Nat) := none
  deriving DecidableEq, Repr

structure Moment where
  year : Nat
  month : Nat
  day : Nat
  clock : Option Clock := none
  deriving DecidableEq, Repr

def padded (width n : Nat) : String :=
  let digits := Nat.toDigits 10 n
  String.ofList (List.replicate (width - digits.length) '0' ++ digits)

namespace Clock

def isTime (clock : Clock) : Bool := clock.hour < 24 && clock.minute < 60 && clock.second < 60

def hasNearZone (clock : Clock) : Bool :=
  clock.zone.all fun (_, hours, minutes) => hours * 60 + minutes < 24 * 60

def shownZone (sign : Char) (hours minutes : Nat) : String :=
  let hours := hours + minutes / 60
  let minutes := minutes % 60
  (if hours + minutes == 0 then "+" else sign.toString) ++ padded 2 hours ++ ":" ++
    padded 2 minutes

def millionths (clock : Clock) : List Char := (clock.fraction ++ List.replicate 6 '0').take 6

def shown (clock : Clock) : String :=
  let fraction := clock.millionths
  padded 2 clock.hour ++ ":" ++ padded 2 clock.minute ++ ":" ++ padded 2 clock.second ++
    (if fraction.all (· == '0') then "" else "." ++ String.ofList fraction) ++
    match clock.zone with
    | some (sign, hours, minutes) => shownZone sign hours minutes
    | none => ""

def numbers (clock : Clock) : List Nat :=
  let millionths := readDigits clock.millionths
  [clock.hour, clock.minute] ++
    if millionths != 0 then [clock.second, millionths]
    else if clock.second != 0 then [clock.second]
    else []

/-- A distance from universal time counts from the start of a day, one behind from a day before. -/
def quotedZone (sign : Char) (hours minutes : Nat) : String :=
  let seconds := (hours * 60 + minutes) * 60
  if seconds == 0 then "datetime.timezone.utc"
  else
    let days := if sign == '-' then "days=-1, " else ""
    let rest := if sign == '-' then 24 * 3600 - seconds else seconds
    "datetime.timezone(datetime.timedelta(" ++ days ++ "seconds=" ++ toString rest ++ "))"

def joined (numbers : List Nat) : String := ", ".intercalate (numbers.map toString)

def quoted (clock : Clock) : String := "datetime.time(" ++ joined clock.numbers ++ ")"

end Clock

namespace Moment

def isLeap (year : Nat) : Bool := year % 4 == 0 && (year % 100 != 0 || year % 400 == 0)

def daysOf (year month : Nat) : Nat :=
  if month == 2 then if isLeap year then 29 else 28
  else if month == 4 || month == 6 || month == 9 || month == 11 then 30 else 31

def isDay (moment : Moment) : Bool :=
  1 ≤ moment.year && 1 ≤ moment.month && moment.month ≤ 12 && 1 ≤ moment.day &&
    moment.day ≤ daysOf moment.year moment.month

def isReal (moment : Moment) : Bool :=
  moment.isDay && moment.clock.all fun clock => clock.isTime && clock.hasNearZone

def shown (moment : Moment) : String :=
  padded 4 moment.year ++ "-" ++ padded 2 moment.month ++ "-" ++ padded 2 moment.day ++
    match moment.clock with
    | some clock => " " ++ clock.shown
    | none => ""

def quoted (moment : Moment) : String :=
  let date := [moment.year, moment.month, moment.day]
  match moment.clock with
  | none => "datetime.date(" ++ Clock.joined date ++ ")"
  | some clock =>
    let zone := match clock.zone with
      | some (sign, hours, minutes) => ", tzinfo=" ++ Clock.quotedZone sign hours minutes
      | none => ""
    "datetime.datetime(" ++ Clock.joined (date ++ clock.numbers) ++ zone ++ ")"

end Moment

end TypedClient
