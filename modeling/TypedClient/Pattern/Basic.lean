import TypedClient.Pattern.Char

/-!
Patterns of text. A pattern goes from a place in the text to others in an order of preference, and
is followed by what comes behind it; where that fails, the next place is tried.
-/

namespace TypedClient

namespace Pattern

inductive Edge
  | start
  | lineStart
  | lastLineEnd
  | lineEnd
  | finish
  | wordEdge (plain negated : Bool)
  deriving DecidableEq, Repr

/-- Whether a place has an edge; in an empty text there are no words, nor gaps between them. -/
def Edge.holds (text : Array Char) (place : Nat) : Edge → Bool
  | start => place == 0
  | lineStart => place == 0 || text[place - 1]? == some '\n'
  | lastLineEnd =>
    place == text.size || (place + 1 == text.size && text[place]? == some '\n')
  | lineEnd => place == text.size || text[place]? == some '\n'
  | finish => place == text.size
  | wordEdge plain negated =>
    let before := 0 < place && (text[place - 1]?).any (CharClass.word.holds plain)
    let after := (text[place]?).any (CharClass.word.holds plain)
    !text.isEmpty && (before != after) != negated

inductive Mood
  /-- As many as there are. -/
  | greedy
  /-- As few as suffice. -/
  | reluctant
  /-- As many as there are, and no fewer. -/
  | possessive
  deriving DecidableEq, Repr

end Pattern

open Pattern in
inductive Pattern
  | empty
  | one (test : CharTest)
  | edge (place : Edge)
  | sequence (first second : Pattern)
  /-- The first, or else the second. -/
  | choice (first second : Pattern)
  | repeated (body : Pattern) (least : Nat) (most : Option Nat) (mood : Mood)
  /-- Holds what the body matches under a number. -/
  | capture (number : Nat) (body : Pattern)
  /-- The text that is held under a number, once more. -/
  | again (number : Nat) (casing : Casing)
  /-- The first way through the body, and no other. -/
  | firstWay (body : Pattern)
  /-- Whether the body matches from here on. -/
  | ahead (negated : Bool) (body : Pattern)
  /-- Whether the body matches the characters up to here, of which it takes `width`. -/
  | behind (width : Nat) (negated : Bool) (body : Pattern)
  /-- The one or the other, depending on whether something is held under a number. -/
  | given (number : Nat) (yes no : Pattern)
  deriving DecidableEq, Repr

namespace Pattern

structure Spot where
  place : Nat
  held : List (Nat × Nat × Nat) := []
  deriving DecidableEq, Repr

def Spot.moved (spot : Spot) (place : Nat) : Spot := { spot with place }

abbrev Next := Spot → Option Spot

abbrev Step := Next → Next

/-- The first of two, of which the second is looked for only if there is no first one. -/
def orElse (first : Option Spot) (second : Unit → Option Spot) : Option Spot :=
  match first with
  | some spot => some spot
  | none => second ()

def rounds (step : Step) : Nat → Step
  | 0 => id
  | count + 1 => fun next => step (rounds step count next)

/-- At most so many further rounds; a round that begins where the last one did is none. -/
def moreRounds (step : Step) (reluctant : Bool) (next : Next) : Nat → Option Nat → Next
  | 0, _, spot => next spot
  | count + 1, last, spot =>
    if last == some spot.place then next spot
    else
      let onwards (_ : Unit) := step (moreRounds step reluctant next count (some spot.place)) spot
      if reluctant then orElse (next spot) onwards
      else orElse (onwards ()) fun _ => next spot

def firstRounds (step : Step) : Nat → Spot → Spot
  | 0, spot => spot
  | count + 1, spot =>
    match step some spot with
    | some reached =>
      if reached.place == spot.place then reached else firstRounds step count reached
    | none => spot

def leastRounds (step : Step) : Nat → Next
  | 0, spot => some spot
  | count + 1, spot => (step some spot).bind (leastRounds step count)

/-- Rounds between bounds. More of them than there are places lead nowhere else. -/
def repeatRounds (step : Step) (places least : Nat) (most : Option Nat) : Mood → Step
  | .possessive => fun next spot =>
    (leastRounds step (min least places) spot).bind fun reached =>
      next (firstRounds step (min (most.getD (least + places) - least) places) reached)
  | mood => fun next =>
    let further := min (most.getD (least + places) - least) places
    rounds step (min least places) (moreRounds step (mood == .reluctant) next further none)

def afterSame (text : Array Char) (casing : Casing) (first last place : Nat) : Option Nat :=
  let form (i : Nat) : Option Char := (text[i]?).map casing.form
  let isSame := (List.range (last - first)).all fun i =>
    (form (place + i)).isSome && form (place + i) == form (first + i)
  if isSame then some (place + (last - first)) else none

def follow (text : Array Char) : Pattern → Step
  | empty, next, spot => next spot
  | one test, next, spot =>
    if (text[spot.place]?).any test.holds then next (spot.moved (spot.place + 1)) else none
  | edge place, next, spot => if place.holds text spot.place then next spot else none
  | sequence first second, next, spot => follow text first (follow text second next) spot
  | choice first second, next, spot =>
    orElse (follow text first next spot) fun _ => follow text second next spot
  | repeated body least most mood, next, spot =>
    repeatRounds (follow text body) (text.size + 1) least most mood next spot
  | capture number body, next, spot =>
    follow text body (fun reached =>
      next { reached with held := (number, spot.place, reached.place) :: reached.held }) spot
  | again number casing, next, spot =>
    ((spot.held.lookup number).bind fun (first, last) =>
      afterSame text casing first last spot.place).bind fun place => next (spot.moved place)
  | firstWay body, next, spot => (follow text body some spot).bind next
  | ahead negated body, next, spot =>
    match follow text body some spot with
    | some reached => if negated then none else next (reached.moved spot.place)
    | none => if negated then next spot else none
  | behind width negated body, next, spot =>
    let reached :=
      if width ≤ spot.place then follow text body some (spot.moved (spot.place - width)) else none
    match reached with
    | some reached => if negated then none else next (reached.moved spot.place)
    | none => if negated then next spot else none
  | given number yes no, next, spot =>
    if (spot.held.lookup number).isSome then follow text yes next spot else follow text no next spot
termination_by structural pattern => pattern

def occursIn (pattern : Pattern) (text : String) : Bool :=
  let text := text.toList.toArray
  (List.range (text.size + 1)).any fun place => (pattern.follow text some { place }).isSome

end Pattern

end TypedClient
