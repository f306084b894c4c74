import TypedClient.Text.Case

/-!
Characters that differ in case only. A character has one plain lower-case form; several lower-case
characters may share their upper-case form, and then they are forms of each other.
-/

namespace TypedClient.Text

def plainLower (c : Char) : Char := (lowerForm c).headD c

def sources (runs : List (Nat × Nat × Nat × Int)) (code : Nat) : List Nat :=
  runs.filterMap fun (first, last, step, offset) =>
    let source := ((code : Int) - offset).toNat
    if inRun source first last step then some source else none

def lowerSources (c : Char) : List Char :=
  let capital := if c.isLower then [c.toUpper] else []
  let expanded := lowerExpansions.filterMap fun expansion =>
    if expansion.2.head? == some c.toNat then some (Char.ofNat expansion.1) else none
  (if plainLower c == c then [c] else []) ++ capital ++
    (sources lowerRuns c.toNat).map Char.ofNat ++ expanded

def twins (c : Char) : List Char :=
  let form := upperForm c
  let others : List Char := match form with
    | [single] =>
      single :: (if single.isUpper then [single.toLower] else []) ++
        (sources upperRuns single.toNat).map Char.ofNat
    | _ => upperExpansions.map fun expansion => Char.ofNat expansion.1
  others.filter fun other => other != c && upperForm other == form && plainLower other == other

def variants (lower : Char) : List Char := (lower :: twins lower).flatMap lowerSources

end TypedClient.Text
