import TypedClient.Text.Blank
import TypedClient.Text.Variant
import TypedClient.Text.Word

namespace TypedClient.Pattern

inductive CharClass
  | digit
  | blank
  | word
  deriving DecidableEq, Repr

def CharClass.holds (plain : Bool) (kind : CharClass) (c : Char) : Bool :=
  let isPlain := c.toNat < 128
  match kind with
  | digit => Text.isDecimal c && (!plain || isPlain)
  | blank => if plain then c == ' ' || (9 ≤ c.toNat && c.toNat ≤ 13) else Text.isBlank c
  | word => Text.isWord c && (!plain || isPlain)

inductive CharRange
  /-- The characters between two codes. -/
  | span (first last : Nat)
  | of (kind : CharClass) (plain negated : Bool)
  deriving DecidableEq, Repr

def CharRange.holds : CharRange → Char → Bool
  | span first last, c => first ≤ c.toNat && c.toNat ≤ last
  | of kind plain negated, c => kind.holds plain c != negated

/-- Which difference in case does not count. -/
inductive Casing
  | exact
  /-- Only that between letters of ASCII. -/
  | plain
  | full
  deriving DecidableEq, Repr

namespace Casing

def form (casing : Casing) (c : Char) : Char :=
  match casing with
  | exact => c
  | plain => c.toLower
  | full => Text.plainLower c

def variants (casing : Casing) (form : Char) : List Char :=
  match casing with
  | exact => [form]
  | plain => if form.isLower then [form, form.toUpper] else [form]
  | full => Text.variants form

end Casing

inductive CharTest
  | any
  | anyInLine
  | among (ranges : List CharRange) (negated : Bool) (casing : Casing)
  deriving DecidableEq, Repr

namespace CharTest

def holds : CharTest → Char → Bool
  | any, _ => true
  | anyInLine, c => c != '\n'
  | among ranges negated casing, c =>
    let form := casing.form c
    let variants := casing.variants form
    let isIn := ranges.any fun range => match range with
      | .span _ _ => variants.any range.holds
      | .of _ _ _ => range.holds form
    isIn != negated

def just (code : Nat) (casing : Casing) : CharTest := among [.span code code] false casing

end CharTest

end TypedClient.Pattern
