import TypedClient.Error

namespace TypedClient

structure Checked (α : Type) where
  result : Except (List Violation) α

namespace Checked

def map {α β : Type} (f : α → β) (x : Checked α) : Checked β := ⟨x.result.map f⟩

def apply {α β : Type} (f : Checked (α → β)) (x : Checked α) : Checked β :=
  match f.result, x.result with
  | .ok f, .ok x => ⟨.ok (f x)⟩
  | .ok _, .error later => ⟨.error later⟩
  | .error early, .ok _ => ⟨.error early⟩
  | .error early, .error later => ⟨.error (early ++ later)⟩

instance : Applicative Checked where
  pure x := ⟨.ok x⟩
  seq f x := apply f (x ())

def fail {α : Type} (kind : ViolationKind) : Checked α := ⟨.error [⟨[], kind⟩]⟩

def under {α : Type} (key : Scalar) (x : Checked α) : Checked α :=
  match x.result with
  | .ok _ => x
  | .error violations => ⟨.error (violations.map fun v => { v with place := key :: v.place })⟩

def toExcept {α : Type} (x : Checked α) : Except Error α :=
  match x.result with
  | .ok value => .ok value
  | .error violations => .error (.invalid violations)

def eachFrom {α : Type} (check : Value → Checked α) : Nat → List Value → Checked (List α)
  | _, [] => pure []
  | index, item :: rest =>
    List.cons <$> under (.int index) (check item) <*> eachFrom check (index + 1) rest

end Checked

abbrev Check (α : Type) := Value → Checked α

namespace Check

def text : Check String
  | .text s => pure s
  | _ => .fail .notText

def nullable {α : Type} (check : Check α) : Check (Option α)
  | .null => pure none
  | value => some <$> check value

def list {α : Type} (check : Check α) : Check (List α)
  | .list items => Checked.eachFrom check 0 items
  | _ => .fail .notList

def entries : Check Entries
  | .object entries =>
    let strange := entries.filterMap fun entry =>
      match entry.1 with
      | .text _ => none
      | key => some ⟨[key, .text "[key]"], .notText⟩
    if strange.isEmpty then pure entries else ⟨.error strange⟩
  | _ => .fail .notObject

def trueWords : List String := ["true", "t", "yes", "y", "on", "1"]

def falseWords : List String := ["false", "f", "no", "n", "off", "0"]

def fitsWord (n : Int) : Bool := -9223372036854775808 ≤ n && n ≤ 9223372036854775807

def bool : Check Bool
  | .bool b => pure b
  | .text s =>
    let word := String.ofList (s.toList.map Char.toLower)
    if trueWords.contains word then pure true
    else if falseWords.contains word then pure false
    else .fail .unreadableBool
  | .scalar s =>
    match s.toInt? with
    | some 0 => pure false
    | some 1 => pure true
    | some n => .fail (if fitsWord n then .unreadableBool else .notBool)
    | none => .fail .notBool
  | _ => .fail .notBool

def any : Check Value := pure

def fieldOf? (entries : Entries) (name other : String) : Option Value :=
  (Entries.find? entries name).or (Entries.find? entries other)

def required {α : Type} (entries : Entries) (name : String) (check : Check α) : Checked α :=
  match Entries.find? entries name with
  | some value => .under (.text name) (check value)
  | none => .under (.text name) (.fail .missing)

def optional {α : Type} (entries : Entries) (name other : String) (default : α) (check : Check α) :
    Checked α :=
  match fieldOf? entries name other with
  | some value => .under (.text name) (check value)
  | none => pure default

end Check

end TypedClient
