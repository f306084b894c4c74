import TypedClient.Json.Break
import TypedClient.Text.Blank
import TypedClient.Text.Lines
import TypedClient.Text.Replace
import TypedClient.Value.Display

namespace TypedClient

/-- The lines of a text that are not blank, with the mark that closes a comment defused. -/
def commentLines (text : String) : List (List Char) :=
  let safe := Text.replaceAll "*/".toList "*\\/".toList text.toList
  ((Text.lines safe).filter fun line => !line.all Text.isBlank).map Text.trimEnd

/-- A comment of the given texts; nothing if they hold nothing. -/
def docComment (indent : String) (texts : List String) : String :=
  let lines := texts.flatMap commentLines
  if lines.isEmpty then ""
  else
    indent ++ "/**\n" ++
      String.join (lines.map fun line => indent ++ " * " ++ String.ofList line ++ "\n") ++
      indent ++ " */\n"

def givenText (value : Value) : List String := if value.isTrue then [value.display] else []

def schemaTags : List String :=
  ["minLength", "maxLength", "minimum", "maximum", "pattern", "default"]

def tagText : Value → Except Error String
  | .text s => .ok s
  | value => Json.textOf value

def fieldTexts (description schema : Value) : Except Error (List String) :=
  match schema with
  | .object entries => do
    let deprecated := (Entries.field entries "deprecated").isTrue
    let tags := schemaTags.filterMap fun tag =>
      (Entries.find? entries tag).map fun value => (tag, value)
    let demands ← tags.mapM fun tag => return "@" ++ tag.1 ++ " " ++ (← tagText tag.2)
    return givenText description ++ (if deprecated then ["@deprecated"] else []) ++ demands
  | _ => .ok (givenText description)

end TypedClient
