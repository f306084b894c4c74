import TypedClient.Json.Token

namespace TypedClient.Json

abbrev Rest (tokens : List Token) := { rest : List Token // rest.length < tokens.length }

mutual

def readValue (tokens : List Token) : Option (Value × Rest tokens) :=
  match tokens with
  | .atom value :: rest => some (.scalar value, ⟨rest, by simp⟩)
  | .openList :: .closeList :: rest =>
    some (.list [], ⟨rest, by simp only [List.length_cons]; omega⟩)
  | .openObject :: .closeObject :: rest =>
    some (.object [], ⟨rest, by simp only [List.length_cons]; omega⟩)
  | .openList :: rest =>
    match readItems rest with
    | some (items, ⟨rest, shorter⟩) =>
      some (.list items, ⟨rest, by simp only [List.length_cons] at *; omega⟩)
    | none => none
  | .openObject :: rest =>
    match readEntries rest with
    | some (entries, ⟨rest, shorter⟩) =>
      some (.object (Entries.insertAll [] entries),
        ⟨rest, by simp only [List.length_cons] at *; omega⟩)
    | none => none
  | _ => none
termination_by (tokens.length, 0)

def readItems (tokens : List Token) : Option (List Value × Rest tokens) :=
  match readValue tokens with
  | some (item, ⟨.closeList :: rest, shorter⟩) =>
    some ([item], ⟨rest, by simp only [List.length_cons] at shorter; omega⟩)
  | some (item, ⟨.comma :: rest, shorter⟩) =>
    match readItems rest with
    | some (items, ⟨rest, less⟩) =>
      some (item :: items, ⟨rest, by simp only [List.length_cons] at shorter; omega⟩)
    | none => none
  | _ => none
termination_by (tokens.length, 1)
decreasing_by
  · exact Prod.Lex.right _ (Nat.lt_add_one _)
  · simp only [Prod.lex_def, List.length_cons] at shorter ⊢
    omega

def readEntries (tokens : List Token) : Option (Entries × Rest tokens) :=
  match tokens with
  | .atom (.text key) :: .colon :: tail =>
    match readValue tail with
    | some (value, ⟨.closeObject :: rest, shorter⟩) =>
      some ([(.text key, value)], ⟨rest, by simp only [List.length_cons] at *; omega⟩)
    | some (value, ⟨.comma :: rest, shorter⟩) =>
      match readEntries rest with
      | some (entries, ⟨rest, less⟩) =>
        some ((.text key, value) :: entries, ⟨rest, by simp only [List.length_cons] at *; omega⟩)
      | none => none
    | _ => none
  | _ => none
termination_by (tokens.length, 1)
decreasing_by
  · simp only [Prod.lex_def, List.length_cons]
    omega
  · simp only [Prod.lex_def, List.length_cons] at shorter ⊢
    omega

end

def read (text : String) : Option Value := do
  match readValue (← tokens text.toList) with
  | some (value, ⟨[], _⟩) => some value
  | _ => none

end TypedClient.Json
