import TypedClient.Proofs.Api.Shown
import TypedClient.Proofs.Closure.Imports
import TypedClient.Proofs.Ignore.Document
import TypedClient.Proofs.Ignore.Spine
import TypedClient.Proofs.Schema.Forms

namespace TypedClient

section Left

variable {ignores : List Ignore} {type name : String}

end Left

section Fields

theorem Generics.typeNames_print (generics : Generics) (type : String) (refs : List String) :
    (generics.print (.type type refs)).1.typeNames ⊆ modelNames type := by
  rw [Generics.print]
  split
  · simp
  · exact List.Subset.refl _

end Fields

section Functions

variable {options : GenerateOptions} {operation : Operation}

end Functions

section Friends

open TypeExpr

section Shown

variable {entries : Entries} {type : String}

end Shown

end Friends

end TypedClient
