import TypedClient.Proofs.Meaning.Reference
import TypedClient.Proofs.Schema.Forms

namespace TypedClient

def typeKeywords : List String :=
  ["$ref", "allOf", "oneOf", "anyOf", "type", "enum", "items", "properties", "additionalProperties"]

def HasOnly (entries : Entries) (names : List String) : Prop :=
  ∀ keyword ∈ typeKeywords, keyword ∉ names → Entries.has entries keyword = false

instance (entries : Entries) (names : List String) : Decidable (HasOnly entries names) :=
  inferInstanceAs (Decidable (∀ keyword ∈ typeKeywords, keyword ∉ names →
    Entries.has entries keyword = false))

def TypeFits (entries : Entries) (type : String) : Prop :=
  Entries.field entries "type" = .null ∨ Entries.field entries "type" = .text type

def connectives : List (String × Connective) :=
  [("allOf", .intersection), ("oneOf", .union), ("anyOf", .union)]

def TypeTree.ofVariants (connective : Connective) (trees : List TypeTree) : TypeTree :=
  if trees.isEmpty then any else joined connective trees

namespace TypeTree

theorem isLegible_record (value : TypeTree) : (record value).isLegible = value.isLegible :=
  Bool.and_true _

theorem allLegible_of_ofVariants {connective : Connective} {trees : List TypeTree}
    (legible : (ofVariants connective trees).isLegible = true) : allLegible trees = true := by
  cases trees with
  | nil => rfl
  | cons first rest => exact (Bool.and_eq_true_iff.mp legible).2

end TypeTree

section Meaning

variable (schemas : Schemas)

mutual

/-- The tree that a schema means, with the keys that are still closed on the branch. -/
inductive Means : Schemas → Value → TypeTree → Prop
  | reference {remaining : Schemas} {entries : Entries} {ref : String} {tree : TypeTree}
      (held : Entries.field entries "$ref" = .text ref) (given : ref ≠ "")
      (leads : RefMeans remaining ref tree) : Means remaining (.object entries) tree
  | primitive {remaining : Schemas} {entries : Entries} {name type : String}
      (only : HasOnly entries ["type"]) (held : Entries.field entries "type" = .text name)
      (known : baseMapping.lookup name = some type) :
      Means remaining (.object entries) (.named type [])
  | anything {remaining : Schemas} {entries : Entries} (only : HasOnly entries []) :
      Means remaining (.object entries) .any
  | choices {remaining : Schemas} {entries : Entries} {texts : List String}
      (only : HasOnly entries ["type", "enum"])
      (fits : TypeFits entries "string")
      (held : Entries.field entries "enum" = .texts texts) (given : texts ≠ []) :
      Means remaining (.object entries) (.joined .union (texts.map .literal))
  | array {remaining : Schemas} {entries : Entries} {tree : TypeTree}
      (only : HasOnly entries ["type", "items"])
      (held : Entries.field entries "type" = .text "array")
      (given : (Entries.field entries "items").isTrue = true)
      (item : Means remaining (Entries.field entries "items") tree) :
      Means remaining (.object entries) (.array tree)
  | anyArray {remaining : Schemas} {entries : Entries} (only : HasOnly entries ["type", "items"])
      (held : Entries.field entries "type" = .text "array")
      (missing : (Entries.field entries "items").isTrue = false) :
      Means remaining (.object entries) (.array .any)
  | map {remaining : Schemas} {entries values : Entries} {tree : TypeTree}
      (only : HasOnly entries ["type", "additionalProperties"])
      (fits : TypeFits entries "object")
      (held : Entries.field entries "additionalProperties" = .object values)
      (value : Means remaining (.object values) tree) :
      Means remaining (.object entries) (.record tree)
  | variants {remaining : Schemas} {entries : Entries} {name : String} {connective : Connective}
      {variants : List Value} {trees : List TypeTree} (only : HasOnly entries [name])
      (joins : (name, connective) ∈ connectives)
      (held : Entries.field entries name = .list variants) (given : variants ≠ [])
      (all : MeansAll remaining variants trees) :
      Means remaining (.object entries) (.ofVariants connective trees)

inductive MeansAll : Schemas → List Value → List TypeTree → Prop
  | nil {remaining : Schemas} : MeansAll remaining [] []
  | null {remaining : Schemas} {variant : Value} {variants : List Value} {trees : List TypeTree}
      (null : isNullSchema variant = true) (rest : MeansAll remaining variants trees) :
      MeansAll remaining (variant :: variants) trees
  | cons {remaining : Schemas} {variant : Value} {variants : List Value} {tree : TypeTree}
      {trees : List TypeTree} (given : isNullSchema variant = false)
      (first : Means remaining variant tree) (rest : MeansAll remaining variants trees) :
      MeansAll remaining (variant :: variants) (tree :: trees)

/-- The tree of a reference: a primitive type or a model that it names, or what the schema that it
leads to means. -/
inductive RefMeans : Schemas → String → TypeTree → Prop
  | primitive {remaining : Schemas} {ref type : String}
      (known : baseMapping.lookup (SchemaName.parse [] ref).typeName = some type) :
      RefMeans remaining ref (.named type [])
  | unopened {remaining : Schemas} {ref : String}
      (named : baseMapping.lookup (SchemaName.parse [] ref).typeName = none)
      (absent : remaining.find? (schemaKey ref) = none) : RefMeans remaining ref (.ofRef ref)
  | model {remaining : Schemas} {ref : String} {target : Value}
      (named : baseMapping.lookup (SchemaName.parse [] ref).typeName = none)
      (found : remaining.find? (schemaKey ref) = some target) (own : target.ref? = none)
      (judged : isModel schemas (schemaKey ref) target = .ok true) :
      RefMeans remaining ref (.ofRef ref)
  | aliased {remaining : Schemas} {ref next : String} {target : Value} {tree : TypeTree}
      (named : baseMapping.lookup (SchemaName.parse [] ref).typeName = none)
      (found : remaining.find? (schemaKey ref) = some target)
      (passes : target.ref? = some (.text next))
      (leads : RefMeans (remaining.without (schemaKey ref)) next tree) : RefMeans remaining ref tree
  | inPlace {remaining : Schemas} {ref : String} {target : Value} {tree : TypeTree}
      (named : baseMapping.lookup (SchemaName.parse [] ref).typeName = none)
      (found : remaining.find? (schemaKey ref) = some target) (own : target.ref? = none)
      (judged : isModel schemas (schemaKey ref) target = .ok false)
      (inner : Means (remaining.without (schemaKey ref)) target tree) : RefMeans remaining ref tree

end

end Meaning

namespace HasOnly

variable {entries : Entries} {names : List String}

theorem field (only : HasOnly entries names) (keyword : String) (known : keyword ∈ typeKeywords)
    (other : keyword ∉ names) : Entries.field entries keyword = .null := by
  have absent := only keyword known other
  rw [Entries.has, Option.isSome_eq_false_iff, Option.isNone_iff_eq_none] at absent
  rw [Entries.field, absent, Option.getD_none]

theorem variantsUnder (only : HasOnly entries names) {keyword : String}
    (known : keyword ∈ typeKeywords) (other : keyword ∉ names) :
    variantsUnder? entries keyword = none := by
  have absent := only keyword known other
  rw [Entries.has, Option.isSome_eq_false_iff, Option.isNone_iff_eq_none] at absent
  rw [variantsUnder?, absent]

theorem own (only : HasOnly entries names) (other : "$ref" ∉ names) :
    (Entries.field entries "$ref").isTrue = false := by
  rw [only.field _ (by decide) other]
  rfl

theorem plain (only : HasOnly entries names)
    (others : ∀ keyword ∈ ["$ref", "allOf", "oneOf", "anyOf"], keyword ∉ names) :
    IsPlainSchema entries where
  own := only.own (others _ (by decide))
  all := only.variantsUnder (by decide) (others _ (by decide))
  one := only.variantsUnder (by decide) (others _ (by decide))
  any := only.variantsUnder (by decide) (others _ (by decide))

end HasOnly

end TypedClient
