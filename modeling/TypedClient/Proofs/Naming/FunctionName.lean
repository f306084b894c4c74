import TypedClient.Proofs.Api.Generated
import TypedClient.Proofs.Naming.Url
import TypedClient.Proofs.Operation.Source

/-!
How a function comes by its name. Every operation has one origin of its name: its identifier, or the
end of its path. A name with the method in front tells the method and what follows it; any other
name is only its text.
-/

namespace TypedClient

/-- How a function comes by its name: from the end of the identifier of its operation, or from the
URL, without the method or with it in front. -/
inductive NameForm
  | identified (tail : String)
  | plain (name : String)
  | behind (method rest : String)
  deriving DecidableEq, Repr

namespace NameForm

def text : NameForm → String
  | identified tail => tail
  | plain name => name
  | behind method rest => method ++ rest

/-- Names that are shown as the same text, and tell the same method if both tell one. -/
def Coincides (shown : String → String) : NameForm → NameForm → Prop
  | behind method rest, behind method' rest' => method = method' ∧ rest = rest'
  | form, form' => shown form.text = shown form'.text

end NameForm

/-- What follows the method in a name from a URL; none if the name stands alone. -/
def UrlNames.rest? (url : UrlNames) : Option String :=
  match paramSuffixOf? url.funcName url.pathParams with
  | some suffix =>
    let collection := url.funcName.toList.take (url.funcName.length - suffix.length)
    some (upperFirst (singularize (String.ofList collection)) ++ suffix)
  | none =>
    if isSimilar (some url.funcName) (some url.fileName) ||
        url.pathParams.any fun param => isSimilar (some url.funcName) (some param) then
      some (upperFirst url.funcName)
    else none

/-- The name that the identifier of an operation ends in. -/
def Operation.tail? (operation : Operation) : Option String :=
  (operation.operationId.filter (· != "")).bind lastPart?

def Operation.nameForm (operation : Operation) : NameForm :=
  match operation.tail?, operation.urlNames.rest? with
  | some tail, _ => .identified tail
  | none, some rest => .behind operation.method rest
  | none, none => .plain operation.urlNames.funcName

theorem urlFuncName_eq (method : String) (url : UrlNames) :
    urlFuncName method url = (url.rest?.map (method ++ ·)).getD url.funcName := by
  unfold urlFuncName UrlNames.rest?
  cases paramSuffixOf? url.funcName url.pathParams with
  | some suffix => simp [String.append_assoc]
  | none =>
      dsimp only
      split <;> rfl

theorem funcName_eq (operation : Operation) :
    operation.funcName none = operation.nameForm.text := by
  rw [Operation.funcName, resolveFuncName, Operation.nameForm, ← Operation.tail?]
  cases operation.tail? with
  | some tail => rfl
  | none =>
      dsimp only [Option.filter]
      rw [urlFuncName_eq]
      cases operation.urlNames.rest? <;> rfl

theorem nameForm_cases (operation : Operation) :
    (∃ tail, operation.tail? = some tail ∧ operation.nameForm = .identified tail) ∨
      (operation.tail? = none ∧ operation.nameForm = .plain operation.urlNames.funcName) ∨
      ∃ rest, operation.tail? = none ∧ operation.urlNames.rest? = some rest ∧
        operation.nameForm = .behind operation.method rest := by
  unfold Operation.nameForm
  cases operation.tail? with
  | some tail => exact .inl ⟨tail, rfl, rfl⟩
  | none =>
      cases operation.urlNames.rest? with
      | none => exact .inr (.inl ⟨rfl, rfl⟩)
      | some rest => exact .inr (.inr ⟨rest, rfl, rfl, rfl⟩)

theorem isIdentifier_tail {operation : Operation} {tail : String}
    (told : operation.tail? = some tail) : isIdentifier tail = true := by
  obtain ⟨id, -, last⟩ := Option.bind_eq_some_iff.mp told
  unfold lastPart? at last
  dsimp only at last
  split at last
  · rename_i identifier
    rw [← Option.some.inj last]
    exact identifier
  · cases last

theorem nameForm_behind {operation : Operation} {rest : String} (untold : operation.tail? = none)
    (behind : operation.urlNames.rest? = some rest) :
    operation.nameForm = .behind operation.method rest := by
  rw [Operation.nameForm, untold, behind]

theorem nameForm_plain {operation : Operation} (untold : operation.tail? = none)
    (alone : operation.urlNames.rest? = none) :
    operation.nameForm = .plain operation.urlNames.funcName := by
  rw [Operation.nameForm, untold, alone]

section Trailing

variable {trailing : List String}

/-- The longer spelling of more parameters does not end a name that ends in the shorter one. -/
theorem paramSuffix_not_suffix (given : trailing ≠ []) (name param : String)
    (more : List String) :
    ¬ (paramSuffix (param :: (more ++ trailing))).toList <:+
      (name ++ paramSuffix trailing).toList := by
  intro ending
  have longer : paramSuffix (param :: (more ++ trailing)) = "By" ++ ("And".intercalate
      ((param :: more).map fun param => upperFirst (camelCase param)) ++ "And" ++
      "And".intercalate (trailing.map fun param => upperFirst (camelCase param))) := by
    rw [paramSuffix, ← String.intercalate_append_of_ne_nil (by simp) (by simpa using given),
      ← List.map_append, List.cons_append]
  obtain ⟨front, same⟩ := ending
  rw [longer, paramSuffix] at same
  simp only [String.toList_append, ← List.append_assoc] at same
  have before := List.append_cancel_right same
  have last := congrArg List.getLast? before
  have joint : "And".toList.getLast? = some 'd' := by decide
  have start : "By".toList.getLast? = some 'y' := by decide
  simp only [List.getLast?_append, joint, start, Option.some_or] at last
  exact absurd last (by decide)

theorem paramSuffixOf?_trailing {name : String} (given : trailing ≠ []) (named : name ≠ "")
    (before : List String) :
    paramSuffixOf? (name ++ paramSuffix trailing) (before ++ trailing) =
      some (paramSuffix trailing) := by
  induction before with
  | nil =>
      obtain ⟨param, rest, rfl⟩ := List.exists_cons_of_ne_nil given
      have shorter : (paramSuffix (param :: rest)).length <
          (name ++ paramSuffix (param :: rest)).length := by
        have long : name.length ≠ 0 := by simpa using named
        rw [String.length_append]
        omega
      have ending : (paramSuffix (param :: rest)).toList.isSuffixOf
          (name ++ paramSuffix (param :: rest)).toList = true := by
        rw [List.isSuffixOf_iff_suffix, String.toList_append]
        exact List.suffix_append _ _
      rw [List.nil_append, paramSuffixOf?, if_pos (by simp only [ending, shorter, decide_true,
        Bool.and_self])]
  | cons param more ih =>
      have apart := paramSuffix_not_suffix given name param more
      rw [List.cons_append, paramSuffixOf?, if_neg ?_, ih]
      simp only [Bool.and_eq_true, List.isSuffixOf_iff_suffix]
      exact fun both => apart both.1

/-- What is found at the end of a name spells the last of the parameters, behind something. -/
theorem paramSuffixOf?_spec {name suffix : String} {params : List String}
    (found : paramSuffixOf? name params = some suffix) :
    ∃ collection part, collection ≠ "" ∧ part ≠ [] ∧ part <:+ params ∧
      suffix = paramSuffix part ∧ name = collection ++ suffix := by
  induction params with
  | nil => cases found
  | cons param rest ih =>
      rw [paramSuffixOf?] at found
      split at found
      · rename_i ended
        cases found
        rw [Bool.and_eq_true, List.isSuffixOf_iff_suffix, decide_eq_true_eq] at ended
        obtain ⟨⟨front, whole⟩, shorter⟩ := ended
        refine ⟨String.ofList front, _, ?_, List.cons_ne_nil _ _, List.suffix_rfl, rfl, ?_⟩
        · intro empty
          rw [String.ofList_eq_empty_iff] at empty
          have same := congrArg List.length whole
          rw [empty, List.nil_append, String.length_toList, String.length_toList] at same
          omega
        · apply String.toList_inj.mp
          rw [String.toList_append, String.toList_ofList, whole]
      · obtain ⟨collection, part, given, filled, ending, shown, whole⟩ := ih found
        exact ⟨collection, part, given, filled, ending.trans (List.suffix_cons _ _), shown, whole⟩

theorem ofSegments_last (front : List Segment) (last : String) (trailing : List String) :
    (UrlNames.ofSegments (front ++ Segment.name last :: trailing.map .param)).funcName =
        (if trailing.isEmpty then last else last ++ paramSuffix trailing) ∧
      (UrlNames.ofSegments (front ++ Segment.name last :: trailing.map .param)).pathParams =
        front.filterMap Segment.param? ++ trailing := by
  have params : (trailing.map Segment.param).filterMap Segment.param? = trailing := by
    rw [List.filterMap_map]
    exact List.filterMap_some
  have fixed : (front ++ Segment.name last :: trailing.map .param).filterMap Segment.name? =
      front.filterMap Segment.name? ++ [last] := by
    have none : (trailing.map Segment.param).filterMap Segment.name? = [] := by
      simp [Segment.name?]
    rw [List.filterMap_append, List.filterMap_cons, none]
    rfl
  have all : (front ++ Segment.name last :: trailing.map .param).filterMap Segment.param? =
      front.filterMap Segment.param? ++ trailing := by
    rw [List.filterMap_append, List.filterMap_cons, params]
    rfl
  have ended : ((front ++ Segment.name last :: trailing.map .param).reverse.takeWhile
      (·.param?.isSome)).reverse = trailing.map .param := by
    have params : ∀ segment ∈ (trailing.map Segment.param).reverse,
        segment.param?.isSome = true := by
      intro segment member
      obtain ⟨param, -, rfl⟩ := List.mem_map.mp (List.mem_reverse.mp member)
      rfl
    rw [List.reverse_append, List.reverse_cons, List.append_assoc,
      List.takeWhile_append_of_pos params, List.singleton_append,
      List.takeWhile_cons_of_neg (by simp [Segment.param?]), List.append_nil, List.reverse_reverse]
  unfold UrlNames.ofSegments
  dsimp only
  rw [ended, params, fixed, all, List.reverse_append, List.reverse_singleton, List.singleton_append]
  exact ⟨rfl, rfl⟩

/-- In front of the parameters that end a name stands one member of the collection. -/
theorem rest?_of_suffix {url : UrlNames} {collection suffix : String}
    (name : url.funcName = collection ++ suffix)
    (found : paramSuffixOf? url.funcName url.pathParams = some suffix) :
    url.rest? = some (upperFirst (singularize collection) ++ suffix) := by
  have front : (collection ++ suffix).toList.take
      ((collection ++ suffix).length - suffix.length) = collection.toList := by
    rw [String.length_append, Nat.add_sub_cancel, String.toList_append]
    exact List.take_left
  rw [name] at found
  unfold UrlNames.rest?
  rw [name, found]
  dsimp only
  rw [front, String.ofList_toList]

/-- With parameters at its end, the name that a path gives stands behind the method. -/
theorem rest?_of_trailing {front : List Segment} {last : String} (given : trailing ≠ [])
    (named : last ≠ "") :
    (UrlNames.ofSegments (front ++ Segment.name last :: trailing.map .param)).rest? =
      some (upperFirst (singularize last) ++ paramSuffix trailing) := by
  obtain ⟨name, params⟩ := ofSegments_last front last trailing
  rw [if_neg (by simpa using given)] at name
  refine rest?_of_suffix name ?_
  rw [name, params, paramSuffixOf?_trailing given named]

end Trailing

section Origin

/-- A name ends in the spelling of the last parameters of the path, behind something. -/
def Operation.Spells (operation : Operation) (name collection : String) (part : List String) :
    Prop :=
  collection ≠ "" ∧ part ≠ [] ∧ part <:+ operation.urlNames.pathParams ∧
    name = collection ++ paramSuffix part

def Operation.SimilarTo (operation : Operation) (name : String) : Prop :=
  isSimilar (some name) (some operation.urlNames.fileName) = true ∨
    ∃ param ∈ operation.urlNames.pathParams, isSimilar (some name) (some param) = true

/-- Where the name of an operation is from: the identifier, the parameters at the end of its path
with the name before them, or the name at the end of its path. -/
inductive Operation.Origin (operation : Operation) : NameForm → Prop
  | identifier {tail : String} : operation.tail? = some tail → Origin operation (.identified tail)
  | parameters {front : List Segment} {last : String} {trailing : List String} :
      operation.tail? = none → trailing ≠ [] →
      segmentsOf operation.path = front ++ .name last :: trailing.map .param →
      Origin operation
        (.behind operation.method (upperFirst (singularize last) ++ paramSuffix trailing))
  | spelled {front : List Segment} {last collection : String} {part : List String} :
      operation.tail? = none → segmentsOf operation.path = front ++ [.name last] →
      operation.Spells last collection part →
      Origin operation
        (.behind operation.method (upperFirst (singularize collection) ++ paramSuffix part))
  | similar {front : List Segment} {last : String} :
      operation.tail? = none → segmentsOf operation.path = front ++ [.name last] →
      (∀ collection part, ¬ operation.Spells last collection part) → operation.SimilarTo last →
      Origin operation (.behind operation.method (upperFirst last))
  | plain {front : List Segment} {last : String} :
      operation.tail? = none → segmentsOf operation.path = front ++ [.name last] →
      (∀ collection part, ¬ operation.Spells last collection part) → ¬ operation.SimilarTo last →
      Origin operation (.plain last)
  | index {params : List String} :
      operation.tail? = none → segmentsOf operation.path = params.map .param →
      Origin operation (.behind operation.method "Index")

theorem segments_cases (segments : List Segment) :
    (∃ params : List String, segments = params.map .param) ∨
      ∃ front last, ∃ trailing : List String,
        segments = front ++ .name last :: trailing.map .param := by
  induction segments using List.reverseRecOn with
  | nil => exact .inl ⟨[], rfl⟩
  | append_singleton before segment ih =>
      cases segment with
      | name last => exact .inr ⟨before, last, [], rfl⟩
      | param own =>
          rcases ih with ⟨params, rfl⟩ | ⟨front, last, trailing, rfl⟩
          · exact .inl ⟨params ++ [own], by simp⟩
          · exact .inr ⟨front, last, trailing ++ [own], by simp⟩

/-- A path of parameters alone gives the name of the index. -/
theorem rest?_of_params (params : List String) :
    (UrlNames.ofSegments (params.map .param)).rest? = some "Index" := by
  have none : (params.map Segment.param).filterMap Segment.name? = [] := by
    simp [Segment.name?]
  have all : (params.map Segment.param).filterMap Segment.param? = params := by
    rw [List.filterMap_map]
    exact List.filterMap_some
  have url : UrlNames.ofSegments (params.map .param) = ⟨"index", "index", "", params⟩ := by
    unfold UrlNames.ofSegments
    dsimp only
    rw [none, all]
    rfl
  unfold UrlNames.rest?
  rw [url]
  dsimp only
  cases found : paramSuffixOf? "index" params with
  | some suffix =>
      obtain ⟨collection, part, -, -, -, shown, whole⟩ := paramSuffixOf?_spec found
      have capital : 'B' ∈ "index".toList := by
        rw [whole, shown, paramSuffix]
        simp
      exact absurd capital (by decide)
  | none =>
      rw [isSimilar, beq_self_eq_true, Bool.true_or, if_pos rfl]
      decide

section Forms

variable {operation : Operation} {front : List Segment} {last : String}

theorem nameForm_trailing {trailing : List String} (told : operation.tail? = none)
    (given : trailing ≠ [])
    (path : segmentsOf operation.path = front ++ .name last :: trailing.map .param) :
    operation.nameForm =
      .behind operation.method (upperFirst (singularize last) ++ paramSuffix trailing) := by
  have member : .name last ∈ segmentsOf operation.path := by
    rw [path]
    simp
  have behind := @rest?_of_trailing trailing front last given (solid_of_name member).1
  rw [← path] at behind
  exact nameForm_behind told behind

theorem nameForm_index {params : List String} (told : operation.tail? = none)
    (path : segmentsOf operation.path = params.map .param) :
    operation.nameForm = .behind operation.method "Index" := by
  have behind := rest?_of_params params
  rw [← path] at behind
  exact nameForm_behind told behind

variable (told : operation.tail? = none) (path : segmentsOf operation.path = front ++ [.name last])

include path

theorem funcName_of_last : operation.urlNames.funcName = last := by
  rw [Operation.urlNames, UrlNames.parse, path]
  exact (ofSegments_last front last []).1

theorem rest?_of_unspelled
    (unspelled : ∀ collection part, ¬ operation.Spells last collection part) :
    operation.urlNames.rest? =
      if isSimilar (some last) (some operation.urlNames.fileName) ||
        operation.urlNames.pathParams.any fun param => isSimilar (some last) (some param)
      then some (upperFirst last) else none := by
  have name := funcName_of_last path
  cases found : paramSuffixOf? operation.urlNames.funcName operation.urlNames.pathParams with
  | some suffix =>
      obtain ⟨collection, part, given, filled, ending, rfl, whole⟩ := paramSuffixOf?_spec found
      exact absurd ⟨given, filled, ending, name ▸ whole⟩ (unspelled collection part)
  | none =>
      unfold UrlNames.rest?
      rw [found, name]

include told

theorem nameForm_spelled {collection : String} {part : List String}
    (spells : operation.Spells last collection part) : operation.nameForm =
      .behind operation.method (upperFirst (singularize collection) ++ paramSuffix part) := by
  obtain ⟨given, filled, ⟨before, params⟩, whole⟩ := spells
  have name := (funcName_of_last path).trans whole
  have found := paramSuffixOf?_trailing filled given before
  rw [params, ← name] at found
  exact nameForm_behind told (rest?_of_suffix name found)

theorem nameForm_similar (unspelled : ∀ collection part, ¬ operation.Spells last collection part)
    (like : operation.SimilarTo last) :
    operation.nameForm = .behind operation.method (upperFirst last) := by
  have rest := rest?_of_unspelled path unspelled
  rw [if_pos ?_] at rest
  · exact nameForm_behind told rest
  · rw [Bool.or_eq_true, List.any_eq_true]
    exact like

theorem nameForm_last (unspelled : ∀ collection part, ¬ operation.Spells last collection part)
    (unlike : ¬ operation.SimilarTo last) : operation.nameForm = .plain last := by
  have rest := rest?_of_unspelled path unspelled
  rw [if_neg ?_] at rest
  · rw [nameForm_plain told rest, funcName_of_last path]
  · rw [Bool.or_eq_true, List.any_eq_true]
    exact unlike

end Forms

theorem Operation.Origin.eq_nameForm {operation : Operation} {form : NameForm}
    (origin : operation.Origin form) : form = operation.nameForm := by
  cases origin with
  | identifier told => rw [Operation.nameForm, told]
  | parameters told given path => exact (nameForm_trailing told given path).symm
  | spelled told path spells => exact (nameForm_spelled told path spells).symm
  | similar told path unspelled like => exact (nameForm_similar told path unspelled like).symm
  | plain told path unspelled unlike => exact (nameForm_last told path unspelled unlike).symm
  | index told path => exact (nameForm_index told path).symm

theorem Operation.Origin.unique {operation : Operation} {form form' : NameForm}
    (origin : operation.Origin form) (origin' : operation.Origin form') : form = form' :=
  origin.eq_nameForm.trans origin'.eq_nameForm.symm

theorem origin_nameForm (operation : Operation) : operation.Origin operation.nameForm := by
  suffices found : ∃ form, operation.Origin form by
    obtain ⟨form, origin⟩ := found
    rwa [← origin.eq_nameForm]
  cases told : operation.tail? with
  | some tail => exact ⟨_, .identifier told⟩
  | none =>
      rcases segments_cases (segmentsOf operation.path) with ⟨params, path⟩ |
        ⟨front, last, trailing, path⟩
      · exact ⟨_, .index told path⟩
      · by_cases ended : trailing = []
        · subst ended
          by_cases spells : ∃ collection part, operation.Spells last collection part
          · obtain ⟨collection, part, spells⟩ := spells
            exact ⟨_, .spelled told path spells⟩
          · have unspelled (collection : String) (part : List String) :
                ¬ operation.Spells last collection part :=
              fun spelt => spells ⟨collection, part, spelt⟩
            by_cases like : operation.SimilarTo last
            · exact ⟨_, .similar told path unspelled like⟩
            · exact ⟨_, .plain told path unspelled like⟩
        · exact ⟨_, .parameters told ended path⟩

end Origin

section PrefixFree

def PrefixFree (words : List String) : Prop :=
  ∀ first ∈ words, ∀ second ∈ words, first.toList <+: second.toList → first = second

instance (words : List String) : Decidable (PrefixFree words) :=
  inferInstanceAs (Decidable (∀ first ∈ words, ∀ second ∈ words, _ → first = second))

theorem PrefixFree.append_inj {words : List String} (free : PrefixFree words)
    {first second rest rest' : String} (member : first ∈ words) (member' : second ∈ words) :
    first ++ rest = second ++ rest' ↔ first = second ∧ rest = rest' := by
  constructor
  · intro same
    have texts : first.toList ++ rest.toList = second.toList ++ rest'.toList := by
      rw [← String.toList_append, same, String.toList_append]
    have equal : first = second := by
      rcases List.append_eq_append_iff.mp texts with ⟨gap, longer, -⟩ | ⟨gap, longer, -⟩
      · exact free first member second member' ⟨gap, longer.symm⟩
      · exact (free second member' first member ⟨gap, longer.symm⟩).symm
    subst equal
    exact ⟨rfl, String.toList_inj.mp (List.append_cancel_left texts)⟩
  · rintro ⟨rfl, rfl⟩
    rfl

theorem prefixFree_httpMethods : PrefixFree httpMethods := by decide

theorem prefixFree_capitals : PrefixFree (httpMethods.map upperFirst) := by decide

theorem upperFirst_injOn : ∀ first ∈ httpMethods, ∀ second ∈ httpMethods,
    upperFirst first = upperFirst second → first = second := by decide

end PrefixFree

end TypedClient
