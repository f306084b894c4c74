import TypedClient.Proofs.Naming.Coincidence

namespace TypedClient

theorem map_ofText_of_params {parts : List (List Char)}
    (params : ∀ part ∈ parts, (Url.parameter? part).isSome = true) :
    parts.map Segment.ofText =
      ((parts.filterMap Url.parameter?).map String.ofList).map Segment.param := by
  induction parts with
  | nil => rfl
  | cons part rest ih =>
      rw [List.forall_mem_cons] at params
      obtain ⟨own, others⟩ := params
      obtain ⟨inner, found⟩ := Option.isSome_iff_exists.mp own
      rw [List.map_cons, ih others, List.filterMap_cons_some found, Segment.ofText, found]
      rfl

theorem segmentsOf_trailing {url : String} {front parts : List (List Char)} {fixed : List Char}
    (path : Url.segments url.toList = front ++ fixed :: parts)
    (unnamed : Url.parameter? fixed = none)
    (params : ∀ part ∈ parts, (Url.parameter? part).isSome = true) :
    segmentsOf url = front.map Segment.ofText ++ .name (camelCase (String.ofList fixed)) ::
      ((parts.filterMap Url.parameter?).map String.ofList).map .param := by
  rw [segmentsOf, path, List.map_append, List.map_cons, map_ofText_of_params params,
    Segment.ofText, unnamed]

/-- A function that is not given a name, by hand or by its identifier, has one from its URL. -/
theorem resolveFuncName_of_url {operation : Operation} (untold : operation.tail? = none)
    (url : UrlNames) {chosen : Option String} (unchosen : chosen = none ∨ chosen = some "") :
    resolveFuncName operation url chosen =
      (url.rest?.map (operation.method ++ ·)).getD url.funcName := by
  have empty : chosen.filter (· != "") = none := by
    rcases unchosen with rfl | rfl
    · rfl
    · rfl
  rw [resolveFuncName, ← Operation.tail?, empty, untold]
  exact urlFuncName_eq operation.method url

/-- Where parameters stand at the end of a path behind a fixed segment, the spelling of parameters
that is found at the end of the name is the one that was put behind the segment, so that the segment
itself is made singular, whatever it ends in. -/
theorem trailing_parameters_recovered {url : String} {front parts : List (List Char)}
    {fixed : List Char} (path : Url.segments url.toList = front ++ fixed :: parts)
    (unnamed : Url.parameter? fixed = none)
    (params : ∀ part ∈ parts, (Url.parameter? part).isSome = true) (given : parts ≠ []) :
    let segment := camelCase (String.ofList fixed)
    let suffix := paramSuffix ((parts.filterMap Url.parameter?).map String.ofList)
    (UrlNames.parse url).funcName = segment ++ suffix ∧
      paramSuffixOf? (UrlNames.parse url).funcName (UrlNames.parse url).pathParams = some suffix ∧
      ∀ (operation : Operation) (chosen : Option String), operation.tail? = none →
        (chosen = none ∨ chosen = some "") →
        resolveFuncName operation (UrlNames.parse url) chosen =
          operation.method ++ upperFirst (singularize segment) ++ suffix := by
  intro segment suffix
  have shape := segmentsOf_trailing path unnamed params
  have filled : (parts.filterMap Url.parameter?).map String.ofList ≠ [] := by
    obtain ⟨part, rest, rfl⟩ := List.exists_cons_of_ne_nil given
    obtain ⟨inner, found⟩ := Option.isSome_iff_exists.mp (params part List.mem_cons_self)
    simp [List.filterMap_cons_some found]
  have listed : .name segment ∈ segmentsOf url := by
    rw [shape]
    exact List.mem_append_right _ List.mem_cons_self
  have named : segment ≠ "" := (solid_of_name listed).1
  obtain ⟨name, all⟩ := ofSegments_last (front.map Segment.ofText) segment
    ((parts.filterMap Url.parameter?).map String.ofList)
  rw [← shape, ← UrlNames.parse] at name all
  rw [if_neg (by simpa using filled)] at name
  have found : paramSuffixOf? (UrlNames.parse url).funcName (UrlNames.parse url).pathParams =
      some suffix := by
    rw [name, all]
    exact paramSuffixOf?_trailing filled named _
  refine ⟨name, found, fun operation chosen untold unchosen => ?_⟩
  rw [resolveFuncName_of_url untold _ unchosen, rest?_of_suffix name found, Option.map_some,
    Option.getD_some, String.append_assoc]

theorem trailing_parameters_recovered_joint :
    Url.segments "/a/\x7bx\x7d/listByXAnd/\x7by\x7d".toList =
        ["a".toList, "\x7bx\x7d".toList] ++ "listByXAnd".toList :: ["\x7by\x7d".toList] ∧
      paramSuffixOf? "listByXAndByY" ["x", "y"] = some "ByY" ∧
      resolveFuncName (bareOperation "/a/\x7bx\x7d/listByXAnd/\x7by\x7d" "get")
        (UrlNames.parse "/a/\x7bx\x7d/listByXAnd/\x7by\x7d") none = "getListByXAndByY" := by
  have path : Url.segments "/a/\x7bx\x7d/listByXAnd/\x7by\x7d".toList =
      ["a".toList, "\x7bx\x7d".toList] ++ "listByXAnd".toList :: ["\x7by\x7d".toList] := by
    decide
  have params : ∀ part ∈ ["\x7by\x7d".toList], (Url.parameter? part).isSome = true := by
    decide
  obtain ⟨-, found, named⟩ := trailing_parameters_recovered path (by decide) params (by decide)
  refine ⟨path, ?_, (named (bareOperation _ "get") none rfl (.inl rfl)).trans (by decide)⟩
  have names : UrlNames.parse "/a/\x7bx\x7d/listByXAnd/\x7by\x7d" =
      ⟨"listByXAndByY", "a", "", ["x", "y"]⟩ := by
    decide
  rw [names] at found
  exact found.trans (by decide)

end TypedClient
