import TypedClient.Proofs.Ignore.Spine
import TypedClient.Proofs.Ignore.Steady

namespace TypedClient

open TypeExpr

def IsNative (name : String) : Prop :=
  isBuiltin name = true ∨ ∀ c ∈ name.toList, c ≠ '\'' ∧ isNameStart c = false

namespace IsNative

theorem bare : IsNative "" := .inr (by simp)

theorem of_builtin {name : String} (builtin : isBuiltin name = true) :
    isName name = true ∧ IsSettledName true name := by
  have all : ∀ name ∈ baseTypes ++ builtinTypes,
      isName name = true ∧ name ≠ "" ∧ name.toList.all Char.isAlphanum = true := by decide
  have member : name ∈ baseTypes ++ builtinTypes := by
    simpa [isBuiltin, isBaseType] using builtin
  obtain ⟨named, given, plain⟩ := all name member
  exact ⟨named, .of_isAlphanum given (List.all_eq_true.mp plain) true⟩

theorem clean {name : String} (native : IsNative name) (nested : Bool) :
    IsNative (cleanName nested name) := by
  rcases native with builtin | silent
  · have settled := (of_builtin builtin).2
    have short := @cleanName_append name [] ⟨by simp, .inl rfl⟩ settled.bare nested
    rw [List.nil_append, String.ofList_toList] at short
    have same : shortName nested name = name := by
      cases nested with
      | false => rfl
      | true => exact shortName_of_settled settled
    rw [short, same]
    exact .inl builtin
  · exact .inr fun c member => silent c (cleanName_subset nested name member)

theorem among {name : String} (native : IsNative name) :
    NamesAmong (isBuiltin · = true) name.toList := by
  rcases native with builtin | silent
  · exact NamesAmong.name (of_builtin builtin).1 builtin
  · exact NamesAmong.unnamed silent

end IsNative

/-- If the text is read as a type at all, each of its names is one that the language brings, or
holds no name. -/
def NativeText (text : String) : Prop :=
  isPlainType text = true → ∀ name, .name name ∈ tokens text → IsNative name

namespace NativeText

variable {text : String}

theorem of_mark {c : Char} (member : c ∈ text.toList) (mark : c ∈ "'\"|&\x7b\x7d();:".toList) :
    NativeText text := by
  intro plain
  rw [isPlainType_of_mem member mark] at plain
  cases plain

theorem of_silent (silent : ∀ c ∈ text.toList, c ≠ '\'' ∧ isNameStart c = false) :
    NativeText text := by
  intro _ name member
  have inside := (sublist_of_mem_tokensFrom member).subset
  exact .inr fun c own => silent c (by simpa using inside own)

theorem tokens_builtin {name : String} (builtin : isBuiltin name = true) :
    tokens name = [.name name] := by
  have settled := (IsNative.of_builtin builtin).2
  have quiet : ∀ c ∈ name.toList, delimiter? c = none ∧ c ≠ '[' :=
    fun c member => quiet_of_isNameChar (settled.plain c member).1
  have whole := tokensFrom_append quiet [] []
  rw [List.append_nil, List.append_nil] at whole
  have tight : Text.trim name.toList = name.toList := Text.trimWhere_of_tight settled.tight
  have given : name.toList.isEmpty = false := by simpa using settled.given
  rw [tokens, whole, tokensFrom, nameToken, List.reverse_reverse, tight]
  simp only [given, Bool.false_eq_true, if_false, String.ofList_toList]

theorem of_builtin (builtin : isBuiltin text = true) : NativeText text := by
  intro _ name member
  rw [tokens_builtin builtin, List.mem_singleton] at member
  cases member
  exact .inl builtin

theorem array (native : NativeText text) : NativeText (PropertyType.grouped text ++ "[]") := by
  rw [PropertyType.grouped]
  split
  · exact of_mark (c := '(') (by simp) (by decide)
  · intro plain name member
    rw [isPlainType_append, Bool.and_eq_true] at plain
    have front : tokens (text ++ "[]") = tokens text ++ [.array] := by
      have whole : (text ++ "[]").toList = text.toList ++ ['[', ']'] := by simp
      rw [tokens, whole, Stops.array.tokensFrom_append (by simp), tokensFrom_array, nameToken_nil,
        tokensFrom, nameToken_nil]
      rfl
    rw [front, List.mem_append, List.mem_singleton] at member
    exact native plain.1 name (member.resolve_right (by simp))

theorem record (native : NativeText text) : NativeText ("Record<string, " ++ text ++ ">") := by
  intro plain name member
  have inner : isPlainType text = true := by
    simp only [isPlainType_append, Bool.and_eq_true] at plain
    exact plain.1.2
  have parts : tokens ("Record<string, " ++ text ++ ">") =
      tokens "Record" ++ .opening ::
        (tokens "string" ++ .comma :: (tokens text ++ [.closing])) := by
    have whole : ("Record<string, " ++ text ++ ">").toList =
        "Record".toList ++ '<' :: ("string".toList ++ ',' :: ((' ' :: text.toList) ++ ['>'])) := by
      simp
    have apart : delimiter? ' ' = none := rfl
    have unled : tokensFrom [] (' ' :: text.toList) = tokens text := by
      rw [tokensFrom, apart]
      · exact tokensFrom_blank (by decide) [] _
      · simp
    rw [tokens, whole, tokensFrom_append_delimiter rfl, tokensFrom_append_delimiter rfl,
      tokensFrom_append_delimiter rfl, unled, tokensFrom, nameToken_nil]
    rfl
  rw [parts, tokens_builtin (by decide), tokens_builtin (by decide)] at member
  simp only [List.singleton_append, List.mem_cons, List.mem_append, List.not_mem_nil, or_false,
    reduceCtorEq, false_or, Token.name.injEq] at member
  rcases member with rfl | rfl | member
  · exact .inl (by decide)
  · exact .inl (by decide)
  · exact native inner name member

theorem texts : TextRules NativeText where
  base {text} base := of_builtin (by simp [isBuiltin, base])
  array := array
  record := record
  joined := by
    intro separator texts mark given all
    cases texts with
    | nil => exact absurd rfl given
    | cons first others =>
        cases others with
        | nil =>
            rw [String.intercalate_singleton]
            exact all first (by simp)
        | cons second rest =>
            intro plain
            rw [isPlainType_joined mark] at plain
            cases plain

theorem parse (native : NativeText text) (plain : isPlainType text = true) :
    (TypeNode.parse text).Named IsNative :=
  named_readNode .bare (fun name member => (native plain name member).clean false)
    (fun name member => (native plain name member).clean true)

/-- What is left of such a type names nothing that would need an import. -/
theorem stripIgnored (native : NativeText text)
    (among : NamesAmong (isBuiltin · = true) text.toList) (ignores : List Ignore) :
    NamesAmong (isBuiltin · = true) (stripIgnored ignores text).toList := by
  rw [TypedClient.stripIgnored]
  split
  · exact among
  · rename_i asked
    have plain : isPlainType text = true := by
      simp only [Bool.or_eq_true, Bool.not_eq_true', not_or, Bool.not_eq_false] at asked
      exact asked.2
    cases stripped : stripNode ignores 0 (TypeNode.parse text) with
    | none => exact NamesAmong.nil
    | some left =>
        obtain ⟨part, inside, more, rfl⟩ := stripNode_mem_spine stripped
        have named := (TypeNode.named_spine (native.parse plain) part inside).deepen more
        exact among_render (among_baseType (fun _ known => known) "any" (by decide))
          (NamesAmong.name (by decide) (by decide)) (fun _ own => own)
          (named.mono fun _ own => own.among) false

end NativeText

end TypedClient
