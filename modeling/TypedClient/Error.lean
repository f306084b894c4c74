import TypedClient.Value.Display

/-!
What can be wrong with a document, a configuration or a file, as causes. The wording of a cause is
`message`; a cause that only repeats what a file system or a foreign reader says has none.
-/

namespace TypedClient

inductive ViolationKind
  | missing
  | notText
  | notList
  | notObject
  | notBool
  | unreadableBool
  deriving DecidableEq, Repr

/-- A place in a record, outermost key first, where the record departs from its shape. -/
structure Violation where
  place : List Scalar
  kind : ViolationKind
  deriving DecidableEq, Repr

inductive SettingsCause
  /-- The text of a file cannot be read, or there is no such file; the details are for the user. -/
  | unreadable (details : Option String)
  | outputShape
  | mappingPair (pair : Value)
  | mappingShape
  | packageUnreadable
  | packageShape
  | hookEntry
  | hookModule (name : String)
  | hookMissing (name : String)
  deriving Repr

inductive DocumentCause
  | noFile
  /-- The text of the document cannot be read; the details are for the user. -/
  | unreadable (details : List String)
  | notAnObject
  | noInput
  deriving DecidableEq, Repr

inductive FetchCause
  | failed (text : String)
  | refused (reason : String)
  | unreadable
  | notAnObject
  deriving DecidableEq, Repr

inductive WriteFault
  | foreign
  | circular
  | longNumber
  deriving DecidableEq, Repr

inductive ScalarFault
  | unknownTruth
  | emptyNumber
  | noMoment
  | momentOfParts
  | outOfRange
  deriving DecidableEq, Repr

inductive PatternFault
  | malformed
  /-- A number or a code is too large. -/
  | outOfRange
  /-- The options for the whole exclude each other. -/
  | contradictory
  deriving DecidableEq, Repr

inductive PathFault
  /-- A directory on the way is missing, or the path is empty. -/
  | missing
  | directory
  | notDirectory
  | tooLong
  /-- A path has no zero character. -/
  | zero
  deriving DecidableEq, Repr

inductive Error
  /-- A list or an object stands where a key is needed, or a key is no text. -/
  | unsuitableKey
  /-- A number or a boolean stands where a collection is needed. -/
  | notACollection
  /-- An operation brings its own path or method, or a key that is no text. -/
  | foreignKey
  | notAnObject
  | notAText
  | notAPath
  | notAPair
  | missingKey
  /-- Something is looked for beyond an end. -/
  | beyondEnd
  /-- Something is to be added to what is no list. -/
  | notAList
  | emptyTarget
  | unreadableText
  | endOfInput
  | place (fault : PathFault)
  /-- A module is named as seen from another one, and there is none. -/
  | relativeModule
  | invalidPattern (fault : PatternFault)
  | unwritable (fault : WriteFault)
  | unreadableScalar (fault : ScalarFault)
  | invalid (violations : List Violation)
  | settings (path : String) (cause : SettingsCause)
  | document (path : String) (cause : DocumentCause)
  | fetch (url : String) (status : Option Nat) (cause : FetchCause)
  | write (path : String)
  deriving Repr

def SettingsCause.message : SettingsCause → Option String
  | unreadable _ => none
  | outputShape => some "output: строка или пара [api, model]"
  | mappingPair pair => some ("некорректная пара typeMapping: " ++ pair.quoted)
  | mappingShape => some "typeMapping должен быть объектом или массивом пар"
  | packageUnreadable => some "не удалось прочитать package.json"
  | packageShape => some "package.json не является объектом"
  | hookModule _ => none
  | hookEntry => some "funcTpl должен иметь вид module:function"
  | hookMissing name => some ("функция " ++ name ++ " не найдена")

def Error.ofWriting (path : String) : PathFault → Error
  | .zero => .place .zero
  | _ => .write path

/-- What a user reads; where a file system or a foreign reader has the word, only the place. -/
def SettingsCause.shown (path : String) (cause : SettingsCause) : String :=
  match cause with
  | unreadable none => path
  | unreadable (some details) => path ++ ": " ++ details
  | hookModule name => path ++ ": No module named " ++ (Value.text name).quoted
  | cause => path ++ ": " ++ cause.message.getD ""

def DocumentCause.message : DocumentCause → String
  | noFile => "файл не найден"
  | unreadable _ => "не удалось разобрать документ"
  | notAnObject => "документ не является объектом"
  | noInput => "не указан input в конфигурации"

def DocumentCause.shown (cause : DocumentCause) : String :=
  match cause with
  | unreadable details => "\n".intercalate (cause.message :: details)
  | cause => cause.message

def FetchCause.message : FetchCause → String
  | failed text => text
  | refused reason => reason
  | unreadable => "некорректный JSON"
  | notAnObject => "документ не является объектом"

def Error.shown? : Error → Option String
  | settings path cause => some (cause.shown path)
  | document path cause => some (path ++ ": " ++ cause.shown)
  | fetch url status cause =>
    some ((status.map fun code => "[" ++ toString code ++ "] ").getD "" ++ url ++ ": " ++
      cause.message)
  | write path => some path
  | _ => none

end TypedClient
