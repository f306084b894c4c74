import TypedClient.CommandLine.Arguments
import TypedClient.Generator
import TypedClient.Settings.File

namespace TypedClient.CommandLine

inductive Command
  | help
  | init (source : Option String) (form : SettingsForm)
  | download (url : String) (output : Option String)
  | api (urls : List String) (change : SettingsChange) (funcName : Option String)
    (all refresh : Bool)
  deriving Repr

def mainSpec : Spec :=
  { options := [helpOption, { key := "verbose", names := ["-v", "--verbose"] }] }

def initSpec : Spec :=
  { options := [helpOption,
      { key := "type", names := ["--type"], takesValue := true, choices := ["package", "toml"] }]
    positionals := [("url", .atMostOne)] }

def downloadSpec : Spec :=
  { options := [helpOption], positionals := [("url", .one), ("output", .atMostOne)] }

def apiSpec : Spec :=
  { options := [helpOption,
      { key := "url", names := ["-u", "--url"], takesValue := true },
      { key := "output", names := ["-o", "--output"], takesValue := true },
      { key := "func", names := ["--func"], takesValue := true },
      { key := "only-model", names := ["--only-model"] },
      { key := "global-model", names := ["--global-model"] },
      { key := "all", names := ["--all"] },
      { key := "refresh", names := ["--refresh"] }]
    positionals := [("urls", .many)] }

def initCommand (parsed : Parsed) : Command :=
  .init (parsed.positional "url").head? (.ofText ((parsed.value? "type").getD "toml"))

def downloadCommand (parsed : Parsed) : Command :=
  .download ((parsed.positional "url").headD "") (parsed.positional "output").head?

def apiCommand (parsed : Parsed) : Command :=
  .api (parsed.positional "urls")
    { source := parsed.value? "url"
      output := parsed.value? "output"
      onlyModel := parsed.has "only-model"
      globalModel := parsed.has "global-model" }
    (parsed.value? "func") (parsed.has "all") (parsed.has "refresh")

def readCommand (extras : List String) (name : String) (texts : List String) :
    Except Refusal Command := do
  let (spec, command) ← match name with
    | "init" => .ok (initSpec, initCommand)
    | "download" => .ok (downloadSpec, downloadCommand)
    | "api" => .ok (apiSpec, apiCommand)
    | _ => .error .usage
  let parsed ← spec.read texts
  if extras.isEmpty && parsed.extras.isEmpty then .ok (command parsed) else .error .usage

def readFrom : List String → List String → Except Refusal Command
  | extras, [] => if extras.isEmpty then .ok .help else .error .usage
  | extras, text :: rest => do
    match ← mainSpec.classify text with
    | .plain name => readCommand extras name rest
    | .unknown text => readFrom (extras ++ [text]) rest
    | .option option short attached =>
      let parsed ← Parsed.apply {} (← mainSpec.setting option short attached) none
      readFrom (extras ++ parsed.extras) rest
    | .separator => .error .usage

/-- The command that arguments spell. All of them have to be clear before any of them counts. -/
def readArguments (texts : List String) : Except Refusal Command := do
  let _ ← mainSpec.classifyAll texts
  readFrom [] texts

def confirm (message : String) : Nat → Work Bool
  | 0 => throw .endOfInput
  | rounds + 1 => do
    let answer := (String.ofList ∘ Text.trim ∘ Text.lower ∘ String.toList)
      (← Work.ask (message ++ " (y/n): "))
    if ["y", "yes", "да", ""].contains answer then return true
    else if ["n", "no", "нет"].contains answer then return false
    else
      Work.printLine "Введите y/n"
      confirm message rounds

def choose (count : Nat) : Nat → Work Nat
  | 0 => throw .endOfInput
  | rounds + 1 => do
    match readInteger? 10 (← Work.ask "\nВыберите пункт: ").toList with
    | some choice =>
      if 1 ≤ choice && choice ≤ count then return choice.toNat - 1
      Work.printLine ("Введите число от 1 до " ++ toString count)
      choose count rounds
    | none =>
      Work.printLine "Введите корректное число"
      choose count rounds

/-- Every round takes a line of input, so one more than there are lines suffices. -/
def rounds : Work Nat := return (← getThe Workspace).input.length + 1

def printMenu (options : List String) (title : String) : Work Unit := do
  Work.printLine ("\n" ++ title)
  for (option, index) in options.zipIdx 1 do
    Work.printLine ("[" ++ toString index ++ "] " ++ option)

def askOperation (generator : Generator) : Work (List Operation × Generator) := do
  let answer ← Work.ask "🔍 Введите ключевое слово для поиска: "
  let keyword := String.ofList (Text.trim answer.toList)
  let (operations, generator) ← generator.search (some keyword)
  if operations.isEmpty then
    Work.printLine ("❌ Не найдено ни одного интерфейса по запросу: " ++ keyword)
    return ([], generator)
  printMenu (operations.map Operation.label)
    ("📋 Найдено интерфейсов: " ++ toString operations.length)
  let index ← choose operations.length (← rounds)
  return (operations[index]?.toList, generator)

def runInit (source : Option String) (form : SettingsForm) : Work Nat := do
  let directory ← Work.currentPath
  let confirmed ← if ← hasSettings form directory then do
      Work.printLine "⚠️ Конфигурация уже существует"
      confirm "Перезаписать?" (← rounds)
    else pure true
  if confirmed then
    let path ← createSettings source form directory
    Work.printLine ("✅ Конфигурация создана: " ++ path)
  return 0

def runDownload (url : String) (output : Option String) : Work Nat := do
  let path ← match output.filter (· != "") with
    | some path => pure path
    | none => do liftExcept (← loadSettings (← Work.currentPath)).cachePath
  Work.printLine ("📥 Загрузка документа " ++ url ++ "...")
  let _ ← downloadDocument url (some path)
  Work.printLine ("💾 Документ сохранен в " ++ path)
  return 0

def writeShowing (generator : Generator) (apis : List Api) : Work WriteResult := do
  let before := (← getThe Workspace).reported.length
  let list : Work Unit := do
    let paths := (← getThe Workspace).reported.drop before
    paths.forM fun path => Work.printLine ("   📄 " ++ path)
  try
    let result ← generator.write apis
    list
    return result
  catch error =>
    list
    throw error

def isSet (source : DocumentSource) : Bool :=
  match source with
  | .program _ => true
  | .place value => value.isTrue

def chosenOperations (generator : Generator) (urls : List String) (all : Bool) :
    Work (List Operation × Generator) :=
  if !urls.isEmpty then generator.select urls
  else if all then generator.search none
  else askOperation generator

def runApi (urls : List String) (change : SettingsChange) (funcName : Option String)
    (all refresh : Bool) : Work Nat := do
  let settings := (← loadSettings (← Work.currentPath)).change change
  if !isSet settings.source then
    Work.printLine "❌ Ошибка: не указан адрес документа (input в конфигурации или -u)"
    return 1
  Work.printLine "📥 Загрузка документа..."
  let renew := refresh || (change.source.filter (· != "")).isSome
  let (_, generator) ← ({ settings : Generator }).load renew
  let (operations, generator) ← chosenOperations generator urls all
  if operations.isEmpty then
    Work.printLine "❌ Нет интерфейсов для генерации"
    return 1
  Work.printLine
    ("⚙️ Генерация кода для " ++ toString operations.length ++ " интерфейсов...")
  let (apis, generator) ← generator.generate operations funcName
  let result ← writeShowing generator apis
  Work.printLine "✅ Генерация завершена успешно!"
  Work.printLine ("   Функций: " ++ toString result.functions ++ ", моделей: " ++
    toString result.modelFiles.length)
  return 0

def usageText : String := "<usage>"

def Command.carryOut : Command → Work Nat
  | help => do
    Work.print usageText
    return 1
  | init source form => runInit source form
  | download url output => runDownload url output
  | api urls change funcName all refresh => runApi urls change funcName all refresh

def Command.run (command : Command) : Work Nat := do
  try command.carryOut
  catch error =>
    match error.shown? with
    | some text =>
      Work.printLine ("❌ Ошибка: " ++ text)
      return 1
    | none => throw error

end TypedClient.CommandLine
