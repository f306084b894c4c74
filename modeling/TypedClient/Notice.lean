import TypedClient.Error
import TypedClient.Text.Case

namespace TypedClient

inductive Notice
  | noOperation (url : String)
  | noSchema (key : String)
  | hookFailed (method url : String)
  | hookEmpty (url : String)
  deriving DecidableEq, Repr

def Notice.text : Notice → String
  | noOperation url => "WARNING Не найден подходящий интерфейс: " ++ url
  | noSchema key => "ERROR Схема не найдена: " ++ key
  | hookFailed method url => "ERROR Ошибка в funcTpl для " ++ upperText method ++ " " ++ url
  | hookEmpty url =>
    "WARNING funcTpl вернул пустой результат для " ++ url ++ ", используется шаблон"

abbrev Noted := ExceptT Error (StateM (List Notice))

def notify (notice : Notice) : Noted Unit := modifyThe (List Notice) (· ++ [notice])

def Noted.outcome {α : Type} (action : Noted α) : Except Error α × List Notice :=
  (ExceptT.run action).run []

end TypedClient
