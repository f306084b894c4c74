import TypedClient.Disk
import TypedClient.Notice
import TypedClient.Text.Lines

/-!
What the generator works on: a disk seen from a directory, answers of the web, and lines of input;
and what it leaves behind: files, notices, requests and printed text.
-/

namespace TypedClient

inductive WebAnswer
  | failed (text : String)
  | reply (status : Nat) (body : String)
  deriving DecidableEq, Repr

structure Workspace where
  directory : Place := []
  disk : Disk := {}
  web : List (String × WebAnswer) := []
  input : List String := []
  notices : List Notice := []
  requests : List String := []
  reported : List String := []
  printed : String := ""
  deriving DecidableEq

abbrev Work := ExceptT Error (StateM Workspace)

namespace Work

def ofNoted {α : Type} (action : Noted α) : Work α :=
  ExceptT.mk fun workspace =>
    let (result, notices) := action.outcome
    (result, { workspace with notices := workspace.notices ++ notices })

def report (path : String) : Work Unit :=
  modifyThe Workspace fun workspace => { workspace with reported := workspace.reported ++ [path] }

def print (text : String) : Work Unit :=
  modifyThe Workspace fun workspace => { workspace with printed := workspace.printed ++ text }

def printLine (text : String) : Work Unit := print (text ++ "\n")

def ask (question : String) : Work String := do
  print question
  match (← getThe Workspace).input with
  | [] => throw .endOfInput
  | line :: rest =>
    modifyThe Workspace fun workspace => { workspace with input := rest }
    return line

def fileAt? (path : String) : Work (Option (Place × Content)) := do
  let workspace ← getThe Workspace
  return workspace.disk.fileAt? workspace.directory path

def isFile (path : String) : Work Bool := return (← fileAt? path).isSome

def exists? (path : String) : Work Bool := do
  let workspace ← getThe Workspace
  return (← isFile path) || workspace.disk.isDirectoryAt workspace.directory path

/-- The text of a file with its line breaks unified; empty if there is no file. -/
def fileText (path : String) : Work String := do
  match ← fileAt? path with
  | none => return ""
  | some (_, .text s) => return String.ofList (Text.unifyBreaks s.toList)
  | some (_, .binary _) => throw .unreadableText

def replaceFile (failure : PathFault → Error) (path text : String) : Work Unit := do
  let workspace ← getThe Workspace
  match workspace.disk.target workspace.directory path with
  | .ok place => set { workspace with disk := workspace.disk.put place (.text text) }
  | .error fault => throw (failure fault)

/-- Writes a file and makes the directories on the way to it, which stay if the writing fails. -/
def saveFile (path text : String) : Work Unit := do
  let workspace ← getThe Workspace
  let place := Path.absolute workspace.directory path
  let (disk, fault) := workspace.disk.makeDirectories (Disk.above place.dropLast)
  set { workspace with disk }
  match fault with
  | some fault => throw (.ofWriting path fault)
  | none => replaceFile (.ofWriting path) path text

end Work

end TypedClient
