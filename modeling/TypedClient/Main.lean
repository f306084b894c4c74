import TypedClient.CommandLine.Commands

/-!
The program. It carries a command out on the files under the current directory and then writes what
has changed. It reaches no web.
-/

namespace TypedClient.CommandLine

def foreignDirectories : List String := [".git", "node_modules"]

/-- Adds what lies in a directory to a disk. -/
partial def addTree (disk : Disk) (place : Place) : IO Disk := do
  let directory ← IO.FS.realPath ("/" ++ "/".intercalate place)
  let mut disk := disk
  for entry in ← directory.readDir do
    let place := place ++ [entry.fileName]
    if foreignDirectories.contains entry.fileName then continue
    else if ← entry.path.isDir then
      disk ← addTree { disk with directories := disk.directories ++ [place] } place
    else if ← entry.path.pathExists then
      disk := disk.put place (.ofBytes (← IO.FS.readBinFile entry.path).toList)
  return disk

/-- Carries a command out. Where it lacks a line of input it starts anew with one line more, so that
each line is only read after its question has been shown. -/
partial def converse (command : Command) (workspace : Workspace) (shown : Nat) :
    IO (Except Error Nat × Workspace) := do
  let (result, after) := (ExceptT.run command.run).run workspace
  let stdout ← IO.getStdout
  stdout.putStr (String.ofList (after.printed.toList.drop shown))
  stdout.flush
  match result with
  | .error .endOfInput =>
    let line ← (← IO.getStdin).getLine
    if line.isEmpty then return (result, after)
    let text := String.ofList (line.toList.filter (· != '\n'))
    converse command { workspace with input := workspace.input ++ [text] } after.printed.length
  | _ => return (result, after)

def writeContent (file : Place × Content) : IO Unit := do
  IO.FS.createDirAll ("/" ++ "/".intercalate file.1.dropLast)
  let path := "/" ++ "/".intercalate file.1
  match file.2 with
  | .text s => IO.FS.writeFile path s
  | .binary bytes => IO.FS.writeBinFile path ⟨bytes.toArray⟩

def carryOutHere (command : Command) : IO UInt32 := do
  let directory := Path.parts (← IO.currentDir).toString
  let disk ← addTree (.bare directory) directory
  let (result, workspace) ← converse command { directory, disk } 0
  for notice in workspace.notices do
    IO.eprintln notice.text
  (Disk.changes disk workspace.disk).forM writeContent
  match result with
  | .ok code => return UInt32.ofNat code
  | .error _ => return 1

end TypedClient.CommandLine

open TypedClient.CommandLine in
def main (args : List String) : IO UInt32 := do
  match readArguments args with
  | .ok command => carryOutHere command
  | .error .help =>
    IO.println usageText
    return 0
  | .error .usage =>
    IO.eprintln usageText
    return 2
