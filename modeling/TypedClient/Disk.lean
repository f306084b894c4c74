import TypedClient.Path

namespace TypedClient

abbrev Place := List String

inductive Content
  | text (s : String)
  | binary (bytes : List UInt8)
  deriving DecidableEq

def Content.ofBytes (bytes : List UInt8) : Content :=
  match String.fromUTF8? ⟨bytes.toArray⟩ with
  | some s => text s
  | none => binary bytes

structure Disk where
  directories : List Place := [[]]
  files : List (Place × Content) := []
  deriving DecidableEq

namespace Disk

def above (place : Place) : List Place := (List.range (place.length + 1)).map place.take

def bare (directory : Place) : Disk := { directories := above directory }

def isDirectory (disk : Disk) (place : Place) : Bool := disk.directories.contains place

def file? (disk : Disk) (place : Place) : Option Content := disk.files.lookup place

/-- The place that a way leads to; every step has to come from a directory, and a name has at most
255 bytes. -/
def walk (disk : Disk) : Place → List String → Except PathFault Place
  | place, [] => .ok place
  | place, part :: rest =>
    if !disk.isDirectory place then
      .error (if (disk.file? place).isSome then .notDirectory else .missing)
    else if 255 < part.utf8ByteSize then .error .tooLong
    else disk.walk (Path.enter place part) rest

def locate (disk : Disk) (directory : Place) (path : String) : Except PathFault Place :=
  if path == "" then .error .missing
  else if path.toList.contains '\x00' then .error .zero
  else if 4096 ≤ path.utf8ByteSize then .error .tooLong
  else disk.walk (if Path.isAbsolute path then [] else directory) (Path.parts path)

/-- The file at a path, with its place; a path that ends in a slash leads to no file. -/
def fileAt? (disk : Disk) (directory : Place) (path : String) : Option (Place × Content) := do
  let place ← (disk.locate directory path).toOption
  if Path.endsWith "/" path then none
  else return (place, ← disk.file? place)

def isDirectoryAt (disk : Disk) (directory : Place) (path : String) : Bool :=
  (disk.locate directory path).toOption.any disk.isDirectory

def put (disk : Disk) (place : Place) (content : Content) : Disk :=
  if (disk.file? place).isSome then
    { disk with
      files := disk.files.map fun file => if file.1 == place then (place, content) else file }
  else { disk with files := disk.files ++ [(place, content)] }

def makeDirectory (disk : Disk) (place : Place) : Except PathFault Disk :=
  if disk.isDirectory place then .ok disk
  else if (disk.file? place).isSome then .error .notDirectory
  else if place.any fun part => part.toList.contains '\x00' then .error .zero
  else if place.any (255 < ·.utf8ByteSize) then .error .tooLong
  else .ok { disk with directories := disk.directories ++ [place] }

def makeDirectories (disk : Disk) : List Place → Disk × Option PathFault
  | [] => (disk, none)
  | place :: rest =>
    match disk.makeDirectory place with
    | .ok disk => disk.makeDirectories rest
    | .error fault => (disk, some fault)

def changes (before after : Disk) : List (Place × Content) :=
  after.files.filter fun file => before.file? file.1 != some file.2

/-- Where a file may be written: inside a directory, and not where a directory stands. -/
def target (disk : Disk) (directory : Place) (path : String) : Except PathFault Place := do
  let place ← disk.locate directory path
  if Path.endsWith "/" path || disk.isDirectory place then throw .directory
  return place

end Disk

end TypedClient
