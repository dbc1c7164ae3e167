import YamlLayout.Error
import YamlLayout.Text.Utf8

/-! A tree of files, given by the paths of its files and directories; every parent
of a listed path is a directory. Looking a path up fails the way opening it would. -/
namespace YamlLayout.CommandLine

inductive Entry where
  | file (content : Bytes)
  | directory
  deriving DecidableEq

/-- Later entries replace earlier ones of the same path. -/
abbrev FileTable := List (String × Entry)

namespace FileTable

def notFound : Error := .io "No such file or directory (os error 2)"
def notDirectory : Error := .io "Not a directory (os error 20)"
def isDirectory : Error := .io "Is a directory (os error 21)"
def nameTooLong : Error := .io "File name too long (os error 36)"
def nameHoldsNul : Error := .io "file name contained an unexpected NUL byte"

def parts (path : String) : List String := (path.toList.splitOn '/').map String.ofList

def steps (path : String) : List String := (parts path).filter fun s => s != "" && s != "."

def at? (table : FileTable) (place : List String) : Option Entry :=
  if place.isEmpty then some .directory
  else match table.reverse.find? (fun entry => steps entry.1 == place) with
    | some (_, entry) => some entry
    | none =>
      if table.any (fun entry => place.isPrefixOf (steps entry.1)) then some .directory else none

def walk (table : FileTable) : List String → List String → Except Error Entry
  | place, [] => (table.at? place).elim (.error notFound) .ok
  | place, s :: rest =>
    match table.at? place with
    | none => .error notFound
    | some (.file _) => .error notDirectory
    | some .directory =>
      if 255 < (Utf8.ofString s).length then .error nameTooLong
      else if s = "" || s = "." then walk table place rest
      else if s = ".." then
        if place.isEmpty then outside rest else walk table place.dropLast rest
      else walk table (place ++ [s]) rest
where
  /-- Above the tree there are directories, and no name in them is known. -/
  outside : List String → Except Error Entry
    | [] => .ok .directory
    | s :: rest => if ["", ".", ".."].contains s then outside rest else .error notFound

def lookup (table : FileTable) (path : String) : Except Error Entry :=
  if path.startsWith "/" then walk.outside (parts path) else table.walk [] (parts path)

def read (table : FileTable) (path : String) : Except Error Bytes :=
  if path.toList.contains '\x00' then .error nameHoldsNul
  else if path = "" then .error notFound
  else if 4095 < (Utf8.ofString path).length then .error nameTooLong
  else match table.lookup path with
    | .ok (.file content) => .ok content
    | .ok .directory => .error isDirectory
    | .error e => .error e

end FileTable
end YamlLayout.CommandLine
