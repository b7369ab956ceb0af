import AttributeGrammar.Fault

/-! A current directory with files and empty directories in it, and what opening a path gives.
-/
namespace AttributeGrammar.CommandLine
open Text

inductive DirectoryEntry where
  | file (bytes : List UInt8)
  | directory
deriving DecidableEq, Repr

structure Directory where
  entries : List (String × DirectoryEntry) := []
deriving DecidableEq, Repr

namespace Directory

def slashPieces (path : String) : List String := path.splitOn "/"

/-- Where a path has led so far. -/
inductive Place where
  | current
  | inside (entry : DirectoryEntry)
  | outside
deriving DecidableEq, Repr

def isFile : Place → Bool
  | .inside (.file _) => true
  | _ => false

def descend (directory : Directory) (name : String) : Place → Except FileFault Place
  | .current =>
    match directory.entries.find? fun entry => entry.1 == name with
    | some entry => .ok (.inside entry.2)
    | none => .error .absent
  | _ => .error .absent

def enter (directory : Directory) (name : String) (place : Place) : Except FileFault Place :=
  if isFile place then .error .throughFile
  else if name == "" || name == "." then .ok place
  else if name == ".." then
    match place with
    | .inside _ => .ok .current
    | _ => .ok .outside
  else if name.utf8ByteSize > 255 then .error .nameTooLong
  else descend directory name place

def follow (directory : Directory) : List String → Place → Except FileFault Place
  | [], place => .ok place
  | name :: rest, place => do follow directory rest (← enter directory name place)

/-- A path that begins with a slash leads outside, and an empty one nowhere. -/
def locate (directory : Directory) (path : String) : Except FileFault Place :=
  if path.utf8ByteSize ≥ 4096 then .error .nameTooLong
  else match slashPieces path with
  | [""] => .error .absent
  | "" :: rest => follow directory rest .outside
  | names => follow directory names .current

def read (directory : Directory) (path : String) : Except Fault (List UInt8) :=
  if path.toList.contains '\x00' then .error .nullByte
  else match directory.locate path with
    | .ok (.inside (.file bytes)) => .ok bytes
    | .ok _ => .error (.file .directory path)
    | .error fault => .error (.file fault path)

end Directory

/-- A path without empty and dot components; the empty path is the current directory. -/
def plainPath (path : String) : String :=
  let names := (Directory.slashPieces path).filter fun name => name != "" && name != "."
  let joined := String.intercalate "/" names
  if path.startsWith "/" then "/" ++ joined else if names.isEmpty then "." else joined

end AttributeGrammar.CommandLine
