/-! # Files

What a command can see of a file system: a directory with files and directories in it, in which
paths are followed name by name.  What lies outside of that directory counts as a directory in
which nothing is found. -/

set_option autoImplicit false

namespace Highlighter.Command

inductive ReadFault where
  | missing
  | isDirectory
  | notDirectory
  | notText
  | system (code : Nat) (description : String)
deriving DecidableEq, Repr

def ReadFault.message : ReadFault → String
  | missing => "No such file or directory (os error 2)"
  | isDirectory => "Is a directory (os error 21)"
  | notDirectory => "Not a directory (os error 20)"
  | notText => "stream did not contain valid UTF-8"
  | system code description => s!"{description} (os error {code})"

inductive Node where
  | directory
  | file (content : ByteArray)

/-- The entries of a directory and of those in it, each under the names that lead to it. -/
structure Files where
  entries : List (List String × Node)

namespace Files

def empty : Files := ⟨[]⟩

def names (path : String) : List String := path.splitOn "/"

def route (path : String) : List String :=
  (names path).filter fun name => name != "" && name != "."

def addDirectory (files : Files) (path : String) : Files :=
  ⟨(route path, .directory) :: files.entries⟩

def addFile (files : Files) (path : String) (content : ByteArray) : Files :=
  ⟨(route path, .file content) :: files.entries⟩

/-- What the given names lead to.  Above an entry there are only directories. -/
def find? (files : Files) (route : List String) : Option Node :=
  match files.entries.find? (·.1 == route) with
  | some entry => some entry.2
  | none => if files.entries.any fun entry => route.isPrefixOf entry.1 then some .directory else none

/-- Reads what `names` lead to from a directory, given by the names that lead to it, or none for
one outside. -/
def readFrom (files : Files) (place : Option (List String)) :
    List String → Except ReadFault ByteArray
  | [] => .error .isDirectory
  | name :: names =>
    if name = "" ∨ name = "." then files.readFrom place names
    else if name = ".." then
      match place with
      | some (_ :: above) => files.readFrom (some above) names
      | _ => files.readFrom none names
    else match place with
      | none => .error .missing
      | some place =>
        match files.find? (place.reverse ++ [name]) with
        | none => .error .missing
        | some .directory => files.readFrom (some (name :: place)) names
        | some (.file content) => if names.isEmpty then .ok content else .error .notDirectory

def read (files : Files) (path : String) : Except ReadFault ByteArray :=
  if path.isEmpty then .error .missing
  else files.readFrom (if path.toList.head? = some '/' then none else some []) (names path)

end Files

end Highlighter.Command
