/-!
# Files

A tree of directories and files, and what a path in it leads to. A path is followed name by name
from the place where one stands, or from the outermost directory if it starts with a slash. Every
name but the last has to lead to a directory, and so has the last one if a slash follows it.
-/

namespace Monkey.Files

set_option autoImplicit false

/-- What stands in the way of reading a file. -/
inductive Fault where
  | missing
  | notDirectory
  | isDirectory
  | nameTooLong
  | notPermitted
  /-- The path holds a character that no path can hold. -/
  | unusable
  deriving Repr, DecidableEq

namespace Fault

/-- The number that the operating system gives to a fault. -/
def code : Fault → Nat
  | missing => 2
  | notPermitted => 13
  | notDirectory => 20
  | isDirectory => 21
  | unusable => 22
  | nameTooLong => 36

def description : Fault → String
  | missing => "No such file or directory"
  | notPermitted => "Permission denied"
  | notDirectory => "Not a directory"
  | isDirectory => "Is a directory"
  | unusable => "Invalid argument"
  | nameTooLong => "File name too long"

end Fault

inductive Entry where
  | file (bytes : List UInt8)
  | directory (entries : List (String × Entry))

namespace Entry

/-- The entries of a directory with one more, or with another one under the same name. -/
def replace (name : String) (e : Entry) (entries : List (String × Entry)) :
    List (String × Entry) :=
  (name, e) :: entries.filter fun p => p.1 != name

/-- Puts an entry where the names lead to. Directories that are not there are made. -/
def put (e : Entry) : List String → Entry → Entry
  | [], _ => e
  | n :: ns, directory entries =>
    directory (replace n (e.put ns ((entries.lookup n).getD (directory []))) entries)
  | n :: ns, file _ => directory [(n, e.put ns (directory []))]

end Entry

/-- The longest name of an entry and the longest path, in bytes. -/
def maxName : Nat := 255

def maxPath : Nat := 4095

/-- The names in a path; there is an empty name wherever no name stands beside a slash. -/
def names (path : String) : List String :=
  (path.toList.splitOn '/').map String.ofList

def isAbsolute (path : String) : Bool :=
  path.toList.head? == some '/'

/-- A path without needless slashes and dots, also at its end. -/
def tidy (path : String) : String :=
  let kept := (names path).filter fun n => n != "" && n != "."
  let joined := "/".intercalate kept
  if isAbsolute path then "/" ++ joined else if kept = [] then "." else joined

/-- An entry, and the directories around it, the innermost one first. -/
structure Place where
  around : List Entry
  here : Entry

namespace Place

def top (p : Place) : Place :=
  match p.around.getLast? with
  | none => p
  | some e => ⟨[], e⟩

/-- Follows one name. Two dots lead outward, and stay where nothing is outside. -/
def follow (p : Place) (name : String) : Except Fault Place :=
  match p.here with
  | .file _ => .error .notDirectory
  | .directory entries =>
    if name = "" ∨ name = "." then .ok p
    else if name = ".." then
      match p.around with
      | [] => .ok p
      | e :: es => .ok ⟨es, e⟩
    else if maxName < name.utf8ByteSize then .error .nameTooLong
    else
      match entries.lookup name with
      | none => .error .missing
      | some e => .ok ⟨p.here :: p.around, e⟩

def walk (p : Place) (path : String) : Except Fault Place :=
  if '\x00' ∈ path.toList then .error .unusable
  else if path = "" then .error .missing
  else if maxPath < path.utf8ByteSize then .error .nameTooLong
  else (names path).foldlM follow (if isAbsolute path then p.top else p)

def read (p : Place) (path : String) : Except Fault (List UInt8) :=
  match p.walk path with
  | .error f => .error f
  | .ok q =>
    match q.here with
    | .file bytes => .ok bytes
    | .directory _ => .error .isDirectory

end Place

/-- What was found at a path: is there anything, and what it holds. The two can disagree, since a
slash at the end of the path counts only for reading. -/
structure Finding where
  present : Except Fault Bool
  content : Except Fault (List UInt8)

/-- Is there anything where a fault stands in the way of reading? Too long a name is no answer. -/
def Fault.present : Fault → Except Fault Bool
  | isDirectory => .ok true
  | notPermitted => .ok true
  | nameTooLong => .error nameTooLong
  | _ => .ok false

/-- What is found by reading at the tidy path and at the path itself. -/
def Finding.of (tidied content : Except Fault (List UInt8)) : Finding where
  present :=
    match tidied with
    | .ok _ => .ok true
    | .error f => f.present
  content := content

def Place.find (p : Place) (path : String) : Finding :=
  .of (p.read (tidy path)) (p.read path)

end Monkey.Files
