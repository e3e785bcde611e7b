/-!
# Files by path

Where programs are read from, and what can be wrong with a path.

* `ReadError`      why a file cannot be read;
* `Folder.read`    the bytes of a file, for a folder that holds nothing but files.

A path is followed part by part.  A folder knows what it holds and that it lies in another one, of
which it knows nothing.
-/

namespace LineScript.Shell

/-! ## mistakes -/

inductive ReadError where
  | noSuchFile
  | isDirectory
  | notDirectory
  | nameTooLong
  | other (message : String)
deriving DecidableEq, Repr

def ReadError.message : ReadError → String
  | .noSuchFile => "No such file or directory (os error 2)"
  | .isDirectory => "Is a directory (os error 21)"
  | .notDirectory => "Not a directory (os error 20)"
  | .nameTooLong => "File name too long (os error 36)"
  | .other message => message

/-! ## folders -/

/-- the files of a folder; of two with one name the later counts -/
structure Folder where
  files : List (String × List UInt8)

/-- where the parts of a path lead -/
inductive Place where
  | here
  | outside
  | file (bytes : List UInt8)

namespace Folder

def longestName : Nat := 255

def longestPath : Nat := 4095

def file? (f : Folder) (name : String) : Option (List UInt8) :=
  (f.files.reverse.find? (·.1 == name)).map (·.2)

/-- one part further: an empty part and `.` stay, `..` goes out, and nothing is inside a file -/
def step (f : Folder) : Place → String → Except ReadError Place
  | .file _, _ => .error .notDirectory
  | place, "" => .ok place
  | place, "." => .ok place
  | _, ".." => .ok .outside
  | place, name =>
    if longestName < name.utf8ByteSize then .error .nameTooLong
    else match place, f.file? name with
      | .here, some bytes => .ok (.file bytes)
      | _, _ => .error .noSuchFile

def walk (f : Folder) (place : Place) : List String → Except ReadError Place
  | [] => .ok place
  | part :: parts => (f.step place part).bind (f.walk · parts)

def read (f : Folder) (path : String) : Except ReadError (List UInt8) :=
  if path = "" then .error .noSuchFile
  else if longestPath < path.utf8ByteSize then .error .nameTooLong
  else
    let parts := (path.toList.splitOn '/').map String.ofList
    let start := if path.toList.head? = some '/' then .outside else .here
    (f.walk start parts).bind fun
      | .file bytes => .ok bytes
      | _ => .error .isDirectory

end Folder

end LineScript.Shell
