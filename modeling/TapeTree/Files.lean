/-! A directory of files, and what opening a path in it leads to. -/

namespace TapeTree

inductive FileFault where
  | missing
  | isDirectory
  | notDirectory
  | nameTooLong
  | nullCharacter
deriving DecidableEq

structure Directory where
  files : List (String × ByteArray)

namespace Directory

inductive Place where
  | inside
  /-- The directories around this one, of which nothing else is known. -/
  | outside
  | file (contents : ByteArray)

def nameLimit : Nat := 255

def pathLimit : Nat := 4095

def follow (directory : Directory) (place : Place) (part : String) : Except FileFault Place :=
  match place with
  | .file _ => .error .notDirectory
  | _ =>
      if part = "" || part = "." then .ok place
      else if part = ".." then .ok .outside
      else if nameLimit < part.utf8ByteSize then .error .nameTooLong
      else
        match place, directory.files.find? fun file => file.1 = part with
        | .inside, some file => .ok (.file file.2)
        | _, _ => .error .missing

def readParts (directory : Directory) (place : Place) :
    List String → Except FileFault ByteArray
  | [] =>
      match place with
      | .file contents => .ok contents
      | _ => .error .isDirectory
  | part :: rest =>
      match directory.follow place part with
      | .ok next => directory.readParts next rest
      | .error fault => .error fault

def read (directory : Directory) (path : String) : Except FileFault ByteArray :=
  if path.toList.contains '\x00' then .error .nullCharacter
  else if path = "" then .error .missing
  else if pathLimit < path.utf8ByteSize then .error .nameTooLong
  else
    directory.readParts (if path.toList.head? = some '/' then .outside else .inside)
      (path.splitOn "/")

end Directory

/-- A path without the parts that lead nowhere. The empty path becomes a single dot, and of the
slashes in front one stays, or two if there are just two. -/
def tidyPath (path : String) : String :=
  let root :=
    match path.toList with
    | '/' :: '/' :: '/' :: _ => "/"
    | '/' :: '/' :: _ => "//"
    | '/' :: _ => "/"
    | _ => ""
  let tidy := root ++ "/".intercalate ((path.splitOn "/").filter fun part =>
    part ≠ "" && part ≠ ".")
  if tidy = "" then "." else tidy

end TapeTree
