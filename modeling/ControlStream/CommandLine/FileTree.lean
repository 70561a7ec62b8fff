import ControlStream.Text.Fields

/-!
# Files in memory

A directory of files given by their paths, for running the command line without a file system.

## Main definitions

* `FileTree`: the files of a directory and of those in it.
* `FileTree.read`: the contents of a file, or the reason why there are none.
-/

namespace ControlStream

/-- The files of a directory, by their paths, and those of the directories in it. -/
structure FileTree where
  /-- The names on the way to each file, and its contents. -/
  files : List (List String × List UInt8)

inductive FileError
  | notFound
  | isDirectory
  | notDirectory
  deriving DecidableEq, Repr

def FileError.message : FileError → String
  | notFound => "No such file or directory (os error 2)"
  | isDirectory => "Is a directory (os error 21)"
  | notDirectory => "Not a directory (os error 20)"

namespace FileTree

def namesOf (path : String) : List String :=
  ((fieldsOf '/' path.toList).map String.ofList).filter (· ≠ "")

def ofFiles (files : List (String × List UInt8)) : FileTree :=
  ⟨files.map fun f => (namesOf f.1, f.2)⟩

def contents? (t : FileTree) (names : List String) : Option (List UInt8) :=
  (t.files.find? (·.1 = names)).map (·.2)

/-- There is a file below some names. The directory itself is always there. -/
def isDirectory (t : FileTree) (names : List String) : Bool :=
  names.isEmpty || t.files.any fun f => names.isPrefixOf f.1 && names.length < f.1.length

/-- Follow names that lead away from the tree, from the root of all directories or from one above
the tree. Nothing is known there but the directories on the way up. -/
def followOutside (names : List String) : Except FileError (List UInt8) :=
  if names.all fun name => name = "." || name = ".." then .error .isDirectory
  else .error .notFound

/-- Follow names from a directory, given by the names on the way to it, to a file. -/
def follow (t : FileTree) (directory : List String) : List String → Except FileError (List UInt8)
  | [] => .error .isDirectory
  | "." :: names => t.follow directory names
  | ".." :: names =>
    if directory.isEmpty then followOutside names else t.follow directory.dropLast names
  | name :: names =>
    let here := directory ++ [name]
    if t.isDirectory here then t.follow here names
    else
      match t.contents? here, names with
      | none, _ => .error .notFound
      | some bytes, [] => .ok bytes
      | some _, _ :: _ => .error .notDirectory

/-- The contents of the file a path leads to. A path that starts at the root of all directories
does not lead into the tree. -/
def read (t : FileTree) (path : String) : Except FileError (List UInt8) :=
  match path.toList.head?, path.toList.getLast? with
  | none, _ => .error .notFound
  | some '/', _ => followOutside (namesOf path)
  | _, some '/' =>
    match t.follow [] (namesOf path) with
    | .ok _ => .error .notDirectory
    | .error e => .error e
  | _, _ => t.follow [] (namesOf path)

end FileTree

end ControlStream
