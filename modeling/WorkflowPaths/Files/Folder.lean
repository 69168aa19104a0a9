import WorkflowPaths.Files.Basic

/-!
# Folders

A folder is a file system held in memory: a list of files with their contents, known by the names
on the way to them. A directory is there when a file lies below it. Paths are followed from the
folder itself, name by name, as an operating system does.

A folder lies in other directories, which hold nothing else. Their places begin with `..`, once
for each directory between, and places reached from the topmost directory begin with `/`.
-/

namespace WorkflowPaths

/-- A folder with files. -/
structure Folder where
  /-- The files: the names on the way to each, and its contents. -/
  files : List (List String × String)
deriving DecidableEq, Repr

namespace Folder

/-- The most bytes that a path may have. -/
def maxPathBytes : Nat := 4095

/-- The most bytes that a name on a path may have. -/
def maxNameBytes : Nat := 255

/-- The names on a path. -/
def names (path : String) : List String :=
  (path.splitOn "/").filter (· ≠ "")

/-- The folder with the given files; their names may have several parts. -/
def ofList (files : List (String × String)) : Folder :=
  ⟨files.map fun (path, text) => (names path, text)⟩

/-- The contents of the file at a place. -/
def fileAt? (f : Folder) (place : List String) : Option String :=
  f.files.lookup place

/-- A directory is at a place. -/
def isDirectory (f : Folder) (place : List String) : Bool :=
  place.all (· = "..") || place = ["/"] ||
    f.files.any fun (p, _) => place.isPrefixOf p && place ≠ p

/-- The directory around a place. The topmost directory is its own. -/
def above (place : List String) : List String :=
  if place = ["/"] then place
  else if place.all (· = "..") then place ++ [".."]
  else place.dropLast

/-- The place to which a name leads from a directory. -/
def enter (place : List String) (name : String) : Except FileFault (List String) :=
  if maxNameBytes < name.utf8ByteSize then .error .nameTooLong
  else if name = "." then .ok place
  else if name = ".." then .ok (above place)
  else .ok (place ++ [name])

/-- Follows the names of directories from a place. -/
def follow (f : Folder) (place : List String) : List String → Except FileFault (List String)
  | [] => .ok place
  | name :: rest => do
    let next ← enter place name
    if f.isDirectory next then f.follow next rest
    else if (f.fileAt? next).isSome then .error .notDirectory
    else .error .notFound

/-- The directory in which a path ends, and the last name of the path. A path without names stands
for the directory where it starts. -/
def approach (f : Folder) (path : String) : Except FileFault (List String × String) :=
  if path.contains (Char.ofNat 0) then .error .nulInName
  else if path = "" then .error .notFound
  else if maxPathBytes < path.utf8ByteSize then .error .nameTooLong
  else
    let start := if path.startsWith "/" then ["/"] else []
    match (names path).reverse with
    | [] => .ok (start, ".")
    | last :: before => do return (← f.follow start before.reverse, last)

/-- The text of the file at a path. -/
def read (f : Folder) (path : String) : Except FileFault String := do
  let (directory, name) ← f.approach path
  let place ← enter directory name
  if f.isDirectory place then .error .isDirectory
  else match f.fileAt? place with
    | some text => if path.endsWith "/" then .error .notDirectory else .ok text
    | none => .error .notFound

/-- The folder with a text as the contents of the file at a path. A slash at the end of the path
asks for a directory, whatever the last name is. -/
def write (f : Folder) (path text : String) : Except FileFault Folder := do
  let (directory, name) ← f.approach path
  if path.endsWith "/" then .error .isDirectory
  else
    let place ← enter directory name
    if f.isDirectory place then .error .isDirectory
    else .ok ⟨(place, text) :: f.files.filter (·.1 ≠ place)⟩

/-- The files of a folder that changes as they are written. -/
def access : Files (StateM Folder) where
  read path := do return (← get).read path
  write path text := do
    match (← get).write path text with
    | .ok f =>
      set f
      return .ok ()
    | .error fault => return .error fault

end Folder

end WorkflowPaths
