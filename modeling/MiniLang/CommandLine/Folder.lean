/-!
# Folders

A folder is a value: the files in it and their bytes, and the folders within it.  Opening a path
gives the bytes of a file or says why there are none to read.  A path that leads out of the folder
finds only what every file system of the usual layout has.
-/

set_option autoImplicit false

namespace MiniLang.CommandLine

/-! ## Faults of opening -/

/-- Why a path cannot be opened for reading. -/
inductive OpenFault where
  | missing
  | folder
  /-- A file stands where the path needs a folder. -/
  | notFolder
  /-- The path, or a name in it, has too many bytes. -/
  | tooLong
  /-- Any other reason, in words. -/
  | other (reason : String)
  deriving DecidableEq, Repr, Inhabited

/-- The reason in words. -/
def OpenFault.message : OpenFault → String
  | .missing => "No such file or directory"
  | .folder => "Is a directory"
  | .notFolder => "Not a directory"
  | .tooLong => "File name too long"
  | .other reason => reason

/-! ## Paths and places -/

/-- The parts of a path between its slashes. -/
def pathParts : List Char → List (List Char)
  | [] => [[]]
  | c :: cs =>
    if c = '/' then [] :: pathParts cs
    else
      match pathParts cs with
      | [] => [[c]]
      | part :: more => (c :: part) :: more

/-- How many bytes a path may have. -/
def pathLimit : Nat := 4095

/-- How many bytes a name may have. -/
def nameLimit : Nat := 255

/-- A place in a file system. -/
inductive Place where
  /-- The names on the way to it from a folder. -/
  | inside (names : List (List Char))
  /-- The names on the way to it from the root. -/
  | rooted (names : List (List Char))
  /-- One of the folders that the folder itself is within. -/
  | above
  deriving DecidableEq, Repr, Inhabited

namespace Place

/-- The place that holds a place.  The root holds itself. -/
def back : Place → Place
  | .inside [] => .above
  | .inside names => .inside names.dropLast
  | .rooted names => .rooted names.dropLast
  | .above => .above

/-- The place of a given name in a place, where anything is known of it. -/
def enter (place : Place) (name : List Char) : Option Place :=
  match place with
  | .inside names => some (.inside (names ++ [name]))
  | .rooted names => some (.rooted (names ++ [name]))
  | .above => none

/-- Where one part of a path leads from a place.  An empty part and a dot stay, two dots go back. -/
def step (place : Place) (part : List Char) : Option Place :=
  if part = [] ∨ part = ['.'] then some place
  else if part = ['.', '.'] then some place.back
  else place.enter part

end Place

/-! ## Folders -/

/-- What stands at a place. -/
inductive Found where
  | nothing
  | folder
  | file (bytes : ByteArray)
  deriving Inhabited

/-- The entries of a folder by name: a file's bytes, or nothing for a folder.  The name of an entry
of an inner folder has the names on the way to it in front, with slashes between them. -/
structure Folder where
  entries : List (String × Option ByteArray)
  deriving Inhabited

namespace Folder

/-- The root of a file system of the usual layout: its folders, and the device that is always
empty. -/
def root : Folder :=
  ⟨[("bin", none), ("boot", none), ("dev", none), ("dev/null", some .empty), ("etc", none),
    ("home", none), ("lib", none), ("media", none), ("mnt", none), ("opt", none), ("proc", none),
    ("root", none), ("run", none), ("sbin", none), ("srv", none), ("sys", none), ("tmp", none),
    ("usr", none), ("usr/bin", none), ("usr/lib", none), ("usr/local", none), ("usr/sbin", none),
    ("usr/share", none), ("var", none), ("var/lib", none), ("var/log", none), ("var/tmp", none)]⟩

/-- What stands at the end of the way that some names tell.  A way that goes on to an entry ends at
a folder, and so does no way at all. -/
def find (folder : Folder) (names : List (List Char)) : Found :=
  match folder.entries.find? fun entry => pathParts entry.1.toList = names with
  | some (_, some bytes) => .file bytes
  | some (_, none) => .folder
  | none =>
    if names = [] ∨ folder.entries.any fun entry => names.isPrefixOf (pathParts entry.1.toList) then
      .folder
    else .nothing

/-- What stands at a place. -/
def look (folder : Folder) : Place → Found
  | .inside names => folder.find names
  | .rooted names => root.find names
  | .above => .folder

/-- Follows the parts of a path from a place to the bytes of a file. -/
def follow (folder : Folder) (place : Place) : List (List Char) → Except OpenFault ByteArray
  | [] =>
    match folder.look place with
    | .nothing => .error .missing
    | .folder => .error .folder
    | .file bytes => .ok bytes
  | part :: more =>
    match folder.look place with
    | .nothing => .error .missing
    | .file _ => .error .notFolder
    | .folder =>
      if nameLimit < (String.ofList part).utf8ByteSize then .error .tooLong
      else
        match place.step part with
        | none => .error .missing
        | some next => follow folder next more

/-- The bytes of the file that a path leads to.  A path that begins with a slash begins at the root,
and any other in the folder. -/
def read (folder : Folder) (path : String) : Except OpenFault ByteArray :=
  if pathLimit < path.utf8ByteSize then .error .tooLong
  else
    match path.toList with
    | [] => .error .missing
    | '/' :: cs => folder.follow (.rooted []) (pathParts cs)
    | cs => folder.follow (.inside []) (pathParts cs)

end Folder

end MiniLang.CommandLine
