/-
A disk: directories and text files.

Paths are looked up from the working directory, one part after the other.  A part can only be
entered from a directory, so that `missing/../file` does not exist although `file` does.

* `Disk` — the directories and the files;
* `Disk.entry` — what is at a path;
* `Disk.save` — writing a file, with the directories it needs;
* `Disk.tree` — the disk as a tree of sources.
-/

import GoApiDoc.SourceTree

set_option autoImplicit false

namespace GoApiDoc

open Path (Part)

/-! ### Errors -/

/-- What can go wrong on a disk. -/
inductive DiskError where
  | notFound
  | taken
  | notDirectory
  | isDirectory
deriving DecidableEq

def DiskError.message : DiskError → String
  | notFound => "No such file or directory (os error 2)"
  | taken => "File exists (os error 17)"
  | notDirectory => "Not a directory (os error 20)"
  | isDirectory => "Is a directory (os error 21)"

/-! ### Directories and files -/

/-- Directories and text files, each by the parts of its path from the working directory. -/
structure Disk where
  directories : List (List Part) := [[]]
  files : List (List Part × String) := []

/-- What is at a path. -/
inductive DiskEntry where
  | directory
  | file (text : String)
deriving DecidableEq

namespace Disk

def hasDirectory (d : Disk) (place : List Part) : Bool := d.directories.contains place

def textAt? (d : Disk) (place : List Part) : Option String :=
  (d.files.find? fun e => e.1 == place).map (·.2)

def enter (d : Disk) (place : List Part) (p : Part) : Except DiskError (List Part) :=
  if d.hasDirectory place then
    match p with
    | .root => .ok [.root]
    | .here => .ok place
    | .up => .ok (if (Path.lastName? place).isSome then place.dropLast else place ++ [.up])
    | .name s => .ok (place ++ [.name s])
  else if (d.textAt? place).isSome then .error .notDirectory
  else .error .notFound

def locate (d : Disk) (ps : List Part) : Except DiskError (List Part) := ps.foldlM d.enter []

def entry (d : Disk) (path : String) : Except DiskError DiskEntry :=
  match d.locate (Path.parts path) with
  | .error e => .error e
  | .ok place =>
    if d.hasDirectory place then .ok .directory
    else
      match d.textAt? place with
      | none => .error .notFound
      | some text => if Path.namesDirectory path then .error .notDirectory else .ok (.file text)

def hasEntry (d : Disk) (path : String) : Bool :=
  match d.entry path with
  | .ok _ => true
  | .error _ => false

def isDirectory (d : Disk) (path : String) : Bool :=
  match d.entry path with
  | .ok .directory => true
  | _ => false

def read (d : Disk) (path : String) : Except DiskError String :=
  match d.entry path with
  | .ok (.file text) => .ok text
  | .ok .directory => .error .isDirectory
  | .error e => .error e

/-! ### Writing -/

def putFile (place : List Part) (text : String) :
    List (List Part × String) → List (List Part × String)
  | [] => [(place, text)]
  | (p, t) :: files =>
    if place = p then (place, text) :: files
    else if Path.partsLe place p then (place, text) :: (p, t) :: files
    else (p, t) :: putFile place text files

def makeDirectory (d : Disk) (ps : List Part) : Except DiskError Disk :=
  match d.locate ps with
  | .error e => .error e
  | .ok place =>
    if d.hasDirectory place || (d.textAt? place).isSome then .error .taken
    else .ok { d with directories := place :: d.directories }

/-- The result of making a directory, where one that was there already is as good. -/
def orPresent (d : Disk) (ps : List Part) : Except DiskError Disk → Except DiskError Disk
  | .ok d => .ok d
  | .error e =>
    match d.locate ps with
    | .ok place => if d.hasDirectory place then .ok d else .error e
    | .error _ => .error e

/-- Makes a directory and those above it that are missing; the parts are given from the last to the
first. -/
def makeDirectories (d : Disk) : List Part → Except DiskError Disk
  | [] => .ok d
  | p :: above =>
    let ps := (p :: above).reverse
    match d.makeDirectory ps with
    | .error .notFound =>
      match makeDirectories d above with
      | .ok d => d.orPresent ps (d.makeDirectory ps)
      | .error e => .error e
    | result => d.orPresent ps result

def writeFile (d : Disk) (path text : String) : Except DiskError Disk :=
  match d.locate (Path.parts path) with
  | .error e => .error e
  | .ok place =>
    if d.hasDirectory place then .error .isDirectory
    else if d.hasDirectory place.dropLast then
      .ok { d with files := putFile place text d.files }
    else .error .notFound

/-- The disk with a file added, and the directories on the way to it. -/
def addFile (d : Disk) (path text : String) : Disk :=
  let ps := Path.parts path
  match d.makeDirectories ps.dropLast.reverse with
  | .error _ => d
  | .ok d =>
    match d.writeFile path text with
    | .ok d => d
    | .error _ => d

def ofFiles (entries : List (String × String)) : Disk :=
  entries.foldl (fun d e => d.addFile e.1 e.2) {}

/-! ### Sources -/

/-- The files below a directory at a place, as paths that begin with `root`. -/
def filesBelow (d : Disk) (root : String) (place : List Part) (keep : List Part → Bool) :
    List String :=
  d.files.filterMap fun e =>
    match Path.below? place e.1 with
    | some below =>
      if SourceTree.keptBelow keep (Path.parts root) below then
        some (Path.join root (Path.ofParts below))
      else none
    | none => none

def tree (d : Disk) : SourceTree where
  list := fun root keep =>
    match d.locate (Path.parts root) with
    | .ok place =>
      if d.hasDirectory place then .ok (d.filesBelow root place keep)
      else .error (.io root "not a directory")
    | .error _ => .error (.io root "not a directory")
  read := fun path =>
    match d.read path with
    | .ok text => .ok text
    | .error e => .error (.io path e.message)
  isFile := fun path =>
    match d.entry path with
    | .ok (.file _) => true
    | _ => false

end Disk

end GoApiDoc
