/-
A run of the command line: from arguments and a disk to files.

* `RunError` — what can go wrong;
* `Arguments.check` — whether the arguments make sense;
* `Arguments.settings` — the settings they describe;
* `Arguments.outputs` — the files to be written;
* `Disk.run` — the disk after a run.
-/

import GoApiDoc.Build
import GoApiDoc.CommandLine.Arguments
import GoApiDoc.Disk
import GoApiDoc.OutputType

set_option autoImplicit false

namespace GoApiDoc

/-! ### Errors -/

/-- What can go wrong in a run. -/
inductive RunError where
  | noSearchDirectory
  | missingDirectory (dir : String)
  | propertyStrategy (name : String)
  | collectionFormat (name : String)
  | outputTypes (cause : OutputType.ListError)
  | unreadOverrides (path : String) (cause : DiskError)
  | badOverrides (path : String) (cause : Overrides.BadLine)
  | build (cause : DocError)
  | makeDirectory (path : String) (cause : DiskError)
  | writeFile (path : String) (cause : DiskError)

def DocError.cause? : DocError → Option String
  | source _ cause => some cause.message
  | io _ text => some text
  | _ => none

def RunError.message : RunError → String
  | noSearchDirectory => "At least one search directory is required"
  | missingDirectory dir => "Search directory does not exist: " ++ dir
  | propertyStrategy name =>
    "Unsupported property strategy: " ++ name ++ " (expected snakecase, camelcase or pascalcase)"
  | collectionFormat name => "Unsupported collection format: " ++ name
  | outputTypes cause => cause.message
  | unreadOverrides path cause =>
    "Failed to read overrides file: " ++ path ++ ": " ++ cause.message
  | badOverrides path cause => "Invalid overrides file: " ++ path ++ ": " ++ cause.message
  | build cause =>
    Text.joinWith ": "
      (["Failed to generate the Swagger document", cause.message] ++ cause.cause?.toList)
  | makeDirectory path cause => "Failed to create directory: " ++ path ++ ": " ++ cause.message
  | writeFile path cause => "Failed to write to file: " ++ path ++ ": " ++ cause.message

/-! ### Arguments -/

namespace Arguments

def naming (a : Arguments) : Except RunError Naming :=
  match Naming.ofText? a.propertyStrategy with
  | some n => .ok n
  | none => .error (.propertyStrategy a.propertyStrategy)

def formats (a : Arguments) : Except RunError (List OutputType) :=
  match OutputType.parseList a.outputTypes with
  | .ok types => .ok types
  | .error e => .error (.outputTypes e)

/-- The arguments make sense: the directories exist, and the names are known. -/
def check (a : Arguments) (disk : Disk) : Except RunError Unit := do
  if a.searchDirs.isEmpty then throw .noSearchDirectory
  match a.searchDirs.find? fun dir => !disk.isDirectory dir with
  | some dir => throw (.missingDirectory dir)
  | none => pure ()
  let _ ← a.naming
  if !collectionFormats.contains a.collectionFormat then throw (.collectionFormat a.collectionFormat)
  let _ ← a.formats
  return ()

/-- The replaced types; the usual file need not exist. -/
def overrides (a : Arguments) (disk : Disk) : Except RunError Overrides :=
  if Path.same a.overridesFile defaultOverridesFile && !disk.hasEntry a.overridesFile then .ok []
  else
    match disk.read a.overridesFile with
    | .error e => .error (.unreadOverrides a.overridesFile e)
    | .ok text =>
      match Overrides.parse text with
      | .ok t => .ok t
      | .error e => .error (.badOverrides a.overridesFile e)

def settings (a : Arguments) (disk : Disk) (goroot : Option String) : Except RunError Settings := do
  let naming ← a.naming
  let overrides ← a.overrides disk
  return {
    naming := naming, strict := a.strict, requiredByDefault := a.requiredByDefault
    parseDependency := a.parseDependency, parseVendor := a.parseVendor
    parseInternal := a.parseInternal, excludes := a.excludes
    collectionFormat := a.collectionFormat, overrides := overrides
    tags := TagFilter.parse a.tags, goroot := goroot }

def project (a : Arguments) (disk : Disk) (goroot : Option String) : Except RunError Project := do
  let settings ← a.settings disk goroot
  return {
    tree := disk.tree, settings := settings, dirs := a.searchDirs, main := a.generalInfo
    assets := Assets.ofDirectories disk.tree a.markdownFiles a.codeExampleFiles
    dependencies := some (.error (.dependency ("failed to run go: " ++ DiskError.notFound.message))) }

def outputs (a : Arguments) (disk : Disk) (goroot : Option String) :
    Except RunError (List (String × String)) := do
  a.check disk
  let project ← a.project disk goroot
  let formats ← a.formats
  match project.build with
  | .error e => throw (.build e)
  | .ok document =>
    return formats.map fun f => (Path.join a.output f.fileName, f.render document)

end Arguments

/-! ### Writing -/

namespace Disk

def save (d : Disk) (path text : String) : Except RunError Disk :=
  let dir := Path.dirText path
  match d.makeDirectories (Path.parts dir).reverse with
  | .error e => .error (.makeDirectory dir e)
  | .ok d =>
    match d.writeFile path text with
    | .error e => .error (.writeFile path e)
    | .ok d => .ok d

/-- Writes files up to the first error. -/
def saveAll (d : Disk) : List (String × String) → Disk × Option RunError
  | [] => (d, none)
  | (path, text) :: files =>
    match d.save path text with
    | .ok d => saveAll d files
    | .error e => (d, some e)

def run (d : Disk) (a : Arguments) (goroot : Option String) : Disk × Option RunError :=
  match a.outputs d goroot with
  | .error e => (d, some e)
  | .ok files => d.saveAll files

end Disk

end GoApiDoc
