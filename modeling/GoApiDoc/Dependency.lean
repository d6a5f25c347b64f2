/-
The packages that a module depends on.

The Go tool lists packages as a sequence of JSON values, each an object with a member for every
property, or an array of properties in a fixed order.

* `DependencyPackage` — a listed package;
* `DependencyPackage.parseList` — reading a list.
-/

import GoApiDoc.Error
import GoApiDoc.Json.Reader
import GoApiDoc.Path

set_option autoImplicit false

namespace GoApiDoc

/-- A package that a module depends on. -/
structure DependencyPackage where
  importPath : String
  name : String
  dir : String
  goFiles : List String
  standard : Bool
deriving DecidableEq

/-! ### The members of a listed package -/

/-- The properties that have been read of a package. -/
structure ListedPackage where
  dir : Option String := none
  importPath : Option String := none
  name : Option String := none
  goFiles : Option (List String) := none
  goroot : Option Bool := none
  standard : Option Bool := none

namespace ListedPackage

def properties : List String := ["Dir", "ImportPath", "Name", "GoFiles", "Goroot", "Standard"]

def strings? : Json → Option (List String)
  | .arr items => items.mapM Json.str?
  | _ => none

def bool? : Json → Option Bool
  | .bool b => some b
  | _ => none

def fresh {α : Type} (old new : Option α) : Option (Option α) :=
  match old, new with
  | none, some a => some (some a)
  | _, _ => none

/-- Sets a property.  It must not be set already, and its value must have the right type; other
names are left out. -/
def set? (p : ListedPackage) (name : String) (v : Json) : Option ListedPackage :=
  match name with
  | "Dir" => (fresh p.dir v.str?).map fun x => { p with dir := x }
  | "ImportPath" => (fresh p.importPath v.str?).map fun x => { p with importPath := x }
  | "Name" => (fresh p.name v.str?).map fun x => { p with name := x }
  | "GoFiles" => (fresh p.goFiles (strings? v)).map fun x => { p with goFiles := x }
  | "Goroot" => (fresh p.goroot (bool? v)).map fun x => { p with goroot := x }
  | "Standard" => (fresh p.standard (bool? v)).map fun x => { p with standard := x }
  | _ => some p

def package (p : ListedPackage) : DependencyPackage :=
  let dir := p.dir.getD ""
  { importPath := p.importPath.getD "", name := p.name.getD "", dir := dir
    goFiles := (p.goFiles.getD []).map (Path.join dir)
    standard := p.standard.getD false || p.goroot.getD false }

/-! ### Reading -/

/-- Reads the members of an object up to and including its closing brace. -/
def readMembers (p : ListedPackage) : Nat → List Char → Option (ListedPackage × List Char)
  | 0, _ => none
  | fuel + 1, cs =>
    match Json.readString .keep (Json.skipSpace cs) with
    | none => none
    | some (name, r) =>
      match Json.skipSpace r with
      | ':' :: r =>
        let mode := if properties.contains name then Json.Mode.keep else Json.Mode.skip
        match Json.readValue mode 1 (Json.fuelFor r) r with
        | none => none
        | some (v, r) =>
          match p.set? name v with
          | none => none
          | some p =>
            match Json.skipSpace r with
            | ',' :: r => readMembers p fuel r
            | '\x7d' :: r => some (p, r)
            | _ => none
      | _ => none

def ofItems? (items : List Json) : Option ListedPackage :=
  if items.length ≤ properties.length then
    (properties.zip items).foldlM (fun p e => p.set? e.1 e.2) {}
  else none

def read? (cs : List Char) : Option (ListedPackage × List Char) :=
  match cs with
  | '\x7b' :: rest =>
    match Json.skipSpace rest with
    | '\x7d' :: r => some ({}, r)
    | r => readMembers {} r.length r
  | '[' :: _ =>
    match Json.readValue .keep 0 (Json.fuelFor cs) cs with
    | some (.arr items, r) => (ofItems? items).map fun p => (p, r)
    | _ => none
  | _ => none

def readAll? : Nat → List Char → Option (List ListedPackage)
  | 0, _ => none
  | fuel + 1, cs =>
    match Json.skipSpace cs with
    | [] => some []
    | cs =>
      match read? cs with
      | none => none
      | some (p, r) => (readAll? fuel r).map (p :: ·)

end ListedPackage

def DependencyPackage.parseList (text : String) : Except DocError (List DependencyPackage) :=
  match ListedPackage.readAll? (text.toList.length + 1) text.toList with
  | some ps => .ok (ps.map ListedPackage.package)
  | none => .error (.dependency "invalid go list output:")

end GoApiDoc
