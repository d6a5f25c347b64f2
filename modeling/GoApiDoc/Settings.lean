/-
Settings: everything that influences how a source tree is turned into a document.

* `Naming` — how field names become property names;
* `TagFilter` — which operations are kept;
* `Overrides.parse` — the table of types to be replaced or left out;
* `Settings` — all of them.
-/

import GoApiDoc.Text.Letter
import GoApiDoc.Text.Quoted
import GoApiDoc.Table

set_option autoImplicit false

namespace GoApiDoc

/-! ### Names of properties -/

/-- How the name of a struct field becomes a property name when no tag renames it. -/
inductive Naming where
  | camelCase
  | snakeCase
  | pascalCase
deriving DecidableEq

namespace Naming

def ofText? (s : String) : Option Naming :=
  match Text.asciiLower (Text.trim s) with
  | "camelcase" => some camelCase
  | "snakecase" => some snakeCase
  | "pascalcase" => some pascalCase
  | _ => none

def apply : Naming → String → String
  | camelCase, name => Text.lowerCamel name
  | snakeCase, name => Text.snake name
  | pascalCase, name => name

end Naming

/-! ### Selection by tags -/

/-- Tags that admit an operation and tags that keep it out. -/
structure TagFilter where
  /-- The tags of which an operation needs one, if there are any. -/
  allowed : List String
  excluded : List String
deriving DecidableEq

namespace TagFilter

def none : TagFilter := ⟨[], []⟩

/-- Adds one entry, which excludes when it begins with an exclamation mark. -/
def add (f : TagFilter) (entry : String) : TagFilter :=
  match Text.stripPrefix "!" entry with
  | some tag => { f with excluded := f.excluded ++ [tag] }
  | Option.none => { f with allowed := f.allowed ++ [entry] }

def parse (list : String) : TagFilter := (Text.commaList list).foldl add none

def isEmpty (f : TagFilter) : Bool := f.allowed.isEmpty && f.excluded.isEmpty

/-- An operation with these tags is kept: none is excluded, and one is allowed unless all are. -/
def allows (f : TagFilter) (tags : List String) : Bool :=
  !tags.any (fun t => f.excluded.contains t) &&
    (f.allowed.isEmpty || tags.any fun t => f.allowed.contains t)

end TagFilter

/-! ### Replaced types -/

/-- Types by full path, each with what replaces it; the empty text leaves the type out. -/
abbrev Overrides := Table String

namespace Overrides

/-- A line that is neither a comment nor a rule. -/
structure BadLine where
  number : Nat
  line : String
deriving DecidableEq

def BadLine.message (e : BadLine) : String :=
  s!"line {e.number}: invalid override " ++ Text.quoted e.line

/-- The table with the rule of one line added; empty lines and comments have none. -/
def addLine (number : Nat) (line : String) (t : Overrides) : Except BadLine Overrides :=
  let line := Text.trim line
  if line.isEmpty || Text.hasPrefix "//" line then .ok t
  else
    match Text.words line with
    | ["skip", type] => .ok (t.insert type "")
    | ["replace", type, replacement] => .ok (t.insert type replacement)
    | _ => .error ⟨number, line⟩

/-- The table with the rules of the lines from the given number on. -/
def addLines (number : Nat) (t : Overrides) : List String → Except BadLine Overrides
  | [] => .ok t
  | line :: lines =>
    match addLine number line t with
    | .ok t => addLines (number + 1) t lines
    | .error e => .error e

def parse (content : String) : Except BadLine Overrides := addLines 1 [] (Text.lines content)

end Overrides

/-! ### All settings -/

/-- The settings of a run. -/
structure Settings where
  naming : Naming := .camelCase
  strict : Bool := false
  /-- Fields are required unless they say otherwise. -/
  requiredByDefault : Bool := false
  parseDependency : Bool := false
  parseVendor : Bool := false
  parseInternal : Bool := false
  excludes : List String := []
  collectionFormat : String := "csv"
  overrides : Overrides := []
  tags : TagFilter := TagFilter.none
  goroot : Option String := none

def collectionFormats : List String := ["csv", "ssv", "tsv", "pipes", "multi"]

end GoApiDoc
