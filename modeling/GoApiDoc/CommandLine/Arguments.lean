/-
The arguments of the command line.

Options have a long name and perhaps a letter.  An option with a value takes it from the same
argument or from the next one; letters of options without a value can be put together.

* `Switch`, `Setting` — the options without and with a value;
* `UsageError` — what can be wrong with the arguments;
* `Given.ofArguments` — the options that are given;
* `Arguments`, `Arguments.parse` — all options with their values.
-/

import GoApiDoc.Text.Split

set_option autoImplicit false

namespace GoApiDoc

/-! ### Options -/

/-- An option without a value. -/
inductive Switch where
  | strict
  /-- Fields are required unless they say otherwise. -/
  | requiredByDefault
  | parseDependency
  | parseVendor
  | parseInternal
  | verbose
deriving DecidableEq

/-- An option with a value. -/
inductive Setting where
  | dirs
  | generalInfo
  | output
  | outputTypes
  | propertyStrategy
  | exclude
  | markdownFiles
  | codeExampleFiles
  | collectionFormat
  | overridesFile
  | tags
deriving DecidableEq

def Setting.isPath : Setting → Bool
  | generalInfo | output | markdownFiles | codeExampleFiles | overridesFile => true
  | _ => false

/-- An option. -/
inductive CommandOption where
  | switch (s : Switch)
  | setting (s : Setting)
  | help
  | version
deriving DecidableEq

namespace CommandOption

def ofName? : String → Option CommandOption
  | "dir" => some (setting .dirs)
  | "generalInfo" => some (setting .generalInfo)
  | "output" => some (setting .output)
  | "outputTypes" => some (setting .outputTypes)
  | "propertyStrategy" => some (setting .propertyStrategy)
  | "strict" => some (switch .strict)
  | "requiredByDefault" => some (switch .requiredByDefault)
  | "parseDependency" => some (switch .parseDependency)
  | "parseVendor" => some (switch .parseVendor)
  | "parseInternal" => some (switch .parseInternal)
  | "exclude" => some (setting .exclude)
  | "markdownFiles" => some (setting .markdownFiles)
  | "codeExampleFiles" => some (setting .codeExampleFiles)
  | "collectionFormat" => some (setting .collectionFormat)
  | "overridesFile" => some (setting .overridesFile)
  | "tags" => some (setting .tags)
  | "verbose" => some (switch .verbose)
  | "help" => some help
  | "version" => some version
  | _ => none

def ofLetter? : Char → Option CommandOption
  | 'd' => some (setting .dirs)
  | 'g' => some (setting .generalInfo)
  | 'o' => some (setting .output)
  | 'p' => some (setting .propertyStrategy)
  | 't' => some (setting .tags)
  | 'v' => some (switch .verbose)
  | 'h' => some help
  | 'V' => some version
  | _ => none

end CommandOption

/-- Why the arguments do not start a run. -/
inductive UsageError where
  | unknownArgument
  /-- An option has no value, or an empty one where that has no meaning. -/
  | missingValue
  | repeated
  | unexpectedValue
  | help
  | version
deriving DecidableEq

def UsageError.message : UsageError → String
  | unknownArgument => "an argument is unknown"
  | missingValue => "a value is missing"
  | repeated => "an option is given twice"
  | unexpectedValue => "an option takes no value"
  | help => "Writes a Swagger 2.0 document for annotated Go sources."
  | version => "0.1.0"

/-! ### Reading -/

/-- The options that are given. -/
structure Given where
  switches : List Switch := []
  values : List (Setting × String) := []
  /-- The last option with a value, while it is not known to be complete. -/
  pending : Option (Setting × Option String) := none

namespace Given

def addValue (g : Given) (s : Setting) (v : String) : Except UsageError Given :=
  if g.values.any fun e => e.1 = s then .error .repeated
  else if s.isPath && v.isEmpty then .error .missingValue
  else .ok { g with values := g.values ++ [(s, v)] }

def settle (g : Given) : Except UsageError Given :=
  match g.pending with
  | none => .ok g
  | some (_, none) => .error .missingValue
  | some (s, some v) => { g with pending := none }.addValue s v

def addSwitch (g : Given) (s : Switch) : Except UsageError Given := do
  let g ← g.settle
  if g.switches.contains s then .error .repeated
  else return { g with switches := g.switches ++ [s] }

/-- Enters an option with a value that may be in the next argument. -/
def addSetting (g : Given) (s : Setting) : Option String → Except UsageError Given
  | some v => do (← g.settle).addValue s v
  | none => do return { ← g.settle with pending := some (s, none) }

/-- Asks for help or the version, unless the pending option is in error. -/
def stop (g : Given) (e : UsageError) : Except UsageError Given := do
  let _ ← g.settle
  .error e

/-- Reads an argument with a long name, without its two dashes. -/
def addLong (g : Given) (text : String) : Except UsageError Given :=
  let (name, value) := match Text.splitOnce '=' text with
    | some (name, value) => (name, some value)
    | none => (text, none)
  match CommandOption.ofName? name, value with
  | none, _ => .error .unknownArgument
  | some (.setting s), value => g.addSetting s value
  | some _, some _ => .error .unexpectedValue
  | some (.switch s), none => g.addSwitch s
  | some .help, none => g.stop .help
  | some .version, none => g.stop .version

/-- What follows the letter of an option is its value, with or without an equals sign before it. -/
def attached : List Char → Option String
  | [] => none
  | '=' :: cs => some (String.ofList cs)
  | cs => some (String.ofList cs)

def addLetters (g : Given) : List Char → Except UsageError Given
  | [] => .ok g
  | c :: cs =>
    match CommandOption.ofLetter? c with
    | none => .error .unknownArgument
    | some (.setting s) => g.addSetting s (attached cs)
    | some (.switch s) =>
      match g.addSwitch s with
      | .ok g => addLetters g cs
      | .error e => .error e
    | some .help => g.stop .help
    | some .version => g.stop .version

def addWord (g : Given) (word : String) : Except UsageError Given :=
  match g.pending with
  | some (s, none) => .ok { g with pending := some (s, some word) }
  | _ => .error .unknownArgument

def addArgument (g : Given) (argument : String) : Except UsageError Given :=
  match argument.toList with
  | '-' :: '-' :: text => g.addLong (String.ofList text)
  | '-' :: c :: cs => g.addLetters (c :: cs)
  | _ => g.addWord argument

/-- Reads arguments.  Two dashes alone end the options, and nothing may follow them. -/
def addArguments (g : Given) : List String → Except UsageError Given
  | [] => g.settle
  | argument :: rest =>
    if argument = "--" then if rest.isEmpty then g.settle else .error .unknownArgument
    else
      match g.addArgument argument with
      | .ok g => addArguments g rest
      | .error e => .error e

def ofArguments (arguments : List String) : Except UsageError Given := addArguments {} arguments

def value? (g : Given) (s : Setting) : Option String :=
  (g.values.find? fun e => e.1 = s).map (·.2)

def has (g : Given) (s : Switch) : Bool := g.switches.contains s

end Given

/-! ### All options -/

/-- The options with their values. -/
structure Arguments where
  dirs : String
  /-- The main file, seen from the first directory. -/
  generalInfo : String
  output : String
  outputTypes : String
  propertyStrategy : String
  strict : Bool
  /-- Fields are required unless they say otherwise. -/
  requiredByDefault : Bool
  parseDependency : Bool
  parseVendor : Bool
  parseInternal : Bool
  exclude : String
  markdownFiles : Option String
  codeExampleFiles : Option String
  collectionFormat : String
  overridesFile : String
  tags : String
  verbose : Bool

namespace Arguments

def defaultOverridesFile : String := ".swaggo"

/-- The options with their values, where one that is not given has its usual value. -/
def ofGiven (g : Given) : Arguments where
  dirs := (g.value? .dirs).getD "./"
  generalInfo := (g.value? .generalInfo).getD "main.go"
  output := (g.value? .output).getD "./docs"
  outputTypes := (g.value? .outputTypes).getD "json,yaml"
  propertyStrategy := (g.value? .propertyStrategy).getD "camelcase"
  strict := g.has .strict
  requiredByDefault := g.has .requiredByDefault
  parseDependency := g.has .parseDependency
  parseVendor := g.has .parseVendor
  parseInternal := g.has .parseInternal
  exclude := (g.value? .exclude).getD ""
  markdownFiles := g.value? .markdownFiles
  codeExampleFiles := g.value? .codeExampleFiles
  collectionFormat := (g.value? .collectionFormat).getD "csv"
  overridesFile := (g.value? .overridesFile).getD defaultOverridesFile
  tags := (g.value? .tags).getD ""
  verbose := g.has .verbose

def parse (arguments : List String) : Except UsageError Arguments :=
  (Given.ofArguments arguments).map ofGiven

def searchDirs (a : Arguments) : List String := Text.commaList a.dirs

def excludes (a : Arguments) : List String := Text.commaList a.exclude

end Arguments

end GoApiDoc
