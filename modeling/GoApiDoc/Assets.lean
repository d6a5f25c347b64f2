/-
Texts that annotations refer to by name.

* `Assets` — where descriptions and code samples come from;
* `Assets.ofTables` — from two tables of texts;
* `Assets.ofDirectories` — from the files of two directories.
-/

import GoApiDoc.SourceTree
import GoApiDoc.Table

set_option autoImplicit false

namespace GoApiDoc

/-- Where descriptions and code samples come from. -/
structure Assets where
  markdown : String → Except DocError String
  codeSamples : String → Except DocError String

namespace Assets

def fromTable (what : String) (t : Table String) (name : String) : Except DocError String :=
  match t.get? name with
  | some text => .ok text
  | none => .error (.malformed (.noText what name))

def ofTables (markdown samples : Table String) : Assets :=
  ⟨fromTable "markdown" markdown, fromTable "samples" samples⟩

def fromDirectory (t : SourceTree) (what : String) (dir : Option String) (file : String) :
    Except DocError String :=
  match dir with
  | none => .error (.malformed (.noDirectory what file))
  | some dir =>
    let path := Path.join dir file
    if t.isFile path then t.read path else .error (.malformed (.noFile what file dir))

def ofDirectories (t : SourceTree) (markdown samples : Option String) : Assets :=
  ⟨fun name => fromDirectory t "markdown" markdown (name ++ ".md"),
    fun summary => fromDirectory t "code example" samples (summary ++ ".json")⟩

end Assets

end GoApiDoc
