/-
Writing values as YAML.

A mapping has one key a line and a sequence one item a line.  A mapping below a key is indented by
two spaces; a sequence below a key is not.

* `Yaml.render` — the document with a value.
-/

import GoApiDoc.Json.Writer
import GoApiDoc.Yaml.Scalar

set_option autoImplicit false

namespace GoApiDoc.Yaml

/-- Numbers with an exponent show only a negative sign, and infinities have names. -/
def numberStyle : NumberStyle where
  plus := ""
  notANumber := ".nan"
  infinite := ".inf"
  negativeInfinite := "-.inf"

/-- The key stands on the line of its value: it has one line of at most 128 bytes. -/
def isSimpleKey (key : String) : Bool := !key.toList.any isBreak && key.utf8ByteSize ≤ 128

def margin (indent : Nat) : String := String.ofList (pad indent)

def leaf (indent : Nat) : Json → String
  | .null => "null\n"
  | .bool b => if b then "true\n" else "false\n"
  | .int i => Json.intText i ++ "\n"
  | .double x => x.render numberStyle ++ "\n"
  | .str s => scalarText indent s
  | .arr _ => "[]\n"
  | .obj _ => "\x7b\x7d\n"

/-- A key up to the colon; one that does not stand on the line of its value is marked. -/
def keyText (indent : Nat) (key : String) : String :=
  if isSimpleKey key then inlineText key ++ ":"
  else "? " ++ scalarText (indent + 2) key ++ margin indent ++ ":"

mutual

/-- A value that begins in the column `indent` of a line, up to its last line end. -/
def node (indent : Nat) : Json → String
  | .arr (v :: vs) => items indent (v :: vs)
  | .obj (m :: ms) => entries indent (m :: ms)
  | v => leaf indent v

/-- The items of a sequence, the first of which begins in the column `indent` of a line. -/
def items (indent : Nat) : List Json → String
  | [] => ""
  | v :: vs =>
    let rest := items indent vs
    "- " ++ node (indent + 2) v ++ (if vs.isEmpty then rest else margin indent ++ rest)

/-- The entries of a mapping, the first of which begins in the column `indent` of a line. -/
def entries (indent : Nat) : List (String × Json) → String
  | [] => ""
  | (k, v) :: ms =>
    let rest := entries indent ms
    keyText indent k ++ entryValue indent (isSimpleKey k) v ++
      (if ms.isEmpty then rest else margin indent ++ rest)

/-- The value behind a colon; `simple` says that its key stands on the same line. -/
def entryValue (indent : Nat) (simple : Bool) : Json → String
  | .arr (v :: vs) =>
    if simple then "\n" ++ margin indent ++ items indent (v :: vs)
    else " " ++ items (indent + 2) (v :: vs)
  | .obj (m :: ms) =>
    if simple then "\n" ++ margin (indent + 2) ++ entries (indent + 2) (m :: ms)
    else " " ++ entries (indent + 2) (m :: ms)
  | v => " " ++ leaf (indent + 2) v

end

def render (v : Json) : String := node 0 v

end GoApiDoc.Yaml
