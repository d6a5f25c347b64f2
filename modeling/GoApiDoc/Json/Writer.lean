/-
Writing JSON.

* `Json.compact` — on one line without blanks;
* `Json.pretty` — one item or member a line, indented by two blanks a level.

Members are written in the order in which the value lists them.
-/

import GoApiDoc.Json.Value
import GoApiDoc.Number.Shortest

set_option autoImplicit false

namespace GoApiDoc.Json

/-! ### Scalars -/

/-- Numbers with an exponent show its sign, and JSON has no infinities. -/
def numberStyle : NumberStyle where
  plus := "+"
  notANumber := "null"
  infinite := "null"
  negativeInfinite := "null"

/-- The four hexadecimal digits of a code point below `16 ^ 4`. -/
def hex4 (n : Nat) : List Char :=
  let digits := Nat.toDigits 16 n
  List.replicate (4 - digits.length) '0' ++ digits

def escapeChar (c : Char) : List Char :=
  if c == '"' then ['\\', '"']
  else if c == '\\' then ['\\', '\\']
  else if c == '\n' then ['\\', 'n']
  else if c == '\r' then ['\\', 'r']
  else if c == '\t' then ['\\', 't']
  else if c == '\x08' then ['\\', 'b']
  else if c == '\x0c' then ['\\', 'f']
  else if c.toNat < 32 then ['\\', 'u'] ++ hex4 c.toNat
  else [c]

def quote (s : String) : String :=
  String.ofList ('"' :: (s.toList.flatMap escapeChar ++ ['"']))

def intText (i : Int) : String :=
  let digits := String.ofList (Nat.toDigits 10 i.natAbs)
  if i < 0 then "-" ++ digits else digits

/-! ### One line -/

mutual

def compact : Json → String
  | null => "null"
  | bool b => if b then "true" else "false"
  | int i => intText i
  | double x => x.render numberStyle
  | str s => quote s
  | arr items => "[" ++ ",".intercalate (compactItems items) ++ "]"
  | obj members => "\x7b" ++ ",".intercalate (compactMembers members) ++ "\x7d"

def compactItems : List Json → List String
  | [] => []
  | v :: vs => compact v :: compactItems vs

def compactMembers : List (String × Json) → List String
  | [] => []
  | (k, v) :: ms => (quote k ++ ":" ++ compact v) :: compactMembers ms

end

/-! ### Indented -/

def newline (level : Nat) : String := "\n" ++ String.ofList (List.replicate (2 * level) ' ')

/-- The lines between a pair of brackets, one level deeper than `level`. -/
def block (level : Nat) (lines : List String) : String :=
  newline (level + 1) ++ ("," ++ newline (level + 1)).intercalate lines ++ newline level

mutual

/-- The value with its parts on lines of their own, `level` levels deep. -/
def prettyAt (level : Nat) : Json → String
  | null => "null"
  | bool b => if b then "true" else "false"
  | int i => intText i
  | double x => x.render numberStyle
  | str s => quote s
  | arr [] => "[]"
  | arr (v :: vs) => "[" ++ block level (prettyItems (level + 1) (v :: vs)) ++ "]"
  | obj [] => "\x7b\x7d"
  | obj (m :: ms) => "\x7b" ++ block level (prettyMembers (level + 1) (m :: ms)) ++ "\x7d"

/-- The items of an array, `level` levels deep. -/
def prettyItems (level : Nat) : List Json → List String
  | [] => []
  | v :: vs => prettyAt level v :: prettyItems level vs

/-- The members of an object, `level` levels deep. -/
def prettyMembers (level : Nat) : List (String × Json) → List String
  | [] => []
  | (k, v) :: ms => (quote k ++ ": " ++ prettyAt level v) :: prettyMembers level ms

end

def pretty (v : Json) : String := prettyAt 0 v

end GoApiDoc.Json
