/-
Cutting text into pieces.

* `Text.splitChars`, `Text.split` — at every occurrence of a character;
* `Text.splitUnlessNested` — at every occurrence of a character outside brackets;
* `Text.splitOnce` — at the first occurrence of a character;
* `Text.splitAtText` — at every occurrence of a given text;
* `Text.lines` — at the ends of lines;
* `Text.stripPrefix`, `Text.stripSuffix` — removing a given beginning or end;
* `Text.splitAttribute` — a directive line as its first word and the rest.
-/

import GoApiDoc.Text.Blank

set_option autoImplicit false

namespace GoApiDoc.Text

/-! ### Pieces between delimiters -/

/-- Puts a character in front of the first piece. -/
def consHead (c : Char) : List (List Char) → List (List Char)
  | [] => [[c]]
  | p :: ps => (c :: p) :: ps

/-- The pieces between the characters `d`; there is always at least one. -/
def splitChars (d : Char) : List Char → List (List Char)
  | [] => [[]]
  | c :: cs => if c = d then [] :: splitChars d cs else consHead c (splitChars d cs)

/-- The pieces of a string between the characters `d`. -/
def split (d : Char) (s : String) : List String := (splitChars d s.toList).map String.ofList

/-- The pieces of a comma separated list, trimmed, the empty ones left out. -/
def commaList (s : String) : List String :=
  ((split ',' s).map trim).filter fun p => !p.isEmpty

/-! ### Nesting -/

def isOpening (c : Char) : Bool := c == '(' || c == '[' || c == '{'

def isClosing (c : Char) : Bool := c == ')' || c == ']' || c == '}'

/-- The pieces between the delimiters `d` that stand at depth zero, where `depth` brackets are
open before the text.  Brackets of all kinds count alike, and a bracket never delimits. -/
def splitNested (d : Char) (depth : Int) : List Char → List (List Char)
  | [] => [[]]
  | c :: cs =>
    if isOpening c then consHead c (splitNested d (depth + 1) cs)
    else if isClosing c then consHead c (splitNested d (depth - 1) cs)
    else if c = d ∧ depth = 0 then [] :: splitNested d depth cs
    else consHead c (splitNested d depth cs)

/-- Splits a string at the delimiters outside round, square and curly brackets.  Empty pieces are
kept and nothing is trimmed. -/
def splitUnlessNested (d : Char) (s : String) : List String :=
  (splitNested d 0 s.toList).map String.ofList

/-! ### The first occurrence -/

/-- The text before and after the first character satisfying `p`, and that character. -/
def breakAt (p : Char → Bool) : List Char → Option (List Char × Char × List Char)
  | [] => none
  | c :: cs =>
    if p c then some ([], c, cs)
    else (breakAt p cs).map fun (before, d, after) => (c :: before, d, after)

/-- The strings before and after the first character `d`. -/
def splitOnce (d : Char) (s : String) : Option (String × String) :=
  (breakAt (· == d) s.toList).map fun (before, _, after) =>
    (String.ofList before, String.ofList after)

/-- The strings before and after the last character `d`. -/
def splitLast (d : Char) (s : String) : Option (String × String) :=
  (breakAt (· == d) s.toList.reverse).map fun (after, _, before) =>
    (String.ofList before.reverse, String.ofList after.reverse)

/-! ### Beginnings and ends -/

/-- What follows `p` in the text, if the text begins with `p`. -/
def dropPrefix? (p : List Char) (cs : List Char) : Option (List Char) :=
  match p, cs with
  | [], cs => some cs
  | _ :: _, [] => none
  | a :: p, c :: cs => if a = c then dropPrefix? p cs else none

/-- What follows `p` in the string, if the string begins with `p`. -/
def stripPrefix (p s : String) : Option String :=
  (dropPrefix? p.toList s.toList).map String.ofList

/-- What precedes `p` in the string, if the string ends with `p`. -/
def stripSuffix (p s : String) : Option String :=
  (dropPrefix? p.toList.reverse s.toList.reverse).map fun cs => String.ofList cs.reverse

/-- The string begins with `p`. -/
def hasPrefix (p s : String) : Bool := (stripPrefix p s).isSome

/-- The string ends with `p`. -/
def hasSuffix (p s : String) : Bool := (stripSuffix p s).isSome

/-- The string without one pair of double quotes around it, if it has them. -/
def trimQuotes (s : String) : String :=
  match stripPrefix "\"" s with
  | some inner => (stripSuffix "\"" inner).getD s
  | none => s

/-! ### Longer delimiters -/

/-- The pieces between the occurrences of `d :: ds`, read from left to right; `skip` characters
of a delimiter already recognised are still to be passed over. -/
def splitTextFrom (d : Char) (ds : List Char) (skip : Nat) : List Char → List (List Char)
  | [] => [[]]
  | c :: cs =>
    match skip with
    | k + 1 => splitTextFrom d ds k cs
    | 0 =>
      if (dropPrefix? (d :: ds) (c :: cs)).isSome then [] :: splitTextFrom d ds ds.length cs
      else consHead c (splitTextFrom d ds 0 cs)

/-- The pieces of a string between the occurrences of the text `d`; the empty text delimits
nothing. -/
def splitAtText (d s : String) : List String :=
  match d.toList with
  | [] => [s]
  | c :: cs => (splitTextFrom c cs 0 s.toList).map String.ofList

/-- The text `d` occurs in the string. -/
def hasText (d s : String) : Bool := (splitAtText d s).length > 1

/-! ### Lines -/

/-- A line that ended in a line feed, without a carriage return before it. -/
def dropReturn (cs : List Char) : List Char :=
  match cs.reverse with
  | '\r' :: rest => rest.reverse
  | _ => cs

/-- The lines held by the pieces between line feeds: every piece but the last ended in one, and a
last piece that is empty is no line. -/
def linesOfPieces : List (List Char) → List (List Char)
  | [] => []
  | [p] => if p.isEmpty then [] else [p]
  | p :: ps => dropReturn p :: linesOfPieces ps

/-- The lines of a string, without their line feeds or carriage return–line feed pairs. -/
def lines (s : String) : List String :=
  (linesOfPieces (splitChars '\n' s.toList)).map String.ofList

/-! ### Directive lines -/

/-- A directive line as its attribute, the text before the first blank, and the trimmed rest. -/
def splitAttribute (line : String) : String × String :=
  match breakAt isBlank line.toList with
  | some (word, c, rest) => (String.ofList word, String.ofList (trimChars (c :: rest)))
  | none => (line, "")

/-! ### Letter case within ASCII -/

def asciiLower (s : String) : String := String.ofList (s.toList.map Char.toLower)

def asciiUpper (s : String) : String := String.ofList (s.toList.map Char.toUpper)

def eqIgnoreCase (s t : String) : Bool := asciiLower s == asciiLower t

/-- The text if there is any. -/
def nonEmpty (s : String) : Option String := if s.isEmpty then none else some s

/-- The pieces one after the other with `d` between them. -/
def joinWith (d : String) (pieces : List String) : String := d.intercalate pieces

end GoApiDoc.Text
