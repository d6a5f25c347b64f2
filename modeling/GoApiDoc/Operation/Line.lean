/-
The shapes of annotation lines.

* `ParamLine` — `name place type required "description"`, followed by attributes;
* `ResponseLine` — `codes {kind} type "description"`;
* `RouterLine` — `/path [method]`.
-/

import GoApiDoc.Text.Pattern
import GoApiDoc.Text.Split

set_option autoImplicit false

namespace GoApiDoc

open Text (Piece)

/-! ### Parameters -/

/-- The parts of a parameter line. -/
structure ParamLine where
  name : String
  place : String
  type : String
  required : String
  description : String
  attributes : String

namespace ParamLine

/-- Name, place, type, the word on presence and the description in quotes.  The type ends as early
as possible. -/
def pattern : Text.Pattern :=
  [.some Text.isInk, .some Text.isBlank, .some Text.isWord, .some Text.isBlank,
    .few (fun c => Text.isInk c || c == ' '), .some Text.isBlank, .some Text.isWord,
    .some Text.isBlank, .char '"', .many (· != '"'), .char '"']

def ofText? (line : String) : Option ParamLine :=
  match pattern.match? line.toList with
  | some ([name, _, place, _, type, _, required, _, _, description, _], rest) =>
    some ⟨String.ofList name, String.ofList place, String.ofList (Text.trimChars type),
      String.ofList required, String.ofList description, String.ofList rest⟩
  | _ => none

end ParamLine

/-! ### Responses and headers -/

/-- The parts of a response line. -/
structure ResponseLine where
  codes : String
  kind : String
  type : String
  description : String

namespace ResponseLine

def isCodeChar (c : Char) : Bool := Text.isWord c || c == ','

def isKindChar (c : Char) : Bool := Text.isWord c || Text.isOneOf "\x7b\x7d" c

def isTypeChar (c : Char) : Bool :=
  Text.isWord c || Text.isBlank c || Text.isOneOf "-.\\\x7b\x7d=,[]" c

def pattern : Text.Pattern :=
  [.some isCodeChar, .some Text.isBlank, .some isKindChar, .some Text.isBlank, .some isTypeChar,
    .many Text.isBlank]

def trimBraces (s : String) : String := Text.trimMatching (Text.isOneOf "\x7b\x7d") s

def trimQuoted (s : String) : String := Text.trimMatching (· == '"') (Text.trim s)

/-- The description at the beginning of a text: up to the end of the line, if it is quoted. -/
def descriptionOf (rest : List Char) : String :=
  match rest with
  | '"' :: _ => trimQuoted (String.ofList (rest.takeWhile (· != '\n')))
  | _ => ""

def ofText? (line : String) : Option ResponseLine :=
  match pattern.match? line.toList with
  | some ([codes, _, kind, _, type, _], rest) =>
    some ⟨String.ofList codes, trimBraces (String.ofList kind),
      String.ofList (Text.trimChars type), descriptionOf rest⟩
  | _ => none

end ResponseLine

/-! ### Routes -/

/-- The parts of a route line. -/
structure RouterLine where
  path : String
  method : String

namespace RouterLine

def isPathChar (c : Char) : Bool := Text.isWord c || Text.isOneOf "./-\x7b\x7d()+:$*" c

/-- A path that begins with a slash and a method in square brackets. -/
def pattern : Text.Pattern :=
  [.char '/', .many isPathChar, .some Text.isSpaceOrTab, .char '[', .some Text.isWord, .char ']']

def ofText? (line : String) : Option RouterLine :=
  match pattern.match? line.toList with
  | some ([slash, path, _, _, method, _], _) =>
    some ⟨String.ofList (slash ++ path), String.ofList method⟩
  | _ => none

end RouterLine

end GoApiDoc
