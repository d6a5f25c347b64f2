/-
Tokens and comments of Go source text, and the faults a source text can have.

* `Go.Token`, `Go.Token.Kind` — the tokens;
* `Go.Comment` — a comment and where it stands between the tokens;
* `Go.Fault`, `Go.SourceError` — what is wrong with a source text, and on which line;
* `Go.keywords`, `Go.operators` — the fixed spellings.
-/

import GoApiDoc.Text.Quoted

set_option autoImplicit false

namespace GoApiDoc.Go

/-! ### Tokens -/

/-- The kinds of tokens. -/
inductive Token.Kind where
  | ident
  | keyword
  | int
  | float
  | imag
  | char
  | str
  | punct
  | semicolon
  | eof
deriving DecidableEq

/-- A token with the line it begins on, counted from one.  The text of a string literal is its
decoded value; any other token has the text it is written with. -/
structure Token where
  kind : Token.Kind
  text : String
  line : Nat
deriving DecidableEq

namespace Token

/-- The token is the operator or bracket `p`. -/
def isPunct (t : Token) (p : String) : Bool := t.kind == .punct && t.text == p

/-- The token is the reserved word `k`. -/
def isKeyword (t : Token) (k : String) : Bool := t.kind == .keyword && t.text == k

def isOpening (t : Token) : Bool :=
  t.kind == .punct && (t.text == "(" || t.text == "[" || t.text == "\x7b")

def isClosing (t : Token) : Bool :=
  t.kind == .punct && (t.text == ")" || t.text == "]" || t.text == "\x7d")

def endsStatement (t : Token) : Bool :=
  match t.kind with
  | .ident | .int | .float | .imag | .char | .str => true
  | .keyword => ["break", "continue", "fallthrough", "return"].contains t.text
  | .punct => ["++", "--", ")", "]", "\x7d"].contains t.text
  | .semicolon | .eof => false

end Token

def keywords : List String :=
  ["break", "case", "chan", "const", "continue", "default", "defer", "else", "fallthrough", "for",
   "func", "go", "goto", "if", "import", "interface", "map", "package", "range", "return", "select",
   "struct", "switch", "type", "var"]

/-- The operators and brackets, no one after a beginning of it, so that the first match is the
longest. -/
def operators : List String :=
  ["<<=", ">>=", "&^=", "...", "&&", "||", "<-", "++", "--", "==", "!=", "<=", ">=", ":=", "+=",
   "-=", "*=", "/=", "%=", "&=", "|=", "^=", "<<", ">>", "&^", "+", "-", "*", "/", "%", "&", "|",
   "^", "<", ">", "=", "!", "(", ")", "[", "]", "\x7b", "\x7d", ",", ";", ".", ":", "~"]

/-! ### Comments -/

/-- A comment as it stands in the source. -/
structure Comment where
  text : String
  /-- The line of its first character. -/
  startLine : Nat
  endLine : Nat
  /-- A token precedes it on its first line. -/
  trailing : Bool
  tokenIndex : Nat
deriving DecidableEq

/-! ### Faults -/

/-- What can be wrong with an escape sequence. -/
inductive EscapeFault where
  | unfinished
  | badDigits (letter : Char) (digits : String)
  | badCodePoint (code : Nat)
  | badOctal (digits : String)
  | unknown (c : Char)
deriving DecidableEq

def EscapeFault.message : EscapeFault → String
  | unfinished => "escape sequence not terminated"
  | badDigits letter digits => "invalid escape \\" ++ letter.toString ++ digits
  | badCodePoint code => s!"invalid code point {code}"
  | badOctal digits => "invalid octal escape \\" ++ digits
  | unknown c => "unknown escape sequence \\" ++ c.toString

/-- What can be wrong with a source text. -/
inductive Fault where
  | openComment
  | openString
  | openRawString
  | openRune
  | strayCharacter (c : Char)
  | badEscape (fault : EscapeFault)
  | noPackage
  | notADeclaration (found : String)
  | badKeyword (found : String)
  | noImportPath
  | expectedPunct (expected found : String)
  | expectedIdent (found : String)
  | expectedType (found : String)
  | expectedExpr (found : String)
  | expectedChan
  | expectedSignature
  | expectedParameters
  | unexpected (found : String)
  | afterType (found : String)
  | afterExpr (found : String)
  | unbalanced
  | openBody
  | tooDeep
deriving DecidableEq

def Fault.message : Fault → String
  | openComment => "comment not terminated"
  | openString => "string literal not terminated"
  | openRawString => "raw string literal not terminated"
  | openRune => "rune literal not terminated"
  | strayCharacter c => "unexpected character " ++ Text.quotedChar c
  | badEscape fault => fault.message
  | noPackage => "expected 'package' clause"
  | notADeclaration found => "unexpected " ++ Text.quoted found ++ " at top level"
  | badKeyword found => "unexpected keyword " ++ Text.quoted found
  | noImportPath => "expected import path"
  | expectedPunct expected found =>
    "expected '" ++ expected ++ "', found " ++ Text.quoted found
  | expectedIdent found => "expected identifier, found " ++ Text.quoted found
  | expectedType found => "expected type, found " ++ Text.quoted found
  | expectedExpr found => "expected expression, found " ++ Text.quoted found
  | expectedChan => "expected 'chan' after '<-'"
  | expectedSignature => "expected '(' in function type"
  | expectedParameters => "expected function parameters"
  | unexpected found => "unexpected " ++ Text.quoted found
  | afterType found => "unexpected " ++ Text.quoted found ++ " after type"
  | afterExpr found => "unexpected " ++ Text.quoted found ++ " after expression"
  | unbalanced => "unbalanced brackets"
  | openBody => "function body not terminated"
  | tooDeep => "nesting too deep"

/-- A fault and the line it was found on. -/
structure SourceError where
  line : Nat
  fault : Fault
deriving DecidableEq

def SourceError.message (e : SourceError) : String := s!"line {e.line}: " ++ e.fault.message

end GoApiDoc.Go
