/-
Cursors: a position between the tokens of a source text.

* `Go.Cursor` — the tokens that are left, and the line of the last one passed;
* `Go.Cursor.peek`, `Go.Cursor.advance` — looking at the next token and passing it; the end of the
  source is never passed;
* `Go.Cursor.skipBalanced` — passing a bracketed region;
* `Go.Reading` — the result of reading something from a cursor.
-/

import GoApiDoc.Go.File
import GoApiDoc.Go.Lexer

set_option autoImplicit false

namespace GoApiDoc.Go

/-- A position between the tokens. -/
structure Cursor where
  rest : List Token
  /-- The line of the last token passed that is not a semicolon, zero if there is none. -/
  lastLine : Nat

/-- The result of reading: a value, which mostly comes with the cursor behind it, or the error that
ends the reading. -/
abbrev Reading := Except SourceError

namespace Cursor

def endToken : Token := ⟨.eof, "", 0⟩

def peek (c : Cursor) : Token := c.rest.headD endToken

/-- The token `n` places behind the next one, or the last token. -/
def peekAt (c : Cursor) (n : Nat) : Token :=
  match c.rest[n]? with
  | some t => t
  | none => c.rest.getLastD endToken

/-- The line of the last passed token after passing `t`. -/
def passed (lastLine : Nat) (t : Token) : Nat :=
  if t.kind = .semicolon then lastLine else t.line

/-- Passes the next token, unless it is the end of the source. -/
def advance (c : Cursor) : Cursor :=
  match c.rest with
  | [] => c
  | t :: ts => if t.kind = .eof then c else ⟨ts, passed c.lastLine t⟩

def fail {α : Type} (c : Cursor) (fault : Fault) : Reading α :=
  .error ⟨c.peek.line, fault⟩

/-- The next token is the operator or bracket `p`. -/
def atPunct (c : Cursor) (p : String) : Bool := c.peek.isPunct p

/-- The next token has the kind `k`. -/
def atKind (c : Cursor) (k : Token.Kind) : Bool := c.peek.kind == k

/-- Passes the operator or bracket `p` if it comes next. -/
def eat (c : Cursor) (p : String) : Option Cursor :=
  if c.atPunct p then some c.advance else none

/-- Passes the operator or bracket `p`, which has to come next. -/
def expect (c : Cursor) (p : String) : Reading Cursor :=
  match c.eat p with
  | some c => .ok c
  | none => c.fail (.expectedPunct p c.peek.text)

def ident (c : Cursor) : Reading (String × Cursor) :=
  if c.atKind .ident then .ok (c.peek.text, c.advance) else c.fail (.expectedIdent c.peek.text)

def dropSemicolons : List Token → List Token
  | [] => []
  | t :: ts => if t.kind = .semicolon then dropSemicolons ts else t :: ts

def skipSemicolons (c : Cursor) : Cursor := { c with rest := dropSemicolons c.rest }

/-- Passes the end of an item: semicolons, or nothing before the bracket `close` or the end of the
source. -/
def endItem (c : Cursor) (close : String) : Reading Cursor :=
  if c.atKind .semicolon then .ok c.skipSemicolons
  else if c.atPunct close || c.atKind .eof then .ok c
  else c.fail (.unexpected c.peek.text)

/-- Passes tokens until `depth` open brackets are closed. -/
def closeBrackets (depth lastLine : Nat) : List Token → Option Cursor
  | [] => none
  | t :: ts =>
    if t.kind = .eof then none
    else
      let line := passed lastLine t
      if t.isOpening then closeBrackets (depth + 1) line ts
      else if t.isClosing then
        if depth ≤ 1 then some ⟨ts, line⟩ else closeBrackets (depth - 1) line ts
      else closeBrackets depth line ts

def skipBalanced (c : Cursor) : Reading Cursor :=
  match closeBrackets 0 c.lastLine c.rest with
  | some c => .ok c
  | none => c.fail .unbalanced

def beginsType (t : Token) : Bool :=
  match t.kind with
  | .ident => true
  | .keyword => ["map", "chan", "func", "struct", "interface"].contains t.text
  | .punct => ["*", "[", "(", "<-"].contains t.text
  | _ => false

def startsType (c : Cursor) : Bool := beginsType c.peek

/-- The square bracket behind the next token opens a list of type parameters. -/
def atTypeParams (c : Cursor) : Bool :=
  c.atPunct "[" && (c.peekAt 1).kind == .ident &&
    (let third := c.peekAt 2
     match third.kind with
     | .ident => true
     | .keyword => ["interface", "func", "map", "chan", "struct"].contains third.text
     | .punct => [",", "*", "[", "~"].contains third.text
     | _ => false)

/-- The token behind the region that `depth` open brackets enclose. -/
def tokenBehind (depth : Nat) : List Token → Option Token
  | [] => none
  | t :: ts =>
    if t.kind = .eof then none
    else if t.isOpening then tokenBehind (depth + 1) ts
    else if t.isClosing then
      if depth ≤ 1 then some (ts.headD t) else tokenBehind (depth - 1) ts
    else tokenBehind depth ts

/-- The next token is a field name with an array type behind it, not an embedded generic type: the
brackets behind it are empty or followed by a type. -/
def atArrayField (c : Cursor) : Bool :=
  (c.peekAt 2).isPunct "]" ||
    (match tokenBehind 0 (c.rest.drop 1) with
     | some t => beginsType t
     | none => false)

end Cursor

end GoApiDoc.Go
