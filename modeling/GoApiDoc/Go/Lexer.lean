/-
Source text as tokens and comments.

A lexeme is a character together with the `k` characters after it, and the text that is left is what
remains after dropping them, so the text gets shorter with every lexeme and the lexer ends without
further ado.  A line that ends after a token that can end a statement ends it: a semicolon is
inserted there.

* `Go.Lexeme`, `Go.lexeme` — the lexeme at the beginning of a text and its length;
* `Go.Lexed.step` — what a lexeme adds to the tokens and comments;
* `Go.lex` — the tokens and comments of a source text.
-/

import GoApiDoc.Go.Escape
import GoApiDoc.Text.Split

set_option autoImplicit false

namespace GoApiDoc.Go

/-! ### Lexemes -/

/-- What the characters at the beginning of a text are. -/
inductive Lexeme where
  | blank
  | newline
  | lineComment (text : String)
  /-- A comment between markers, over `lines` line ends. -/
  | blockComment (text : String) (lines : Nat)
  /-- A token, over `lines` line ends. -/
  | token (kind : Token.Kind) (text : String) (lines : Nat)

def isIdentChar (c : Char) : Bool := c == '_' || c.isAlphanum || 128 ≤ c.toNat

def isIdentStart (c : Char) : Bool := c == '_' || c.isAlpha || 128 ≤ c.toNat

def isHexDigit (c : Char) : Bool := (Number.digitValue? c).any (· < 16)

def countLines (cs : List Char) : Nat := cs.count '\n'

/-- The number of characters up to and including the end of a block comment. -/
def blockLength? : List Char → Option Nat
  | [] => none
  | c :: cs =>
    match c, cs with
    | '*', '/' :: _ => some 2
    | _, cs => (blockLength? cs).map (· + 1)

/-- The number of characters before the closing quote `q` of a literal on one line, where a
backslash takes the next character with it. -/
def quoteLength? (q : Char) : List Char → Option Nat
  | [] => none
  | c :: cs =>
    if c == '\n' then none
    else if c == '\\' then
      match cs with
      | [] => none
      | _ :: rest => (quoteLength? q rest).map (· + 2)
    else if c == q then some 0
    else (quoteLength? q cs).map (· + 1)

/-- The number of characters before the closing quote of a raw string. -/
def rawLength? (cs : List Char) : Option Nat :=
  let body := cs.takeWhile (· ≠ '\x60')
  if body.length < cs.length then some body.length else none

def signLength : List Char → Nat
  | c :: _ => if c == '+' || c == '-' then 1 else 0
  | [] => 0

/-- The kind and length of the rest of a number with a base prefix; `skip` characters have been
accounted for already. -/
def basedLength (hex : Bool) (kind : Token.Kind) (skip : Nat) : List Char → Token.Kind × Nat
  | [] => (kind, 0)
  | c :: cs =>
    match skip with
    | k + 1 =>
      let (kind, n) := basedLength hex kind k cs
      (kind, n + 1)
    | 0 =>
      if c == '_' || isHexDigit c then
        let (kind, n) := basedLength hex kind 0 cs
        (kind, n + 1)
      else if hex && (c == '.' || c == 'p' || c == 'P') then
        let (kind, n) := basedLength hex .float (signLength cs) cs
        (kind, n + 1)
      else (kind, 0)

/-- The kind and length of the rest of a decimal number; `skip` characters have been accounted for
already. -/
def decimalLength (kind : Token.Kind) (skip : Nat) : List Char → Token.Kind × Nat
  | [] => (kind, 0)
  | c :: cs =>
    match skip with
    | k + 1 =>
      let (kind, n) := decimalLength kind k cs
      (kind, n + 1)
    | 0 =>
      if c == '_' || c.isDigit then
        let (kind, n) := decimalLength kind 0 cs
        (kind, n + 1)
      else if c == '.' && kind == .int then
        let (kind, n) := decimalLength .float 0 cs
        (kind, n + 1)
      else if c == 'e' || c == 'E' then
        let (kind, n) := decimalLength .float (signLength cs) cs
        (kind, n + 1)
      else (kind, 0)

def isBaseLetter (c : Char) : Bool :=
  c == 'x' || c == 'X' || c == 'b' || c == 'B' || c == 'o' || c == 'O'

/-- The kind of the number that begins with `c`, and the number of its characters after `c`. -/
def numberLength (c : Char) (cs : List Char) : Token.Kind × Nat :=
  let (kind, n) :=
    match c, cs with
    | '0', x :: rest =>
      if isBaseLetter x then
        let (kind, n) := basedLength (x == 'x' || x == 'X') .int 0 rest
        (kind, n + 1)
      else decimalLength .int 0 cs
    | '.', cs => decimalLength .float 0 cs
    | _, cs => decimalLength .int 0 cs
  match cs.drop n with
  | 'i' :: _ => (.imag, n + 1)
  | _ => (kind, n)

/-- The first operator or bracket of the list that the text begins with. -/
def findOperator (cs : List Char) : Option String :=
  operators.find? fun op => (Text.dropPrefix? op.toList cs).isSome

/-- The lexeme at the beginning of the text `c :: cs`, and the number of its characters in `cs`. -/
def lexeme (c : Char) (cs : List Char) : Except Fault (Lexeme × Nat) :=
  if c == ' ' || c == '\t' || c == '\r' then .ok (.blank, 0)
  else if c == '\n' then .ok (.newline, 0)
  else if c == '/' && cs.head? == some '/' then
    let k := (cs.takeWhile (· ≠ '\n')).length
    .ok (.lineComment (Text.trimEndOf '\r' (String.ofList (c :: cs.take k))), k)
  else if c == '/' && cs.head? == some '*' then
    match blockLength? (cs.drop 1) with
    | none => .error .openComment
    | some n =>
      let text := cs.take (n + 1)
      .ok (.blockComment (String.ofList (c :: text)) (countLines text), n + 1)
  else if c == '"' then
    match quoteLength? '"' cs with
    | none => .error .openString
    | some n =>
      match unescapeChars (cs.take n) with
      | .ok text => .ok (.token .str (String.ofList text) 0, n + 1)
      | .error fault => .error (.badEscape fault)
  else if c == '\x60' then
    match rawLength? cs with
    | none => .error .openRawString
    | some n =>
      let body := cs.take n
      .ok (.token .str (String.ofList (body.filter (· ≠ '\r'))) (countLines body), n + 1)
  else if c == '\'' then
    match quoteLength? '\'' cs with
    | none => .error .openRune
    | some n => .ok (.token .char (String.ofList (c :: cs.take (n + 1))) 0, n + 1)
  else if c.isDigit || (c == '.' && (cs.head?).any Char.isDigit) then
    let (kind, n) := numberLength c cs
    .ok (.token kind (String.ofList (c :: cs.take n)) 0, n)
  else if isIdentStart c then
    let n := (cs.takeWhile isIdentChar).length
    let text := String.ofList (c :: cs.take n)
    .ok (.token (if keywords.contains text then .keyword else .ident) text 0, n)
  else
    match findOperator (c :: cs) with
    | some op =>
      .ok (.token (if op == ";" then .semicolon else .punct) op 0, op.length - 1)
    | none => .error (.strayCharacter c)

/-! ### Tokens and comments -/

/-- The tokens and comments read so far, each last one first, and the current line. -/
structure Lexed where
  line : Nat
  tokens : List Token
  comments : List Comment

namespace Lexed

def start : Lexed := ⟨1, [], []⟩

/-- Ends the statement if the last token can end one. -/
def endLine (s : Lexed) : Lexed :=
  match s.tokens with
  | last :: _ =>
    if last.endsStatement then { s with tokens := ⟨.semicolon, "\n", last.line⟩ :: s.tokens } else s
  | [] => s

/-- A token other than a semicolon stands on the current line. -/
def onTokenLine (s : Lexed) : Bool :=
  match s.tokens with
  | last :: _ => last.line == s.line && last.kind != .semicolon
  | [] => false

/-- Adds a comment that begins here and spans `lines` line ends. -/
def addComment (s : Lexed) (text : String) (lines : Nat) : Lexed :=
  { s with
    line := s.line + lines
    comments := ⟨text, s.line, s.line + lines, s.onTokenLine, s.tokens.length⟩ :: s.comments }

def step (s : Lexed) : Lexeme → Lexed
  | .blank => s
  | .newline => { s.endLine with line := s.line + 1 }
  | .lineComment text => s.addComment text 0
  | .blockComment text lines =>
    let s := s.addComment text lines
    if lines = 0 then s else s.endLine
  | .token kind text lines =>
    { s with line := s.line + lines, tokens := ⟨kind, text, s.line⟩ :: s.tokens }

def finish (s : Lexed) : Lexed :=
  let s := s.endLine
  { s with tokens := ⟨.eof, "", s.line⟩ :: s.tokens }

end Lexed

def lexFrom (s : Lexed) : List Char → Except SourceError Lexed
  | [] => .ok s.finish
  | c :: cs =>
    match lexeme c cs with
    | .error fault => .error ⟨s.line, fault⟩
    | .ok (l, k) => lexFrom (s.step l) (cs.drop k)
termination_by cs => cs.length
decreasing_by simp only [List.length_drop, List.length_cons]; omega

/-- The tokens and comments of a source text, in their order. -/
def lex (source : String) : Except SourceError (List Token × List Comment) :=
  (lexFrom .start source.toList).map fun s => (s.tokens.reverse, s.comments.reverse)

end GoApiDoc.Go
