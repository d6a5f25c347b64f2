/-
Types and expressions read from tokens.

Types and expressions contain each other (an array type has a length, a conversion has a type), so
their readers are mutually recursive.  Each call hands on one unit less of fuel; every cycle of calls
passes a token, so the fuel that `parserFuel` computes from the number of tokens is enough, and
running out of it is the fault `tooDeep`.

* `Go.parseType`, `Go.parseExpr` — a type and an expression;
* `Go.parserFuel` — the fuel for a list of tokens;
* `Go.typeOfText`, `Go.exprOfText` — a whole text as a type and as an expression.
-/

import GoApiDoc.Go.Parser.Cursor

set_option autoImplicit false

namespace GoApiDoc.Go

def parserFuel (tokens : Nat) : Nat := 16 * (tokens + 1)

/-- The remaining names of a list of identifiers separated by commas. -/
def moreNames : Nat → Cursor → Reading (List String × Cursor)
  | 0, c => c.fail .tooDeep
  | fuel + 1, c =>
    match c.eat "," with
    | none => .ok ([], c)
    | some c => do
      let (name, c) ← c.ident
      let (names, c) ← moreNames fuel c
      .ok (name :: names, c)

def parseNames (fuel : Nat) (c : Cursor) : Reading (List String × Cursor) := do
  let (name, c) ← c.ident
  let (names, c) ← moreNames fuel c
  .ok (name :: names, c)

/-- The next token begins an embedded field: a type name not followed by another type. -/
def atEmbedded (c : Cursor) : Bool :=
  if !c.atKind .ident then true
  else
    let next := c.peekAt 1
    match next.kind with
    | .semicolon | .str | .eof => true
    | .punct =>
      if next.text == "." || next.text == "\x7d" then true
      else if next.text == "[" then !c.atArrayField
      else false
    | _ => false

def litKind? : Token.Kind → Option LitKind
  | .int => some .int
  | .float => some .float
  | .imag => some .imag
  | .char => some .char
  | .str => some .str
  | _ => none

def select (e : Expr) (name : String) : Expr :=
  match e with
  | .ident package => .selector package name
  | _ => .other

mutual

def parseType (m : CommentMap) : Nat → Cursor → Reading (TypeExpr × Cursor)
  | 0, c => c.fail .tooDeep
  | fuel + 1, c =>
    let t := c.peek
    match t.kind with
    | .ident => do
      let c := c.advance
      let (base, c) ← match c.eat "." with
        | some c => do
          let (name, c) ← c.ident
          .ok (TypeExpr.qualified t.text name, c)
        | none => .ok (TypeExpr.ident t.text, c)
      if c.atPunct "[" then
        let (args, c) ← parseTypeArgs m fuel c.advance
        .ok (.generic base args, c)
      else .ok (base, c)
    | .punct =>
      if t.text == "*" then do
        let (elem, c) ← parseType m fuel c.advance
        .ok (.pointer elem, c)
      else if t.text == "[" then
        match c.advance.eat "]" with
        | some c => do
          let (elem, c) ← parseType m fuel c
          .ok (.slice elem, c)
        | none => do
          let c ← match c.advance.eat "..." with
            | some c => .ok c
            | none => do
              let (_, c) ← parseBinary m fuel 1 c.advance
              .ok c
          let c ← c.expect "]"
          let (elem, c) ← parseType m fuel c
          .ok (.array elem, c)
      else if t.text == "(" then do
        let (inner, c) ← parseType m fuel c.advance
        let c ← c.expect ")"
        .ok (inner, c)
      else if t.text == "<-" then
        let c := c.advance
        if !c.peek.isKeyword "chan" then c.fail .expectedChan
        else do
          let (elem, c) ← parseType m fuel c.advance
          .ok (.chan .recv elem, c)
      else c.fail (.expectedType t.text)
    | .keyword =>
      if t.text == "map" then do
        let c ← c.advance.expect "["
        let (key, c) ← parseType m fuel c
        let c ← c.expect "]"
        let (value, c) ← parseType m fuel c
        .ok (.map key value, c)
      else if t.text == "chan" then do
        let (dir, c) := match c.advance.eat "<-" with
          | some c => (ChanDir.send, c)
          | none => (ChanDir.both, c.advance)
        let (elem, c) ← parseType m fuel c
        .ok (.chan dir elem, c)
      else if t.text == "func" then do
        let c ← skipSignature m fuel c.advance
        .ok (.func, c)
      else if t.text == "interface" then do
        let c ← c.advance.expect "\x7b"
        let ((methods, embeds), c) ← parseInterface m fuel c
        .ok (.interface methods embeds, c)
      else if t.text == "struct" then do
        let c ← c.advance.expect "\x7b"
        let (fields, c) ← parseFields m fuel c
        .ok (.struct fields, c)
      else c.fail (.expectedType t.text)
    | _ => c.fail (.expectedType t.text)

def parseTypeArgs (m : CommentMap) : Nat → Cursor → Reading (List TypeExpr × Cursor)
  | 0, c => c.fail .tooDeep
  | fuel + 1, c =>
    match c.eat "]" with
    | some c => .ok ([], c)
    | none => do
      let (arg, c) ← parseType m fuel c
      match c.eat "," with
      | some c => do
        let (args, c) ← parseTypeArgs m fuel c
        .ok (arg :: args, c)
      | none => do
        let c ← c.expect "]"
        .ok ([arg], c)

/-- The parameters and results of a function type, which are passed over. -/
def skipSignature (m : CommentMap) : Nat → Cursor → Reading Cursor
  | 0, c => c.fail .tooDeep
  | fuel + 1, c =>
    if !c.atPunct "(" then c.fail .expectedSignature
    else do
      let c ← c.skipBalanced
      if c.atPunct "(" then c.skipBalanced
      else if c.startsType then do
        let (_, c) ← parseType m fuel c
        .ok c
      else .ok c

/-- The items of an interface type up to and including the closing brace: the number of methods,
and the embedded types. -/
def parseInterface (m : CommentMap) : Nat → Cursor → Reading ((Nat × List TypeExpr) × Cursor)
  | 0, c => c.fail .tooDeep
  | fuel + 1, c =>
    let c := c.skipSemicolons
    match c.eat "\x7d" with
    | some c => .ok ((0, []), c)
    | none =>
      if c.atKind .ident && (c.peekAt 1).isPunct "(" then do
        let c ← skipSignature m fuel c.advance
        let c ← c.endItem "\x7d"
        let ((methods, embeds), c) ← parseInterface m fuel c
        .ok ((methods + 1, embeds), c)
      else do
        let (embed, c) ← parseConstraint m fuel c
        let c ← c.endItem "\x7d"
        let ((methods, embeds), c) ← parseInterface m fuel c
        .ok ((methods, embed :: embeds), c)

/-- A constraint: one term, or the union of several. -/
def parseConstraint (m : CommentMap) : Nat → Cursor → Reading (TypeExpr × Cursor)
  | 0, c => c.fail .tooDeep
  | fuel + 1, c => do
    let (term, c) ← parseTerm m fuel c
    let (terms, c) ← parseTerms m fuel c
    match terms with
    | [] => .ok (term, c)
    | _ :: _ => .ok (.union (term :: terms), c)

def parseTerms (m : CommentMap) : Nat → Cursor → Reading (List TypeExpr × Cursor)
  | 0, c => c.fail .tooDeep
  | fuel + 1, c =>
    match c.eat "|" with
    | none => .ok ([], c)
    | some c => do
      let (term, c) ← parseTerm m fuel c
      let (terms, c) ← parseTerms m fuel c
      .ok (term :: terms, c)

def parseTerm (m : CommentMap) : Nat → Cursor → Reading (TypeExpr × Cursor)
  | 0, c => c.fail .tooDeep
  | fuel + 1, c =>
    match c.eat "~" with
    | some c => do
      let (elem, c) ← parseType m fuel c
      .ok (.tilde elem, c)
    | none => parseType m fuel c

/-- The fields of a struct type up to and including the closing brace. -/
def parseFields (m : CommentMap) : Nat → Cursor → Reading (List Field × Cursor)
  | 0, c => c.fail .tooDeep
  | fuel + 1, c =>
    let c := c.skipSemicolons
    match c.eat "\x7d" with
    | some c => .ok ([], c)
    | none => do
      let doc := m.docBefore c.peek.line
      let (names, c) ← if atEmbedded c then .ok ([], c) else parseNames fuel c
      let (type, c) ← parseType m fuel c
      let (tag, c) := if c.atKind .str then (some c.peek.text, c.advance) else (none, c)
      let field : Field :=
        { names := names, type := type, tag := tag, doc := doc, comment := m.onLine c.lastLine }
      let c ← c.endItem "\x7d"
      let (fields, c) ← parseFields m fuel c
      .ok (field :: fields, c)

/-- An expression made of operators that bind at least as tightly as `least`. -/
def parseBinary (m : CommentMap) : Nat → Nat → Cursor → Reading (Expr × Cursor)
  | 0, _, c => c.fail .tooDeep
  | fuel + 1, least, c => do
    let (lhs, c) ← parseUnary m fuel c
    parseBinaryRest m fuel least lhs c

/-- The operators behind a left operand, and their right operands. -/
def parseBinaryRest (m : CommentMap) : Nat → Nat → Expr → Cursor → Reading (Expr × Cursor)
  | 0, _, _, c => c.fail .tooDeep
  | fuel + 1, least, lhs, c =>
    match (if c.atKind .punct then BinaryOp.ofText? c.peek.text else none) with
    | none => .ok (lhs, c)
    | some op =>
      if op.precedence < least then .ok (lhs, c)
      else do
        let (rhs, c) ← parseBinary m fuel (op.precedence + 1) c.advance
        parseBinaryRest m fuel least (.binary op lhs rhs) c

/-- An expression without binary operators at the outermost level. -/
def parseUnary (m : CommentMap) : Nat → Cursor → Reading (Expr × Cursor)
  | 0, c => c.fail .tooDeep
  | fuel + 1, c =>
    let t := c.peek
    if t.kind != .punct then parsePrimary m fuel c
    else
      match UnaryOp.ofText? t.text with
      | some op => do
        let (operand, c) ← parseUnary m fuel c.advance
        .ok (.unary op operand, c)
      | none =>
        if t.text == "&" || t.text == "<-" || t.text == "*" then do
          let (_, c) ← parseUnary m fuel c.advance
          .ok (.other, c)
        else parsePrimary m fuel c

def parsePrimary (m : CommentMap) : Nat → Cursor → Reading (Expr × Cursor)
  | 0, c => c.fail .tooDeep
  | fuel + 1, c =>
    let t := c.peek
    match litKind? t.kind with
    | some kind => parsePrimaryRest m fuel (.lit kind t.text) c.advance
    | none =>
      if t.kind = .ident then parsePrimaryRest m fuel (.ident t.text) c.advance
      else if t.isPunct "(" then do
        let (inner, c) ← parseBinary m fuel 1 c.advance
        let c ← c.expect ")"
        parsePrimaryRest m fuel (.paren inner) c
      else if c.startsType then do
        let (type, c) ← parseType m fuel c
        if c.atPunct "\x7b" then do
          let c ← c.skipBalanced
          .ok (.other, c)
        else parsePrimaryRest m fuel (.type type) c
      else c.fail (.expectedExpr t.text)

def parsePrimaryRest (m : CommentMap) : Nat → Expr → Cursor → Reading (Expr × Cursor)
  | 0, _, c => c.fail .tooDeep
  | fuel + 1, e, c =>
    match c.eat "." with
    | some c => do
      let (name, c) ← c.ident
      parsePrimaryRest m fuel (select e name) c
    | none =>
      match c.eat "(" with
      | some c => do
        let (args, c) ← parseArgs m fuel c
        parsePrimaryRest m fuel (.call e args) c
      | none =>
        if c.atPunct "[" then do
          let c ← c.skipBalanced
          parsePrimaryRest m fuel .other c
        else .ok (e, c)

def parseArgs (m : CommentMap) : Nat → Cursor → Reading (List Expr × Cursor)
  | 0, c => c.fail .tooDeep
  | fuel + 1, c =>
    match c.eat ")" with
    | some c => .ok ([], c)
    | none => do
      let (arg, c) ← parseBinary m fuel 1 c
      let c := (c.eat "...").getD c
      match c.eat "," with
      | some c => do
        let (args, c) ← parseArgs m fuel c
        .ok (arg :: args, c)
      | none => do
        let c ← c.expect ")"
        .ok ([arg], c)

end

def parseExpr (m : CommentMap) (fuel : Nat) (c : Cursor) : Reading (Expr × Cursor) := parseBinary m fuel 1 c

/-! ### Whole texts -/

/-- The cursor before the first token, the comment groups, and the fuel of a source text. -/
def openSource (source : String) : Except SourceError (Cursor × CommentMap × Nat) := do
  let (tokens, comments) ← lex source
  .ok (⟨tokens, 0⟩, groupComments comments, parserFuel tokens.length)

def typeOfText (source : String) : Except SourceError TypeExpr := do
  let (c, m, fuel) ← openSource source
  let (type, c) ← parseType m fuel c
  let c := c.skipSemicolons
  if c.atKind .eof then .ok type else c.fail (.afterType c.peek.text)

def exprOfText (source : String) : Except SourceError Expr := do
  let (c, m, fuel) ← openSource source
  let (expr, c) ← parseExpr m fuel c
  let c := c.skipSemicolons
  if c.atKind .eof then .ok expr else c.fail (.afterExpr c.peek.text)

end GoApiDoc.Go
