/-
Declarations and files read from tokens.

* `Go.parseTypeDecl`, `Go.parseConstDecl`, `Go.parseFuncDecl` — the declarations that are kept;
* `Go.skipVarDecl` — a declaration of variables, which is passed over;
* `Go.parseBody` — a function body, of which only type declarations at its outermost level are kept;
* `Go.fileOfText` — a whole text as a file.
-/

import GoApiDoc.Go.Parser.Types

set_option autoImplicit false

namespace GoApiDoc.Go

/-! ### Imports -/

/-- An import: an optional name and a path. -/
def parseImport (c : Cursor) : Reading (ImportSpec × Cursor) :=
  let (name, c) :=
    if c.atKind .ident then (some c.peek.text, c.advance)
    else if c.atPunct "." then (some ".", c.advance)
    else (none, c)
  if c.atKind .str then .ok (⟨name, c.peek.text⟩, c.advance) else c.fail .noImportPath

def parseImports : Nat → Cursor → Reading (List ImportSpec × Cursor)
  | 0, c => c.fail .tooDeep
  | fuel + 1, c =>
    let c := c.skipSemicolons
    match c.eat ")" with
    | some c => .ok ([], c)
    | none => do
      let (spec, c) ← parseImport c
      let c ← c.endItem ")"
      let (specs, c) ← parseImports fuel c
      .ok (spec :: specs, c)

def parseImportDecl (fuel : Nat) (c : Cursor) : Reading (List ImportSpec × Cursor) :=
  match c.eat "(" with
  | some c => parseImports fuel c
  | none => do
    let (spec, c) ← parseImport c
    .ok ([spec], c)

/-! ### Types -/

/-- Type parameters, with their own constraints only, up to the closing bracket. -/
def parseParamList (m : CommentMap) : Nat → Cursor → Reading (List (String × Option TypeExpr) × Cursor)
  | 0, c => c.fail .tooDeep
  | fuel + 1, c =>
    if c.atPunct "]" then .ok ([], c)
    else do
      let (name, c) ← c.ident
      let (constraint, c) ←
        if c.atPunct "," || c.atPunct "]" then .ok (none, c)
        else do
          let (t, c) ← parseConstraint m fuel c
          .ok (some t, c)
      match c.eat "," with
      | some c => do
        let (params, c) ← parseParamList m fuel c
        .ok ((name, constraint) :: params, c)
      | none => .ok ([(name, constraint)], c)

/-- Gives every parameter its constraint: its own, or the next one written behind it, or `any`. -/
def shareConstraints : List (String × Option TypeExpr) → List TypeParam
  | [] => []
  | (name, constraint) :: rest =>
    let params := shareConstraints rest
    let inherited := match params with
      | p :: _ => p.constraint
      | [] => .ident "any"
    ⟨name, constraint.getD inherited⟩ :: params

def parseTypeParams (m : CommentMap) (fuel : Nat) (c : Cursor) : Reading (List TypeParam × Cursor) := do
  let c ← c.expect "["
  let (params, c) ← parseParamList m fuel c
  let c ← c.expect "]"
  .ok (shareConstraints params, c)

def parseTypeSpec (m : CommentMap) (fuel : Nat) (doc : Option CommentGroup) (c : Cursor) :
    Reading (TypeSpec × Cursor) := do
  let line := c.peek.line
  let (name, c) ← c.ident
  let (params, c) ← if c.atTypeParams then parseTypeParams m fuel c else .ok ([], c)
  let (isAlias, c) := match c.eat "=" with
    | some c => (true, c)
    | none => (false, c)
  let (type, c) ← parseType m fuel c
  .ok ({ name := name, params := params, isAlias := isAlias, type := type, doc := doc,
         comment := m.onLine c.lastLine, line := line }, c)

/-- Type declarations up to and including the closing parenthesis. -/
def parseTypeSpecs (m : CommentMap) : Nat → Cursor → Reading (List TypeSpec × Cursor)
  | 0, c => c.fail .tooDeep
  | fuel + 1, c =>
    let c := c.skipSemicolons
    match c.eat ")" with
    | some c => .ok ([], c)
    | none => do
      let (spec, c) ← parseTypeSpec m fuel (m.docBefore c.peek.line) c
      let c ← c.endItem ")"
      let (specs, c) ← parseTypeSpecs m fuel c
      .ok (spec :: specs, c)

def parseTypeDecl (m : CommentMap) (fuel : Nat) (doc : Option CommentGroup) (c : Cursor) :
    Reading (List TypeSpec × Cursor) :=
  match c.eat "(" with
  | some c => parseTypeSpecs m fuel c
  | none => do
    let (spec, c) ← parseTypeSpec m fuel doc c
    .ok ([spec], c)

/-! ### Constants and variables -/

/-- The remaining values of a list of expressions separated by commas. -/
def moreValues (m : CommentMap) : Nat → Cursor → Reading (List Expr × Cursor)
  | 0, c => c.fail .tooDeep
  | fuel + 1, c =>
    match c.eat "," with
    | none => .ok ([], c)
    | some c => do
      let (value, c) ← parseExpr m fuel c
      let (values, c) ← moreValues m fuel c
      .ok (value :: values, c)

def parseValueSpec (m : CommentMap) (fuel : Nat) (iota : Nat) (doc : Option CommentGroup)
    (c : Cursor) : Reading (ValueSpec × Cursor) := do
  let line := c.peek.line
  let (names, c) ← parseNames fuel c
  let (type, c) ←
    if c.startsType then do
      let (t, c) ← parseType m fuel c
      .ok (some t, c)
    else .ok (none, c)
  let (values, c) ← match c.eat "=" with
    | some c => do
      let (value, c) ← parseExpr m fuel c
      let (values, c) ← moreValues m fuel c
      .ok (value :: values, c)
    | none => .ok ([], c)
  .ok ({ names := names, type := type, values := values, iota := iota, doc := doc,
         comment := m.onLine c.lastLine, line := line }, c)

/-- Lines of a constant declaration from position `iota` up to and including the closing
parenthesis. -/
def parseValueSpecs (m : CommentMap) : Nat → Nat → Cursor → Reading (List ValueSpec × Cursor)
  | 0, _, c => c.fail .tooDeep
  | fuel + 1, iota, c =>
    let c := c.skipSemicolons
    match c.eat ")" with
    | some c => .ok ([], c)
    | none => do
      let (spec, c) ← parseValueSpec m fuel iota (m.docBefore c.peek.line) c
      let c ← c.endItem ")"
      let (specs, c) ← parseValueSpecs m fuel (iota + 1) c
      .ok (spec :: specs, c)

def parseConstDecl (m : CommentMap) (fuel : Nat) (doc : Option CommentGroup) (c : Cursor) :
    Reading (List ValueSpec × Cursor) :=
  match c.eat "(" with
  | some c => parseValueSpecs m fuel 0 c
  | none => do
    let (spec, c) ← parseValueSpec m fuel 0 doc c
    .ok ([spec], c)

/-- Passes tokens and bracketed regions up to the end of a statement. -/
def skipStatement : Nat → Cursor → Reading Cursor
  | 0, c => c.fail .tooDeep
  | fuel + 1, c =>
    if c.atKind .semicolon || c.atKind .eof then .ok c
    else if c.peek.isOpening then do
      let c ← c.skipBalanced
      skipStatement fuel c
    else skipStatement fuel c.advance

/-- Passes what follows the keyword of a variable declaration. -/
def skipVarDecl (fuel : Nat) (c : Cursor) : Reading Cursor :=
  if c.atPunct "(" then c.skipBalanced else skipStatement fuel c

/-! ### Functions -/

/-- The rest of a function body that began on line `start`, `depth` brackets deep; `fresh` says that
a statement can begin here. -/
def parseBody (m : CommentMap) (start : Nat) : Nat → Nat → Bool → Cursor → Reading (List TypeSpec × Cursor)
  | 0, _, _, c => c.fail .tooDeep
  | fuel + 1, depth, fresh, c =>
    let t := c.peek
    if t.kind = .eof then .error ⟨start, .openBody⟩
    else if t.kind = .semicolon then parseBody m start fuel depth true c.advance
    else if t.isKeyword "type" && depth == 0 && fresh then do
      let (specs, c) ← parseTypeDecl m fuel (m.docBefore t.line) c.advance
      let (more, c) ← parseBody m start fuel depth false c
      .ok (specs ++ more, c)
    else if t.isOpening then parseBody m start fuel (depth + 1) (t.text == "\x7b") c.advance
    else if t.isClosing then
      if depth = 0 then
        if t.text == "\x7d" then .ok ([], c.advance) else .error ⟨t.line, .unbalanced⟩
      else parseBody m start fuel (depth - 1) false c.advance
    else parseBody m start fuel depth false c.advance

/-- Passes a bracketed region if it begins here with the bracket `p`. -/
def skipIfAt (p : String) (c : Cursor) : Reading Cursor :=
  if c.atPunct p then c.skipBalanced else .ok c

/-- What follows the keyword of a function declaration, which stands on `line`. -/
def parseFuncDecl (m : CommentMap) (fuel : Nat) (doc : Option CommentGroup) (line : Nat)
    (c : Cursor) : Reading (FuncDecl × Cursor) := do
  let hasReceiver := c.atPunct "("
  let c ← skipIfAt "(" c
  let (name, c) ← c.ident
  let c ← skipIfAt "[" c
  let c ← if c.atPunct "(" then c.skipBalanced else c.fail .expectedParameters
  let c ←
    if c.atPunct "(" then c.skipBalanced
    else if !c.atPunct "\x7b" && c.startsType then do
      let (_, c) ← parseType m fuel c
      .ok c
    else .ok c
  let (localTypes, c) ←
    if c.atPunct "\x7b" then parseBody m c.peek.line fuel 0 true c.advance else .ok ([], c)
  .ok ({ name := name, hasReceiver := hasReceiver, doc := doc, localTypes := localTypes,
         line := line }, c)

/-! ### Files -/

/-- What one declaration adds to a file. -/
structure FilePart where
  imports : List ImportSpec
  decls : List Decl

/-- The declaration behind the keyword `t`. -/
def parseDecl (m : CommentMap) (fuel : Nat) (t : Token) (c : Cursor) : Reading (FilePart × Cursor) :=
  let doc := m.docBefore t.line
  if t.text == "import" then do
    let (specs, c) ← parseImportDecl fuel c
    .ok (⟨specs, []⟩, c)
  else if t.text == "type" then do
    let (specs, c) ← parseTypeDecl m fuel doc c
    .ok (⟨[], specs.map .type⟩, c)
  else if t.text == "const" then do
    let (specs, c) ← parseConstDecl m fuel doc c
    .ok (⟨[], [.const specs]⟩, c)
  else if t.text == "var" then do
    let c ← skipVarDecl fuel c
    .ok (⟨[], []⟩, c)
  else if t.text == "func" then do
    let (decl, c) ← parseFuncDecl m fuel doc t.line c
    .ok (⟨[], [.func decl]⟩, c)
  else c.fail (.badKeyword t.text)

def parseDecls (m : CommentMap) : Nat → Cursor → Except SourceError FilePart
  | 0, c => c.fail .tooDeep
  | fuel + 1, c =>
    let c := c.skipSemicolons
    let t := c.peek
    if t.kind = .eof then .ok ⟨[], []⟩
    else if t.kind ≠ .keyword then c.fail (.notADeclaration t.text)
    else do
      let (part, c) ← parseDecl m fuel t c.advance
      let more ← parseDecls m fuel c
      .ok ⟨part.imports ++ more.imports, part.decls ++ more.decls⟩

def fileOfText (source : String) : Except SourceError File := do
  let (c, m, fuel) ← openSource source
  let c := c.skipSemicolons
  if !c.peek.isKeyword "package" then c.fail .noPackage
  else do
    let (packageName, c) ← c.advance.ident
    let part ← parseDecls m fuel c
    .ok { packageName := packageName, imports := part.imports, decls := part.decls,
          comments := m.map (·.group) }

end GoApiDoc.Go
