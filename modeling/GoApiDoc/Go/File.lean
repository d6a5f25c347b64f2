/-
Source files of Go, reduced to the declarations that an interface description is made from.

* `Go.TypeSpec`, `Go.ValueSpec`, `Go.FuncDecl`, `Go.Decl` — the declarations;
* `Go.ImportSpec` — an imported package;
* `Go.File` — a file.
-/

import GoApiDoc.Go.Expr

set_option autoImplicit false

namespace GoApiDoc.Go

/-- A type parameter with its constraint. -/
structure TypeParam where
  name : String
  constraint : TypeExpr

/-- A type declaration. -/
structure TypeSpec where
  name : String
  params : List TypeParam
  isAlias : Bool
  type : TypeExpr
  doc : Option CommentGroup
  comment : Option CommentGroup
  line : Nat

/-- One line of a constant declaration. -/
structure ValueSpec where
  names : List String
  type : Option TypeExpr
  values : List Expr
  /-- The position within the declaration, which is the value of `iota`. -/
  iota : Nat
  doc : Option CommentGroup
  comment : Option CommentGroup
  /-- The line of the first name. -/
  line : Nat

/-- A function declaration. -/
structure FuncDecl where
  name : String
  hasReceiver : Bool
  doc : Option CommentGroup
  localTypes : List TypeSpec
  line : Nat

/-- A declaration. -/
inductive Decl where
  | type (spec : TypeSpec)
  | const (specs : List ValueSpec)
  | func (decl : FuncDecl)

/-- An imported package. -/
structure ImportSpec where
  name : Option String
  path : String
deriving DecidableEq

/-- A source file. -/
structure File where
  packageName : String
  imports : List ImportSpec
  decls : List Decl
  comments : List CommentGroup

end GoApiDoc.Go
