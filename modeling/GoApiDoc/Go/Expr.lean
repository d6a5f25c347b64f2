/-
Expressions of Go, as far as constant declarations need them.

* `Go.Expr`, `Go.UnaryOp`, `Go.BinaryOp` — the expressions and their operators;
* `Go.BinaryOp.precedence` — how tightly an operator binds;
* `Go.Expr.weight` — the number of nodes, a measure for recursions over expressions.
-/

import GoApiDoc.Go.TypeExpr

set_option autoImplicit false

namespace GoApiDoc.Go

/-- The kinds of literals. -/
inductive LitKind where
  | int
  | float
  | imag
  | char
  | str
deriving DecidableEq

/-- The unary operators. -/
inductive UnaryOp where
  | neg
  | plus
  | not
  | bitNot
deriving DecidableEq

/-- The binary operators. -/
inductive BinaryOp where
  | add
  | sub
  | mul
  | div
  | rem
  | and
  | or
  | xor
  | andNot
  | shl
  | shr
  | eq
  | ne
  | lt
  | le
  | gt
  | ge
  | logicalAnd
  | logicalOr
deriving DecidableEq

namespace UnaryOp

def ofText? : String → Option UnaryOp
  | "+" => some plus
  | "-" => some neg
  | "!" => some not
  | "^" => some bitNot
  | _ => none

end UnaryOp

namespace BinaryOp

def ofText? : String → Option BinaryOp
  | "+" => some add
  | "-" => some sub
  | "*" => some mul
  | "/" => some div
  | "%" => some rem
  | "&" => some and
  | "|" => some or
  | "^" => some xor
  | "&^" => some andNot
  | "<<" => some shl
  | ">>" => some shr
  | "==" => some eq
  | "!=" => some ne
  | "<" => some lt
  | "<=" => some le
  | ">" => some gt
  | ">=" => some ge
  | "&&" => some logicalAnd
  | "||" => some logicalOr
  | _ => none

/-- How tightly an operator binds; a greater number binds tighter. -/
def precedence : BinaryOp → Nat
  | logicalOr => 1
  | logicalAnd => 2
  | eq | ne | lt | le | gt | ge => 3
  | add | sub | or | xor => 4
  | mul | div | rem | shl | shr | and | andNot => 5

end BinaryOp

/-- An expression. -/
inductive Expr where
  /-- A literal with its text; a string literal has its decoded value. -/
  | lit (kind : LitKind) (value : String)
  | ident (name : String)
  | selector (package name : String)
  | paren (inner : Expr)
  | unary (op : UnaryOp) (operand : Expr)
  | binary (op : BinaryOp) (lhs rhs : Expr)
  | call (callee : Expr) (args : List Expr)
  | type (t : TypeExpr)
  | other

namespace Expr

instance : Inhabited Expr := ⟨other⟩

mutual

def weight : Expr → Nat
  | lit _ _ | ident _ | selector _ _ | type _ | other => 1
  | paren inner => inner.weight + 1
  | unary _ operand => operand.weight + 1
  | binary _ lhs rhs => lhs.weight + rhs.weight + 1
  | call callee args => callee.weight + weights args + 1

def weights : List Expr → Nat
  | [] => 0
  | e :: es => e.weight + weights es + 1

end

end Expr

end GoApiDoc.Go
