/-
Type expressions of Go, as written in a source text or in an annotation.

* `Go.TypeExpr`, `Go.Field` — the expressions and the fields of struct types;
* `Go.TypeExpr.text` — the written form;
* `Go.TypeExpr.target` — what a chain of pointers points to;
* `Go.TypeExpr.weight` — the number of nodes, a measure for recursions over types.
-/

import GoApiDoc.Go.CommentGroup

set_option autoImplicit false

namespace GoApiDoc.Go

abbrev TypeId := Nat

/-- The directions of a channel type. -/
inductive ChanDir where
  | both
  | send
  | recv
deriving DecidableEq

/-- A field of a struct whose types are of the kind `τ`; an embedded field has no names. -/
structure FieldOf (τ : Type) where
  names : List String
  type : τ
  tag : Option String
  doc : Option CommentGroup
  comment : Option CommentGroup

/-- A type expression. -/
inductive TypeExpr where
  | ident (name : String)
  | qualified (package name : String)
  | generic (base : TypeExpr) (args : List TypeExpr)
  | pointer (elem : TypeExpr)
  | slice (elem : TypeExpr)
  | array (elem : TypeExpr)
  | map (key value : TypeExpr)
  | chan (dir : ChanDir) (elem : TypeExpr)
  | func
  | interface (methods : Nat) (embeds : List TypeExpr)
  | struct (fields : List (FieldOf TypeExpr))
  | tilde (elem : TypeExpr)
  | union (terms : List TypeExpr)
  | resolved (id : TypeId)

abbrev Field := FieldOf TypeExpr

namespace TypeExpr

instance : Inhabited TypeExpr := ⟨func⟩

/-! ### The written form -/

mutual

def text : TypeExpr → String
  | ident name => name
  | qualified package name => package ++ "." ++ name
  | generic base args => base.text ++ "[" ++ ",".intercalate (texts args) ++ "]"
  | pointer elem => "*" ++ elem.text
  | slice elem => "[]" ++ elem.text
  | array elem => "[...]" ++ elem.text
  | map key value => "map[" ++ key.text ++ "]" ++ value.text
  | chan _ elem => "chan " ++ elem.text
  | func => "func"
  | interface _ _ => "interface\x7b\x7d"
  | struct _ => "struct\x7b\x7d"
  | tilde elem => "~" ++ elem.text
  | union terms => "|".intercalate (texts terms)
  | resolved id => s!"#{id}"

def texts : List TypeExpr → List String
  | [] => []
  | t :: ts => t.text :: texts ts

end

/-! ### Pointers -/

def target : TypeExpr → TypeExpr
  | pointer elem => elem.target
  | t => t

/-! ### Size -/

mutual

def weight : TypeExpr → Nat
  | ident _ | qualified _ _ | func | resolved _ => 1
  | generic base args => base.weight + weights args + 1
  | pointer elem | slice elem | array elem | chan _ elem | tilde elem => elem.weight + 1
  | map key value => key.weight + value.weight + 1
  | interface _ embeds => weights embeds + 1
  | struct fields => fieldWeights fields + 1
  | union terms => weights terms + 1

def weights : List TypeExpr → Nat
  | [] => 0
  | t :: ts => t.weight + weights ts + 1

def fieldWeights : List (FieldOf TypeExpr) → Nat
  | [] => 0
  | ⟨_, t, _, _, _⟩ :: fs => t.weight + fieldWeights fs + 1

end

end TypeExpr

end GoApiDoc.Go
