/-
Folding the constants of a registry.

A constant refers to others, which may refer back to it; a reference to a constant that is being
folded has no value.  Results are kept, so that every constant is folded once.

* `Constant.literal?` — the value of a literal;
* `Registry.classOf` — the class of a type, through declarations of one type as another;
* `Registry.foldConst`, `Registry.foldExpr` — folding;
* `Registry.foldPending`, `Registry.foldPackage` — all constants without a value, and those of one
  package.
-/

import GoApiDoc.Constant.Arithmetic
import GoApiDoc.Registry.Lookup

set_option autoImplicit false

namespace GoApiDoc

open Go (TypeExpr Expr LitKind)

/-! ### Literals -/

namespace Constant

/-- The value of an integer literal: decimal, or in base sixteen, two or eight after a zero. -/
def intLiteral? (text : String) : Option Int :=
  let digits := (Text.asciiLower text).toList.filter (· != '_')
  let (radix, body) := match digits with
    | '0' :: 'x' :: rest => (16, rest)
    | '0' :: 'b' :: rest => (2, rest)
    | '0' :: 'o' :: rest => (8, rest)
    | '0' :: d :: rest => (8, d :: rest)
    | digits => (10, digits)
  Number.readIntIn? radix minInt128 maxInt128 body

/-- The number of the first character of a rune literal. -/
def runeLiteral? (text : String) : Option Int :=
  match (Text.stripPrefix "'" text).bind (Text.stripSuffix "'") with
  | none => none
  | some body =>
    match Go.unescape body with
    | .ok decoded => decoded.toList.head?.map fun c => (c.toNat : Int)
    | .error _ => none

def literal? (kind : LitKind) (text : String) : Option ConstValue :=
  match kind with
  | .int => (intLiteral? text).map .int
  | .float =>
    (Number.readDouble? (String.ofList (text.toList.filter (· != '_')))).map .float
  | .char => (runeLiteral? text).map .int
  | .str => some (.str text)
  | .imag => none

end Constant

namespace Registry

open Constant

/-! ### Types of constants -/

/-- The class of a declared type, following at most `hops` declarations of one type as another. -/
def classOfDeclared (r : Registry) : Nat → Go.TypeId → ConstClass
  | 0, _ => .other
  | hops + 1, id =>
    match r.types[id]? with
    | none => .other
    | some d =>
      let follow : ConstClass :=
        match r.lookupType? d.type.text d.file with
        | some (next, _) => r.classOfDeclared hops next
        | none => .other
      match d.type with
      | .ident name => if isBuiltinType name then .ofBuiltin name else follow
      | .qualified _ _ => follow
      | _ => .other

def classOf (r : Registry) : ConstType → ConstClass
  | .untyped => .untyped
  | .builtin name => .ofBuiltin name
  | .foreign _ => .other
  | .named id => r.classOfDeclared 8 id

/-- The type that a declared type of a constant stands for in a file. -/
def constTypeOf (r : Registry) (t : TypeExpr) (file : FileId) : ConstType :=
  let declared : ConstType :=
    match r.lookupType? t.text file with
    | some (id, _) => .named id
    | none => .foreign t.text
  match t with
  | .ident name => if isBuiltinType name then .builtin name else declared
  | .qualified _ _ => declared
  | _ => .foreign t.text

/-- The type that the callee of a conversion stands for; the function `len` is not one. -/
def conversionType? (r : Registry) (callee : Expr) (file : FileId) : Option ConstType :=
  match callee with
  | .ident name =>
    if isBuiltinType name then
      if name = "any" ∨ name = "error" then none else some (.builtin name)
    else (r.lookupType? name file).map fun (id, _) => .named id
  | .selector package name =>
    (r.lookupType? (package ++ "." ++ name) file).map fun (id, _) => .named id
  | _ => none

def convertTo? (r : Registry) (type : ConstType) (v : Folded) : Option Folded :=
  (convert? (r.classOf type) v.value).map fun v => ⟨v, type⟩

/-- What a call of `callee` makes of the folded argument: the length of a string, or a conversion. -/
def applyCallee? (r : Registry) (callee : Expr) (file : FileId) (v : Folded) : Option Folded :=
  match callee with
  | .ident "len" =>
    match v.value with
    | .str s => r.convertTo? (.builtin "int") (ConstValue.int s.utf8ByteSize).untyped
    | _ => none
  | _ => (r.conversionType? callee file).bind fun type => r.convertTo? type v

def calleeCore : Expr → Expr
  | .paren inner => calleeCore inner
  | e => e

/-! ### Folding -/

abbrev Memo := List (ConstId × Option Folded)

def unvisited (r : Registry) (visiting : List ConstId) : Nat :=
  (List.range r.consts.size).countP fun id => !visiting.contains id

theorem unvisited_cons_lt (r : Registry) {visiting : List ConstId} {id : ConstId}
    (hnew : visiting.contains id = false) (hid : id < r.consts.size) :
    r.unvisited (id :: visiting) < r.unvisited visiting := by
  have hmem : id ∈ List.range r.consts.size := List.mem_range.2 hid
  unfold unvisited
  generalize List.range r.consts.size = ids at hmem
  induction ids with
  | nil => cases hmem
  | cons a ids ih =>
    have hle : ids.countP (fun i => !(id :: visiting).contains i)
        ≤ ids.countP (fun i => !visiting.contains i) :=
      List.countP_mono_left fun i _ h => by
        simp only [List.contains_cons, Bool.not_or, Bool.and_eq_true] at h
        exact h.2
    rcases List.mem_cons.1 hmem with rfl | htail
    · have hhead : (id :: visiting).contains id = true := by simp
      simp only [List.countP_cons, hhead, hnew, Bool.not_true, Bool.not_false, if_true,
        Bool.false_eq_true, if_false]
      omega
    · have hlt := ih htail
      simp only [List.countP_cons]
      have hstep : (if (!(id :: visiting).contains a) = true then 1 else 0)
          ≤ (if (!visiting.contains a) = true then 1 else 0) := by
        simp only [List.contains_cons, Bool.not_or, Bool.and_eq_true]
        split
        · next h => exact Nat.le_of_eq (if_pos h.2).symm
        · exact Nat.zero_le _
      omega

mutual

/-- The value of a constant while those in `visiting` are being folded. -/
def foldConst (r : Registry) (visiting : List ConstId) (memo : Memo) (id : ConstId) :
    Option Folded × Memo :=
  match memo.lookup id with
  | some done => (done, memo)
  | none =>
    if hnew : visiting.contains id = false then
      match hc : r.consts[id]? with
      | none => (none, memo)
      | some c =>
        match c.folded with
        | some v => (some v, memo)
        | none =>
          let (v, memo) := match c.expr with
            | some e =>
              have : r.unvisited (id :: visiting) < r.unvisited visiting :=
                r.unvisited_cons_lt hnew (Array.getElem?_eq_some_iff.1 hc).1
              r.foldExpr (id :: visiting) memo c.file c.iota e
            | none => (none, memo)
          let v := match c.type with
            | some t => v.bind (r.convertTo? (r.constTypeOf t c.file))
            | none => v
          (v, (id, v) :: memo)
    else (none, memo)
termination_by (r.unvisited visiting, 0)

/-- The value of an expression in a file, where `iota` has a given value. -/
def foldExpr (r : Registry) (visiting : List ConstId) (memo : Memo) (file : FileId) (iota : Nat)
    (e : Expr) : Option Folded × Memo :=
  match e with
  | .lit kind text => ((literal? kind text).map (·.untyped), memo)
  | .ident "true" => (some (ConstValue.bool true).untyped, memo)
  | .ident "false" => (some (ConstValue.bool false).untyped, memo)
  | .ident "iota" => (some (ConstValue.int iota).untyped, memo)
  | .ident name =>
    match (r.files[file]?).bind fun u => r.findConst? u.packagePath name with
    | some id => r.foldConst visiting memo id
    | none => (none, memo)
  | .selector package name =>
    match (r.packageOf? package file).bind fun path => r.findConst? path name with
    | some id => r.foldConst visiting memo id
    | none => (none, memo)
  | .paren inner => r.foldExpr visiting memo file iota inner
  | .unary op operand =>
    match r.foldExpr visiting memo file iota operand with
    | (some v, memo) =>
      ((unary? op (r.classOf v.type) v.value).map fun x => ⟨x, v.type⟩, memo)
    | (none, memo) => (none, memo)
  | .binary op lhs rhs =>
    match r.foldExpr visiting memo file iota lhs with
    | (some l, memo) =>
      match r.foldExpr visiting memo file iota rhs with
      | (some v, memo) => (binary? r.classOf op l v, memo)
      | (none, memo) => (none, memo)
    | (none, memo) => (none, memo)
  | .call callee [arg] =>
    match r.foldExpr visiting memo file iota arg with
    | (some v, memo) => (r.applyCallee? (calleeCore callee) file v, memo)
    | (none, memo) => (none, memo)
  | .call _ _ => (none, memo)
  | .type _ => (none, memo)
  | .other => (none, memo)
termination_by (r.unvisited visiting, e.weight)
decreasing_by
  all_goals
    refine Prod.Lex.right _ ?_
    simp only [Expr.weight, Expr.weights]
    omega

end

/-! ### Tables -/

def foldAll (r : Registry) : List ConstId → Memo → List (ConstId × Option Folded)
  | [], _ => []
  | id :: ids, memo =>
    let (v, memo) := r.foldConst [] memo id
    (id, v) :: r.foldAll ids memo

/-- The value of every constant that has none yet, packages in the order of their paths. -/
def foldPending (r : Registry) : List (ConstId × Option Folded) :=
  r.foldAll ((r.packages.values.flatMap (·.constOrder)).filter fun id =>
    match r.consts[id]? with
    | some c => c.folded.isNone
    | none => false) []

/-- The value of every constant of a package, in the order of the declarations. -/
def foldPackage (r : Registry) (packagePath : String) : List (ConstId × Option Folded) :=
  match r.packages.get? packagePath with
  | some p => r.foldAll p.constOrder []
  | none => []

end Registry

end GoApiDoc
