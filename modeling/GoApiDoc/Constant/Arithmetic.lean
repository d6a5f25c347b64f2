/-
Arithmetic on constants.

Integers are exact as long as they fit in 128 bits; an integer of a type with a width is reduced to
that width.  An operation that has no result gives `none`.

* `IntKind`, `IntKind.wrap` — the widths of integer types and the reduction to a width;
* `ConstClass`, `convert?` — what a type can hold and the conversion of a value to it;
* `unary?`, `binary?`, `shift?`, `compare?` — the operators.
-/

import GoApiDoc.Constant.Value
import GoApiDoc.Go.Expr

set_option autoImplicit false

namespace GoApiDoc.Constant

open Go (UnaryOp BinaryOp)

/-! ### Widths -/

/-- The width of an integer type, if it has one. -/
inductive IntKind where
  | exact
  | signed (bits : Nat)
  | unsigned (bits : Nat)
deriving DecidableEq

/-- The integer of the kind that agrees with a given one in the bits of the kind. -/
def IntKind.wrap : IntKind → Int → Int
  | exact, i => i
  | signed bits, i => i.bmod (Nat.pow 2 bits)
  | unsigned bits, i => i % Int.pow 2 bits

def minInt128 : Int := -(Int.pow 2 127)

def maxInt128 : Int := Int.pow 2 127 - 1

/-- The integer if it fits in 128 bits. -/
def fitted? (i : Int) : Option Int := if minInt128 ≤ i ∧ i ≤ maxInt128 then some i else none

def clamped (i : Int) : Int := max minInt128 (min maxInt128 i)

/-- The integer of 128 bits that a number without fractional part stands for. -/
def integer (x : Double) : Int := clamped x.truncated

def onBits (f : BitVec 128 → BitVec 128 → BitVec 128) (a b : Int) : Int :=
  (f (BitVec.ofInt 128 a) (BitVec.ofInt 128 b)).toInt

/-! ### Classes of types -/

/-- What the values of a type are. -/
inductive ConstClass where
  | untyped
  | int (kind : IntKind)
  | float
  | str
  | bool
  | other
deriving DecidableEq

namespace ConstClass

def ofBuiltin : String → ConstClass
  | "int" | "int64" => int (.signed 64)
  | "int8" => int (.signed 8)
  | "int16" => int (.signed 16)
  | "int32" | "rune" => int (.signed 32)
  | "uint" | "uint64" | "uintptr" => int (.unsigned 64)
  | "uint8" | "byte" => int (.unsigned 8)
  | "uint16" => int (.unsigned 16)
  | "uint32" => int (.unsigned 32)
  | "float32" | "float64" => float
  | "string" => str
  | "bool" => bool
  | _ => other

def intKind : ConstClass → IntKind
  | int kind => kind
  | _ => .exact

def isInt : ConstClass → Bool
  | int _ => true
  | _ => false

end ConstClass

/-- The character with a given number, or the replacement character. -/
def charOf (i : Int) : Char :=
  if 0 ≤ i ∧ i.toNat.isValidChar then Char.ofNat i.toNat else '�'

def convert? : ConstClass → ConstValue → Option ConstValue
  | .int kind, .int i => some (.int (kind.wrap i))
  | .int kind, .float x =>
    if x.isIntegral then some (.int (kind.wrap (integer x))) else none
  | .float, .int i => some (.float (Double.ofInt i))
  | .float, .float x => some (.float x)
  | .str, .int i => some (.str (String.singleton (charOf i)))
  | .str, .str s => some (.str s)
  | .bool, .bool b => some (.bool b)
  | .other, v => some v
  | .untyped, v => some v
  | _, _ => none

/-! ### Operators -/

def unary? (op : UnaryOp) (c : ConstClass) : ConstValue → Option ConstValue
  | .int i =>
    match op with
    | .plus => some (.int i)
    | .neg => (fitted? (-i)).map fun j => .int (c.intKind.wrap j)
    | .bitNot =>
      match c.intKind with
      | .unsigned bits => some (.int (onBits (· ^^^ ·) i (Int.pow 2 bits - 1)))
      | kind => some (.int (kind.wrap (-i - 1)))
    | .not => none
  | .float x =>
    match op with
    | .plus => some (.float x)
    | .neg => some (.float x.neg)
    | _ => none
  | .bool b =>
    match op with
    | .not => some (.bool !b)
    | _ => none
  | .str _ => none

/-- A binary operator on integers: division goes toward zero, and the bitwise operators are those of
two's complement. -/
def intOp? (op : BinaryOp) (a b : Int) : Option Int :=
  match op with
  | .add => fitted? (a + b)
  | .sub => fitted? (a - b)
  | .mul => fitted? (a * b)
  | .div => if b = 0 then none else fitted? (a.tdiv b)
  | .rem => if b = 0 ∨ (a = minInt128 ∧ b = -1) then none else some (a.tmod b)
  | .and => some (onBits (· &&& ·) a b)
  | .or => some (onBits (· ||| ·) a b)
  | .xor => some (onBits (· ^^^ ·) a b)
  | .andNot => some (onBits (fun x y => x &&& ~~~y) a b)
  | _ => none

def floatOp? (op : BinaryOp) (x y : Double) : Option Double :=
  match op with
  | .add => some (x.add y)
  | .sub => some (x.sub y)
  | .mul => some (x.mul y)
  | .div => if y.isZero then none else some (x.div y)
  | _ => none

def asDouble? : ConstValue → Option Double
  | .int i => some (Double.ofInt i)
  | .float x => some x
  | _ => none

/-- A floating-point result in a type: an integer type holds it as an integer if it is one. -/
def floatResult (c : ConstClass) (x : Double) : ConstValue :=
  if c.isInt && x.isIntegral then .int (c.intKind.wrap (integer x)) else .float x

/-- An arithmetic or bitwise operator whose result is of a class. -/
def arithmetic? (op : BinaryOp) (c : ConstClass) : ConstValue → ConstValue → Option ConstValue
  | .int a, .int b => (intOp? op a b).map fun i => .int (c.intKind.wrap i)
  | .str a, .str b => if op = .add then some (.str (a ++ b)) else none
  | a, b =>
    match asDouble? a, asDouble? b with
    | some x, some y => (floatOp? op x y).map (floatResult c)
    | _, _ => none

def shiftCount? : ConstValue → Option Int
  | .int i => if 0 ≤ i then some i else none
  | .float x =>
    if x.isIntegral && (!x.isNegative || x.isZero) then some (integer x) else none
  | _ => none

/-- The integer that is shifted; a floating-point number counts if it has no type. -/
def shiftBase? (type : ConstType) : ConstValue → Option Int
  | .int i => some i
  | .float x => if x.isIntegral && type = .untyped then some (integer x) else none
  | _ => none

/-- A left shift: exact if the result is small, reduced to the width of the type otherwise. -/
def shiftLeft? (kind : IntKind) (base count : Int) : Option Int :=
  let bitLength : Nat := if base = 0 then 0 else base.natAbs.log2 + 1
  if count < 127 ∧ (base = 0 ∨ bitLength + count < 127) then
    some (kind.wrap (base * Int.pow 2 count.toNat))
  else if kind = .exact then none
  else if count < 128 then some (kind.wrap (base * Int.pow 2 count.toNat))
  else some 0

def shiftRight (base count : Int) : Int := base / Int.pow 2 (min count 127).toNat

def shift? (op : BinaryOp) (type : ConstType) (c : ConstClass) (l r : ConstValue) :
    Option ConstValue :=
  match shiftCount? r, shiftBase? type l with
  | some count, some base =>
    match op with
    | .shl => (shiftLeft? c.intKind base count).map .int
    | _ => some (.int (shiftRight base count))
  | _, _ => none

def order? : ConstValue → ConstValue → Option Ordering
  | .int a, .int b => some (compare a b)
  | .str a, .str b => some (compare a b)
  | a, b =>
    match asDouble? a, asDouble? b with
    | some x, some y => x.compare? y
    | _, _ => none

def holds (op : BinaryOp) (o : Ordering) : Bool :=
  match op with
  | .eq => o == .eq
  | .ne => o != .eq
  | .lt => o == .lt
  | .le => o != .gt
  | .gt => o == .gt
  | _ => o != .lt

/-- A comparison of two values; truth values are only equal or not. -/
def compare? (op : BinaryOp) : ConstValue → ConstValue → Option Bool
  | .bool a, .bool b =>
    match op with
    | .eq => some (a == b)
    | .ne => some (a != b)
    | _ => none
  | a, b => (order? a b).map (holds op)

def logical? (op : BinaryOp) : ConstValue → ConstValue → Option Bool
  | .bool a, .bool b => some (if op = .logicalAnd then a && b else a || b)
  | _, _ => none

/-- A binary operator on two values with their types, where `classOf` gives the class of a type.
The result has the type of the left operand, or that of the right one if the left has none. -/
def binary? (classOf : ConstType → ConstClass) (op : BinaryOp) (l r : Folded) : Option Folded :=
  match op with
  | .shl | .shr => (shift? op l.type (classOf l.type) l.value r.value).map fun v => ⟨v, l.type⟩
  | .eq | .ne | .lt | .le | .gt | .ge =>
    (compare? op l.value r.value).map fun b => (ConstValue.bool b).untyped
  | .logicalAnd | .logicalOr =>
    (logical? op l.value r.value).map fun b => (ConstValue.bool b).untyped
  | _ =>
    let type := if l.type = .untyped then r.type else l.type
    (arithmetic? op (classOf type) l.value r.value).map fun v => ⟨v, type⟩

end GoApiDoc.Constant
