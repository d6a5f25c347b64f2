/-
Values and types of folded constants.

* `ConstValue` — a folded value;
* `ConstType` — the type it ends up with;
* `ConstValue.toJson?` — the value in a document.
-/

import GoApiDoc.Go.TypeExpr
import GoApiDoc.Json.Value

set_option autoImplicit false

namespace GoApiDoc

/-- A folded value. -/
inductive ConstValue where
  | int (i : Int)
  | float (x : Double)
  | str (s : String)
  | bool (b : Bool)
deriving DecidableEq

/-- The type of a constant. -/
inductive ConstType where
  | untyped
  | builtin (name : String)
  | named (id : Go.TypeId)
  | foreign (text : String)
deriving DecidableEq

/-- A value with its type. -/
structure Folded where
  value : ConstValue
  type : ConstType
deriving DecidableEq

def ConstValue.untyped (v : ConstValue) : Folded := ⟨v, .untyped⟩

/-- The value in a document; integers beyond 64 bits and numbers that are not finite have none. -/
def ConstValue.toJson? : ConstValue → Option Json
  | int i => if -(Int.pow 2 63) ≤ i ∧ i < Int.pow 2 64 then some (.int i) else none
  | float x => if x.isFinite then some (.double x) else none
  | str s => some (.str s)
  | bool b => some (.bool b)

end GoApiDoc
