/-
JSON values.

Objects are lists of members.  A document under construction keeps its members in the order of its
fields, and may name a member twice; `Json.canonical` is the value it denotes, with members sorted,
the last of equal names winning, and no number that JSON cannot write.

* `Json` — the values;
* `Json.canonical` — the denoted value;
* `Json.field?` — a member of an object.
-/

import GoApiDoc.Table
import GoApiDoc.Number.Double

set_option autoImplicit false

namespace GoApiDoc

/-- A JSON value. -/
inductive Json where
  | null
  | bool (b : Bool)
  | int (i : Int)
  | double (x : Double)
  | str (s : String)
  | arr (items : List Json)
  | obj (members : List (String × Json))

namespace Json

instance : Inhabited Json := ⟨null⟩

/-! ### The denoted value -/

mutual

/-- The value with members sorted by name, the last of equal names winning, and `null` in place of
infinities and non-numbers. -/
def canonical : Json → Json
  | null => null
  | bool b => bool b
  | int i => int i
  | double x => if x.isFinite then double x else null
  | str s => str s
  | arr items => arr (canonicalItems items)
  | obj members => obj (Table.ofEntries (canonicalMembers members))

def canonicalItems : List Json → List Json
  | [] => []
  | v :: vs => canonical v :: canonicalItems vs

/-- The canonical members of an object, still in their order. -/
def canonicalMembers : List (String × Json) → List (String × Json)
  | [] => []
  | (k, v) :: ms => (k, canonical v) :: canonicalMembers ms

end

/-! ### Access -/

def field? (name : String) : Json → Option Json
  | obj members => Table.get? name members
  | _ => none

def str? : Json → Option String
  | str s => some s
  | _ => none

def strs (items : List String) : Json := arr (items.map str)

def ofOption : Option String → Json
  | some s => str s
  | none => null

/-- The member `name` when there is a value for it, and no member otherwise. -/
def optional {α : Type} (name : String) (f : α → Json) : Option α → List (String × Json)
  | some a => [(name, f a)]
  | none => []

/-- The member `name` when the list is not empty. -/
def unlessEmpty {α : Type} (name : String) (f : List α → Json) : List α → List (String × Json)
  | [] => []
  | as => [(name, f as)]

/-- The member `name` with the value `true`, when the flag is set. -/
def whenTrue (name : String) (b : Bool) : List (String × Json) :=
  if b then [(name, bool true)] else []

end Json

end GoApiDoc
