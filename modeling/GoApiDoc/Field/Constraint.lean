/-
Constraints on the values of a struct field, as its tag gives them.

* `Field.Constraints` — the constraints;
* `Field.Constraints.addRules` — those of a validation rule list such as `required,min=1`;
* `Field.Constraints.ofTag` — those of the whole tag.
-/

import GoApiDoc.Field.Tag
import GoApiDoc.Field.Value

set_option autoImplicit false

namespace GoApiDoc.Field

/-- The constraints on the values of a field. -/
structure Constraints where
  type : String
  itemType : String := ""
  format : Option String := none
  maximum : Option Double := none
  minimum : Option Double := none
  multipleOf : Option Double := none
  maxLength : Option Int := none
  minLength : Option Int := none
  maxItems : Option Int := none
  minItems : Option Int := none
  enums : List Json := []

def isNumeric (type : String) : Bool := type == "integer" || type == "number"

namespace Constraints

def hasNumbers (c : Constraints) : Bool := isNumeric c.type || isNumeric c.itemType

def hasStrings (c : Constraints) : Bool := c.type == "string" || c.itemType == "string"

/-- The type of the items of an array, or else of the values. -/
def elementType (c : Constraints) : String := if c.type = "array" then c.itemType else c.type

/-! ### Validation rules -/

/-- A bound: on the value of a number, on the length of a string or of an array. -/
def addBound (c : Constraints) (value : String) (isMax : Bool) : Except DocError Constraints :=
  let invalid : Except DocError Constraints := .error (.malformed (.validationBound value))
  let withLength (f : Int → Constraints) : Except DocError Constraints :=
    match Number.readInt64? value with
    | some n => .ok (f n)
    | none => invalid
  match c.type with
  | "integer" | "number" =>
    match Number.readDouble? value with
    | some x => .ok (if isMax then { c with maximum := some x } else { c with minimum := some x })
    | none => invalid
  | "string" =>
    withLength fun n =>
      if isMax then { c with maxLength := some n } else { c with minLength := some n }
  | "array" =>
    withLength fun n =>
      if isMax then { c with maxItems := some n } else { c with minItems := some n }
  | _ => .ok c

/-- The pieces between the blanks outside single quotes, the quotes removed; `current` is what has
been read of the first one. -/
def splitChoices (quoted : Bool) (current : List Char) : List Char → List String
  | [] => if current.isEmpty then [] else [String.ofList current]
  | '\'' :: cs => splitChoices (!quoted) current cs
  | c :: cs =>
    if c = ' ' ∧ quoted = false then
      if current.isEmpty then splitChoices quoted [] cs
      else String.ofList current :: splitChoices quoted [] cs
    else splitChoices quoted (current ++ [c]) cs

/-- Adds validation rules, up to the one from which on they are about the items. -/
def addRuleList (c : Constraints) : List String → Except DocError Constraints
  | [] => .ok c
  | rule :: rules =>
    let rule := Text.trim rule
    let (name, value) := (Text.splitOnce '=' rule).getD (rule, "")
    match name with
    | "max" | "lte" => do
      let c ← c.addBound value true
      addRuleList c rules
    | "min" | "gte" => do
      let c ← c.addBound value false
      addRuleList c rules
    | "oneof" =>
      if c.enums.isEmpty then do
        let enums ← (splitChoices false [] value.toList).mapM fun v =>
          valueOf c.elementType v "oneof"
        addRuleList { c with enums := enums } rules
      else addRuleList c rules
    | "dive" => .ok c
    | _ => addRuleList c rules

def addRules (c : Constraints) (rules : String) : Except DocError Constraints :=
  if rules.isEmpty then .ok c else c.addRuleList (Text.split ',' rules)

/-! ### Other entries of a tag -/

/-- The values listed under `enums` in place of those of the rules. -/
def addEnums (c : Constraints) (tag : String) : Except DocError Constraints :=
  let list := Tag.get tag "enums"
  if list.isEmpty then .ok c
  else
    (listOf (fun v => valueOf c.elementType (Text.trim v) "enums") list).map fun enums =>
      { c with enums := enums }

/-- The number given under a key, which only numbers may have. -/
def numberFor (c : Constraints) (tag key : String) (old : Option Double) :
    Except DocError (Option Double) :=
  match Tag.lookup? tag key with
  | none => .ok old
  | some value =>
    if c.hasNumbers then
      match Number.readDouble? (Text.trim value) with
      | some x => .ok (some x)
      | none => .error (.malformed (.notANumber key value))
    else .error (.mismatch key c.type)

/-- The length given under a key, which only strings may have. -/
def lengthFor (c : Constraints) (tag key : String) (old : Option Int) :
    Except DocError (Option Int) :=
  match Tag.lookup? tag key with
  | none => .ok old
  | some value =>
    if c.hasStrings then
      match Number.readInt64? (Text.trim value) with
      | some n => .ok (some n)
      | none => .error (.malformed (.notAnInteger key value))
    else .error (.mismatch key c.type)

/-- The constraints of a tag on values whose type path is `type :: rest`. -/
def ofTag (tag type : String) (rest : List String) : Except DocError Constraints := do
  let itemType := if type = "array" ∨ type = "object" then rest.headD "" else ""
  let c : Constraints := { type := type, itemType := itemType, format := Tag.lookup? tag "format" }
  let c ← c.addRules (Tag.get tag "binding")
  let c ← c.addRules (Tag.get tag "validate")
  let c ← c.addEnums tag
  let maximum ← c.numberFor tag "maximum" c.maximum
  let minimum ← c.numberFor tag "minimum" c.minimum
  let multipleOf ← c.numberFor tag "multipleOf" c.multipleOf
  let maxLength ← c.lengthFor tag "maxLength" c.maxLength
  let minLength ← c.lengthFor tag "minLength" c.minLength
  return { c with
    maximum := maximum, minimum := minimum, multipleOf := multipleOf
    maxLength := maxLength, minLength := minLength }

end Constraints

end GoApiDoc.Field
