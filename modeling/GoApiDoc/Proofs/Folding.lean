/-
Folding constants of which some have a value already.

A constant with a value stands for it.  Any other has the value of its expression, where a name
stands for the value of the constant that it refers to, taken as one of the declared type.  The rules
know neither a table of results nor a guard against cycles: a constant that leads back to itself has
no derivation, so it carries nothing.

Folding keeps results and gives up at a constant that is being folded already.  What it then notes
down is noted for all constants on the way, and it is right for each of them: they lie on the cycle.

* `Registry.foldExpr_agrees`, `Registry.foldConst_agrees` — **folding agrees with the rules**, in the
  middle of a run as well.
-/

import Mathlib
import GoApiDoc.Proofs.Table
import GoApiDoc.Registry.Collect

set_option autoImplicit false

namespace GoApiDoc.Registry

open Constant
open Go (Expr)

variable {name : String} {c : ConstDecl}

/-! ### The rules -/

/-- The value of a predeclared name. -/
def predeclared? (iota : Nat) : String → Option ConstValue
  | "true" => some (.bool true)
  | "false" => some (.bool false)
  | "iota" => some (.int iota)
  | _ => none

theorem predeclared?_isSome (iota : Nat) (name : String) :
    (predeclared? iota name).isSome = (predeclared? 0 name).isSome := by
  unfold predeclared?
  split
  · rfl
  · rfl
  · rfl
  · rfl

/-- The declared constant that a name stands for in a file. -/
def referent? (r : Registry) (file : FileId) : Expr → Option ConstId
  | .ident name =>
    if (predeclared? 0 name).isSome then none
    else (r.files[file]?).bind fun u => r.findConst? u.packagePath name
  | .selector package name => (r.packageOf? package file).bind fun path => r.findConst? path name
  | _ => none

/-- The value of its expression, as a value of the declared type of a constant. -/
def declaredAs? (r : Registry) (c : ConstDecl) (v : Folded) : Option Folded :=
  match c.type with
  | some t => r.convertTo? (r.constTypeOf t c.file) v
  | none => some v

/-- The value of an expression in a file, where `iota` has a given value. -/
inductive Gives (r : Registry) : FileId → Nat → Expr → Folded → Prop
  | literal {file iota kind text x} (hx : literal? kind text = some x) :
      Gives r file iota (.lit kind text) x.untyped
  | predeclared {file iota name x} (hx : predeclared? iota name = some x) :
      Gives r file iota (.ident name) x.untyped
  | stored {file iota e id c w} (he : r.referent? file e = some id)
      (hc : r.consts[id]? = some c) (hw : c.folded = some w) : Gives r file iota e w
  | reference {file iota e id c body v w} (he : r.referent? file e = some id)
      (hc : r.consts[id]? = some c) (hnew : c.folded = none) (hbody : c.expr = some body)
      (hv : Gives r c.file c.iota body v) (hw : r.declaredAs? c v = some w) :
      Gives r file iota e w
  | paren {file iota inner v} (hv : Gives r file iota inner v) :
      Gives r file iota (.paren inner) v
  | unary {file iota op operand v x} (hv : Gives r file iota operand v)
      (hx : unary? op (r.classOf v.type) v.value = some x) :
      Gives r file iota (.unary op operand) ⟨x, v.type⟩
  | binary {file iota op lhs rhs u v w} (hu : Gives r file iota lhs u)
      (hv : Gives r file iota rhs v) (hw : binary? r.classOf op u v = some w) :
      Gives r file iota (.binary op lhs rhs) w
  | call {file iota callee arg v w} (hv : Gives r file iota arg v)
      (hw : r.applyCallee? (calleeCore callee) file v = some w) :
      Gives r file iota (.call callee [arg]) w

/-- The value of a constant: the one that it has, or else that of its expression. -/
def Carries (r : Registry) (id : ConstId) (w : Folded) : Prop :=
  ∃ c, r.consts[id]? = some c ∧ (c.folded = some w ∨ c.folded = none ∧
    ∃ v, (∃ body, c.expr = some body ∧ r.Gives c.file c.iota body v) ∧ r.declaredAs? c v = some w)

variable {r : Registry} {file : FileId} {iota : Nat} {e : Expr} {id : ConstId} {v w : Folded}

theorem referent?_predeclared {x : ConstValue} (hx : predeclared? iota name = some x) :
    r.referent? file (.ident name) = none := by
  have hsome : (predeclared? 0 name).isSome = true := by
    rw [← predeclared?_isSome iota, hx]
    rfl
  rw [referent?, if_pos hsome]

/-! The value of an expression, by its form. -/

theorem gives_lit {kind : Go.LitKind} {text : String} : r.Gives file iota (.lit kind text) w ↔
      (literal? kind text).map ConstValue.untyped = some w := by
  constructor
  · intro h
    cases h with
    | literal hx => rw [hx, Option.map_some]
    | stored he | reference he => cases he
  · intro h
    obtain ⟨x, hx, rfl⟩ := Option.map_eq_some_iff.1 h
    exact .literal hx

theorem gives_predeclared {x : ConstValue} (hx : predeclared? iota name = some x) :
    r.Gives file iota (.ident name) w ↔ some x.untyped = some w := by
  constructor
  · intro h
    cases h with
    | predeclared hx' => rw [Option.some.inj (hx.symm.trans hx')]
    | stored he | reference he =>
      cases (referent?_predeclared hx).symm.trans he
  · intro h
    exact Option.some.inj h ▸ .predeclared hx

theorem gives_paren {inner : Expr} :
    r.Gives file iota (.paren inner) w ↔ r.Gives file iota inner w := by
  constructor
  · intro h
    cases h with
    | paren hv => exact hv
    | stored he | reference he => cases he
  · exact .paren

theorem gives_unary {op : Go.UnaryOp} {operand : Expr} :
    r.Gives file iota (.unary op operand) w ↔ ∃ v, r.Gives file iota operand v ∧
      ((unary? op (r.classOf v.type) v.value).map fun x => (⟨x, v.type⟩ : Folded)) = some w := by
  constructor
  · intro h
    cases h with
    | unary hv hx => exact ⟨_, hv, by rw [hx, Option.map_some]⟩
    | stored he | reference he => cases he
  · rintro ⟨v, hv, hw⟩
    obtain ⟨x, hx, rfl⟩ := Option.map_eq_some_iff.1 hw
    exact .unary hv hx

theorem gives_binary {op : Go.BinaryOp} {lhs rhs : Expr} :
    r.Gives file iota (.binary op lhs rhs) w ↔ ∃ u, r.Gives file iota lhs u ∧
      ∃ v, r.Gives file iota rhs v ∧ binary? r.classOf op u v = some w := by
  constructor
  · intro h
    cases h with
    | binary hu hv hw => exact ⟨_, hu, _, hv, hw⟩
    | stored he | reference he => cases he
  · rintro ⟨u, hu, v, hv, hw⟩
    exact .binary hu hv hw

theorem gives_call {callee arg : Expr} :
    r.Gives file iota (.call callee [arg]) w ↔ ∃ v, r.Gives file iota arg v ∧
      r.applyCallee? (calleeCore callee) file v = some w := by
  constructor
  · intro h
    cases h with
    | call hv hw => exact ⟨_, hv, hw⟩
    | stored he | reference he => cases he
  · rintro ⟨v, hv, hw⟩
    exact .call hv hw

theorem gives_of_referent (he : r.referent? file e = some id) :
    r.Gives file iota e w ↔ r.Carries id w := by
  constructor
  · intro h
    cases h with
    | predeclared hx =>
      cases (referent?_predeclared hx).symm.trans he
    | stored he' hc hw =>
      cases he.symm.trans he'
      exact ⟨_, hc, .inl hw⟩
    | reference he' hc hnew hbody hv hw =>
      cases he.symm.trans he'
      exact ⟨_, hc, .inr ⟨hnew, _, ⟨_, hbody, hv⟩, hw⟩⟩
    | _ => cases he
  · rintro ⟨c, hc, hw | ⟨hnew, v, ⟨body, hbody, hv⟩, hw⟩⟩
    · exact .stored he hc hw
    · exact .reference he hc hnew hbody hv hw

theorem carries_of_folded (hc : r.consts[id]? = some c) (hfolded : c.folded = some v) :
    r.Carries id w ↔ some v = some w := by
  constructor
  · rintro ⟨c', hc', hw⟩
    obtain rfl : c = c' := Option.some.inj (hc.symm.trans hc')
    rcases hw with hw | ⟨hnew, -⟩
    · rw [← hfolded, hw]
    · cases hfolded.symm.trans hnew
  · intro h
    exact ⟨c, hc, .inl (hfolded.trans h)⟩

theorem carries_of_new (hc : r.consts[id]? = some c) (hnew : c.folded = none) :
    r.Carries id w ↔ ∃ v, (∃ body, c.expr = some body ∧ r.Gives c.file c.iota body v) ∧
      r.declaredAs? c v = some w := by
  constructor
  · rintro ⟨c', hc', hw⟩
    obtain rfl : c = c' := Option.some.inj (hc.symm.trans hc')
    rcases hw with hw | ⟨-, hw⟩
    · cases hw.symm.trans hnew
    · exact hw
  · intro h
    exact ⟨c, hc, .inr ⟨hnew, h⟩⟩

/-! ### References -/

/-- The constants that an expression refers to. -/
def references (r : Registry) (file : FileId) : Expr → List ConstId
  | .paren inner => r.references file inner
  | .unary _ operand => r.references file operand
  | .binary _ lhs rhs => r.references file lhs ++ r.references file rhs
  | .call _ [arg] => r.references file arg
  | e => (r.referent? file e).toList

theorem references_of_referent (he : r.referent? file e = some id) :
    r.references file e = [id] := by
  cases e with
  | ident name | selector package name => simp [references, he]
  | _ => cases he

/-- The first constant is referred to by the expression of the second, which has no value yet. -/
def DependsOn (r : Registry) (target id : ConstId) : Prop :=
  ∃ c body, r.consts[id]? = some c ∧ c.folded = none ∧ c.expr = some body ∧
    target ∈ r.references c.file body

/-- The expression of a constant leads to no cycle if no constant that it refers to does. -/
theorem acc_of_references {body : Expr} (hc : r.consts[id]? = some c) (hbody : c.expr = some body)
    (hrefs : ∀ target ∈ r.references c.file body, Acc r.DependsOn target) : Acc r.DependsOn id := by
  refine .intro _ ?_
  rintro target ⟨c', body', hc', -, hbody', htarget⟩
  obtain rfl : c = c' := Option.some.inj (hc.symm.trans hc')
  obtain rfl : body = body' := Option.some.inj (hbody.symm.trans hbody')
  exact hrefs target htarget

/-- A constant with a value depends on none. -/
theorem acc_of_folded (hc : r.consts[id]? = some c) (hfolded : c.folded = some w) :
    Acc r.DependsOn id := by
  refine .intro _ ?_
  rintro target ⟨c', body', hc', hnew, -⟩
  obtain rfl : c = c' := Option.some.inj (hc.symm.trans hc')
  cases hfolded.symm.trans hnew

theorem Gives.acc (h : r.Gives file iota e v) :
    ∀ target ∈ r.references file e, Acc r.DependsOn target := by
  induction h with
  | literal hx => simp [references, referent?]
  | predeclared hx => simp [references, referent?_predeclared hx]
  | stored he hc hw =>
    intro target htarget
    rw [references_of_referent he, List.mem_singleton] at htarget
    exact htarget ▸ acc_of_folded hc hw
  | reference he hc hnew hbody hv hw ih =>
    intro target htarget
    rw [references_of_referent he, List.mem_singleton] at htarget
    exact htarget ▸ acc_of_references hc hbody ih
  | paren hv ih | unary hv hx ih | call hv hw ih => exact ih
  | binary hu hv hw ihu ihv =>
    intro target htarget
    rcases List.mem_append.1 htarget with htarget | htarget
    · exact ihu target htarget
    · exact ihv target htarget

/-- **A constant that carries a value leads to no cycle.** -/
theorem Carries.acc (h : r.Carries id w) : Acc r.DependsOn id := by
  obtain ⟨c, hc, hw | ⟨-, v, ⟨body, hbody, hv⟩, -⟩⟩ := h
  · exact acc_of_folded hc hw
  · exact acc_of_references hc hbody hv.acc

theorem not_cyclic_of_acc {target : ConstId} (h : Acc (Relation.TransGen r.DependsOn) target) :
    ¬ Relation.TransGen r.DependsOn target target := by
  intro hcycle
  induction h with
  | intro target _ ih => exact ih target hcycle hcycle

/-! ### Folding -/

/-- The results are those of the rules. -/
def Exact (r : Registry) (memo : Memo) : Prop :=
  ∀ id result, memo.lookup id = some result → ∀ w, result = some w ↔ r.Carries id w

/-- The outcome of a step of folding: its value is the one with a property, and the results that it
leaves are those of the rules. -/
structure Agrees (r : Registry) (out : Option Folded × Memo) (D : Folded → Prop) : Prop where
  value : ∀ w, out.1 = some w ↔ D w
  memo : r.Exact out.2

namespace Agrees

variable {out : Option Folded × Memo} {memo : Memo} {D E : Folded → Prop}

theorem congr (h : r.Agrees out D) (hDE : ∀ w, D w ↔ E w) : r.Agrees out E :=
  ⟨fun w => (h.value w).trans (hDE w), h.memo⟩

theorem result (hmemo : r.Exact memo) (result : Option Folded) :
    r.Agrees (result, memo) fun w => result = some w :=
  ⟨fun _ => .rfl, hmemo⟩

theorem nothing (hmemo : r.Exact memo) (hD : ∀ w, ¬ D w) : r.Agrees (none, memo) D :=
  (result hmemo none).congr fun w => ⟨(nomatch ·), fun h => absurd h (hD w)⟩

theorem bind {f : Folded → Memo → Option Folded × Memo} {F : Folded → Folded → Prop} :
    r.Agrees out D → (∀ v memo, r.Exact memo → r.Agrees (f v memo) (F v)) →
      r.Agrees (match out with
        | (some v, memo) => f v memo
        | (none, memo) => (none, memo)) fun w => ∃ v, D v ∧ F v w := by
  intro h hf
  obtain ⟨result, memo⟩ := out
  cases result with
  | none =>
    refine nothing h.memo ?_
    rintro w ⟨v, hv, -⟩
    cases (h.value v).2 hv
  | some v =>
    refine (hf v memo h.memo).congr fun w => ⟨fun hw => ⟨v, (h.value v).1 rfl, hw⟩, ?_⟩
    rintro ⟨v', hv', hw⟩
    cases (h.value v').2 hv'
    exact hw

end Agrees

variable {visiting : List ConstId} {memo : Memo} {name : String}

theorem foldExpr_predeclared {x : ConstValue} (hx : predeclared? iota name = some x) :
    r.foldExpr visiting memo file iota (.ident name) = (some x.untyped, memo) := by
  unfold predeclared? at hx
  split at hx <;> cases hx
  all_goals rw [foldExpr]

theorem foldExpr_ident (hx : predeclared? iota name = none) :
    r.foldExpr visiting memo file iota (.ident name) =
      match r.referent? file (.ident name) with
      | some id => r.foldConst visiting memo id
      | none => (none, memo) := by
  have hname : name ≠ "true" ∧ name ≠ "false" ∧ name ≠ "iota" := by
    refine ⟨?_, ?_, ?_⟩
    all_goals
      rintro rfl
      cases hx
  have hsome : ¬ (predeclared? 0 name).isSome = true := by
    rw [← predeclared?_isSome iota, hx]
    simp
  cases hfound : r.files[file]?.bind fun u => r.findConst? u.packagePath name with
  | none | some id => simp [referent?, foldExpr, hsome, hname, hfound]

theorem agrees_referent (hgives : ∀ w, r.referent? file e = none → ¬ r.Gives file iota e w)
    (hconst : ∀ id ∈ r.references file e, r.Agrees (r.foldConst visiting memo id) (r.Carries id))
    (hmemo : r.Exact memo) :
    r.Agrees (match r.referent? file e with
      | some id => r.foldConst visiting memo id
      | none => (none, memo)) (r.Gives file iota e) := by
  cases he : r.referent? file e with
  | none => exact .nothing hmemo fun w => hgives w he
  | some id =>
    have hid : id ∈ r.references file e := by
      rw [references_of_referent he]
      exact List.mem_singleton_self id
    exact (hconst id hid).congr fun w => (gives_of_referent he).symm

/-- **Folding an expression** agrees with the rules if folding the constants that it refers to
does. -/
theorem foldExpr_agrees (e : Expr) {memo : Memo} (hconst : ∀ id ∈ r.references file e,
      ∀ memo, r.Exact memo → r.Agrees (r.foldConst visiting memo id) (r.Carries id))
    (hmemo : r.Exact memo) :
    r.Agrees (r.foldExpr visiting memo file iota e) (r.Gives file iota e) := by
  match e with
  | .lit kind text =>
    rw [foldExpr]
    exact (Agrees.result hmemo _).congr fun w => gives_lit.symm
  | .ident name =>
    cases hx : predeclared? iota name with
    | some x =>
      rw [foldExpr_predeclared hx]
      exact (Agrees.result hmemo _).congr fun w => (gives_predeclared hx).symm
    | none =>
      rw [foldExpr_ident hx]
      refine agrees_referent (fun w he h => ?_) (fun id hid => hconst id hid memo hmemo) hmemo
      cases h with
      | predeclared hx' => cases hx.symm.trans hx'
      | stored he' | reference he' => cases he.symm.trans he'
  | .selector package name =>
    rw [foldExpr]
    refine agrees_referent (fun w he h => ?_) (fun id hid => hconst id hid memo hmemo) hmemo
    cases h with
    | stored he' | reference he' => cases he.symm.trans he'
  | .paren inner =>
    rw [foldExpr]
    exact (foldExpr_agrees inner hconst hmemo).congr fun w => gives_paren.symm
  | .unary op operand =>
    rw [foldExpr]
    refine .congr ?_ fun w => gives_unary.symm
    exact (foldExpr_agrees operand hconst hmemo).bind fun v _ hmemo => .result hmemo _
  | .binary op lhs rhs =>
    rw [foldExpr]
    refine .congr ?_ fun w => gives_binary.symm
    have hlhs := foldExpr_agrees lhs (fun id hid => hconst id (List.mem_append_left _ hid)) hmemo
    -- the right operand starts with the results that the left one leaves
    exact hlhs.bind fun u memo hmemo =>
      (foldExpr_agrees rhs (fun id hid => hconst id (List.mem_append_right _ hid)) hmemo).bind
        fun v _ hmemo => .result hmemo _
  | .call callee [arg] =>
    rw [foldExpr]
    refine .congr ?_ fun w => gives_call.symm
    exact (foldExpr_agrees arg hconst hmemo).bind fun v _ hmemo => .result hmemo _
  -- the other forms have no value
  | .call callee [] =>
    rw [foldExpr]
    · refine .nothing hmemo fun w h => ?_
      cases h with
      | stored he | reference he => cases he
    · intro arg h
      cases h
  | .call callee (_ :: _ :: _) =>
    rw [foldExpr]
    · refine .nothing hmemo fun w h => ?_
      cases h with
      | stored he | reference he => cases he
    · intro arg h
      cases h
  | .type t =>
    rw [foldExpr]
    refine .nothing hmemo fun w h => ?_
    cases h with
    | stored he | reference he => cases he
  | .other =>
    rw [foldExpr]
    refine .nothing hmemo fun w h => ?_
    cases h with
    | stored he | reference he => cases he
termination_by e.weight
decreasing_by
  all_goals
    simp only [Expr.weight, Expr.weights]
    omega

/-! ### Constants -/

/-- The expression of a constant, folded. -/
def foldBody (r : Registry) (visiting : List ConstId) (memo : Memo) (c : ConstDecl) :
    Option Folded × Memo :=
  match c.expr with
  | some e => r.foldExpr visiting memo c.file c.iota e
  | none => (none, memo)

/-- A constant that is neither known nor being folded has the value of its expression. -/
theorem foldConst_new (hlookup : memo.lookup id = none) (hnew : visiting.contains id = false)
    (hc : r.consts[id]? = some c) (hfolded : c.folded = none) : r.foldConst visiting memo id =
      (((r.foldBody (id :: visiting) memo c).1.bind (r.declaredAs? c)),
        (id, (r.foldBody (id :: visiting) memo c).1.bind (r.declaredAs? c)) ::
          (r.foldBody (id :: visiting) memo c).2) := by
  rw [foldConst, hlookup]
  simp only [hnew, dite_true]
  split
  · next hnone => cases hnone.symm.trans hc
  · next c' hc' =>
    obtain rfl : c = c' := Option.some.inj (hc.symm.trans hc')
    simp only [hfolded]
    unfold foldBody declaredAs?
    cases c.type with
    | none =>
      cases c.expr with
      | none => rfl
      | some e => simp only [Option.bind_fun_some]
    | some t => rfl

/-- A constant with a value has it, unless there is a result for it. -/
theorem foldConst_folded (hlookup : memo.lookup id = none) (hnew : visiting.contains id = false)
    (hc : r.consts[id]? = some c) (hfolded : c.folded = some v) :
    r.foldConst visiting memo id = (some v, memo) := by
  rw [foldConst, hlookup]
  simp only [hnew, dite_true]
  split
  · next hnone => cases hnone.symm.trans hc
  · next c' hc' =>
    obtain rfl : c = c' := Option.some.inj (hc.symm.trans hc')
    simp only [hfolded]

theorem Exact.store {result : Option Folded} (hmemo : r.Exact memo)
    (hresult : ∀ w, result = some w ↔ r.Carries id w) : r.Exact ((id, result) :: memo) := by
  intro id' result' hlookup
  rw [List.lookup_cons] at hlookup
  split at hlookup
  · next heq =>
    obtain rfl := Option.some.inj hlookup
    obtain rfl : id' = id := by simpa using heq
    exact hresult
  · exact hmemo id' result' hlookup

theorem foldBody_agrees (hc : r.consts[id]? = some c) (hnew : c.folded = none)
    (hrefs : ∀ target, r.DependsOn target id → ∀ memo, r.Exact memo →
      r.Agrees (r.foldConst visiting memo target) (r.Carries target))
    (hmemo : r.Exact memo) : r.Agrees (r.foldBody visiting memo c) fun v =>
      ∃ body, c.expr = some body ∧ r.Gives c.file c.iota body v := by
  unfold foldBody
  cases hbody : c.expr with
  | none =>
    refine .nothing hmemo ?_
    rintro v ⟨body, h, -⟩
    cases h
  | some body =>
    have hexpr : r.Agrees (r.foldExpr visiting memo c.file c.iota body)
        (r.Gives c.file c.iota body) :=
      foldExpr_agrees body (fun target ht => hrefs target ⟨c, body, hc, hnew, hbody, ht⟩) hmemo
    refine hexpr.congr fun v => ⟨fun hv => ⟨body, rfl, hv⟩, ?_⟩
    rintro ⟨body', h, hv⟩
    exact Option.some.inj h ▸ hv

/-- **Folding a constant** agrees with the rules if folding those that it depends on does.  The
constants being folded lead to it, so it carries no value if it is one of them. -/
theorem foldConst_agrees_of (hmemo : r.Exact memo)
    (hpath : ∀ id' ∈ visiting, Relation.TransGen r.DependsOn id id')
    (hrefs : visiting.contains id = false → id < r.consts.size →
      ∀ target, r.DependsOn target id → ∀ memo, r.Exact memo →
        r.Agrees (r.foldConst (id :: visiting) memo target) (r.Carries target)) :
    r.Agrees (r.foldConst visiting memo id) (r.Carries id) := by
  cases hlookup : memo.lookup id with
  | some result =>
    rw [foldConst, hlookup]
    exact ⟨hmemo id result hlookup, hmemo⟩
  | none =>
    cases hnew : visiting.contains id with
    | true =>
      rw [foldConst, hlookup]
      simp only [hnew, Bool.true_eq_false, dite_false]
      refine .nothing hmemo fun w hw => not_cyclic_of_acc hw.acc.transGen ?_
      exact hpath id (by simpa using hnew)
    | false =>
      cases hc : r.consts[id]? with
      | none =>
        rw [foldConst, hlookup]
        simp only [hnew, dite_true]
        split
        · refine .nothing hmemo ?_
          rintro w ⟨c, hc', -⟩
          cases hc.symm.trans hc'
        · next c hc' => cases hc.symm.trans hc'
      | some c =>
        cases hfolded : c.folded with
        | some v =>
          rw [foldConst_folded hlookup hnew hc hfolded]
          exact (Agrees.result hmemo _).congr fun w => (carries_of_folded hc hfolded).symm
        | none =>
          obtain ⟨hid, -⟩ := Array.getElem?_eq_some_iff.1 hc
          rw [foldConst_new hlookup hnew hc hfolded]
          have hbody := foldBody_agrees hc hfolded (hrefs hnew hid) hmemo
          have hvalue : ∀ w, (r.foldBody (id :: visiting) memo c).1.bind
              (r.declaredAs? c) = some w ↔ r.Carries id w := by
            intro w
            rw [Option.bind_eq_some_iff, carries_of_new hc hfolded]
            exact exists_congr fun v => and_congr_left' (hbody.value v)
          exact ⟨hvalue, hbody.memo.store hvalue⟩

/-- **Folding agrees with the rules** for every constant that those being folded lead to. -/
theorem foldConst_agrees (hmemo : r.Exact memo)
    (hpath : ∀ id' ∈ visiting, Relation.TransGen r.DependsOn id id') :
    r.Agrees (r.foldConst visiting memo id) (r.Carries id) := by
  -- each constant that is entered leaves fewer to be entered
  induction hn : r.unvisited visiting using Nat.strongRecOn generalizing visiting memo id with
  | ind n ih =>
    refine foldConst_agrees_of hmemo hpath fun hnew hid target htarget memo hmemo => ?_
    refine ih _ (hn ▸ r.unvisited_cons_lt hnew hid) hmemo (fun id' hid' => ?_) rfl
    rcases List.mem_cons.1 hid' with rfl | hid'
    · exact .single htarget
    · exact (Relation.TransGen.single htarget).trans (hpath id' hid')

/-! ### Lists of constants -/

/-- The value of a constant folded on its own. -/
def foldOne (r : Registry) (id : ConstId) : Option Folded := (r.foldConst [] [] id).1

theorem exact_nil : r.Exact [] := by
  intro id result h
  cases h

/-- Between the constants of a list, none is being folded. -/
theorem foldConst_agrees_nil (hmemo : r.Exact memo) (id : ConstId) :
    r.Agrees (r.foldConst [] memo id) (r.Carries id) :=
  foldConst_agrees hmemo (List.forall_mem_nil _)

/-- **A constant folded on its own** has the value that it carries. -/
theorem foldOne_eq_some (r : Registry) (id : ConstId) (w : Folded) :
    r.foldOne id = some w ↔ r.Carries id w :=
  (foldConst_agrees_nil exact_nil id).value w

/-- **In whatever order** constants are folded, each has the value that it has on its own. -/
theorem foldAll_eq (hmemo : r.Exact memo) (ids : List ConstId) :
    r.foldAll ids memo = ids.map fun id => (id, r.foldOne id) := by
  induction ids generalizing memo with
  | nil => rfl
  | cons id ids ih =>
    have hfold := foldConst_agrees_nil hmemo id
    have hvalue : (r.foldConst [] memo id).1 = r.foldOne id :=
      Option.ext fun w => (hfold.value w).trans (r.foldOne_eq_some id w).symm
    rw [foldAll, List.map_cons, ← hvalue, ← ih hfold.memo]

/-- The constants of the packages. -/
def listed (r : Registry) : List ConstId := r.packages.values.flatMap (·.constOrder)

/-- A constant without a value. -/
def isPending (r : Registry) (id : ConstId) : Bool :=
  match r.consts[id]? with
  | some c => c.folded.isNone
  | none => false

/-- Every constant without a value is folded as if on its own. -/
theorem foldPending_eq_map (r : Registry) :
    r.foldPending = (r.listed.filter r.isPending).map fun id => (id, r.foldOne id) :=
  foldAll_eq exact_nil _

theorem foldPackage_eq {path : String} {p : Package} (hp : r.packages.get? path = some p) :
    r.foldPackage path = p.constOrder.map fun id => (id, r.foldOne id) := by
  unfold foldPackage
  rw [hp]
  exact foldAll_eq exact_nil _

/-! ### Storing results -/

/-- A constant with the value that it carries, if it is listed in a package. -/
def settle (r : Registry) (id : ConstId) (c : ConstDecl) : ConstDecl :=
  if id ∈ r.listed ∧ c.folded = none then { c with folded := r.foldOne id } else c

/-- The registry with the value of each constant. -/
def withValues (r : Registry) : Registry := { r with consts := r.consts.mapIdx r.settle }

theorem foldl_storeFolded (value : ConstId → Option Folded) (ids : List ConstId) (r : Registry) :
    (ids.map fun id => (id, value id)).foldl storeFolded r =
      { r with consts := r.consts.mapIdx fun id c =>
          if id ∈ ids then { c with folded := value id } else c } := by
  induction ids generalizing r with
  | nil =>
    have hsame : (r.consts.mapIdx fun _ c => c) = r.consts := by
      apply Array.ext_getElem?
      intro i
      rw [Array.getElem?_mapIdx, Option.map_id']
    simp only [List.map_nil, List.foldl_nil, List.not_mem_nil, if_false, hsame]
  | cons id ids ih =>
    rw [List.map_cons, List.foldl_cons, ih]
    simp only [storeFolded]
    congr 1
    apply Array.ext_getElem?
    intro i
    simp only [Array.getElem?_mapIdx, Array.getElem?_modify, List.mem_cons]
    by_cases hid : id = i
    · subst hid
      cases r.consts[id]? with
      | none => simp
      | some c => by_cases hmem : id ∈ ids <;> simp [hmem]
    · simp [hid, Ne.symm hid]

theorem foldl_foldPending (r : Registry) : r.foldPending.foldl storeFolded r = r.withValues := by
  rw [foldPending_eq_map, foldl_storeFolded]
  simp only [withValues]
  congr 1
  apply Array.ext_getElem?
  intro i
  rw [Array.getElem?_mapIdx, Array.getElem?_mapIdx]
  cases hc : r.consts[i]? with
  | none => rfl
  | some c =>
    have hpending : r.isPending i = true ↔ c.folded = none := by
      rw [isPending, hc]
      exact Option.isNone_iff_eq_none
    simp only [Option.map_some, settle, List.mem_filter, hpending]

/-- Each constant gets its value, and each type the constants of that type. -/
theorem foldConstants_eq (r : Registry) :
    r.foldConstants = { r.withValues with
      types := r.types.mapIdx fun id d => { d with enums := r.withValues.enumMembers id } } := by
  unfold foldConstants
  rw [foldl_foldPending]
  rfl

end GoApiDoc.Registry
