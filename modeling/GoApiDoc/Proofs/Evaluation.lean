/-
What constants mean, and that folding finds it.

The meaning is given by rules without a table of results and without a guard against cycles: a
constant has the value of its expression, where a name stands for the value of the constant that it
refers to, and the value is then taken as one of the declared type.  A constant that leads back to
itself has no derivation, so it means nothing.

These are the rules of folding for a registry in which no constant has a value yet.

* `Registry.foldPending_denotes` — **the values of all constants**.
-/

import GoApiDoc.Proofs.Folding

set_option autoImplicit false

namespace GoApiDoc.Registry

open Constant
open Go (Expr)

/-! ### What constants mean -/

/-- The value of an expression in a file, where `iota` has a given value. -/
inductive Yields (r : Registry) : FileId → Nat → Expr → Folded → Prop
  | literal {file iota kind text x} (hx : literal? kind text = some x) :
      Yields r file iota (.lit kind text) x.untyped
  | predeclared {file iota name x} (hx : predeclared? iota name = some x) :
      Yields r file iota (.ident name) x.untyped
  | reference {file iota e id c body v w} (he : r.referent? file e = some id)
      (hc : r.consts[id]? = some c) (hbody : c.expr = some body)
      (hv : Yields r c.file c.iota body v) (hw : r.declaredAs? c v = some w) :
      Yields r file iota e w
  | paren {file iota inner v} (hv : Yields r file iota inner v) :
      Yields r file iota (.paren inner) v
  | unary {file iota op operand v x} (hv : Yields r file iota operand v)
      (hx : unary? op (r.classOf v.type) v.value = some x) :
      Yields r file iota (.unary op operand) ⟨x, v.type⟩
  | binary {file iota op lhs rhs u v w} (hu : Yields r file iota lhs u)
      (hv : Yields r file iota rhs v) (hw : binary? r.classOf op u v = some w) :
      Yields r file iota (.binary op lhs rhs) w
  | call {file iota callee arg v w} (hv : Yields r file iota arg v)
      (hw : r.applyCallee? (calleeCore callee) file v = some w) :
      Yields r file iota (.call callee [arg]) w

/-- The value of a constant. -/
def Denotes (r : Registry) (id : ConstId) (w : Folded) : Prop :=
  ∃ c body v, r.consts[id]? = some c ∧ c.expr = some body ∧ r.Yields c.file c.iota body v ∧
    r.declaredAs? c v = some w

/-- The first constant is referred to by the expression of the second. -/
def ReferredBy (r : Registry) (target id : ConstId) : Prop :=
  ∃ c body, r.consts[id]? = some c ∧ c.expr = some body ∧ target ∈ r.references c.file body

/-- No constant has a value yet. -/
def Unfolded (r : Registry) : Prop := ∀ c ∈ r.consts, c.folded = none

variable {r : Registry} {file : FileId} {iota : Nat} {e : Expr} {id : ConstId} {v w : Folded}
  {target : ConstId}

theorem Unfolded.folded_eq_none {c : ConstDecl} (hr : r.Unfolded) (hc : r.consts[id]? = some c) :
    c.folded = none :=
  hr c (Array.mem_of_getElem? hc)

theorem Yields.gives (hr : r.Unfolded) (h : r.Yields file iota e v) : r.Gives file iota e v := by
  induction h with
  | literal hx => exact .literal hx
  | predeclared hx => exact .predeclared hx
  | reference he hc hbody hv hw ih =>
    exact .reference he hc (hr.folded_eq_none hc) hbody ih hw
  | paren hv ih => exact .paren ih
  | unary hv hx ih => exact .unary ih hx
  | binary hu hv hw ihu ihv => exact .binary ihu ihv hw
  | call hv hw ih => exact .call ih hw

theorem Gives.yields (hr : r.Unfolded) (h : r.Gives file iota e v) : r.Yields file iota e v := by
  induction h with
  | literal hx => exact .literal hx
  | predeclared hx => exact .predeclared hx
  | stored he hc hw => cases hw.symm.trans (hr.folded_eq_none hc)
  | reference he hc hnew hbody hv hw ih => exact .reference he hc hbody ih hw
  | paren hv ih => exact .paren ih
  | unary hv hx ih => exact .unary ih hx
  | binary hu hv hw ihu ihv => exact .binary ihu ihv hw
  | call hv hw ih => exact .call ih hw

theorem denotes_iff_carries (hr : r.Unfolded) : r.Denotes id w ↔ r.Carries id w := by
  constructor
  · rintro ⟨c, body, v, hc, hbody, hv, hw⟩
    exact ⟨c, hc, .inr ⟨hr.folded_eq_none hc, v, ⟨body, hbody, hv.gives hr⟩, hw⟩⟩
  · rintro ⟨c, hc, hw | ⟨-, v, ⟨body, hbody, hv⟩, hw⟩⟩
    · cases hw.symm.trans (hr.folded_eq_none hc)
    · exact ⟨c, body, v, hc, hbody, hv.yields hr, hw⟩

theorem ReferredBy.dependsOn (hr : r.Unfolded) (h : r.ReferredBy target id) :
    r.DependsOn target id := by
  obtain ⟨c, body, hc, hbody, htarget⟩ := h
  exact ⟨c, body, hc, hr.folded_eq_none hc, hbody, htarget⟩

/-! ### Values -/

theorem foldOne_eq_some_iff (hr : r.Unfolded) : r.foldOne id = some w ↔ r.Denotes id w :=
  (r.foldOne_eq_some id w).trans (denotes_iff_carries hr).symm

theorem foldOne_eq_none_iff (hr : r.Unfolded) : r.foldOne id = none ↔ ¬ ∃ w, r.Denotes id w := by
  rw [Option.eq_none_iff_forall_ne_some, not_exists]
  exact forall_congr' fun w => not_congr (foldOne_eq_some_iff hr)

/-- A constant that leads to a cycle has no value. -/
theorem foldOne_eq_none_of_cycle (hr : r.Unfolded)
    (hpath : target = id ∨ Relation.TransGen r.ReferredBy target id)
    (hcycle : Relation.TransGen r.ReferredBy target target) : r.foldOne id = none := by
  refine Option.eq_none_iff_forall_ne_some.2 fun w hw => ?_
  have hacc := ((r.foldOne_eq_some id w).1 hw).acc.transGen
  have hdepends : ∀ {a b}, Relation.TransGen r.ReferredBy a b → Relation.TransGen r.DependsOn a b :=
    Relation.TransGen.mono (fun _ _ => ReferredBy.dependsOn hr) _ _
  rcases hpath with rfl | hpath
  · exact not_cyclic_of_acc hacc (hdepends hcycle)
  · exact not_cyclic_of_acc (hacc.inv (hdepends hpath)) (hdepends hcycle)

theorem foldPending_eq (hr : r.Unfolded) : r.foldPending =
    (r.listed.filter fun id => r.consts[id]?.isSome).map fun id => (id, r.foldOne id) := by
  rw [foldPending_eq_map]
  congr 1
  refine List.filter_congr fun id _ => ?_
  unfold isPending
  cases hc : r.consts[id]? with
  | none => rfl
  | some c => simp [hr.folded_eq_none hc]

/-- **The values of all constants.**  If no constant has a value yet, folding gives a constant of a
package a value exactly if the rules do, the same one, and none exactly if they give it none; a
constant that leads to a cycle has none.  The same constants folded in another order have the same
values, and so have those of one package folded on their own. -/
theorem foldPending_denotes (r : Registry) (hr : r.Unfolded) :
    (∀ id, id ∈ r.foldPending.map Prod.fst ↔ id ∈ r.listed ∧ r.consts[id]?.isSome) ∧
    (∀ id result, (id, result) ∈ r.foldPending →
      (∀ w, result = some w ↔ r.Denotes id w) ∧ (result = none ↔ ¬ ∃ w, r.Denotes id w) ∧
      ∀ target, target = id ∨ Relation.TransGen r.ReferredBy target id →
        Relation.TransGen r.ReferredBy target target → result = none) ∧
    (∀ ids, ids.Perm (r.foldPending.map Prod.fst) → (r.foldAll ids []).Perm r.foldPending) ∧
    (∀ path p, r.packages.get? path = some p → (r.foldPackage path).map Prod.fst = p.constOrder ∧
      ∀ id result, (id, result) ∈ r.foldPackage path → (∀ w, result = some w ↔ r.Denotes id w) ∧
        (r.consts[id]?.isSome → (id, result) ∈ r.foldPending)) := by
  have hpending : ∀ id result, (id, result) ∈ r.foldPending ↔
      (id ∈ r.listed ∧ r.consts[id]?.isSome) ∧ r.foldOne id = result := by
    intro id result
    rw [foldPending_eq hr, List.mem_map]
    constructor
    · rintro ⟨id', hid', heq⟩
      cases heq
      exact ⟨List.mem_filter.1 hid', rfl⟩
    · rintro ⟨hid, rfl⟩
      exact ⟨id, List.mem_filter.2 hid, rfl⟩
  refine ⟨fun id => ?_, fun id result hmem => ?_, fun ids hids => ?_, fun path p hp => ?_⟩
  · rw [List.mem_map]
    constructor
    · rintro ⟨⟨id', result⟩, hmem, rfl⟩
      exact ((hpending id' result).1 hmem).1
    · intro hid
      exact ⟨_, (hpending id _).2 ⟨hid, rfl⟩, rfl⟩
  · obtain ⟨-, rfl⟩ := (hpending id result).1 hmem
    exact ⟨fun w => foldOne_eq_some_iff hr, foldOne_eq_none_iff hr,
      fun target => foldOne_eq_none_of_cycle hr⟩
  · rw [foldAll_eq exact_nil, foldPending_eq hr]
    rw [foldPending_eq hr, List.map_map] at hids
    have hresults := hids.map fun id => (id, r.foldOne id)
    rwa [List.map_map] at hresults
  · rw [foldPackage_eq hp]
    refine ⟨List.map_map.trans (List.map_id _), fun id result hmem => ?_⟩
    obtain ⟨id', hid', heq⟩ := List.mem_map.1 hmem
    cases heq
    refine ⟨fun w => foldOne_eq_some_iff hr, fun hsome => (hpending id _).2 ⟨⟨?_, hsome⟩, rfl⟩⟩
    have hvalue : p ∈ r.packages.values := List.mem_map_of_mem (Table.mem_of_get? hp)
    exact List.mem_flatMap_of_mem hvalue hid'

/-- Two packages with constants that refer to each other, two of them in a circle. -/
def crossing : Registry where
  files := #[⟨"a.go", "m/a", .all, ⟨"a", [⟨none, "m/b"⟩], [], []⟩⟩,
    ⟨"b.go", "m/b", .all, ⟨"b", [⟨none, "m/a"⟩], [], []⟩⟩]
  packages := [("m/a", ⟨"m/a", "a", [], [("X", 0), ("Z", 1)], [0, 1], [0]⟩),
    ("m/b", ⟨"m/b", "b", [], [("W", 3), ("Y", 2)], [2, 3], [1]⟩)]
  consts := #[⟨0, "m/a", "X", some (.selector "b" "Y"), none, 0, none, none⟩,
    ⟨0, "m/a", "Z", some (.lit .int "2"), none, 0, none, none⟩,
    ⟨1, "m/b", "Y", some (.binary .add (.selector "a" "X") (.ident "W")), none, 0, none, none⟩,
    ⟨1, "m/b", "W", some (.binary .mul (.selector "a" "Z") (.lit .int "100")),
      some (.ident "int8"), 0, none, none⟩]

set_option maxRecDepth 100000 in
/-- The constants in the circle mean nothing, and the last one is taken as a number of eight bits. -/
theorem foldPending_denotes_crossing : crossing.Unfolded ∧
    crossing.foldPending = [(0, none), (1, some ⟨.int 2, .untyped⟩), (2, none),
      (3, some ⟨.int (-56), .builtin "int8"⟩)] ∧
    crossing.Denotes 3 ⟨.int (-56), .builtin "int8"⟩ ∧ ¬ ∃ w, crossing.Denotes 0 w := by
  have hr : crossing.Unfolded := by
    unfold Unfolded
    decide +kernel
  have hfold : crossing.foldPending = [(0, none), (1, some ⟨.int 2, .untyped⟩), (2, none),
      (3, some ⟨.int (-56), .builtin "int8"⟩)] := by
    cbv
  obtain ⟨-, hvalue, -, -⟩ := foldPending_denotes crossing hr
  refine ⟨hr, hfold, ?_, ?_⟩
  · exact ((hvalue 3 _ (by rw [hfold]; simp)).1 _).1 rfl
  · exact (hvalue 0 none (by rw [hfold]; simp)).2.1.1 rfl

end GoApiDoc.Registry
