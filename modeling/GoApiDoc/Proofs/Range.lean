/-
Integer constants lie in the range of their type.

A value gets a type of a width in three ways: it is converted, it is the result of an operator on
values of the type, or it is that of another constant.  Conversions and most operators reduce to the
width; the others cannot leave the range of their operands.  So the values that are found when
constants are collected lie in the range that their types have at that moment, if those found before
do.  A value is not looked at again, though: if a file that is added later turns a type that was
declared nowhere into an integer type, the constants of that type keep their values.

* `Registry.ranged_of_gives` — **operators, conversions and references keep integers in range**;
* `Registry.typed_integers_in_range` — **the integers of a registry lie in the range of their
  types**, so they can be written, and they are members of their types.
-/

import GoApiDoc.Proofs.Enumeration
import GoApiDoc.Proofs.ExactFolding
import GoApiDoc.Proofs.WellFormed

set_option autoImplicit false

namespace GoApiDoc

variable {r : Registry} {c : ConstDecl} {file : FileId}

namespace Constant

variable {c : ConstClass} {v w : ConstValue} {op : Go.BinaryOp} {u : ConstValue}

/-! ### Operators -/

/-- An integer lies in the range of the class, if the class has a width. -/
def Ranged (c : ConstClass) (v : ConstValue) : Prop :=
  ∀ i, v = .int i → c.intKind ≠ .exact → c.intKind.Holds i

theorem ranged_of_exact (hc : c.intKind = .exact) : Ranged c v :=
  fun _ _ hwidth => absurd hc hwidth

theorem ranged_wrap (hc : c.intKind.IsMachine) (i : Int) : Ranged c (.int (c.intKind.wrap i)) := by
  intro j hj hwidth
  cases hj
  exact (IntKind.reduced_wrap hc fun hexact => absurd hexact hwidth).1

/-- **Conversions** reduce to the width. -/
theorem ranged_convert? (hc : c.intKind.IsMachine) (h : convert? c v = some w) : Ranged c w := by
  unfold convert? at h
  split at h
  · cases h
    exact ranged_wrap hc _
  · split at h
    · cases h
      exact ranged_wrap hc _
    · cases h
  all_goals first | cases h; exact ranged_of_exact rfl | cases h

theorem ranged_unary? {op : Go.UnaryOp} (hc : c.intKind.IsMachine) (hv : Ranged c v)
    (h : unary? op c v = some w) : Ranged c w := by
  intro j hj hwidth
  cases v with
  | int i =>
    obtain ⟨z, j', rfl, -, hreduced⟩ := unary?_int_reduced hc (hv i rfl hwidth) h
    cases hj
    exact hreduced.1
  | float x =>
    cases op with
    | plus | neg =>
      subst hj
      cases h
    | _ => cases h
  | bool b =>
    cases op with
    | not =>
      subst hj
      cases h
    | _ => cases h
  | str s => cases h

theorem ranged_arithmetic? (hc : c.intKind.IsMachine)
    (h : arithmetic? op c u v = some w) : Ranged c w := by
  unfold arithmetic? at h
  split at h
  · obtain ⟨i, -, rfl⟩ := Option.map_eq_some_iff.1 h
    exact ranged_wrap hc i
  · split at h
    · cases h
      intro j hj
      cases hj
    · cases h
  · split at h
    · obtain ⟨x, -, rfl⟩ := Option.map_eq_some_iff.1 h
      unfold floatResult
      split
      · exact ranged_wrap hc _
      · intro j hj
        cases hj
    · cases h

/-- A shift stays in the range of what is shifted, or is reduced to its width. -/
theorem ranged_shift? (hop : op = .shl ∨ op = .shr) {t : ConstType} (hu : Ranged (r.classOf t) u) (h : shift? op t (r.classOf t) u v = some w) :
    Ranged (r.classOf t) w := by
  intro j hj hwidth
  unfold shift? at h
  split at h
  · next count base hcount hbase =>
    have hholds : (r.classOf t).intKind.Holds base := by
      cases u with
      | int i =>
        cases hbase
        exact hu base rfl hwidth
      | float x =>
        -- only a number without a type is shifted
        rw [shiftBase?] at hbase
        split at hbase
        · next hx =>
          rw [Bool.and_eq_true, decide_eq_true_iff] at hx
          exact absurd (by rw [hx.2]; rfl) hwidth
        · cases hbase
      | _ => cases hbase
    rcases hop with rfl | rfl
    · obtain ⟨j', hj', rfl⟩ := Option.map_eq_some_iff.1 h
      cases hj
      have hc := isMachine_classOf r t
      obtain ⟨rfl, -⟩ | ⟨-, hcount, -⟩ := shiftLeft?_cases hj'
      · exact ranged_wrap hc _ _ rfl hwidth
      · exact (shiftLeft?_reduced hc (by omega) hj').1
    · cases h
      cases hj
      exact holds_shiftRight hholds count
  · cases h

theorem ranged_binary? {l m k : Folded} (hl : Ranged (r.classOf l.type) l.value)
    (h : binary? r.classOf op l m = some k) : Ranged (r.classOf k.type) k.value := by
  obtain ⟨p, rfl⟩ | ⟨x, hop, hx, rfl⟩ | ⟨t, x, -, hx, rfl⟩ := binary?_cases h
  · exact ranged_of_exact rfl
  · exact ranged_shift? hop hl hx
  · exact ranged_arithmetic? (isMachine_classOf r t) hx

end Constant

namespace Registry

open Constant
open Go (TypeId)

variable {r r' : Registry} {v w : Folded} {e : Go.Expr}

/-! ### Expressions -/

/-- The integers that constants have lie in the range of their types. -/
def InRange (r : Registry) : Prop :=
  ∀ c ∈ r.consts, ∀ w, c.folded = some w → Ranged (r.classOf w.type) w.value

theorem ranged_convertTo? {type : ConstType} (h : r.convertTo? type v = some w) :
    Ranged (r.classOf w.type) w.value := by
  obtain ⟨x, hx, rfl⟩ := Option.map_eq_some_iff.1 h
  exact ranged_convert? (isMachine_classOf r type) hx

theorem ranged_declaredAs? (hv : Ranged (r.classOf v.type) v.value)
    (h : r.declaredAs? c v = some w) : Ranged (r.classOf w.type) w.value := by
  unfold declaredAs? at h
  split at h
  · exact ranged_convertTo? h
  · cases h
    exact hv

/-- **Operators, conversions and references** keep integers in the range of their types. -/
theorem ranged_of_gives (h : InRange r) {iota : Nat}
    (hv : r.Gives file iota e v) : Ranged (r.classOf v.type) v.value := by
  induction hv with
  | literal hx | predeclared hx => exact ranged_of_exact rfl
  | stored he hc hw => exact h _ (Array.mem_of_getElem? hc) _ hw
  | reference he hc hnew hbody hv hw ih => exact ranged_declaredAs? ih hw
  | paren hv ih => exact ih
  | unary hv hx ih => exact ranged_unary? (isMachine_classOf r _) ih hx
  | binary hu hv hw ihu ihv => exact ranged_binary? ihu hw
  | call hv hw ih =>
    unfold applyCallee? at hw
    split at hw
    · split at hw
      · exact ranged_convertTo? hw
      · cases hw
    · obtain ⟨type, -, hw⟩ := Option.bind_eq_some_iff.1 hw
      exact ranged_convertTo? hw

theorem ranged_of_carries (h : InRange r) {id : ConstId} (hw : r.Carries id w) :
    Ranged (r.classOf w.type) w.value := by
  obtain ⟨c, hc, hfolded | ⟨-, v, ⟨body, -, hv⟩, hw⟩⟩ := hw
  · exact h c (Array.mem_of_getElem? hc) w hfolded
  · exact ranged_declaredAs? (ranged_of_gives h hv) hw

theorem InRange.foldConstants (h : InRange r) : InRange r.foldConstants := by
  intro c hc w hw
  obtain ⟨id, hid⟩ := Array.mem_iff_getElem?.1 hc
  rw [consts_foldConstants] at hid
  obtain ⟨c₀, hc₀, rfl⟩ := Option.map_eq_some_iff.1 hid
  rw [r.mirrors_foldConstants.1.classOf]
  exact ranged_of_carries h (carries_of_settle hc₀ hw)

/-! ### Steps -/

/-- The types of the constants that have a value have the same class in both registries. -/
def KeepsClasses (r r' : Registry) : Prop :=
  ∀ c ∈ r.consts, ∀ w, c.folded = some w → r'.classOf w.type = r.classOf w.type

/-- The registries on whose way no type of a constant that had a value has got another class.  All
steps but collecting leave the constants alone. -/
inductive Steady : Registry → Prop
  | empty (goroot : Option String) : Steady { goroot := goroot }
  | collect {r : Registry} (h : Steady r) (hkeep : r.KeepsClasses r.parseTypes) : Steady r.parseTypes
  | leave {r r' : Registry} (h : Steady r) (harises : Arises r') (hconsts : r'.consts = r.consts)
      (hkeep : r.KeepsClasses r') : Steady r'

theorem Steady.arises (h : Steady r) : Arises r := by
  induction h with
  | empty goroot => exact .empty goroot
  | collect h hkeep ih => exact .parseTypes ih
  | leave h harises hconsts hkeep ih => exact harises

theorem folded_constDecls {path : String} {values : List Go.Expr} {type : Option Go.TypeExpr}
    {specs : List Go.ValueSpec} (hc : c ∈ constDecls file path values type specs) :
    c.folded = none := by
  induction specs generalizing values type with
  | nil => cases hc
  | cons spec specs ih =>
    rw [constDecls] at hc
    rcases List.mem_append.1 hc with hc | hc
    · obtain ⟨i, hi, rfl⟩ := List.mem_mapIdx.1 hc
      rfl
    · exact ih hc

theorem folded_constsOfFile (hc : c ∈ r.constsOfFile file) : c.folded = none := by
  unfold constsOfFile at hc
  split at hc
  · cases hc
  · obtain ⟨decl, -, hc⟩ := List.mem_flatMap.1 (List.mem_filter.1 hc).1
    cases decl with
    | const specs => exact folded_constDecls hc
    | _ => cases hc

/-- Collecting leaves the constants that there are as they are, and enters others without a value. -/
theorem consts_collectNew (r : Registry) (hc : c ∈ r.collectNew.markUnique.consts) :
    c ∈ r.consts ∨ c.folded = none := by
  rw [markUnique_frame (·.consts) fun _ => rfl] at hc
  obtain hold | hnew := List.mem_append.1 (consts_foldl_collectFile _ r ▸ Array.mem_toList_iff.2 hc)
  · exact .inl (Array.mem_toList_iff.1 hold)
  · obtain ⟨file, -, hfile⟩ := List.mem_flatMap.1 hnew
    exact .inr (folded_constsOfFile hfile)

theorem InRange.parseTypes (h : InRange r) (hkeep : r.KeepsClasses r.parseTypes) :
    InRange r.parseTypes := by
  rw [parseTypes_eq] at hkeep ⊢
  refine InRange.foldConstants fun c hc w hw => ?_
  rcases consts_collectNew r hc with hold | hnew
  · rw [← (mirrors_foldConstants _).1.classOf, hkeep c hold w hw]
    exact h c hold w hw
  · cases hnew.symm.trans hw

/-- **Every step keeps integers in range.** -/
theorem Steady.inRange (h : Steady r) : InRange r := by
  induction h with
  | empty goroot => exact fun c hc => absurd hc (Array.not_mem_empty c)
  | collect h hkeep ih => exact ih.parseTypes hkeep
  | leave h harises hconsts hkeep ih =>
    intro c hc w hw
    rw [hconsts] at hc
    rw [hkeep c hc w hw]
    exact ih c hc w hw

/-! ### Values that are written -/

theorem toJson?_of_holds {kind : IntKind} {i : Int} (hkind : kind.IsMachine) (hwidth : kind ≠ .exact)
    (hi : kind.Holds i) : (ConstValue.int i).toJson? = some (.int i) := by
  refine if_pos ?_
  change -(2 ^ 63) ≤ i ∧ i < 2 ^ 64
  cases kind with
  | exact => exact absurd rfl hwidth
  | signed bits =>
    have hpow : (2 : Int) ^ (bits - 1) ≤ 2 ^ 63 :=
      pow_le_pow_right₀ (by norm_num) (by have := hkind.2; omega)
    have hbounds : -(2 ^ (bits - 1)) ≤ i ∧ i < 2 ^ (bits - 1) := hi
    omega
  | unsigned bits =>
    have hpow : (2 : Int) ^ bits ≤ 2 ^ 64 := pow_le_pow_right₀ (by norm_num) hkind.2
    have hbounds : 0 ≤ i ∧ i < 2 ^ bits := hi
    omega

/-- **The integer constants of a registry lie in the range of their types**, as long as no step has
changed the class of the type of a constant that had a value, so for the first files that are
collected in any case.  Such an integer can be written, and when constants have been collected it is
a member of its type if that is declared. -/
theorem typed_integers_in_range (h : Steady r) {c : ConstDecl} (hc : c ∈ r.consts) {i : Int}
    {t : ConstType} (hfolded : c.folded = some ⟨.int i, t⟩)
    (hwidth : (r.classOf t).intKind ≠ .exact) :
    (r.classOf t).intKind.Holds i ∧ (ConstValue.int i).toJson? = some (.int i) ∧
    ∀ (s : Registry) (id : TypeId), r = s.parseTypes → t = .named id →
      ∃ d, r.types[id]? = some d ∧ ⟨c.name, .int i, c.comment.getD ""⟩ ∈ d.enums := by
  have hholds := h.inRange c hc _ hfolded i rfl hwidth
  have hjson := toJson?_of_holds (isMachine_classOf r t) hwidth hholds
  refine ⟨hholds, hjson, ?_⟩
  rintro s id rfl rfl
  have hid := (h.arises.wellFormed.consts c hc).folded _ hfolded id rfl
  refine ⟨_, Array.getElem?_eq_getElem hid, ?_⟩
  rw [enums_parseTypes (Array.getElem?_eq_getElem hid)]
  obtain ⟨k, hk⟩ := Array.mem_iff_getElem?.1 hc
  refine List.mem_filterMap.2 ⟨k, (h.arises.reachable.orders.mem_keys hk).2, ?_⟩
  simp only [enumMember?, hk, hfolded, if_true, hjson, Option.map_some]

/-- A package with a type of eight bits and a constant of that type, which does not fit as it is
written. -/
def gauge : Registry :=
  match ({} : Registry).addFile "m" "/m/gauge.go" .all
    "package m\n\ntype Level uint8\n\nconst High Level = 300\n" with
  | .ok (_, r) => r
  | .error _ => {}

theorem arises_gauge : gauge.Arises := by
  unfold gauge
  split
  · next hf => exact .addFile (.empty none) hf
  · exact .empty none

theorem steady_gauge : Steady gauge.parseTypes := by
  have hconsts : gauge.consts = #[] := Array.size_eq_zero_iff.1 (by decide +kernel)
  have hkeep (r r' : Registry) (h : r.consts = #[]) : r.KeepsClasses r' :=
    fun c hc => absurd (h ▸ hc) (Array.not_mem_empty c)
  exact ((Steady.empty none).leave arises_gauge hconsts (hkeep _ _ rfl)).collect (hkeep _ _ hconsts)

/-- The text of an integer literal. -/
def literalText? : Go.Expr → Option String
  | .lit .int text => some text
  | _ => none

theorem eq_lit {text : String} (h : literalText? e = some text) : e = .lit .int text := by
  unfold literalText? at h
  split at h
  · cases h
    rfl
  · cases h

theorem carries_gauge : gauge.collectNew.markUnique.Carries 0 ⟨.int 44, .named 0⟩ := by
  have hbody : (gauge.collectNew.markUnique.consts[0]?.bind fun c => c.expr.bind literalText?) =
      some "300" := by decide +kernel
  have hdeclared : (gauge.collectNew.markUnique.consts[0]?.bind fun c =>
      gauge.collectNew.markUnique.declaredAs? c ⟨.int 300, .untyped⟩) =
        some ⟨.int 44, .named 0⟩ := by decide +kernel
  have hnew : (gauge.collectNew.markUnique.consts[0]?.bind (·.folded)) = none := by decide +kernel
  obtain ⟨c, hc, hbody⟩ := Option.bind_eq_some_iff.1 hbody
  obtain ⟨e, he, htext⟩ := Option.bind_eq_some_iff.1 hbody
  rw [hc] at hdeclared hnew
  refine ⟨c, hc, .inr ⟨hnew, ⟨.int 300, .untyped⟩, ⟨e, he, ?_⟩, hdeclared⟩⟩
  rw [eq_lit htext]
  exact .literal (by decide +kernel)

/-- The constant is 44, which fits. -/
theorem typed_integers_in_range_gauge : ∃ c d, gauge.parseTypes.consts[0]? = some c ∧
    c.folded = some ⟨.int 44, .named 0⟩ ∧ (IntKind.unsigned 8).Holds 44 ∧
    gauge.parseTypes.types[0]? = some d ∧ ⟨c.name, .int 44, c.comment.getD ""⟩ ∈ d.enums := by
  have hsize : gauge.parseTypes.consts.size = 1 := by
    rw [parseTypes_frame (·.consts.size) (fun _ => rfl) fun s => by
      rw [foldConstants_eq]
      exact Array.size_mapIdx]
    decide +kernel
  have hc : gauge.parseTypes.consts[0]? = some (gauge.parseTypes.consts[0]) :=
    Array.getElem?_eq_getElem (by omega)
  have hclass : gauge.parseTypes.classOf (.named 0) = .int (.unsigned 8) := by
    rw [parseTypes_eq, (mirrors_foldConstants _).1.classOf]
    decide +kernel
  have hfolded : gauge.parseTypes.consts[0].folded = some ⟨.int 44, .named 0⟩ := by
    rw [folded_parseTypes arises_gauge.reachable.orders hc, parseTypes_eq, foldOne_foldConstants]
    exact (foldOne_eq_some _ _ _).2 carries_gauge
  obtain ⟨hholds, -, hmember⟩ := typed_integers_in_range steady_gauge (Array.getElem_mem _) hfolded
    (by rw [hclass]; decide)
  rw [hclass] at hholds
  obtain ⟨d, hd, hmem⟩ := hmember gauge 0 rfl rfl
  exact ⟨_, d, hc, hfolded, hholds, hd, hmem⟩

end Registry

end GoApiDoc
