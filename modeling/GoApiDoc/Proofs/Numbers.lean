/-
The numbers in types, expressions and files.

A type expression names a declared type by its name, or by its number once it has been looked up.
What is read from a text names no type by its number; numbers only come in with the type arguments of
instances.

* `Go.numbers_fileOfText` — **no number occurs in a file that is read from a text**.
-/

import GoApiDoc.Proofs.Renumbering

set_option autoImplicit false

namespace GoApiDoc.Go

variable {n : Nat} {t : TypeExpr}

/-! ### Types -/

namespace TypeExpr

mutual

/-- The numbers of types that occur in a type. -/
def numbers : TypeExpr → List TypeId
  | ident _ | qualified _ _ | func => []
  | generic base args => numbers base ++ numbersAll args
  | pointer elem | slice elem | array elem | chan _ elem | tilde elem => numbers elem
  | map key value => numbers key ++ numbers value
  | interface _ embeds => numbersAll embeds
  | struct fields => numbersFields fields
  | union terms => numbersAll terms
  | resolved id => [id]

/-- The numbers that occur in the types of a list. -/
def numbersAll : List TypeExpr → List TypeId
  | [] => []
  | t :: ts => numbers t ++ numbersAll ts

/-- The numbers that occur in the types of fields. -/
def numbersFields : List (FieldOf TypeExpr) → List TypeId
  | [] => []
  | ⟨_, type, _, _, _⟩ :: fs => numbers type ++ numbersFields fs

end

/-- All numbers in the type are below a bound. -/
def Within (n : Nat) (t : TypeExpr) : Prop := ∀ id ∈ t.numbers, id < n

theorem Within.mono {m : Nat} (h : t.Within m) (hmn : m ≤ n) : t.Within n :=
  fun id hid => Nat.lt_of_lt_of_le (h id hid) hmn

theorem within_of_numbers (h : t.numbers = []) : t.Within n := by
  intro id hid
  rw [h] at hid
  cases hid

theorem numbersAll_eq_flatMap (ts : List TypeExpr) : numbersAll ts = ts.flatMap numbers := by
  induction ts with
  | nil => rfl
  | cons t ts ih => rw [numbersAll, ih, List.flatMap_cons]

theorem numbersFields_eq_flatMap (fs : List Field) :
    numbersFields fs = fs.flatMap fun f => f.type.numbers := by
  induction fs with
  | nil => rfl
  | cons f fs ih => rw [numbersFields, ih, List.flatMap_cons]

theorem Within.arg {base : TypeExpr} {args : List TypeExpr} {a : TypeExpr}
    (h : (generic base args).Within n) (ha : a ∈ args) : a.Within n := by
  intro id hid
  refine h id (List.mem_append_right _ ?_)
  rw [numbersAll_eq_flatMap]
  exact List.mem_flatMap_of_mem ha hid

theorem Within.field {fs : List Field} {f : Field} (h : (struct fs).Within n) (hf : f ∈ fs) :
    f.type.Within n := by
  intro id hid
  refine h id ?_
  rw [numbers, numbersFields_eq_flatMap]
  exact List.mem_flatMap_of_mem hf hid

/-! ### Numbers of changed types -/

mutual

theorem numbers_renumber (σ : TypeId → TypeId) :
    ∀ t : TypeExpr, (t.renumber σ).numbers = t.numbers.map σ
  | ident _ | qualified _ _ | func | resolved _ => rfl
  | generic base args => by
    rw [renumber, numbers, numbers, numbers_renumber σ base, numbersAll_renumber σ args,
      List.map_append]
  | pointer elem | slice elem | array elem | chan _ elem | tilde elem => by
    rw [renumber, numbers, numbers, numbers_renumber σ elem]
  | map key value => by
    rw [renumber, numbers, numbers, numbers_renumber σ key, numbers_renumber σ value,
      List.map_append]
  | interface _ embeds => by rw [renumber, numbers, numbers, numbersAll_renumber σ embeds]
  | struct fields => by rw [renumber, numbers, numbers, numbersFields_renumber σ fields]
  | union terms => by rw [renumber, numbers, numbers, numbersAll_renumber σ terms]

theorem numbersAll_renumber (σ : TypeId → TypeId) :
    ∀ ts : List TypeExpr, numbersAll (renumberAll σ ts) = (numbersAll ts).map σ
  | [] => rfl
  | t :: ts => by
    rw [renumberAll, numbersAll, numbersAll, numbers_renumber σ t, numbersAll_renumber σ ts,
      List.map_append]

theorem numbersFields_renumber (σ : TypeId → TypeId) :
    ∀ fs : List (FieldOf TypeExpr), numbersFields (renumberFields σ fs) = (numbersFields fs).map σ
  | [] => rfl
  | ⟨names, type, tag, doc, comment⟩ :: fs => by
    rw [renumberFields, numbersFields, numbersFields, numbers_renumber σ type,
      numbersFields_renumber σ fs, List.map_append]

end

/-- A type that stays the same under every renumbering has no number in it. -/
theorem Unnumbered.numbers_eq_nil (h : t.Unnumbered) : t.numbers = [] := by
  have hfixed : t.numbers.map (· + 1) = t.numbers := by
    rw [← numbers_renumber, h]
  cases hids : t.numbers with
  | nil => rfl
  | cons id ids =>
    rw [hids, List.map_cons] at hfixed
    exact absurd (List.cons.inj hfixed).1 (Nat.succ_ne_self id)

mutual

/-- A number in a type after a substitution stood there before or comes with a substituted type. -/
theorem mem_numbers_substitute (bindings : Table TypeExpr) (id : TypeId) :
    ∀ t : TypeExpr, id ∈ (t.substitute bindings).numbers →
      id ∈ t.numbers ∨ ∃ e ∈ bindings, id ∈ e.2.numbers
  | ident name => by
    intro h
    rw [substitute] at h
    cases hb : bindings.get? name with
    | none =>
      rw [hb] at h
      exact .inl h
    | some t =>
      rw [hb] at h
      exact .inr ⟨(name, t), Table.mem_of_get? hb, h⟩
  | qualified _ _ | func | interface _ _ | resolved _ => Or.inl
  | generic base args => by
    intro h
    rw [substitute, numbers] at h
    rcases List.mem_append.1 h with h | h
    · exact .inl (List.mem_append_left _ h)
    · exact (mem_numbersAll_substitute bindings id args h).imp_left (List.mem_append_right _)
  | pointer elem | slice elem | array elem | chan _ elem | tilde elem => by
    intro h
    rw [substitute, numbers] at h
    exact mem_numbers_substitute bindings id elem h
  | map key value => by
    intro h
    rw [substitute, numbers] at h
    rcases List.mem_append.1 h with h | h
    · exact (mem_numbers_substitute bindings id key h).imp_left (List.mem_append_left _)
    · exact (mem_numbers_substitute bindings id value h).imp_left (List.mem_append_right _)
  | struct fields => by
    intro h
    rw [substitute, numbers] at h
    exact mem_numbersFields_substitute bindings id fields h
  | union terms => by
    intro h
    rw [substitute, numbers] at h
    exact mem_numbersAll_substitute bindings id terms h

theorem mem_numbersAll_substitute (bindings : Table TypeExpr) (id : TypeId) :
    ∀ ts : List TypeExpr, id ∈ numbersAll (substituteAll bindings ts) →
      id ∈ numbersAll ts ∨ ∃ e ∈ bindings, id ∈ e.2.numbers
  | [] => Or.inl
  | t :: ts => by
    intro h
    rw [substituteAll, numbersAll] at h
    rcases List.mem_append.1 h with h | h
    · exact (mem_numbers_substitute bindings id t h).imp_left (List.mem_append_left _)
    · exact (mem_numbersAll_substitute bindings id ts h).imp_left (List.mem_append_right _)

theorem mem_numbersFields_substitute (bindings : Table TypeExpr) (id : TypeId) :
    ∀ fs : List (FieldOf TypeExpr), id ∈ numbersFields (substituteFields bindings fs) →
      id ∈ numbersFields fs ∨ ∃ e ∈ bindings, id ∈ e.2.numbers
  | [] => Or.inl
  | ⟨names, type, tag, doc, comment⟩ :: fs => by
    intro h
    rw [substituteFields, numbersFields] at h
    rcases List.mem_append.1 h with h | h
    · exact (mem_numbers_substitute bindings id type h).imp_left (List.mem_append_left _)
    · exact (mem_numbersFields_substitute bindings id fs h).imp_left (List.mem_append_right _)

end

theorem numbers_peel (t : TypeExpr) : t.peel.2.numbers = t.numbers := by
  fun_induction peel t with
  | case1 elem n t hpeel ih | case2 elem n t hpeel ih => rwa [hpeel] at ih
  | case3 elem ih => exact ih
  | case4 t => rfl

theorem numbers_sliced (n : Nat) (t : TypeExpr) : (sliced n t).numbers = t.numbers := by
  induction n with
  | zero => rfl
  | succ n ih => exact ih

end TypeExpr

/-! ### Expressions and files -/

namespace Expr

mutual

/-- The numbers of types that occur in an expression. -/
def numbers : Expr → List TypeId
  | lit _ _ | ident _ | selector _ _ | other => []
  | paren inner => numbers inner
  | unary _ operand => numbers operand
  | binary _ lhs rhs => numbers lhs ++ numbers rhs
  | call callee args => numbers callee ++ numbersAll args
  | type t => t.numbers

/-- The numbers that occur in the expressions of a list. -/
def numbersAll : List Expr → List TypeId
  | [] => []
  | e :: es => numbers e ++ numbersAll es

end

end Expr

/-- The numbers of types that occur in a type declaration. -/
def TypeSpec.numbers (s : TypeSpec) : List TypeId :=
  s.params.flatMap (·.constraint.numbers) ++ s.type.numbers

/-- The numbers of types that occur in a line of a constant declaration. -/
def ValueSpec.numbers (s : ValueSpec) : List TypeId :=
  s.type.toList.flatMap TypeExpr.numbers ++ s.values.flatMap Expr.numbers

/-- The numbers of types that occur in a declaration. -/
def Decl.numbers : Decl → List TypeId
  | type spec => spec.numbers
  | const specs => specs.flatMap ValueSpec.numbers
  | func decl => decl.localTypes.flatMap TypeSpec.numbers

/-- The numbers of types that occur in a file. -/
def File.numbers (f : File) : List TypeId := f.decls.flatMap Decl.numbers

/-! ### What is read from texts -/

theorem Expr.numbersAll_eq_nil {es : List Expr} (h : ∀ e ∈ es, e.numbers = []) :
    numbersAll es = [] := by
  induction es with
  | nil => rfl
  | cons e es ih =>
    obtain ⟨he, hes⟩ := List.forall_mem_cons.1 h
    rw [numbersAll, he, ih hes, List.append_nil]

section Parsed

variable {φ : Item → Prop}

theorem TypeExpr.Parsed.numbers_eq_nil (h : t.Parsed φ) : t.numbers = [] :=
  h.unnumbered.numbers_eq_nil

theorem Expr.Parsed.numbers_eq_nil {e : Expr} (h : e.Parsed φ) : e.numbers = [] := by
  induction h with
  | lit | ident | selector | other => rfl
  | paren _ ih | unary _ _ ih => exact ih
  | binary _ _ _ ihl ihr => rw [numbers, ihl, ihr, List.append_nil]
  | call _ _ ih ihs => rw [numbers, ih, numbersAll_eq_nil ihs, List.append_nil]
  | type h => exact h.numbers_eq_nil

theorem TypeSpec.Parsed.numbers_eq_nil {s : TypeSpec} (h : s.Parsed φ) : s.numbers = [] := by
  obtain ⟨-, hparams, htype⟩ := h
  rw [numbers, htype.numbers_eq_nil, List.append_nil, List.flatMap_eq_nil_iff]
  exact fun p hp => (hparams p hp).numbers_eq_nil

theorem ValueSpec.Parsed.numbers_eq_nil {s : ValueSpec} (h : s.Parsed φ) : s.numbers = [] := by
  obtain ⟨-, htype, hvalues⟩ := h
  rw [numbers, List.append_eq_nil_iff, List.flatMap_eq_nil_iff, List.flatMap_eq_nil_iff]
  exact ⟨fun t ht => (htype t (Option.mem_toList.1 ht)).numbers_eq_nil,
    fun e he => (hvalues e he).numbers_eq_nil⟩

theorem Decl.Parsed.numbers_eq_nil {d : Decl} (h : d.Parsed φ) : d.numbers = [] := by
  cases d with
  | type spec => exact TypeSpec.Parsed.numbers_eq_nil h
  | const specs => exact List.flatMap_eq_nil_iff.2 fun s hs => (h s hs).numbers_eq_nil
  | func decl => exact List.flatMap_eq_nil_iff.2 fun s hs => (h.2 s hs).numbers_eq_nil

end Parsed

/-- **No number occurs in a file that is read from a text.** -/
theorem numbers_fileOfText {source : String} {f : File} (h : fileOfText source = .ok f) :
    f.numbers = [] := by
  obtain ⟨tokens, comments, -, -, hdecls⟩ := parsed_fileOfText h
  exact List.flatMap_eq_nil_iff.2 fun d hd => (hdecls _ (fun _ h => h) d hd).numbers_eq_nil

end GoApiDoc.Go
