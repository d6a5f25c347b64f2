/-
Registries that look-ups cannot tell apart.

A look-up reads the files, what the packages list and the table of short names; the class of a type
also depends on its right-hand side.  It reads neither the files that a package lists, nor marks and
members of types, nor values of constants.  So two registries that agree in what is read answer
alike, even if their files are numbered in different ways, and constants have the same values in both.

* `Registry.Mirrors.lookupType?`, `Registry.Mirrors.packageOf?` — **the same answers**;
* `Registry.foldOne_eq_of_mirrors` — **constants have the same values**.
-/

import GoApiDoc.Proofs.Folding

set_option autoImplicit false

namespace GoApiDoc

open Go (TypeId TypeExpr Expr)

/-! ### Tables -/

variable {α β : Type}

theorem Table.get?_mapValues (f : α → β) (k : String) (t : Table α) :
    (t.mapValues f).get? k = (t.get? k).map f := by
  induction t with
  | nil => rfl
  | cons e t ih =>
    obtain ⟨k', v⟩ := e
    by_cases hk : k = k'
    · simp [mapValues, get?, hk]
    · simpa [mapValues, get?, hk] using ih

theorem Table.values_mapValues (f : α → β) (t : Table α) :
    (t.mapValues f).values = t.values.map f := by
  simp [mapValues, values]

/-- The package without the list of its files. -/
def Package.contents (p : Package) : Package := { p with files := [] }

namespace Registry

/-! ### Look-ups -/

theorem typeIn?_eq_join (r : Registry) (path name : String) :
    r.typeIn? path name = ((r.packages.get? path).map fun p => p.types.get? name).join := by
  unfold typeIn?
  cases r.packages.get? path with
  | none | some p => rfl

theorem findConst?_eq_join (r : Registry) (path name : String) :
    r.findConst? path name = ((r.packages.get? path).map fun p => p.consts.get? name).join := by
  unfold findConst?
  cases r.packages.get? path with
  | none | some p => rfl

/-- The second registry has what look-ups read in the first one, where `σ` gives the number of a file
in the second one. -/
structure Mirrors (σ : FileId → FileId) (r r' : Registry) : Prop where
  files : ∀ id : FileId, r'.files[σ id]? = r.files[id]?
  packages : r'.packages.mapValues Package.contents = r.packages.mapValues Package.contents
  types : ∀ id : TypeId, (r'.types[id]?.map fun d => (d.type, d.file)) =
    r.types[id]?.map fun d => (d.type, σ d.file)
  unique : r'.unique = r.unique

namespace Mirrors

variable {σ : FileId → FileId} {r r' : Registry} (h : Mirrors σ r r')
include h

/-- What is read of a package other than its files. -/
theorem package (path : String) (f : Package → β)
    (hf : ∀ p, f p.contents = f p) :
    (r'.packages.get? path).map f = (r.packages.get? path).map f := by
  have hget : (r'.packages.get? path).map Package.contents =
      (r.packages.get? path).map Package.contents := by
    rw [← Table.get?_mapValues, h.packages, Table.get?_mapValues]
  have hcomp : f ∘ Package.contents = f := funext hf
  rw [← hcomp, ← Option.map_map, hget, Option.map_map]

theorem values (f : Package → β) (hf : ∀ p, f p.contents = f p) :
    r'.packages.values.map f = r.packages.values.map f := by
  have hvalues : r'.packages.values.map Package.contents =
      r.packages.values.map Package.contents := by
    rw [← Table.values_mapValues, h.packages, Table.values_mapValues]
  have hcomp : f ∘ Package.contents = f := funext hf
  rw [← hcomp, ← List.map_map, hvalues, List.map_map]

theorem typeIn? (path name : String) :
    r'.typeIn? path name = r.typeIn? path name := by
  rw [typeIn?_eq_join, h.package path (fun p => p.types.get? name) fun _ => rfl, ← typeIn?_eq_join]

theorem findConst? (path name : String) :
    r'.findConst? path name = r.findConst? path name := by
  rw [findConst?_eq_join, h.package path (fun p => p.consts.get? name) fun _ => rfl,
    ← findConst?_eq_join]

theorem importName? (i : Go.ImportSpec) :
    r'.importName? i = r.importName? i := by
  have hname := h.package i.path (·.name) fun _ => rfl
  unfold Registry.importName?
  cases hp' : r'.packages.get? i.path with
  | none =>
    cases hp : r.packages.get? i.path with
    | none => rfl
    | some p => simp [hp, hp'] at hname
  | some p' =>
    cases hp : r.packages.get? i.path with
    | none => simp [hp, hp'] at hname
    | some p =>
      have heq : p'.name = p.name := by simpa [hp, hp'] using hname
      simp only [heq]

/-- **A qualifier stands for the same package** in a file and in the file that it corresponds to. -/
theorem packageOf? (qualifier : String) (file : FileId) :
    r'.packageOf? qualifier (σ file) = r.packageOf? qualifier file := by
  simp only [Registry.packageOf?, h.files, h.importName?]

theorem scan (qualifier name : String) :
    ((r'.packages.values.filter fun p => p.name == qualifier).findSome? fun p =>
      p.types.get? name) =
    (r.packages.values.filter fun p => p.name == qualifier).findSome? fun p =>
      p.types.get? name := by
  -- a package is read through its name and its types only
  have hread : ∀ ps : List Package,
      ((ps.filter fun p => p.name == qualifier).findSome? fun p => p.types.get? name) =
        ((ps.map fun p => (p.name, p.types)).filter fun e => e.1 == qualifier).findSome?
          fun e => e.2.get? name := by
    intro ps
    rw [List.filter_map, List.findSome?_map]
    rfl
  rw [hread, hread, h.values (fun p => (p.name, p.types)) fun _ => rfl]

theorem lookupBase? (base : String) (file : FileId) :
    r'.lookupBase? base (σ file) = r.lookupBase? base file := by
  simp only [Registry.lookupBase?, lookupQualified?, h.packageOf?, h.unique, h.scan, h.files,
    h.typeIn?, lookupFullPath?]

/-- **A name stands for the same type** in a file and in the file that it corresponds to. -/
theorem lookupType? (name : String) (file : FileId) :
    r'.lookupType? name (σ file) = r.lookupType? name file := by
  simp only [Registry.lookupType?, h.lookupBase?]

/-! ### Types of constants -/

theorem classOfDeclared (hops : Nat) (id : TypeId) :
    r'.classOfDeclared hops id = r.classOfDeclared hops id := by
  induction hops generalizing id with
  | zero => rfl
  | succ hops ih =>
    have hread := h.types id
    unfold Registry.classOfDeclared
    cases hd' : r'.types[id]? with
    | none =>
      cases hd : r.types[id]? with
      | none => rfl
      | some d => simp [hd, hd'] at hread
    | some d' =>
      cases hd : r.types[id]? with
      | none => simp [hd, hd'] at hread
      | some d =>
        obtain ⟨htype, hfile⟩ : d'.type = d.type ∧ d'.file = σ d.file := by
          simpa [hd, hd'] using hread
        simp only [htype, hfile, h.lookupType?, ih]

theorem classOf : r'.classOf = r.classOf := by
  funext t
  cases t with
  | named id => exact h.classOfDeclared 8 id
  | _ => rfl

theorem convertTo? (type : ConstType) (v : Folded) :
    r'.convertTo? type v = r.convertTo? type v := by
  rw [Registry.convertTo?, h.classOf, Registry.convertTo?]

theorem applyCallee? (callee : Expr) (file : FileId) (v : Folded) :
    r'.applyCallee? callee (σ file) v = r.applyCallee? callee file v := by
  have hconv : r'.conversionType? callee (σ file) = r.conversionType? callee file := by
    simp only [conversionType?, h.lookupType?]
  simp only [Registry.applyCallee?, hconv, h.convertTo?]

theorem referent? (file : FileId) (e : Expr) :
    r'.referent? (σ file) e = r.referent? file e := by
  cases e with
  | ident name => simp only [Registry.referent?, h.files, h.findConst?]
  | selector package name => simp only [Registry.referent?, h.packageOf?, h.findConst?]
  | _ => rfl

end Mirrors

/-! ### Values -/

variable {σ : FileId → FileId} {r r' : Registry} {file : FileId} {iota : Nat} {e : Expr}
  {id : ConstId} {v w : Folded} {c : ConstDecl}

/-- The second registry has the constants of the first.  Some may have a value in one of the two
only, but then they carry it in the other. -/
structure Settled (σ : FileId → FileId) (r r' : Registry) : Prop where
  same : ∀ id : ConstId, (r'.consts[id]?.map fun c => (c.expr, c.type, c.iota, c.file)) =
    r.consts[id]?.map fun c => (c.expr, c.type, c.iota, σ c.file)
  before : ∀ (id : ConstId) c w, r.consts[id]? = some c → c.folded = some w → r'.Carries id w
  after : ∀ (id : ConstId) c c' w, r.consts[id]? = some c → c.folded = none → r'.consts[id]? = some c' →
    c'.folded = some w → r.Carries id w

theorem Settled.of_consts (hs : Settled σ r r') (hc : r.consts[id]? = some c) :
    ∃ c', r'.consts[id]? = some c' ∧ c'.expr = c.expr ∧ c'.type = c.type ∧ c'.iota = c.iota ∧
      c'.file = σ c.file := by
  have hsame := hs.same id
  cases hc' : r'.consts[id]? with
  | none => simp [hc, hc'] at hsame
  | some c' =>
    refine ⟨c', rfl, ?_⟩
    simpa [hc, hc'] using hsame

theorem carries_unique (h : r.Carries id v) (h' : r.Carries id w) : v = w :=
  Option.some.inj (((r.foldOne_eq_some id v).2 h).symm.trans ((r.foldOne_eq_some id w).2 h'))

/-- A constant whose expression keeps its value keeps its own. -/
theorem carries_of_body (hm : Mirrors σ r r') (hs : Settled σ r r') {body : Expr}
    (hc : r.consts[id]? = some c) (hnew : c.folded = none) (hbody : c.expr = some body)
    (hv : r.Gives c.file c.iota body v) (hv' : r'.Gives (σ c.file) c.iota body v)
    (hw : r.declaredAs? c v = some w) : r'.Carries id w := by
  obtain ⟨c', hc', hexpr, htype, hiota, hfile⟩ := hs.of_consts hc
  have hdeclared : r'.declaredAs? c' v = some w := by
    simpa only [declaredAs?, htype, hfile, constTypeOf, hm.lookupType?, hm.convertTo?] using hw
  cases hfolded : c'.folded with
  | some w' =>
    -- the value that it has been given is the one that it carried
    have hcarries : r.Carries id w := ⟨c, hc, .inr ⟨hnew, v, ⟨body, hbody, hv⟩, hw⟩⟩
    obtain rfl := carries_unique hcarries (hs.after id c c' w' hc hnew hc' hfolded)
    exact ⟨c', hc', .inl hfolded⟩
  | none =>
    refine ⟨c', hc', .inr ⟨hfolded, v, ⟨body, hexpr.trans hbody, ?_⟩, hdeclared⟩⟩
    rw [hfile, hiota]
    exact hv'

/-- **Expressions keep their values.** -/
theorem Gives.transport (hm : Mirrors σ r r') (hs : Settled σ r r')
    (h : r.Gives file iota e v) : r'.Gives (σ file) iota e v := by
  induction h with
  | literal hx => exact .literal hx
  | predeclared hx => exact .predeclared hx
  | stored he hc hw =>
    exact (gives_of_referent ((hm.referent? _ _).trans he)).2 (hs.before _ _ _ hc hw)
  | reference he hc hnew hbody hv hw ih =>
    exact (gives_of_referent ((hm.referent? _ _).trans he)).2
      (carries_of_body hm hs hc hnew hbody hv ih hw)
  | paren hv ih => exact .paren ih
  | unary hv hx ih => exact .unary ih (by rw [hm.classOf]; exact hx)
  | binary hu hv hw ihu ihv => exact .binary ihu ihv (by rw [hm.classOf]; exact hw)
  | call hv hw ih => exact .call ih ((hm.applyCallee? _ _ _).trans hw)

theorem Carries.transport (hm : Mirrors σ r r') (hs : Settled σ r r') (h : r.Carries id w) :
    r'.Carries id w := by
  obtain ⟨c, hc, hw | ⟨hnew, v, ⟨body, hbody, hv⟩, hw⟩⟩ := h
  · exact hs.before id c w hc hw
  · exact carries_of_body hm hs hc hnew hbody hv (hv.transport hm hs) hw

/-- **Constants have the same values** in two registries that mirror each other. -/
theorem foldOne_eq_of_mirrors {τ : FileId → FileId} (hm : Mirrors σ r r') (hs : Settled σ r r')
    (hm' : Mirrors τ r' r) (hs' : Settled τ r' r) (id : ConstId) : r'.foldOne id = r.foldOne id := by
  ext w
  rw [foldOne_eq_some, foldOne_eq_some]
  exact ⟨Carries.transport hm' hs', Carries.transport hm hs⟩

end Registry

end GoApiDoc
