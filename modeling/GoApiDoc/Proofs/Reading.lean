/-
A type read in a file.

Only names are read differently in different files.  A type that names a declared type, with any
layers around it, resolves like that declared type wherever it is bound to it.  A type without names
resolves alike in all files.

* `Resolver.schema_of_declared` — **the schema of a declared type is the same in all states**;
* `Resolver.agree_resolveWith` — **a type without names is the same in all files and states**.
-/

import GoApiDoc.Proofs.Argument
import GoApiDoc.Proofs.Steps

set_option autoImplicit false

namespace GoApiDoc

open Go (TypeId TypeExpr)

variable {name : String} {id : TypeId} {c n : Nat} {t : TypeExpr} {s : Schema} {d : TypeDecl}
  {parts : StructParts}

namespace Resolver

open Resolving

variable {g : Resolver} {file : FileId}

/-! ### Names -/

theorem runOn_overrideWith (hover : g.settings.overrides = []) (n : Nat) (key : String)
    (file : FileId) : (overrideWith (n + 1) key file).runOn g = (.ok none, g) := by
  rw [overrideWith, runOn_get_bind, hover]
  rfl

theorem runOn_declaredType (t : TypeExpr) (file : FileId) (g : Resolver) :
    (declaredType t file).runOn g = (.ok (Registry.declaredOf file t g.registry).1,
      { g with registry := (Registry.declaredOf file t g.registry).2 }) := by
  cases t with
  | generic base args =>
    simp only [declaredType, Registry.declaredOf]
    rfl
  | _ => rfl

theorem lookupType?_builtin (h : isBuiltinType name = true) (r : Registry)
    (file : FileId) : r.lookupType? name file = none := by
  have htrim : ∀ b ∈ builtinTypes, Text.trim b = b := by decide
  have hname := htrim name (by simpa [isBuiltinType] using h)
  rw [Registry.lookupType?, hname, if_pos h]

/-- A name resolves like the declared type that it stands for. -/
theorem runOn_resolveWith_element {e : TypeExpr} (he : e.Plain)
    (hid : (Registry.declaredOf file e g.registry).1 = some id)
    (htime : isTime g.registry e file = false) (hover : g.settings.overrides = []) (n : Nat) :
    ∃ m, n < m ∧ m ≤ n + 2 ∧ (resolveWith (n + 3) e file).runOn g = (symbolWith m id).runOn
      { g with registry := (Registry.declaredOf file e g.registry).2 } := by
  have hnamed : (namedWith (n + 2) e file).runOn g = (symbolWith (n + 1) id).runOn
      { g with registry := (Registry.declaredOf file e g.registry).2 } := by
    rw [namedWith, runOn_bind_ok _ (runOn_overrideWith hover n _ file)]
    dsimp only
    rw [runOn_get_bind, htime, if_neg Bool.false_ne_true,
      runOn_bind_ok _ (runOn_declaredType e file g), hid]
  cases he with
  | @ident name hn =>
    have hdeclared : isBuiltinType name = false := by
      rw [Bool.eq_false_iff]
      intro hbuiltin
      rw [Registry.declaredOf, TypeExpr.text, Registry.findType_plain hn,
        lookupType?_builtin hbuiltin] at hid
      cases hid
    refine ⟨n + 1, by omega, by omega, ?_⟩
    rw [resolveWith, hdeclared]
    exact hnamed
  | qualified hn =>
    refine ⟨n + 1, by omega, by omega, ?_⟩
    rw [resolveWith]
    exact hnamed
  | generic hbase hargs =>
    refine ⟨n + 2, by omega, by omega, ?_⟩
    rw [resolveWith, runOn_bind_ok _ (runOn_overrideWith hover (n + 1) _ file)]
    dsimp only
    rw [runOn_bind_ok _ (runOn_declaredType _ file g), hid]
  | literal hlit =>
    cases e with
    | map | chan | func | interface | struct | tilde | union => cases hid
    | ident | qualified | generic | pointer | slice | array | resolved => cases hlit

/-! ### Layers -/

theorem refines_layers {I : Resolver → Prop} {t' e : TypeExpr} {file' : FileId}
    (h : ∀ g, I g → ∀ n, Refines (resolveWith n t' file') (resolveWith (n + c) e file) g)
    (t : TypeExpr) (ht : t.peel.2 = e) :
    ∃ c', ∀ g, I g → ∀ n, Refines (resolveWith n (TypeExpr.sliced t.peel.1 t') file')
      (resolveWith (n + c') t file) g := by
  induction t using Go.TypeExpr.peel.induct with
  | case1 elem depth t hpeel ih | case2 elem depth t hpeel ih =>
    simp only [TypeExpr.peel, hpeel] at ht ih ⊢
    obtain ⟨c', hc'⟩ := ih ht
    refine ⟨c', fun g hg n => ?_⟩
    cases n with
    | zero =>
      rw [resolveWith]
      exact refines_endless _ g
    | succ n =>
      rw [Nat.succ_add, TypeExpr.sliced, resolveWith, resolveWith]
      exact refines_bind (hc' g hg n) fun s g' _ => refines_refl _ g'
  | case3 elem ih =>
    simp only [TypeExpr.peel] at ht ⊢
    obtain ⟨c', hc'⟩ := ih ht
    refine ⟨c' + 1, fun g hg n => ?_⟩
    rw [← Nat.add_assoc, resolveWith]
    exact hc' g hg n
  | case4 t hslice harray hpointer =>
    rw [TypeExpr.peel_inner hslice harray hpointer] at ht ⊢
    subst ht
    exact ⟨c, h⟩

theorem refines_sliced {t' e : TypeExpr} {file' : FileId}
    (h : ∀ n, Refines (resolveWith n e file) (resolveWith (n + c) t' file') g)
    (t : TypeExpr) (ht : t.peel.2 = e) : ∀ n, Refines (resolveWith n t file)
      (resolveWith (n + c) (TypeExpr.sliced t.peel.1 t') file') g := by
  induction t using Go.TypeExpr.peel.induct with
  | case1 elem depth t hpeel ih | case2 elem depth t hpeel ih =>
    simp only [TypeExpr.peel, hpeel] at ht ih ⊢
    rintro (_ | n)
    · rw [resolveWith]
      exact refines_endless _ g
    · rw [Nat.succ_add, TypeExpr.sliced, resolveWith, resolveWith]
      exact refines_bind (ih ht n) fun s g' _ => refines_refl _ g'
  | case3 elem ih =>
    simp only [TypeExpr.peel] at ht ⊢
    rintro (_ | n)
    · rw [resolveWith]
      exact refines_endless _ g
    · rw [resolveWith]
      exact refines_trans (ih ht n) (refines_resolveWith_le (by omega) _ _ g)
  | case4 t hslice harray hpointer =>
    rw [TypeExpr.peel_inner hslice harray hpointer] at ht ⊢
    subst ht
    exact h

/-- A schema in layers of arrays. -/
def layered : Nat → Schema → Schema
  | 0, s => s
  | n + 1, s => Schema.array (layered n s)

theorem layered_of_resolveWith {g' : Resolver} (h : (resolveWith n t file).runOn g = (.ok s, g')) :
    ∃ m s', (resolveWith m t.peel.2 file).runOn g = (.ok s', g') ∧ s = layered t.peel.1 s' := by
  induction t using Go.TypeExpr.peel.induct generalizing n s with
  | case1 elem depth t hpeel ih | case2 elem depth t hpeel ih =>
    cases n with
    | zero =>
      rw [resolveWith] at h
      cases h
    | succ n =>
      rw [resolveWith] at h
      obtain ⟨s₁, g₁, helem, heq⟩ := runOn_bind_eq_ok h
      cases heq
      obtain ⟨m, s', hm, rfl⟩ := ih helem
      simp only [TypeExpr.peel, hpeel] at hm ⊢
      exact ⟨m, s', hm, rfl⟩
  | case3 elem ih =>
    cases n with
    | zero =>
      rw [resolveWith] at h
      cases h
    | succ n =>
      rw [resolveWith] at h
      exact ih h
  | case4 t hslice harray hpointer =>
    rw [TypeExpr.peel_inner hslice harray hpointer]
    exact ⟨n, s, h, rfl⟩

/-! ### Declared types -/

/-- The schema of a declared type that is not another name of one. -/
def symbolSchema? (d : TypeDecl) : Option Schema :=
  match d.type with
  | .ident name =>
    if isBuiltinType name && d.enums.isEmpty then Schema.ofBuiltin? name
    else some (Schema.ref d.typeName)
  | _ => some (Schema.ref d.typeName)

theorem symbolSchema?_other (h : ∀ name, d.type = .ident name → False) :
    symbolSchema? d = some (Schema.ref d.typeName) := by
  unfold symbolSchema?
  split
  · next name htype => exact (h name htype).elim
  · rfl

theorem eq_ref_of_buildDefinition {body : Resolving Schema}
    {g' : Resolver} (h : (buildDefinition id d body).runOn g = (.ok s, g')) :
    s = Schema.ref d.typeName := by
  rw [buildDefinition] at h
  obtain ⟨-, g₁, -, h⟩ := runOn_bind_eq_ok h
  obtain ⟨r, g₂, -, h⟩ := runOn_bind_eq_ok h
  cases r with
  | ok b =>
    obtain ⟨-, g₃, -, h⟩ := runOn_bind_eq_ok h
    cases h
    rfl
  | error e =>
    obtain ⟨-, g₃, -, h⟩ := runOn_bind_eq_ok h
    cases h

theorem eq_ref_of_definitionWith (hg : g.Sound)
    (hd : g.registry.types[id]? = some d) (halias : d.isAlias = false)
    {g' : Resolver} (h : (definitionWith n id d).runOn g = (.ok s, g')) :
    s = Schema.ref d.typeName := by
  cases n with
  | zero =>
    rw [definitionWith] at h
    cases h
  | succ n =>
    rw [definitionWith, halias, if_neg Bool.false_ne_true, runOn_get_bind] at h
    split at h
    · next name hname =>
      cases h
      have hnamed : g.HasName id name := hg.named (hg.parsed hname).1
      rw [hnamed.unique ⟨d, hd, rfl⟩]
    · split at h
      · cases h
        rfl
      · exact eq_ref_of_buildDefinition h

theorem symbolSchema?_of_symbolWith (hg : g.Sound) (hover : g.settings.overrides = [])
    (hd : g.registry.types[id]? = some d) (halias : d.isAlias = false) {g' : Resolver}
    (h : (symbolWith n id).runOn g = (.ok s, g')) : symbolSchema? d = some s := by
  have hmore := (refines_symbolWith_le (Nat.le_add_right n 2) id g).ok h
  rw [symbolWith, runOn_get_bind, hd] at hmore
  dsimp only at hmore
  rw [runOn_bind_ok _ (runOn_overrideWith hover n _ d.file)] at hmore
  dsimp only at hmore
  split at hmore
  · next name htype =>
    simp only [symbolSchema?, htype]
    split at hmore
    · next hbuiltin =>
      rw [if_pos hbuiltin]
      unfold builtinSchema at hmore
      split at hmore
      · next hs =>
        cases hmore
        exact hs
      · cases hmore
    · next hbuiltin =>
      rw [if_neg hbuiltin, eq_ref_of_definitionWith hg hd halias hmore]
  · next hother => rw [symbolSchema?_other hother, eq_ref_of_definitionWith hg hd halias hmore]

/-- **The schema of a declared type, in layers, does not depend on the state.** -/
theorem schema_of_declared (ht : t.peel.2.Plain) (hg : g.Sound) (hover : g.settings.overrides = [])
    (hid : (Registry.declaredOf file t.peel.2 g.registry).1 = some id)
    (hd : (Registry.declaredOf file t.peel.2 g.registry).2.types[id]? = some d)
    (htime : isTime g.registry t.peel.2 file = false) (halias : d.isAlias = false)
    {g' : Resolver} (h : (resolveWith n t file).runOn g = (.ok s, g')) :
    (symbolSchema? d).map (layered t.peel.1) = some s := by
  obtain ⟨m, s', hm, rfl⟩ := layered_of_resolveWith h
  obtain ⟨k, -, -, hk⟩ := runOn_resolveWith_element ht hid htime hover m
  have hmore := (refines_resolveWith_le (Nat.le_add_right m 3) t.peel.2 file g).ok hm
  have hgain := Registry.gains_declaredOf file t.peel.2 g.registry
  have hsymbol := symbolSchema?_of_symbolWith (hg.ofGains hgain) hover hd halias
    (hk.symm.trans hmore)
  rw [hsymbol]
  rfl

end Resolver

/-! ### Types without names -/

/-- The schema refers to nothing. -/
abbrev Schema.NoRefs (s : Schema) : Prop := s.AllRefs fun _ => False

/-- The parts of the struct refer to nothing. -/
abbrev StructParts.NoRefs (p : StructParts) : Prop := p.AllRefs fun _ => False

namespace Schema

theorem NoRefs.refName? (h : s.NoRefs) : s.refName? = none := by
  have hnone : s.reference = none := Option.eq_none_iff_forall_ne_some.2 (allRefs_iff.1 h).1
  rw [Schema.refName?, hnone]
  rfl

theorem AllRefs.inner {P : String → Prop} {s t : Schema} (h : s.AllRefs P)
    (ht : (s.items <|> s.additional) = some t) : t.AllRefs P ∧ t.weight < s.weight := by
  obtain ⟨-, hitems, -, -, hadditional⟩ := allRefs_iff.1 h
  obtain ⟨facts, items, allOf, properties, additional⟩ := s
  cases items with
  | some u =>
    obtain rfl : u = t := Option.some.inj ht
    refine ⟨hitems u rfl, ?_⟩
    simp only [weight, optionWeight]
    omega
  | none =>
    obtain rfl : additional = some t := ht
    refine ⟨hadditional t rfl, ?_⟩
    simp only [weight, optionWeight]
    omega

theorem AllRefs.first {P : String → Prop} {s t : Schema} {ts : List Schema} (h : s.AllRefs P)
    (ht : s.allOf = t :: ts) : t.AllRefs P ∧ t.weight < s.weight := by
  refine ⟨h.allOf (ht ▸ (.head _)), ?_⟩
  obtain ⟨facts, items, allOf, properties, additional⟩ := s
  obtain rfl : allOf = t :: ts := ht
  simp only [weight, listWeight]
  omega

theorem refName?_of_reference
    (h : s.reference = some (definitionsPath ++ name)) : s.refName? = some name := by
  rw [Schema.refName?, h]
  exact Text.stripPrefix_append definitionsPath name

/-- The type path through two tables of definitions is the same if it is for all references. -/
theorem AllRefs.typePathFrom_eq {definitions definitions' : Table Schema}
    {made made' : String → Bool}
    (h : s.AllRefs fun r => ∃ name, r = definitionsPath ++ name ∧ ∀ depth fuel fuel', c ≤ fuel →
      c ≤ fuel' → typePathFrom definitions made fuel depth (ref name) =
        typePathFrom definitions' made' fuel' depth (ref name))
    {fuel fuel' : Nat} (hfuel : s.weight + c ≤ fuel) (hfuel' : s.weight + c ≤ fuel') (depth : Nat) :
    typePathFrom definitions made fuel depth s =
      typePathFrom definitions' made' fuel' depth s := by
  induction fuel generalizing s fuel' depth with
  | zero =>
    cases s
    simp [weight] at hfuel
  | succ fuel ih =>
    cases fuel' with
    | zero =>
      cases s
      simp [weight] at hfuel'
    | succ fuel' =>
      cases depth with
      | zero => rw [typePathFrom, typePathFrom]
      | succ depth =>
        cases href : s.reference with
        | some r =>
          -- only the name that is referred to matters
          obtain ⟨name, rfl, hname⟩ := (allRefs_iff.1 h).1 r href
          have heq := hname (depth + 1) (fuel + 1) (fuel' + 1) (by omega) (by omega)
          simp only [typePathFrom, refName?_of_reference href,
            refName?_of_reference (s := ref name) rfl] at heq ⊢
          exact heq
        | none =>
          have hnone : s.refName? = none := by
            rw [Schema.refName?, href]
            rfl
          rw [typePathFrom, typePathFrom, hnone]
          dsimp only
          split
          · split
            · next t ts ht =>
              obtain ⟨hrefs, hlt⟩ := h.first ht
              exact ih hrefs (by omega) (by omega) _
            · rfl
          · split
            · next t ht =>
              obtain ⟨hrefs, hlt⟩ := h.inner ht
              rw [ih hrefs (by omega) (show t.weight + c ≤ fuel' by omega)]
            · rfl

theorem NoRefs.typePathFrom_some {definitions : Table Schema} {made : String → Bool} {fuel : Nat}
    (h : s.NoRefs) (hfuel : s.weight ≤ fuel) (depth : Nat) :
    ∃ path, typePathFrom definitions made fuel depth s = some path ∧ (0 < depth → path ≠ []) := by
  induction fuel generalizing s depth with
  | zero =>
    cases s
    simp [weight] at hfuel
  | succ fuel ih =>
    cases depth with
    | zero => exact ⟨[], by rw [typePathFrom], fun hlt => absurd hlt (Nat.lt_irrefl 0)⟩
    | succ depth =>
      rw [typePathFrom, h.refName?]
      dsimp only
      split
      · split
        · next t ts ht =>
          obtain ⟨hrefs, hlt⟩ := h.first ht
          exact ih hrefs (by omega) (depth + 1)
        · exact ⟨["any"], rfl, fun _ => List.cons_ne_nil _ _⟩
      · next type _ =>
        split
        · next t ht =>
          obtain ⟨hrefs, hlt⟩ := h.inner ht
          obtain ⟨path, hpath, -⟩ := ih hrefs (by omega) depth
          exact ⟨type :: path, by rw [hpath]; rfl, fun _ => List.cons_ne_nil _ _⟩
        · exact ⟨[type], rfl, fun _ => List.cons_ne_nil _ _⟩

end Schema

/-- The steps of a type path go through the schema. -/
theorem Schema.weight_le_steps (s : Schema) (depth m k : Nat) :
    s.weight ≤ (depth + 1) * (s.weight + m + k + 1) :=
  calc s.weight ≤ s.weight + m + k + 1 := by omega
    _ ≤ (depth + 1) * (s.weight + m + k + 1) := Nat.le_mul_of_pos_left _ (Nat.succ_pos depth)

theorem Schema.NoRefs.typePath_ne_nil (h : s.NoRefs) (g : Resolver) (depth : Nat) :
    g.typePath (depth + 1) s ≠ [] := by
  have hsome : ∃ path, g.typePath? (depth + 1) s = some path ∧ (0 < depth + 1 → path ≠ []) :=
    h.typePathFrom_some (s.weight_le_steps _ _ _) (depth + 1)
  obtain ⟨path, hpath, hne⟩ := hsome
  have heq : g.typePath (depth + 1) s = path := congrArg (Option.getD · []) hpath
  rw [heq]
  exact hne (Nat.succ_pos depth)

theorem Schema.NoRefs.typePath?_eq (h : s.NoRefs) (g g' : Resolver) (depth : Nat) :
    g.typePath? depth s = g'.typePath? depth s :=
  (h.imp fun _ => False.elim).typePathFrom_eq (c := 0) (s.weight_le_steps _ _ _)
    (s.weight_le_steps _ _ _) depth

/-- A field adds the same in states that find the same type path. -/
theorem Resolver.complement_eq_of_typePath? {g g' : Resolver}
    (h : g.typePath? 2 s = g'.typePath? 2 s) (f : Go.Field) :
    g.complement f s = g'.complement f s := by
  rw [Resolver.complement, h, Resolver.complement]

namespace Resolving

variable {α β : Type} {x y : Resolving α} {g g' : Resolver} {φ : α → Prop} {ψ : β → Prop}

/-- The computations have one outcome in both states and change neither, and the value satisfies the
condition. -/
def Agree (x y : Resolving α) (g g' : Resolver) (φ : α → Prop) : Prop :=
  ∃ r, x.runOn g = (r, g) ∧ y.runOn g' = (r, g') ∧ ∀ a, r = .ok a → φ a

theorem agree_pure {a : α} (h : φ a) : Agree (pure a) (pure a) g g' φ :=
  ⟨.ok a, rfl, rfl, fun _ hb => Except.ok.inj hb ▸ h⟩

theorem agree_throw (e : DocError) : Agree (throw e : Resolving α) (throw e) g g' φ :=
  ⟨.error e, rfl, rfl, fun _ hb => nomatch hb⟩

theorem agree_ofResult {r : Except DocError α} (h : ∀ a, r = .ok a → φ a) :
    Agree (ofResult r) (ofResult r) g g' φ :=
  ⟨r, runOn_ofResult r g, runOn_ofResult r g', h⟩

theorem agree_bind {f f' : α → Resolving β} (hx : Agree x y g g' φ)
    (hf : ∀ a, φ a → Agree (f a) (f' a) g g' ψ) : Agree (x >>= f) (y >>= f') g g' ψ := by
  obtain ⟨r, hrun, hrun', hval⟩ := hx
  cases r with
  | error e =>
    exact ⟨.error e, runOn_bind_error f hrun, runOn_bind_error f' hrun', fun _ hb => nomatch hb⟩
  | ok a =>
    obtain ⟨r, hmore, hmore', hval'⟩ := hf a (hval a rfl)
    exact ⟨r, (runOn_bind_ok f hrun).trans hmore, (runOn_bind_ok f' hrun').trans hmore', hval'⟩

theorem agree_get_bind {f f' : Resolver → Resolving β} (h : Agree (f g) (f' g') g g' ψ) :
    Agree (get >>= f) (get >>= f') g g' ψ := h

theorem agree_outcome (hx : Agree x y g g' φ) :
    Agree (outcome x) (outcome y) g g' fun r => ∀ a, r = .ok a → φ a := by
  obtain ⟨r, hrun, hrun', hval⟩ := hx
  refine ⟨.ok r, ?_, ?_, fun _ hb => Except.ok.inj hb ▸ hval⟩
  · rw [runOn_outcome, hrun]
  · rw [runOn_outcome, hrun']

theorem agree_foldlM {γ : Type} {f f' : α → γ → Resolving α} {l : List γ}
    (hf : ∀ c ∈ l, ∀ a, φ a → Agree (f a c) (f' a c) g g' φ) {a : α} (ha : φ a) :
    Agree (l.foldlM f a) (l.foldlM f' a) g g' φ := by
  induction l generalizing a with
  | nil => exact agree_pure ha
  | cons c l ih =>
    rw [List.foldlM_cons, List.foldlM_cons]
    refine agree_bind (hf c (.head _) a ha) fun b hb => ?_
    exact ih (fun d hd => hf d (.tail c hd)) hb

end Resolving

/-- A type that has no names but predeclared ones, and no embedded fields. -/
inductive Go.TypeExpr.FileFree : TypeExpr → Prop
  | builtin {name : String} (h : isBuiltinType name = true) : FileFree (.ident name)
  | interface (methods : Nat) (embeds : List TypeExpr) : FileFree (.interface methods embeds)
  | pointer {elem : TypeExpr} (h : FileFree elem) : FileFree (.pointer elem)
  | slice {elem : TypeExpr} (h : FileFree elem) : FileFree (.slice elem)
  | array {elem : TypeExpr} (h : FileFree elem) : FileFree (.array elem)
  | map (key : TypeExpr) {value : TypeExpr} (h : FileFree value) : FileFree (.map key value)
  | struct {fields : List Go.Field} (hnames : ∀ f ∈ fields, f.names ≠ [])
      (htypes : ∀ f ∈ fields, FileFree f.type) : FileFree (.struct fields)

namespace Resolver

open Resolving

variable {g g' : Resolver}

theorem agree_builtinSchema (name : String) :
    Agree (builtinSchema name) (builtinSchema name) g g' Schema.NoRefs := by
  unfold builtinSchema
  split
  · next s hs => exact agree_pure (Schema.allRefs_ofBuiltin hs)
  · exact agree_throw _

theorem agree_addResolved (hset : g.settings = g'.settings)
    (hparts : parts.NoRefs) (f : Go.Field) (property : String) {resolved : Except DocError Schema}
    (hresolved : ∀ s, resolved = .ok s → s.NoRefs) :
    Agree (addResolved parts f property resolved) (addResolved parts f property resolved) g g'
      StructParts.NoRefs := by
  unfold addResolved
  refine agree_get_bind ?_
  rw [hset]
  split
  · next s =>
    rw [complement_eq_of_typePath? ((hresolved s rfl).typePath?_eq g g' 2)]
    refine agree_bind (φ := Schema.NoRefs) (agree_ofResult fun t ht => ?_) fun t ht => ?_
    · exact Field.allRefs_complement (hresolved s rfl) (complement_eq_ok ht)
    · exact agree_pure (hparts.addProperty ht _ _)
  · exact agree_pure hparts
  · split
    · exact agree_throw _
    · exact agree_pure hparts
  · exact agree_throw _

theorem agree_fieldPart (hset : g.settings = g'.settings)
    (hparts : parts.NoRefs) (f : Go.Field) {x y : Resolving Schema}
    (hx : Agree x y g g' Schema.NoRefs) :
    Agree (fieldPart parts f x) (fieldPart parts f y) g g' StructParts.NoRefs := by
  unfold fieldPart
  split
  · exact agree_pure hparts
  refine agree_get_bind ?_
  rw [hset]
  split
  · exact agree_pure hparts
  refine agree_bind (φ := fun o => ∀ s, o = some s → s.NoRefs)
    (agree_ofResult fun o ho s hs => ?_) fun o ho => ?_
  · subst hs
    exact Field.allRefs_customSchema? ho
  · cases o with
    | some s =>
      refine agree_addResolved hset hparts f _ fun t ht => ?_
      exact Except.ok.inj ht ▸ ho s rfl
    | none =>
      exact agree_bind (agree_outcome hx) fun r hr => agree_addResolved hset hparts f _ hr

theorem agree_fieldWith (hset : g.settings = g'.settings) {f : Go.Field} (hnames : f.names ≠ [])
    {file file' : FileId}
    (h : ∀ n, Agree (resolveWith n f.type file) (resolveWith n f.type file') g g' Schema.NoRefs)
    (n : Nat) (hparts : parts.NoRefs) :
    Agree (fieldWith n parts f file) (fieldWith n parts f file') g g' StructParts.NoRefs := by
  obtain _ | n := n
  · rw [fieldWith, fieldWith]
    exact agree_throw _
  have hnonempty : f.names.isEmpty = false := by simpa using hnames
  rw [fieldWith, fieldWith, hnonempty, if_neg Bool.false_ne_true, if_neg Bool.false_ne_true]
  refine agree_foldlM (fun name _ parts hparts => ?_) hparts
  obtain _ | n := n
  · rw [namedFieldWith, namedFieldWith]
    exact agree_throw _
  · rw [namedFieldWith_succ, namedFieldWith_succ]
    exact agree_fieldPart hset hparts _ (h n)

/-- **A type without names is the same in all files and states.** -/
theorem agree_resolveWith (hset : g.settings = g'.settings) (file file' : FileId) (h : t.FileFree) :
    ∀ n, Agree (resolveWith n t file) (resolveWith n t file') g g' Schema.NoRefs := by
  have hzero : ∀ t, Agree (resolveWith 0 t file) (resolveWith 0 t file') g g' Schema.NoRefs := by
    intro t
    rw [resolveWith, resolveWith]
    exact agree_throw _
  induction h with
  | builtin hname =>
    rintro (_ | n)
    · exact hzero _
    · rw [resolveWith, resolveWith, if_pos hname, if_pos hname]
      exact agree_builtinSchema _
  | interface methods embeds =>
    rintro (_ | n)
    · exact hzero _
    · rw [resolveWith, resolveWith]
      exact agree_pure Schema.allRefs_any
  | pointer _ ih =>
    rintro (_ | n)
    · exact hzero _
    · rw [resolveWith, resolveWith]
      exact ih n
  | slice _ ih | array _ ih =>
    rintro (_ | n)
    · exact hzero _
    · rw [resolveWith, resolveWith]
      exact agree_bind (ih n) fun s hs => agree_pure (Schema.allRefs_array hs)
  | map _ _ ih =>
    rintro (_ | n)
    · exact hzero _
    · rw [resolveWith, resolveWith]
      exact agree_bind (ih n) fun s hs => agree_pure (Schema.allRefs_map hs)
  | @struct fields hnames _ ih =>
    rintro (_ | _ | n)
    · exact hzero _
    · rw [resolveWith, resolveWith, structWith, structWith]
      exact agree_throw _
    · rw [resolveWith, resolveWith, structWith, structWith]
      refine agree_bind (agree_bind ?_ fun parts hparts => agree_pure hparts)
        fun parts hparts => agree_pure (StructParts.AllRefs.toSchema hparts)
      exact agree_foldlM (fun f hf parts hparts =>
        agree_fieldWith hset (hnames f hf) (ih f hf) n hparts) StructParts.allRefs_empty

/-- What a type without names resolves to is the same in all files and states, and for all numbers
of steps that suffice. -/
theorem outcome_of_fileFree (hset : g.settings = g'.settings) (h : t.FileFree)
    {file file' : FileId} {n m : Nat} (hn : Finished ((resolveWith n t file).runOn g))
    (hm : Finished ((resolveWith m t file').runOn g')) :
    ((resolveWith n t file).runOn g).1 = ((resolveWith m t file').runOn g').1 := by
  obtain ⟨r, hrun, hrun', -⟩ := agree_resolveWith hset file file' h (max n m)
  rw [refines_resolveWith_le (Nat.le_max_left n m) t file g hn] at hrun
  rw [refines_resolveWith_le (Nat.le_max_right n m) t file' g' hm] at hrun'
  rw [hrun, hrun']

end Resolver

end GoApiDoc
