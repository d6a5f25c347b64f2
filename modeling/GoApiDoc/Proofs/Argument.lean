/-
Type arguments looked up again.

An argument of a generic type is looked up when the instance is made, and its names are looked up
again whenever the same text is resolved.  In between, instances have been added to the registry.
For names as they stand in a source text the second look-up finds what the first one found, and adds
nothing: the look-ups see instances only through names with a hyphen, and an instance that is there
is not made again.

* `Registry.declaredOf_again` — **the second look-up finds the same and adds nothing**.
-/

import GoApiDoc.Proofs.Text
import GoApiDoc.Proofs.WellIndexed

set_option autoImplicit false

namespace GoApiDoc

open Go (TypeId TypeExpr)

variable {name : String} {id : TypeId} {d : TypeDecl} {args : List TypeExpr} {a e : TypeExpr}
  {k : Nat}

/-! ### Plain names -/

/-- The name has neither a bracket, so that no type arguments are cut off, nor a hyphen, so that it
is not the name of an instance. -/
def isPlainName (name : String) : Bool := name.toList.all fun c => c != '[' && c != '-'

theorem notMem_of_isPlainName (h : isPlainName name = true) :
    '[' ∉ name.toList ∧ '-' ∉ name.toList := by
  rw [isPlainName, List.all_eq_true] at h
  constructor
  · intro hmem
    simpa using h _ hmem
  · intro hmem
    simpa using h _ hmem

theorem splitTypeArgs_trim (h : '[' ∉ name.toList) :
    splitTypeArgs (Text.trim name) = (Text.trim name, none) := by
  rw [splitTypeArgs, Text.splitOnce_eq_none fun hmem => h (Text.mem_of_mem_trim hmem)]

namespace Registry

variable {r r' : Registry} {file : FileId}

/-! ### One instance -/

/-- An instance of a generic declaration. -/
def boundDecl (r : Registry) (generic : TypeId) (d : TypeDecl) (args : List TypeArg) : TypeDecl :=
  { d with
    type := d.type.substitute
      (Table.ofEntries ((d.params.map (·.name)).zip (args.map TypeArg.binding)))
    params := []
    instanceName := some (r.instanceName d args)
    origin := some generic
    enums := [] }

theorem bindArgs_eq (r : Registry) (generic : TypeId) (d : TypeDecl) (args : List TypeArg) :
    r.bindArgs generic d args = r.addInstance (r.boundDecl generic d args) := rfl

/-- An instance whose name is known is the known one, and the registry stays as it is. -/
theorem bindArgs_known {generic : TypeId} {args : List TypeArg}
    (h : r.instances.get? (r.instanceName d args) = some id) :
    r.bindArgs generic d args = (id, r) := by
  have hname : (r.boundDecl generic d args).typeName = r.instanceName d args := rfl
  rw [bindArgs_eq, addInstance, hname, h]

/-- The registry with an instance under a new name. -/
def pushInstance (r : Registry) (name : String) (d : TypeDecl) : Registry :=
  { r with
    types := r.types.push d
    instances := r.instances.insert name r.types.size
    unique := r.unique.insert name (some r.types.size) }

/-- An instance whose name is new is added. -/
theorem bindArgs_new {generic : TypeId} {args : List TypeArg}
    (h : r.instances.get? (r.instanceName d args) = none) : r.bindArgs generic d args =
      (r.types.size, r.pushInstance (r.instanceName d args) (r.boundDecl generic d args)) := by
  have hname : (r.boundDecl generic d args).typeName = r.instanceName d args := rfl
  rw [bindArgs_eq, addInstance, hname, h]
  rfl

/-- Either way the name now stands for the instance. -/
theorem get?_bindArgs (r : Registry) (generic : TypeId) (d : TypeDecl) (args : List TypeArg) :
    (r.bindArgs generic d args).2.instances.get? (r.instanceName d args) =
      some (r.bindArgs generic d args).1 := by
  cases h : r.instances.get? (r.instanceName d args) with
  | some id => rw [bindArgs_known h, h]
  | none =>
    rw [bindArgs_new h]
    exact (Table.get?_insert _ _ _ _).trans (if_pos rfl)

theorem hyphen_mem_instanceName (r : Registry) (d : TypeDecl) (args : List TypeArg) :
    '-' ∈ (r.instanceName d args).toList := by
  simp [instanceName]

/-! ### Many instances -/

namespace Gains

/-- What a new instance leaves true is true after many. -/
theorem invariant {P : Registry → Prop} (h : Gains r r') (hr : P r)
    (hnew : ∀ s name d, P s → '-' ∈ name.toList → s.instances.get? name = none →
      P (s.pushInstance name d)) : P r' := by
  induction h with
  | refl => exact hr
  | @bind s generic d args _ _ ih =>
    cases hname : s.instances.get? (s.instanceName d args) with
    | some id =>
      rw [bindArgs_known hname]
      exact ih
    | none =>
      rw [bindArgs_new hname]
      exact hnew s _ _ ih (hyphen_mem_instanceName s d args) hname

theorem files (h : Gains r r') : r'.files = r.files :=
  h.invariant (P := fun s => s.files = r.files) rfl fun _ _ _ hs _ _ => hs

theorem packages (h : Gains r r') : r'.packages = r.packages :=
  h.invariant (P := fun s => s.packages = r.packages) rfl fun _ _ _ hs _ _ => hs

theorem instances (h : Gains r r') (hid : r.instances.get? name = some id) :
    r'.instances.get? name = some id := by
  refine h.invariant (P := fun s => s.instances.get? name = some id) hid ?_
  intro s new d hs _ hnew
  have hne : name ≠ new := by
    rintro rfl
    cases hnew.symm.trans hs
  exact (Table.get?_insert _ _ _ _).trans ((if_neg hne).trans hs)

theorem unique (h : Gains r r') (hn : '-' ∉ name.toList) :
    r'.unique.get? name = r.unique.get? name := by
  refine h.invariant (P := fun s => s.unique.get? name = r.unique.get? name) rfl ?_
  intro s new d hs hhyphen _
  have hne : name ≠ new := by
    rintro rfl
    exact hn hhyphen
  exact (Table.get?_insert _ _ _ _).trans ((if_neg hne).trans hs)

theorem packageOf? (h : Gains r r') (qualifier : String) (file : FileId) :
    r'.packageOf? qualifier file = r.packageOf? qualifier file := by
  simp only [Registry.packageOf?, importName?, h.files, h.packages]

theorem lookupBase? (h : Gains r r') (hn : '-' ∉ name.toList) (file : FileId) :
    r'.lookupBase? name file = r.lookupBase? name file := by
  simp only [Registry.lookupBase?, lookupQualified?, lookupFullPath?, typeIn?, h.packageOf?,
    h.files, h.packages, h.unique hn]

/-- **A plain name keeps its meaning.** -/
theorem lookupType? (h : Gains r r') (hn : isPlainName name = true) (file : FileId) :
    r'.lookupType? name file = r.lookupType? name file := by
  obtain ⟨hopen, hhyphen⟩ := notMem_of_isPlainName hn
  simp only [Registry.lookupType?, splitTypeArgs_trim hopen,
    h.lookupBase? (fun hmem => hhyphen (Text.mem_of_mem_trim hmem)) file]

end Gains

/-! ### Look-ups find types -/

theorem WellIndexed.types_of_typeIn? (h : WellIndexed r) {path : String}
    (hid : r.typeIn? path name = some id) : ∃ d, r.types[id]? = some d := by
  obtain ⟨d, hd, -⟩ := (h.declared path name id).1 hid
  exact types_of_core? hd

theorem WellIndexed.types_of_lookupQualified? (h : WellIndexed r) {u : SourceUnit}
    {qualifier rest : String} (hid : r.lookupQualified? u file qualifier rest name = some id) :
    ∃ d, r.types[id]? = some d := by
  rw [lookupQualified?] at hid
  simp only [Option.orElse_eq_orElse, Option.orElse_eq_or, Option.or_eq_some_iff] at hid
  rcases hid with hid | ⟨-, hid | ⟨-, hid | ⟨-, hid | ⟨-, hid⟩⟩⟩⟩
  · obtain ⟨path, -, hid⟩ := Option.bind_eq_some_iff.1 hid
    exact h.types_of_typeIn? hid
  · split at hid
    · exact h.types_of_typeIn? hid
    · cases hid
  · exact h.types_of_typeIn? hid
  · obtain ⟨d, hd, -⟩ := h.short name id (Table.mem_of_get? (Option.join_eq_some_iff.1 hid))
    exact types_of_core? hd
  · obtain ⟨path, p, -, -, d, hd, -⟩ := h.declares_of_scan hid
    exact types_of_core? hd

theorem WellIndexed.types_of_lookupBase? (h : WellIndexed r) {base : String}
    (hid : r.lookupBase? base file = some id) : ∃ d, r.types[id]? = some d := by
  rw [lookupBase?] at hid
  split at hid
  · cases hid
  split at hid
  · rw [lookupFullPath?] at hid
    split at hid
    · exact h.types_of_typeIn? hid
    · cases hid
  · split at hid
    · exact h.types_of_lookupQualified? hid
    · simp only [Option.orElse_eq_orElse, Option.orElse_eq_or, Option.or_eq_some_iff] at hid
      rcases hid with hid | ⟨-, hid⟩
      · exact h.types_of_typeIn? hid
      · obtain ⟨i, -, hid⟩ := List.exists_of_findSome?_eq_some hid
        exact h.types_of_typeIn? hid

/-- A name stands for a type that is there. -/
theorem WellIndexed.types_of_lookupType? (h : WellIndexed r) {args : Option String}
    (hid : r.lookupType? name file = some (id, args)) : ∃ d, r.types[id]? = some d := by
  rw [lookupType?] at hid
  split at hid
  · cases hid
  · obtain ⟨id', hbase, heq⟩ := Option.map_eq_some_iff.1 hid
    obtain rfl : id' = id := congrArg Prod.fst heq
    exact h.types_of_lookupBase? hbase

theorem lookupType?_plain (hn : isPlainName name = true) {args : Option String}
    (hid : r.lookupType? name file = some (id, args)) : args = none := by
  rw [lookupType?] at hid
  split at hid
  · cases hid
  · rw [splitTypeArgs_trim (notMem_of_isPlainName hn).1] at hid
    obtain ⟨id', -, heq⟩ := Option.map_eq_some_iff.1 hid
    exact (congrArg Prod.snd heq).symm

end Registry

/-! ### Written types -/

namespace Go.TypeExpr

/-- A type that does not name a declared one. -/
def isLiteral : TypeExpr → Bool
  | map _ _ | chan _ _ | func | interface _ _ | struct _ | tilde _ | union _ => true
  | _ => false

/-- A type without layers whose look-ups are by plain names, as in a source text. -/
inductive Plain : TypeExpr → Prop
  | ident {name : String} (h : isPlainName name = true) : Plain (ident name)
  | qualified {package name : String}
      (h : isPlainName (TypeExpr.qualified package name).text = true) :
      Plain (qualified package name)
  | generic {base : TypeExpr} {args : List TypeExpr} (hbase : isPlainName base.text = true)
      (hargs : ∀ a ∈ args, Plain a.peel.2) : Plain (generic base args)
  | literal {e : TypeExpr} (h : e.isLiteral = true) : Plain e

theorem peel_inner {t : TypeExpr} (hslice : ∀ elem, t ≠ slice elem)
    (harray : ∀ elem, t ≠ array elem) (hpointer : ∀ elem, t ≠ pointer elem) : t.peel = (0, t) := by
  rw [peel]
  · exact hslice
  · exact harray
  · exact hpointer

/-- The layers of a type are written around the type inside. -/
theorem length_text_peel (t : TypeExpr) : t.peel.2.text.length ≤ t.text.length := by
  induction t using peel.induct with
  | case1 elem n t hpeel ih | case2 elem n t hpeel ih =>
    simp only [hpeel] at ih
    simp only [peel, hpeel, text, String.length_append]
    omega
  | case3 elem ih =>
    simp only [peel, text, String.length_append]
    omega
  | case4 t hslice harray hpointer =>
    simp only [peel_inner hslice harray hpointer, Nat.le_refl]

theorem length_text_le_intercalate (ha : a ∈ args) :
    a.text.length ≤ (",".intercalate (texts args)).length := by
  induction args with
  | nil => cases ha
  | cons b args ih =>
    cases args with
    | nil =>
      obtain rfl := List.mem_singleton.1 ha
      simp [texts]
    | cons c args =>
      rw [texts, texts, String.intercalate_cons_cons, String.length_append, String.length_append]
      rcases List.mem_cons.1 ha with rfl | ha
      · omega
      · have hle := ih ha
        rw [texts] at hle
        omega

end Go.TypeExpr

/-! ### Looking up an argument -/

namespace Registry

variable {r r' : Registry} {file : FileId}

/-- The declared type that a type without layers stands for, and the registry with the instances
that were made for it. -/
def declaredOf (file : FileId) (e : TypeExpr) (r : Registry) : Option TypeId × Registry :=
  match e with
  | .resolved id => (some id, r)
  | .generic base args =>
    match r.lookupType? base.text file with
    | some (id, _) => r.instantiate id args file
    | none => (none, r)
  | .ident _ | .qualified _ _ => r.findType e.text file
  | _ => (none, r)

/-- An argument with the declared type that it stands for. -/
def readArg (file : FileId) (a : TypeExpr) (r : Registry) : TypeArg × Registry :=
  (⟨a.peel.1, a.peel.2, (declaredOf file a.peel.2 r).1⟩, (declaredOf file a.peel.2 r).2)

/-- Arguments from the first to the last. -/
def readArgs (file : FileId) : List TypeExpr → Registry → List TypeArg × Registry
  | [], r => ([], r)
  | a :: as, r =>
    ((readArg file a r).1 :: (readArgs file as (readArg file a r).2).1,
      (readArgs file as (readArg file a r).2).2)

/-- The instance of a generic declaration for arguments written in a file. -/
def instanceOf (generic : TypeId) (args : List TypeExpr) (file : FileId) (r : Registry) :
    Option TypeId × Registry :=
  match r.types[generic]? with
  | none => (none, r)
  | some d =>
    if d.params.isEmpty || d.params.length != args.length then (none, r)
    else
      let read := readArgs file args r
      let bound := read.2.bindArgs generic d read.1
      (some bound.1, bound.2)

theorem lookUpWith_eq (h : ∀ a ∈ args, ∀ r, resolveArgWith k r a file = readArg file a r)
    (r : Registry) : lookUpWith k file args r = readArgs file args r := by
  induction args generalizing r with
  | nil => rfl
  | cons a args ih =>
    rw [lookUpWith, readArgs, h a List.mem_cons_self r,
      ih fun b hb => h b (List.mem_cons_of_mem _ hb)]

theorem instantiateWith_eq (h : ∀ a ∈ args, ∀ r, resolveArgWith k r a file = readArg file a r)
    (generic : TypeId) (r : Registry) :
    instantiateWith (k + 1) r generic args file = instanceOf generic args file r := by
  rw [instantiateWith_succ, lookUpWith_eq h]
  rfl

theorem findTypeWith_plain (hn : isPlainName name = true) (r : Registry) :
    findTypeWith (k + 1) r name file = ((r.lookupType? name file).map (·.1), r) := by
  rw [findTypeWith]
  cases hid : r.lookupType? name file with
  | none => rfl
  | some found =>
    obtain ⟨id, args⟩ := found
    obtain rfl := lookupType?_plain hn hid
    rfl

theorem findType_plain {name : String} (hn : isPlainName name = true) (r : Registry) :
    r.findType name file = ((r.lookupType? name file).map (·.1), r) :=
  findTypeWith_plain hn r

theorem length_le_foldl (ha : a ∈ args) :
    a.text.length ≤ (args.map fun a => a.text.length).foldl (· + ·) 0 := by
  rw [← List.sum_eq_foldl_nat]
  induction args with
  | nil => cases ha
  | cons b args ih =>
    rw [List.map_cons, List.sum_cons]
    rcases List.mem_cons.1 ha with rfl | ha
    · omega
    · have hle := ih ha
      omega

theorem instantiate_of_read (h : ∀ a ∈ args, ∀ k, 4 * a.text.length + 3 ≤ k → ∀ r,
      resolveArgWith k r a file = readArg file a r) (generic : TypeId) (r : Registry) :
    r.instantiate generic args file = instanceOf generic args file r := by
  rw [instantiate, instanceFuel]
  refine instantiateWith_eq (fun a ha r => h a ha _ ?_ r) generic r
  have hle := length_le_foldl ha
  omega

theorem elementWith_eq (he : e.Plain) :
    ∀ k, 4 * e.text.length + 2 ≤ k → ∀ r, elementWith file k e r = declaredOf file e r := by
  induction he with
  | @ident _ h | @qualified _ _ h =>
    intro k hk r
    obtain ⟨k, rfl⟩ := Nat.exists_eq_add_of_le' (show 1 ≤ k by omega)
    exact (findTypeWith_plain h r).trans (findType_plain h r).symm
  | @generic base args hbase hargs ih =>
    intro k hk r
    have hread : ∀ a ∈ args, ∀ m, 4 * a.text.length + 3 ≤ m → ∀ r,
        resolveArgWith m r a file = readArg file a r := by
      intro a ha m hm r
      have hle := a.length_text_peel
      obtain ⟨m, rfl⟩ := Nat.exists_eq_add_of_le' (show 1 ≤ m by omega)
      rw [resolveArgWith_succ, ih a ha m (by omega), readArg]
    have hopen : "[".length = 1 := rfl
    simp only [TypeExpr.text, String.length_append] at hk
    obtain ⟨k, rfl⟩ := Nat.exists_eq_add_of_le' (show 1 ≤ k by omega)
    rw [elementWith, declaredOf]
    cases r.lookupType? base.text file with
    | none => rfl
    | some found =>
      refine (instantiateWith_eq (fun a ha r => hread a ha k ?_ r) found.1 r).trans
        (instantiate_of_read hread found.1 r).symm
      have hle := TypeExpr.length_text_le_intercalate ha
      omega
  | @literal e h =>
    intro k _ r
    cases e with
    | map | chan | func | interface | struct | tilde | union => rfl
    | ident | qualified | generic | pointer | slice | array | resolved => cases h

/-- An argument is looked up like any other type. -/
theorem resolveArgWith_eq (ha : a.peel.2.Plain) (hk : 4 * a.text.length + 3 ≤ k) (r : Registry) :
    resolveArgWith k r a file = readArg file a r := by
  have hle := a.length_text_peel
  obtain ⟨k, rfl⟩ := Nat.exists_eq_add_of_le' (show 1 ≤ k by omega)
  rw [resolveArgWith_succ, elementWith_eq ha k (by omega), readArg]

/-- An instance is made for its arguments as they are looked up. -/
theorem instantiate_eq (hargs : ∀ a ∈ args, a.peel.2.Plain) (generic : TypeId) (r : Registry) :
    r.instantiate generic args file = instanceOf generic args file r :=
  instantiate_of_read (fun a ha _ hk r => resolveArgWith_eq (hargs a ha) hk r) generic r

/-! ### Looking up again -/

theorem LookUpLaw.declaredOf {J : Registry → Registry → Prop} {N : String → Prop}
    {T : TypeExpr → Prop} (h : LookUpLaw J N T) (he : T e) (r : Registry) :
    J r (declaredOf file e r).2 := by
  unfold Registry.declaredOf
  split
  · exact h.refl r
  · split
    · exact (h.obeyedWith _).instantiate r _ file (h.args he)
    · exact h.refl r
  · exact (h.obeyedWith _).find r file (h.ident he)
  · exact (h.obeyedWith _).find r file (h.qualified he)
  · exact h.refl r

theorem gains_declaredOf (file : FileId) (e : TypeExpr) (r : Registry) :
    Gains r (declaredOf file e r).2 :=
  lookUpLaw_gains.declaredOf trivial r

theorem gains_readArgs (file : FileId) (args : List TypeExpr) (r : Registry) :
    Gains r (readArgs file args r).2 := by
  induction args generalizing r with
  | nil => exact .refl r
  | cons a args ih => exact (gains_declaredOf file a.peel.2 r).trans (ih _)

/-- The types that arguments stand for are there. -/
def Known (r : Registry) (a : TypeArg) : Prop :=
  ∀ id, a.target = some id → ∃ d, r.types[id]? = some d

theorem Known.gains {a : TypeArg} (h : r.Known a) (hg : Gains r r') : r'.Known a := by
  intro id hid
  obtain ⟨d, hd⟩ := h id hid
  exact ⟨d, hg.grows hd⟩

/-- The name of an instance depends on types that are there. -/
theorem Gains.instanceName (h : Gains r r') (d : TypeDecl) {args : List TypeArg}
    (hargs : ∀ a ∈ args, r.Known a) : r'.instanceName d args = r.instanceName d args := by
  have hparts : args.map (TypeArg.namePart r') = args.map (TypeArg.namePart r) := by
    refine List.map_congr_left fun a ha => ?_
    cases htarget : a.target with
    | none => simp only [TypeArg.namePart, htarget]
    | some id =>
      obtain ⟨d', hd'⟩ := hargs a ha id htarget
      simp only [TypeArg.namePart, htarget, hd', h.grows hd']
  rw [Registry.instanceName, Registry.instanceName, hparts]

theorem bindArgs_again {generic : TypeId} {args : List TypeArg} (hargs : ∀ a ∈ args, r.Known a)
    (h : Gains (r.bindArgs generic d args).2 r') (hbind : Gains r (r.bindArgs generic d args).2) :
    r'.bindArgs generic d args = ((r.bindArgs generic d args).1, r') := by
  apply bindArgs_known
  rw [(hbind.trans h).instanceName d hargs]
  exact h.instances (get?_bindArgs r generic d args)

theorem WellIndexed.types_of_bindArgs (h : WellIndexed r) (generic : TypeId) (d : TypeDecl)
    (args : List TypeArg) :
    ∃ d', (r.bindArgs generic d args).2.types[(r.bindArgs generic d args).1]? = some d' := by
  cases hname : r.instances.get? (r.instanceName d args) with
  | some id =>
    rw [bindArgs_known hname]
    obtain ⟨d', hd', -⟩ := h.instances _ id (Table.mem_of_get? hname)
    exact types_of_core? hd'
  | none =>
    rw [bindArgs_new hname]
    exact ⟨_, Array.getElem?_push_size⟩

theorem WellIndexed.types_of_declaredOf (h : WellIndexed r) (he : e.Plain)
    (hid : (declaredOf file e r).1 = some id) :
    ∃ d, (declaredOf file e r).2.types[id]? = some d := by
  have hname : ∀ {name : String}, isPlainName name = true → (r.findType name file).1 = some id →
      ∃ d, (r.findType name file).2.types[id]? = some d := by
    intro name hn hfound
    rw [findType_plain hn] at hfound ⊢
    obtain ⟨⟨id', args⟩, hlookup, rfl⟩ := Option.map_eq_some_iff.1 hfound
    exact h.types_of_lookupType? hlookup
  cases he with
  | ident hn | qualified hn => exact hname hn hid
  | @generic base args hbase hargs =>
    rw [declaredOf] at hid ⊢
    split at hid
    · rw [instantiate_eq hargs, instanceOf] at hid ⊢
      split at hid
      · cases hid
      · next d _ =>
        split at hid
        · cases hid
        · next hlength =>
          obtain rfl := Option.some.inj hid
          rw [if_neg hlength]
          exact ((gains_readArgs file args r).wellIndexed h).types_of_bindArgs _ d _
    · cases hid
  | literal hlit =>
    cases e with
    | map | chan | func | interface | struct | tilde | union => cases hid
    | ident | qualified | generic | pointer | slice | array | resolved => cases hlit

theorem known_readArgs (hargs : ∀ a ∈ args, a.peel.2.Plain) (h : WellIndexed r) :
    ∀ x ∈ (readArgs file args r).1, (readArgs file args r).2.Known x := by
  induction args generalizing r with
  | nil => exact fun x hx => nomatch hx
  | cons a args ih =>
    have hgain := gains_declaredOf file a.peel.2 r
    intro x hx
    rcases List.mem_cons.1 hx with rfl | hx
    · refine .gains (r := (readArg file a r).2) ?_ (gains_readArgs file args _)
      exact fun id hid => h.types_of_declaredOf (hargs a (.head _)) hid
    · exact ih (fun b hb => hargs b (.tail _ hb)) (hgain.wellIndexed h) x hx

theorem readArgs_again (hagain : ∀ a ∈ args, ∀ {r r' : Registry}, WellIndexed r →
      Gains (declaredOf file a.peel.2 r).2 r' →
      declaredOf file a.peel.2 r' = ((declaredOf file a.peel.2 r).1, r'))
    (h : WellIndexed r) (hg : Gains (readArgs file args r).2 r') :
    readArgs file args r' = ((readArgs file args r).1, r') := by
  induction args generalizing r with
  | nil => rfl
  | cons a args ih =>
    have hgain := gains_declaredOf file a.peel.2 r
    have hfirst := hagain a (.head _) h ((gains_readArgs file args _).trans hg)
    have hrest := ih (fun b hb => hagain b (.tail _ hb)) (hgain.wellIndexed h) hg
    simp only [readArgs, readArg, hfirst]
    rw [hrest]

/-- **What was looked up once is found again, and nothing is added.** -/
theorem declaredOf_again (he : e.Plain) : ∀ {r r' : Registry}, WellIndexed r →
    Gains (declaredOf file e r).2 r' → declaredOf file e r' = ((declaredOf file e r).1, r') := by
  induction he with
  | ident hn =>
    intro r r' _ hg
    have hgain := (gains_declaredOf file _ r).trans hg
    simp only [declaredOf, TypeExpr.text, findType_plain hn, hgain.lookupType? hn]
  | qualified hn =>
    intro r r' _ hg
    have hgain := (gains_declaredOf file _ r).trans hg
    simp only [declaredOf, findType_plain hn, hgain.lookupType? hn]
  | @generic base args hbase hargs ih =>
    intro r r' h hg
    have hgain := (gains_declaredOf file _ r).trans hg
    rw [declaredOf] at hg ⊢
    rw [hgain.lookupType? hbase, declaredOf]
    cases hlookup : r.lookupType? base.text file with
    | none => rfl
    | some found =>
      obtain ⟨generic, x⟩ := found
      obtain ⟨d, hd⟩ := h.types_of_lookupType? hlookup
      rw [hlookup] at hg
      dsimp only at hg ⊢
      rw [instantiate_eq hargs] at hg ⊢
      rw [instantiate_eq hargs]
      simp only [instanceOf, hd, hgain.grows hd] at hg ⊢
      split at hg
      · next hlength => rw [if_pos hlength, if_pos hlength]
      · next hlength =>
        rw [if_neg hlength, if_neg hlength]
        have hread := gains_readArgs file args r
        have hbind : Gains (readArgs file args r).2 _ :=
          (Gains.refl _).bind (readArgs file args r).1 (hread.grows hd)
        rw [readArgs_again ih h (hbind.trans hg), bindArgs_again (known_readArgs hargs h) hg hbind]
  | @literal e h =>
    intro r r' _ _
    cases e with
    | map | chan | func | interface | struct | tilde | union => rfl
    | ident | qualified | generic | pointer | slice | array | resolved => cases h

end Registry

end GoApiDoc
