/-
Numbers that are stored belong to something.

Files, types and constants are referred to by their numbers, from the tables of packages, from the
tables of names, from types and from constants.  A registry is filled by reading files, by collecting
their declarations, by looking up names and by making instances, in any order; after each step every
number that is stored anywhere belongs to a file, a type or a constant that is there, and the tables
list types under the names that these types have.

* `Registry.Arises.wellFormed` — **every registry that arises is well-formed**.
-/

import GoApiDoc.Proofs.Marking
import GoApiDoc.Proofs.Folding
import GoApiDoc.Proofs.Numbers
import GoApiDoc.Proofs.Sharing

set_option autoImplicit false

namespace GoApiDoc

open Go (TypeId TypeExpr)

variable {id : TypeId} {d : TypeDecl} {c : ConstDecl} {path : String} {u : SourceUnit}
  {a : TypeExpr} {args : List TypeExpr} {d' : TypeDecl} {r r' : Registry}
  {packagePath text name : String} {file : FileId} {generic : TypeId}

/-- What is read of a type other than its marks and members. -/
theorem TypeDecl.eq_of_core {β : Type} (h : d'.core = d.core) (f : TypeDecl → β)
    (hf : ∀ d : TypeDecl, f d.core = f d) : f d' = f d := by
  rw [← hf d', h, hf]

/-- A declared type that the type of a constant stands for has a number below a bound. -/
def ConstType.Within (n : Nat) (t : ConstType) : Prop := ∀ id, t = .named id → id < n

theorem ConstType.Within.mono {m n : Nat} {t : ConstType} (h : t.Within m) (hmn : m ≤ n) :
    t.Within n :=
  fun id hid => Nat.lt_of_lt_of_le (h id hid) hmn

namespace Registry

/-! ### Registries that arise -/

/-- The registries that arise from one without files.  Type arguments are texts, or types whose
numbers belong to types that are there. -/
inductive Arises : Registry → Prop
  | empty (goroot : Option String) : Arises { goroot := goroot }
  | index {r : Registry} {u : SourceUnit} {path packagePath text : String} {role : Role}
      (h : Arises r) (hu : SourceUnit.ofText path packagePath role text = .ok u) :
      Arises (r.index u).2
  | addFile {r r' : Registry} {id : FileId} {packagePath path text : String} {role : Role}
      (h : Arises r) (hf : r.addFile packagePath path role text = .ok (id, r')) : Arises r'
  | parseTypes {r : Registry} (h : Arises r) : Arises r.parseTypes
  | findType {r : Registry} (h : Arises r) (name : String) (file : FileId) :
      Arises (r.findType name file).2
  | instantiate {r : Registry} (h : Arises r) (generic : TypeId) {args : List TypeExpr}
      (file : FileId) (hargs : ∀ a ∈ args, a.Within r.types.size) :
      Arises (r.instantiate generic args file).2
  | instantiateText {r : Registry} (h : Arises r) (generic : TypeId) (args : String)
      (file : FileId) : Arises (r.instantiateText generic args file).2

variable {role : Role}

/-- A file that is added has been read, unless its path was indexed already. -/
theorem addFile_cases {id : FileId} (h : r.addFile packagePath path role text = .ok (id, r')) :
    r' = r ∨ ∃ u, SourceUnit.ofText path packagePath role text = .ok u ∧ r' = (r.index u).2 := by
  unfold addFile at h
  split at h
  · cases h
    exact .inl rfl
  · split at h
    · next u hu => exact .inr ⟨u, hu, (congrArg Prod.snd (Except.ok.inj h)).symm⟩
    · cases h

theorem Arises.reachable (h : Arises r) : Reachable r := by
  induction h with
  | empty goroot => exact .empty goroot
  | index h hu ih => exact .index _ ih
  | addFile h hf ih =>
    rcases addFile_cases hf with rfl | ⟨u, -, rfl⟩
    · exact ih
    · exact .index u ih
  | parseTypes h ih => exact .collect ih
  | findType h name file ih => exact .gain ih (gains_findType _ name file)
  | instantiate h generic file hargs ih => exact .gain ih (gains_instantiate _ generic _ file)
  | instantiateText h generic args file ih =>
    exact .gain ih ((gainsWith _).instantiate _ _ _ fun _ _ => trivial)

theorem Arises.wellIndexed (h : Arises r) : WellIndexed r := h.reachable.wellIndexed

/-! ### Numbers that belong to something -/

/-- The type with this number is declared and has type parameters. -/
def DeclaresGeneric (r : Registry) (id : TypeId) : Prop :=
  ∃ d, r.types[id]? = some d ∧ d.instanceName = none ∧ d.params ≠ []

/-- A type whose numbers belong to something.  An instance has no parameters, and what a type is an
instance of is declared. -/
structure TypeFits (r : Registry) (d : TypeDecl) : Prop where
  file : d.file < r.files.size
  type : d.type.Within r.types.size
  constraints : ∀ p ∈ d.params, p.constraint.Within r.types.size
  bound : ∀ name, d.instanceName = some name → d.params = []
  origin : ∀ generic, d.origin = some generic → r.DeclaresGeneric generic

/-- A constant whose numbers belong to something. -/
structure ConstFits (r : Registry) (c : ConstDecl) : Prop where
  file : c.file < r.files.size
  type : ∀ t ∈ c.type, t.Within r.types.size
  expr : ∀ e ∈ c.expr, ∀ id ∈ e.numbers, id < r.types.size
  folded : ∀ v ∈ c.folded, v.type.Within r.types.size

/-- A package whose numbers belong to something, with types that are declared in it under these
names. -/
structure PackageFits (r : Registry) (path : String) (p : Package) : Prop where
  files : ∀ id ∈ p.files, id < r.files.size
  types : ∀ e ∈ p.types, ∃ d, r.types[e.2]? = some d ∧ d.packagePath = path ∧ d.scopedName = e.1
  consts : ∀ e ∈ p.consts, e.2 < r.consts.size
  order : ∀ id ∈ p.constOrder, id < r.consts.size

/-- An instance of a declared type with parameters, under its definition name. -/
def InstanceFits (r : Registry) (name : String) (id : TypeId) : Prop :=
  ∃ d generic, r.types[id]? = some d ∧ d.instanceName = some name ∧ d.params = [] ∧
    d.origin = some generic ∧ r.DeclaresGeneric generic

/-- Every number that is stored belongs to something, and the tables list types under their names.
In files that have been read there are no numbers yet. -/
structure WellFormed (r : Registry) : Prop where
  packages : ∀ e ∈ r.packages, r.PackageFits e.1 e.2
  unique : ∀ name id, (name, some id) ∈ r.unique → id < r.types.size
  instances : ∀ e ∈ r.instances, r.InstanceFits e.1 e.2
  types : ∀ d ∈ r.types, r.TypeFits d
  consts : ∀ c ∈ r.consts, r.ConstFits c
  files : ∀ u ∈ r.files, u.tree.numbers = []

/-! ### Steps -/

/-- The second registry has at least the files, types and constants of the first.  Types may have got
other marks and members. -/
structure Widens (r r' : Registry) : Prop where
  files : r.files.size ≤ r'.files.size
  consts : r.consts.size ≤ r'.consts.size
  types : ∀ id d, r.core? id = some d → r'.core? id = some d

theorem lt_size_of_core? (h : r.core? id = some d) : id < r.types.size := by
  obtain ⟨d', hd'⟩ := types_of_core? h
  exact (Array.getElem?_eq_some_iff.1 hd').1

theorem core?_of_types (h : r.types[id]? = some d) : r.core? id = some d.core := by
  rw [core?, h]
  rfl

theorem core?_of_lt (h : id < r.types.size) : ∃ d, r.core? id = some d :=
  ⟨_, core?_of_types (Array.getElem?_eq_getElem h)⟩

namespace Widens

variable {r r' : Registry}

theorem typeCount (h : Widens r r') : r.types.size ≤ r'.types.size := by
  by_contra hlt
  obtain ⟨d, hd⟩ := core?_of_lt (r := r) (Nat.lt_of_not_le hlt)
  exact Nat.lt_irrefl _ (lt_size_of_core? (h.types _ _ hd))

/-- A type is found again, up to marks and members. -/
theorem find (h : Widens r r') (hd : r.types[id]? = some d) :
    ∃ d', r'.types[id]? = some d' ∧ d'.core = d.core :=
  Option.map_eq_some_iff.1 (h.types _ _ (core?_of_types hd))

theorem declaresGeneric (h : Widens r r') (hid : r.DeclaresGeneric id) : r'.DeclaresGeneric id := by
  obtain ⟨d, hd, hinst, hparams⟩ := hid
  obtain ⟨d', hd', hcore⟩ := h.find hd
  refine ⟨d', hd', ?_, ?_⟩
  · exact (TypeDecl.eq_of_core hcore (·.instanceName) fun _ => rfl).trans hinst
  · have heq : d'.params = d.params := TypeDecl.eq_of_core hcore (·.params) fun _ => rfl
    rwa [heq]

theorem typeFits (h : Widens r r') (hd : r.TypeFits d) (hcore : d'.core = d.core) :
    r'.TypeFits d' := by
  have hfile : d'.file = d.file := TypeDecl.eq_of_core hcore (·.file) fun _ => rfl
  have htype : d'.type = d.type := TypeDecl.eq_of_core hcore (·.type) fun _ => rfl
  have hparams : d'.params = d.params := TypeDecl.eq_of_core hcore (·.params) fun _ => rfl
  have hinst : d'.instanceName = d.instanceName :=
    TypeDecl.eq_of_core hcore (·.instanceName) fun _ => rfl
  have horigin : d'.origin = d.origin := TypeDecl.eq_of_core hcore (·.origin) fun _ => rfl
  refine ⟨?_, ?_, fun p hp => ?_, fun name hname => ?_, fun generic hgeneric => ?_⟩
  · rw [hfile]
    exact Nat.lt_of_lt_of_le hd.file h.files
  · rw [htype]
    exact hd.type.mono h.typeCount
  · exact (hd.constraints p (hparams ▸ hp)).mono h.typeCount
  · rw [hparams]
    exact hd.bound name (hinst ▸ hname)
  · exact h.declaresGeneric (hd.origin generic (horigin ▸ hgeneric))

theorem constFits (h : Widens r r') (hc : r.ConstFits c) : r'.ConstFits c where
  file := Nat.lt_of_lt_of_le hc.file h.files
  type t ht := (hc.type t ht).mono h.typeCount
  expr e he id hid := Nat.lt_of_lt_of_le (hc.expr e he id hid) h.typeCount
  folded v hv := (hc.folded v hv).mono h.typeCount

theorem packageFits (h : Widens r r') {p : Package} (hp : r.PackageFits path p) :
    r'.PackageFits path p where
  files id hid := Nat.lt_of_lt_of_le (hp.files id hid) h.files
  types e he := by
    obtain ⟨d, hd, hpath, hname⟩ := hp.types e he
    obtain ⟨d', hd', hcore⟩ := h.find hd
    exact ⟨d', hd', (TypeDecl.eq_of_core hcore (·.packagePath) fun _ => rfl).trans hpath,
      (TypeDecl.eq_of_core hcore (·.scopedName) fun _ => rfl).trans hname⟩
  consts e he := Nat.lt_of_lt_of_le (hp.consts e he) h.consts
  order id hid := Nat.lt_of_lt_of_le (hp.order id hid) h.consts

theorem instanceFits (h : Widens r r') (hid : r.InstanceFits name id) :
    r'.InstanceFits name id := by
  obtain ⟨d, generic, hd, hname, hparams, horigin, hgeneric⟩ := hid
  obtain ⟨d', hd', hcore⟩ := h.find hd
  exact ⟨d', generic, hd', (TypeDecl.eq_of_core hcore (·.instanceName) fun _ => rfl).trans hname,
    (TypeDecl.eq_of_core hcore (·.params) fun _ => rfl).trans hparams,
    (TypeDecl.eq_of_core hcore (·.origin) fun _ => rfl).trans horigin, h.declaresGeneric hgeneric⟩

end Widens

/-- **What is new has to fit**; what was there fits still. -/
theorem WellFormed.of_widens (h : WellFormed r) (hw : Widens r r')
    (hpackages : ∀ e ∈ r'.packages, e ∈ r.packages ∨ r'.PackageFits e.1 e.2)
    (hunique : ∀ name id, (name, some id) ∈ r'.unique →
      (name, some id) ∈ r.unique ∨ id < r'.types.size)
    (hinstances : ∀ e ∈ r'.instances, e ∈ r.instances ∨ r'.InstanceFits e.1 e.2)
    (htypes : ∀ d ∈ r'.types, (∃ d₀ ∈ r.types, d.core = d₀.core) ∨ r'.TypeFits d)
    (hconsts : ∀ c ∈ r'.consts, c ∈ r.consts ∨ r'.ConstFits c)
    (hfiles : ∀ u ∈ r'.files, u ∈ r.files ∨ u.tree.numbers = []) : WellFormed r' where
  packages e he := (hpackages e he).elim (fun h' => hw.packageFits (h.packages e h')) id
  unique name id hid := (hunique name id hid).elim
    (fun h' => Nat.lt_of_lt_of_le (h.unique name id h') hw.typeCount) fun h' => h'
  instances e he := (hinstances e he).elim (fun h' => hw.instanceFits (h.instances e h')) id
  types d hd := by
    rcases htypes d hd with ⟨d₀, hd₀, hcore⟩ | hfits
    · exact hw.typeFits (h.types d₀ hd₀) hcore
    · exact hfits
  consts c hc := (hconsts c hc).elim (fun h' => hw.constFits (h.consts c h')) id
  files u hu := (hfiles u hu).elim (h.files u) id

/-- The package with a path, or a new one without contents. -/
theorem WellFormed.packageAt (h : WellFormed r) (path : String) {fresh : Package}
    (hfresh : r.PackageFits path fresh) :
    r.PackageFits path ((r.packages.get? path).getD fresh) := by
  cases hp : r.packages.get? path with
  | none => exact hfresh
  | some p => exact h.packages (path, p) (Table.mem_of_get? hp)

theorem packageFits_new (r : Registry) (key path name : String) :
    r.PackageFits key ⟨path, name, [], [], [], []⟩ := by
  refine ⟨?_, ?_, ?_, ?_⟩
  all_goals exact List.forall_mem_nil _

/-! ### Reading files -/

theorem wellFormed_empty (goroot : Option String) : WellFormed { goroot := goroot } where
  packages := List.forall_mem_nil _
  unique := by
    intro name id h
    cases h
  instances := List.forall_mem_nil _
  types := by simp
  consts := by simp
  files := by simp

theorem SourceUnit.numbers_ofText
    (h : SourceUnit.ofText path packagePath role text = .ok u) : u.tree.numbers = [] := by
  unfold SourceUnit.ofText at h
  split at h
  · next tree htree =>
    cases h
    exact Go.numbers_fileOfText htree
  · cases h

theorem WellFormed.index (h : WellFormed r) (hu : u.tree.numbers = []) :
    WellFormed (r.index u).2 := by
  unfold Registry.index
  split
  · exact h
  have hw : Widens r { r with
      files := r.files.push u
      packages := r.packages.modify u.packagePath
        ⟨u.packagePath, u.packageName, [], [], [], []⟩ fun p =>
          { p with files := p.files ++ [r.files.size] } } :=
    ⟨by simp, Nat.le_refl _, fun _ _ h => h⟩
  refine h.of_widens hw (fun e he => ?_) (fun _ _ => .inl) (fun _ => .inl)
    (fun d hd => .inl ⟨d, hd, rfl⟩) (fun _ => .inl) (fun u' hu' => ?_)
  · -- the package of the file lists one more, with the last number
    rcases Table.mem_insert_imp he with rfl | he
    · right
      have hp := hw.packageFits
        (h.packageAt u.packagePath (packageFits_new r _ u.packagePath u.packageName))
      refine ⟨fun id hid => ?_, hp.types, hp.consts, hp.order⟩
      rcases List.mem_append.1 hid with hid | hid
      · exact hp.files id hid
      · rw [List.mem_singleton.1 hid]
        simp
    · exact .inl he
  · rcases Array.mem_push.1 hu' with hu' | rfl
    · exact .inl hu'
    · exact .inr hu

/-! ### Declarations -/

theorem WellFormed.addType (h : WellFormed r) (hd : r.TypeFits d) : WellFormed (r.addType d) := by
  unfold Registry.addType
  split
  · exact h
  have hw : Widens r { r.modifyPackage d.packagePath fun p =>
      { p with types := p.types.insert d.scopedName r.types.size } with
        types := r.types.push d } :=
    ⟨Nat.le_refl _, Nat.le_refl _, fun id d' hd' => core?_push_of_some rfl hd'⟩
  refine h.of_widens hw (fun e he => ?_) (fun _ _ => .inl) (fun _ => .inl) (fun d' hd' => ?_)
    (fun _ => .inl) (fun _ => .inl)
  · -- the package of the type lists it under its name
    rcases Table.mem_insert_imp he with rfl | he
    · right
      have hp := hw.packageFits (h.packageAt d.packagePath (packageFits_new r _ "" ""))
      exact ⟨hp.files, Table.forall_mem_insert ⟨d, Array.getElem?_push_size, rfl, rfl⟩ hp.types,
        hp.consts, hp.order⟩
    · exact .inl he
  · rcases Array.mem_push.1 hd' with hd' | rfl
    · exact .inl ⟨d', hd', rfl⟩
    · exact .inr (hw.typeFits hd rfl)

theorem WellFormed.addConst (h : WellFormed r) (hc : r.ConstFits c) :
    WellFormed (r.addConst c) := by
  unfold Registry.addConst
  split
  · exact h
  have hw : Widens r { r.modifyPackage c.packagePath fun p =>
      { p with
        consts := if p.consts.contains c.name then p.consts
          else p.consts.insert c.name r.consts.size
        constOrder := p.constOrder ++ [r.consts.size] } with consts := r.consts.push c } :=
    ⟨Nat.le_refl _, by simp, fun _ _ h => h⟩
  refine h.of_widens hw (fun e he => ?_) (fun _ _ => .inl) (fun _ => .inl)
    (fun d hd => .inl ⟨d, hd, rfl⟩) (fun c' hc' => ?_) (fun _ => .inl)
  · -- the package lists the constant, and under its name unless that is taken
    rcases Table.mem_insert_imp he with rfl | he
    · right
      have hp := hw.packageFits (h.packageAt c.packagePath (packageFits_new r _ "" ""))
      have hlast : r.consts.size < (r.consts.push c).size := by simp
      refine ⟨hp.files, hp.types, fun e' he' => ?_, fun id hid => ?_⟩
      · dsimp only at he'
        split at he'
        · exact hp.consts e' he'
        · exact Table.forall_mem_insert hlast hp.consts e' he'
      · rcases List.mem_append.1 hid with hid | hid
        · exact hp.order id hid
        · rw [List.mem_singleton.1 hid]
          exact hlast
    · exact .inl he
  · rcases Array.mem_push.1 hc' with hc' | rfl
    · exact .inl hc'
    · exact .inr (hw.constFits hc)

variable {f : Go.File} {entry : Option String × Go.TypeSpec}

theorem numbers_typeSpec_of_file (h : f.numbers = []) (he : entry ∈ typeSpecs f.decls) : entry.2.numbers = [] := by
  have hdecls : ∀ d ∈ f.decls, d.numbers = [] := List.flatMap_eq_nil_iff.1 h
  obtain ⟨d, hd, he⟩ := List.mem_flatMap.1 he
  have hnumbers := hdecls d hd
  cases d with
  | type spec =>
    obtain rfl := List.mem_singleton.1 he
    exact hnumbers
  | func decl =>
    obtain ⟨spec, hspec, rfl⟩ := List.mem_map.1 he
    exact List.flatMap_eq_nil_iff.1 hnumbers spec hspec
  | const specs => cases he

theorem typeFits_typeDecl (hfile : file < r.files.size)
    (hentry : entry.2.numbers = []) : r.TypeFits (typeDecl file u entry) := by
  obtain ⟨hparams, htype⟩ := List.append_eq_nil_iff.1 hentry
  refine ⟨hfile, TypeExpr.within_of_numbers htype, fun p hp => ?_, fun _ h => ?_, fun _ h => ?_⟩
  · exact TypeExpr.within_of_numbers (List.flatMap_eq_nil_iff.1 hparams p hp)
  · cases h
  · cases h

/-- The constants of a declaration contain no numbers if its lines do not, nor the type and the
values that are repeated. -/
theorem constFits_constDecls (hfile : file < r.files.size) {values : List Go.Expr}
    {type : Option TypeExpr} {specs : List Go.ValueSpec} (hvalues : ∀ e ∈ values, e.numbers = [])
    (htype : ∀ t ∈ type, t.numbers = []) (hspecs : ∀ s ∈ specs, s.numbers = []) :
    ∀ c ∈ constDecls file path values type specs, r.ConstFits c := by
  induction specs generalizing values type with
  | nil => exact List.forall_mem_nil _
  | cons spec specs ih =>
    obtain ⟨hspec, hspecs⟩ := List.forall_mem_cons.1 hspecs
    obtain ⟨hspecType, hspecValues⟩ := List.append_eq_nil_iff.1 hspec
    -- the values and the type of this line, or those that it repeats
    obtain ⟨values', type', heq, hvalues', htype'⟩ : ∃ values' type',
        (if spec.values.isEmpty then (values, type) else (spec.values, spec.type)) =
          (values', type') ∧ (∀ e ∈ values', e.numbers = []) ∧ ∀ t ∈ type', t.numbers = [] := by
      by_cases hempty : spec.values.isEmpty
      · exact ⟨values, type, if_pos hempty, hvalues, htype⟩
      · refine ⟨spec.values, spec.type, if_neg hempty,
          List.flatMap_eq_nil_iff.1 hspecValues, fun t ht => ?_⟩
        exact List.flatMap_eq_nil_iff.1 hspecType t (Option.mem_toList.2 ht)
    rw [constDecls, heq]
    refine List.forall_mem_append.2 ⟨fun c hc => ?_, ih hvalues' htype' hspecs⟩
    obtain ⟨i, hi, rfl⟩ := List.mem_mapIdx.1 hc
    refine ⟨hfile, fun t ht => TypeExpr.within_of_numbers (htype' t ht), fun e he id hid => ?_,
      fun v hv => ?_⟩
    · rw [hvalues' e (List.mem_of_getElem? he)] at hid
      cases hid
    · cases hv

theorem constFits_constsOf (hfile : file < r.files.size) (hf : f.numbers = []) :
    ∀ c ∈ constsOf file path f.decls, r.ConstFits c := by
  intro c hc
  obtain ⟨d, hd, hc⟩ := List.mem_flatMap.1 hc
  have hnumbers := List.flatMap_eq_nil_iff.1 hf d hd
  cases d with
  | const specs =>
    exact constFits_constDecls hfile (List.forall_mem_nil _) (by simp)
      (List.flatMap_eq_nil_iff.1 hnumbers) c hc
  | type spec | func decl => cases hc

theorem WellFormed.collectFile (h : WellFormed r) (file : FileId) :
    WellFormed (r.collectFile file) := by
  unfold Registry.collectFile
  cases hu : r.files[file]? with
  | none => exact h
  | some u =>
    have hfile : file < r.files.size := (Array.getElem?_eq_some_iff.1 hu).1
    have hnumbers := h.files u (Array.mem_of_getElem? hu)
    -- neither step changes the files
    have htypes : WellFormed (((typeSpecs u.tree.decls).map (typeDecl file u)).foldl
          Registry.addType r) ∧
        (((typeSpecs u.tree.decls).map (typeDecl file u)).foldl Registry.addType r).files =
          r.files := by
      refine List.foldlRecOn (motive := fun s : Registry => WellFormed s ∧ s.files = r.files)
        _ _ ⟨h, rfl⟩ fun s hs d hd => ?_
      obtain ⟨entry, hentry, rfl⟩ := List.mem_map.1 hd
      exact ⟨hs.1.addType (typeFits_typeDecl (hs.2 ▸ hfile)
        (numbers_typeSpec_of_file hnumbers hentry)), (files_addType _ _).trans hs.2⟩
    refine (List.foldlRecOn (motive := fun s : Registry => WellFormed s ∧ s.files = r.files)
      _ _ htypes fun s hs c hc => ?_).1
    exact ⟨hs.1.addConst (constFits_constsOf (hs.2 ▸ hfile) hnumbers c hc),
      (files_addConst _ _).trans hs.2⟩

/-! ### Marks -/

/-- Types with other marks and members are the types that were there. -/
theorem exists_of_core?_eq (h : ∀ id, r'.core? id = r.core? id) (hd : d ∈ r'.types) :
    ∃ d₀ ∈ r.types, d.core = d₀.core := by
  obtain ⟨id, hid, hget⟩ := Array.mem_iff_getElem.1 hd
  have hcore : r.core? id = some d.core := by
    rw [← h]
    exact core?_of_types (hget ▸ Array.getElem?_eq_getElem hid)
  obtain ⟨d₀, hd₀, heq⟩ := Option.map_eq_some_iff.1 hcore
  exact ⟨d₀, Array.mem_of_getElem? hd₀, heq.symm⟩

theorem WellFormed.markUnique (h : WellFormed r) (hi : WellIndexed r) :
    WellFormed r.markUnique := by
  have hsame := hi.markUnique
  -- nothing but marks and short names is changed
  have hfiles : r.markUnique.files = r.files := markUnique_frame (·.files) (fun _ => rfl) r
  have hpackages : r.markUnique.packages = r.packages :=
    markUnique_frame (·.packages) (fun _ => rfl) r
  have hconsts : r.markUnique.consts = r.consts := markUnique_frame (·.consts) (fun _ => rfl) r
  have hw : Widens r r.markUnique :=
    ⟨Nat.le_of_eq (congrArg Array.size hfiles.symm), Nat.le_of_eq (congrArg Array.size hconsts.symm),
      fun id d hd => (hsame.core id).trans hd⟩
  refine h.of_widens hw (fun e he => .inl (hpackages ▸ he)) (fun name id hid => ?_)
    (fun e he => .inl (hsame.instances ▸ he)) (fun d hd => .inl (exists_of_core?_eq hsame.core hd))
    (fun c hc => .inl (hconsts ▸ hc)) (fun u hu => .inl (hfiles ▸ hu))
  obtain ⟨d, hd, -⟩ := hsame.short name id hid
  exact .inr (Nat.lt_of_lt_of_le (lt_size_of_core? hd) hw.typeCount)

/-! ### Values of constants -/

variable {v w : Folded}

theorem type_of_binary? {classOf : ConstType → Constant.ConstClass} {op : Go.BinaryOp}
    {u : Folded} (h : Constant.binary? classOf op u v = some w) :
    w.type = .untyped ∨ w.type = u.type ∨ w.type = v.type := by
  unfold Constant.binary? at h
  split at h
  case h_11 =>
    obtain ⟨x, -, rfl⟩ := Option.map_eq_some_iff.1 h
    show (if u.type = .untyped then v.type else u.type) = _ ∨ _
    split
    · exact .inr (.inr rfl)
    · exact .inr (.inl rfl)
  all_goals
    obtain ⟨x, -, rfl⟩ := Option.map_eq_some_iff.1 h
    first | exact .inl rfl | exact .inr (.inl rfl)

theorem WellIndexed.lt_of_lookupType? (h : WellIndexed r) {args : Option String}
    (hid : r.lookupType? name file = some (id, args)) : id < r.types.size := by
  obtain ⟨d, hd⟩ := h.types_of_lookupType? hid
  exact (Array.getElem?_eq_some_iff.1 hd).1

theorem WellIndexed.within_constTypeOf (h : WellIndexed r) (t : TypeExpr) (file : FileId) :
    (r.constTypeOf t file).Within r.types.size := by
  intro id hid
  unfold constTypeOf at hid
  cases hlookup : r.lookupType? t.text file with
  | none =>
    rw [hlookup] at hid
    dsimp only at hid
    split at hid
    · split at hid
      · cases hid
      · cases hid
    · cases hid
    · cases hid
  | some entry =>
    rw [hlookup] at hid
    dsimp only at hid
    have hentry : ConstType.named entry.1 = .named id := by
      split at hid
      · split at hid
        · cases hid
        · exact hid
      · exact hid
      · cases hid
    exact ConstType.named.inj hentry ▸ h.lt_of_lookupType? hlookup

variable {callee : Go.Expr} {type : ConstType}

theorem WellIndexed.within_conversionType? (h : WellIndexed r)
    (htype : r.conversionType? callee file = some type) : type.Within r.types.size := by
  -- a declared type that a name stands for
  have hdeclared : ∀ name, (r.lookupType? name file).map (fun e => ConstType.named e.1) = some type →
      type.Within r.types.size := by
    intro name hname id hid
    obtain ⟨entry, hlookup, rfl⟩ := Option.map_eq_some_iff.1 hname
    exact ConstType.named.inj hid ▸ h.lt_of_lookupType? hlookup
  unfold conversionType? at htype
  split at htype
  · split at htype
    · split at htype
      · cases htype
      · cases htype
        intro id hid
        cases hid
    · exact hdeclared _ htype
  · exact hdeclared _ htype
  · cases htype

theorem type_of_convertTo? (h : r.convertTo? type v = some w) : w.type = type := by
  obtain ⟨x, -, rfl⟩ := Option.map_eq_some_iff.1 h
  rfl

theorem ConstType.within_untyped (n : Nat) : ConstType.untyped.Within n := by
  intro id hid
  cases hid

theorem WellIndexed.within_applyCallee? (h : WellIndexed r)
    (hw : r.applyCallee? callee file v = some w) : w.type.Within r.types.size := by
  unfold applyCallee? at hw
  split at hw
  · split at hw
    · rw [type_of_convertTo? hw]
      intro id hid
      cases hid
    · cases hw
  · obtain ⟨type, htype, hw⟩ := Option.bind_eq_some_iff.1 hw
    rw [type_of_convertTo? hw]
    exact h.within_conversionType? htype

theorem WellIndexed.within_declaredAs? (h : WellIndexed r)
    (hw : r.declaredAs? c v = some w) (hv : v.type.Within r.types.size) :
    w.type.Within r.types.size := by
  unfold declaredAs? at hw
  split at hw
  · rw [type_of_convertTo? hw]
    exact h.within_constTypeOf _ _
  · cases hw
    exact hv

/-- **The type of a value** is there. -/
theorem WellFormed.within_of_gives (h : WellFormed r) (hi : WellIndexed r) {iota : Nat}
    {e : Go.Expr} (hv : r.Gives file iota e v) : v.type.Within r.types.size := by
  induction hv with
  | literal hx | predeclared hx => exact ConstType.within_untyped _
  | stored he hc hw => exact (h.consts _ (Array.mem_of_getElem? hc)).folded _ hw
  | reference he hc hnew hbody hv hw ih => exact hi.within_declaredAs? hw ih
  | paren hv ih | unary hv hx ih => exact ih
  | binary hu hv hw ihu ihv =>
    rcases type_of_binary? hw with htype | htype | htype
    · exact htype ▸ ConstType.within_untyped _
    · exact htype ▸ ihu
    · exact htype ▸ ihv
  | call hv hw ih => exact hi.within_applyCallee? hw

theorem WellFormed.within_foldOne (h : WellFormed r) (hi : WellIndexed r) {id : ConstId} (hw : r.foldOne id = some w) : w.type.Within r.types.size := by
  obtain ⟨c, hc, hfolded | ⟨-, v, ⟨body, -, hv⟩, hw⟩⟩ := (r.foldOne_eq_some id w).1 hw
  · exact (h.consts c (Array.mem_of_getElem? hc)).folded w hfolded
  · exact hi.within_declaredAs? hw (h.within_of_gives hi hv)

theorem WellFormed.constFits_settle (h : WellFormed r) (hi : WellIndexed r) (id : ConstId)
    (hc : r.ConstFits c) : r.ConstFits (r.settle id c) := by
  unfold settle
  split
  · exact ⟨hc.file, hc.type, hc.expr, fun v hv => h.within_foldOne hi hv⟩
  · exact hc

theorem core?_foldConstants (r : Registry) (id : TypeId) : r.foldConstants.core? id = r.core? id := by
  rw [foldConstants_eq, core?, core?, Array.getElem?_mapIdx, Option.map_map]
  rfl

theorem WellFormed.foldConstants (h : WellFormed r) (hi : WellIndexed r) :
    WellFormed r.foldConstants := by
  have hw : Widens r r.foldConstants := by
    refine ⟨?_, ?_, fun id d hd => (r.core?_foldConstants id).trans hd⟩
    · rw [foldConstants_eq]
      exact Nat.le_refl _
    · rw [foldConstants_eq]
      exact Nat.le_of_eq Array.size_mapIdx.symm
  have hcore := r.core?_foldConstants
  rw [foldConstants_eq] at hw hcore ⊢
  refine h.of_widens hw (fun _ => .inl) (fun _ _ => .inl) (fun _ => .inl)
    (fun d hd => .inl (exists_of_core?_eq hcore hd)) (fun c hc => ?_) (fun _ => .inl)
  obtain ⟨id, hid, rfl⟩ := Array.mem_mapIdx.1 hc
  exact .inr (hw.constFits (h.constFits_settle hi id (h.consts _ (Array.getElem_mem _))))

theorem WellFormed.collectNew (h : WellFormed r) (hi : WellIndexed r) :
    WellFormed r.collectNew ∧ WellIndexed r.collectNew := by
  obtain ⟨hformed, hindexed⟩ := List.foldlRecOn (motive := fun s => WellFormed s ∧ WellIndexed s)
    (r.inPathOrder ((List.range r.files.size).drop r.collected)) Registry.collectFile ⟨h, hi⟩
    fun s hs file _ => ⟨hs.1.collectFile file, hs.2.collectFile file⟩
  refine ⟨?_, ⟨hindexed.sorted, hindexed.declared, hindexed.instances, hindexed.short⟩⟩
  exact hformed.of_widens ⟨Nat.le_refl _, Nat.le_refl _, fun _ _ hd => hd⟩ (fun _ => .inl)
    (fun _ _ => .inl) (fun _ => .inl) (fun d hd => .inl ⟨d, hd, rfl⟩) (fun _ => .inl) (fun _ => .inl)

theorem WellFormed.parseTypes (h : WellFormed r) (hi : WellIndexed r) :
    WellFormed r.parseTypes := by
  obtain ⟨hformed, hindexed⟩ := h.collectNew hi
  exact (hformed.markUnique hindexed).foldConstants (hindexed.markUnique.wellIndexed hindexed)

/-! ### Instances -/

theorem within_binding {a : TypeArg} (hknown : r.Known a)
    (helement : a.element.Within r.types.size) : a.binding.Within r.types.size := by
  intro id hid
  rw [TypeArg.binding, TypeExpr.numbers_sliced] at hid
  cases htarget : a.target with
  | none =>
    rw [htarget] at hid
    exact helement id hid
  | some target =>
    rw [htarget] at hid
    obtain rfl : id = target := List.mem_singleton.1 hid
    obtain ⟨d, hd⟩ := hknown id htarget
    exact (Array.getElem?_eq_some_iff.1 hd).1

theorem WellFormed.typeFits_boundDecl (h : WellFormed r) {args : List TypeArg}
    (hd : r.types[generic]? = some d) (hparams : d.params ≠ [])
    (hargs : ∀ a ∈ args, a.binding.Within r.types.size) :
    r.TypeFits (r.boundDecl generic d args) := by
  have hfits := h.types d (Array.mem_of_getElem? hd)
  refine ⟨hfits.file, fun id hid => ?_, List.forall_mem_nil _, fun _ _ => rfl, fun g hg => ?_⟩
  · rcases TypeExpr.mem_numbers_substitute _ id d.type hid with hid | ⟨e, he, hid⟩
    · exact hfits.type id hid
    · rcases Table.mem_extend he with he | he
      · cases he
      · obtain ⟨a, ha, heq⟩ := List.mem_map.1 (List.of_mem_zip he).2
        exact hargs a ha id (heq ▸ hid)
  · obtain rfl : generic = g := Option.some.inj hg
    refine ⟨d, hd, ?_, hparams⟩
    -- an instance has no parameters
    cases hinst : d.instanceName with
    | none => rfl
    | some name => exact absurd (hfits.bound name hinst) hparams

theorem WellFormed.bindArgs (h : WellFormed r) {args : List TypeArg}
    (hd : r.types[generic]? = some d) (hparams : d.params ≠ [])
    (hargs : ∀ a ∈ args, a.binding.Within r.types.size) :
    WellFormed (r.bindArgs generic d args).2 := by
  cases hname : r.instances.get? (r.instanceName d args) with
  | some id =>
    rw [bindArgs_known hname]
    exact h
  | none =>
    rw [bindArgs_new hname]
    have hw : Widens r (r.pushInstance (r.instanceName d args) (r.boundDecl generic d args)) :=
      ⟨Nat.le_refl _, Nat.le_refl _, fun id d' hd' => core?_push_of_some rfl hd'⟩
    have hfits := hw.typeFits (h.typeFits_boundDecl hd hparams hargs) rfl
    have hlast : r.types.size < (r.types.push (r.boundDecl generic d args)).size := by simp
    refine h.of_widens hw (fun _ => .inl) (fun name id hid => ?_) (fun e he => ?_)
      (fun d' hd' => ?_) (fun _ => .inl) (fun _ => .inl)
    -- the instance is new among the short names, the instances and the types
    · rcases Table.mem_insert_imp hid with heq | hid
      · cases heq
        exact .inr hlast
      · exact .inl hid
    · rcases Table.mem_insert_imp he with rfl | he
      · exact .inr ⟨_, generic, Array.getElem?_push_size, rfl, rfl, rfl, hfits.origin generic rfl⟩
      · exact .inl he
    · rcases Array.mem_push.1 hd' with hd' | rfl
      · exact .inl ⟨d', hd', rfl⟩
      · exact .inr hfits

/-! ### Look-ups -/

theorem has_of_within (h : a.Within r.types.size) : r.Has a.peel.2 := by
  intro id hid
  have hlt : id < r.types.size := by
    refine h id ?_
    rw [← TypeExpr.numbers_peel, hid]
    exact List.mem_singleton_self id
  exact ⟨_, Array.getElem?_eq_getElem hlt⟩

theorem element_of_lookUpWith {fuel : Nat}
    {x : TypeArg} (hx : x ∈ (lookUpWith fuel file args r).1) : ∃ a ∈ args, x.element = a.peel.2 := by
  induction args generalizing r with
  | nil => cases hx
  | cons a args ih =>
    rcases List.mem_cons.1 hx with rfl | hx
    · refine ⟨a, .head _, ?_⟩
      cases fuel with
      | zero => rw [resolveArgWith]
      | succ fuel => rw [resolveArgWith_succ]
    · obtain ⟨b, hb, heq⟩ := ih hx
      exact ⟨b, .tail _ hb, heq⟩

theorem numbers_argsOfText (ha : a ∈ argsOfText text) : a.numbers = [] := by
  obtain ⟨piece, -, rfl⟩ := List.mem_map.1 ha
  split
  · next t ht => exact (Go.unnumbered_typeOfText ht).numbers_eq_nil
  · rfl

theorem within_lookUpWith (hi : WellIndexed r) {fuel : Nat} (file : FileId)
    (hargs : ∀ a ∈ args, a.Within r.types.size) : ∀ x ∈ (lookUpWith fuel file args r).1,
      x.binding.Within (lookUpWith fuel file args r).2.types.size := by
  have hknown : ∀ x ∈ (lookUpWith fuel file args r).1, (lookUpWith fuel file args r).2.Known x :=
    known_lookUpWith hi fun a ha => has_of_within (hargs a ha)
  intro x hx
  refine within_binding (hknown x hx) ?_
  obtain ⟨a, ha, helement⟩ := element_of_lookUpWith hx
  have hle := (gains_lookUpWith fuel file args r).size_le
  rw [helement]
  exact fun id hid => Nat.lt_of_lt_of_le (hargs a ha id (a.numbers_peel ▸ hid)) hle

/-- Look-ups for types whose numbers are there keep a registry well-formed. -/
theorem lookUpLaw_wellFormed (n : Nat) : LookUpLaw (fun r s => Gains r s ∧
      (WellFormed r → WellIndexed r → n ≤ r.types.size → WellFormed s))
    (fun _ => True) (TypeExpr.Within n) where
  refl r := ⟨.refl r, fun h _ _ => h⟩
  trans h h' := ⟨h.1.trans h'.1, fun hr hi hn =>
    h'.2 (h.2 hr hi hn) (h.1.wellIndexed hi) (Nat.le_trans hn h.1.size_le)⟩
  text _ _ _ ha := TypeExpr.within_of_numbers (numbers_argsOfText ha)
  ident _ := trivial
  qualified _ := trivial
  args h _ ha := h.arg ha
  peel {a} h id hid := h id (a.numbers_peel ▸ hid)
  bind hd hparams hargs h := ⟨h.1.bind _ (h.1.grows hd), fun hr hi hn =>
    (h.2 hr hi hn).bindArgs (h.1.grows hd) hparams
      (within_lookUpWith hi _ fun a ha => (hargs a ha).mono hn)⟩

/-- **Every registry that arises is well-formed.** -/
theorem Arises.wellFormed (h : Arises r) : WellFormed r := by
  induction h with
  | empty goroot => exact wellFormed_empty goroot
  | index h hu ih => exact ih.index (SourceUnit.numbers_ofText hu)
  | addFile h hf ih =>
    rcases addFile_cases hf with rfl | ⟨u, hu, rfl⟩
    · exact ih
    · exact ih.index (SourceUnit.numbers_ofText hu)
  | parseTypes h ih => exact ih.parseTypes h.wellIndexed
  | findType h name file ih =>
    exact (((lookUpLaw_wellFormed 0).obeyedWith _).find _ file trivial).2 ih h.wellIndexed
      (Nat.zero_le _)
  | instantiate h generic file hargs ih =>
    exact (((lookUpLaw_wellFormed _).obeyedWith _).instantiate _ generic file hargs).2 ih
      h.wellIndexed (Nat.le_refl _)
  | instantiateText h generic args file ih =>
    exact (((lookUpLaw_wellFormed 0).obeyedWith _).instantiate _ generic file fun a ha =>
      TypeExpr.within_of_numbers (numbers_argsOfText ha)).2 ih h.wellIndexed (Nat.zero_le _)

end Registry

end GoApiDoc
