/-
Files numbered in another way.

The numbers of files stand in the types and constants that they declare and in the lists of the
packages.  Declarations are collected in the order of the paths of their files, and nothing that is
done with them depends on the numbers.  So two registries that differ in the numbers of their files
only are again such registries after their declarations have been collected.

* `Registry.Refiles.parseTypes` — **collecting does not depend on the numbers of files**.
-/

import GoApiDoc.Proofs.PathOrder
import GoApiDoc.Proofs.Marking
import GoApiDoc.Proofs.Mirror

set_option autoImplicit false

namespace GoApiDoc

open Go (TypeId TypeExpr)

/-! ### Tables -/

namespace Table

variable {α β : Type}

theorem mapValues_insert (g : α → β) (k : String) (v : α) (t : Table α) :
    (t.insert k v).mapValues g = (t.mapValues g).insert k (g v) := by
  induction t with
  | nil => rfl
  | cons e t ih =>
    obtain ⟨k', v'⟩ := e
    by_cases heq : k = k'
    · simp [insert, mapValues, heq]
    · by_cases hlt : k < k'
      · simp [insert, mapValues, heq, hlt]
      · simpa [insert, mapValues, heq, hlt] using ih

theorem mapValues_modify {g : α → β} {f : α → α} {f' : β → β} {k : String} {fresh : α} {t : Table α}
    (hf : g (f ((t.get? k).getD fresh)) = f' (g ((t.get? k).getD fresh))) :
    (t.modify k fresh f).mapValues g = (t.mapValues g).modify k (g fresh) f' := by
  rw [modify, mapValues_insert, hf, modify, get?_mapValues]
  cases t.get? k with
  | none | some v => rfl

end Table

/-! ### Other numbers -/

variable (σ : FileId → FileId)

/-- The type with another number of its file. -/
def TypeDecl.refile (d : TypeDecl) : TypeDecl := { d with file := σ d.file }

/-- The constant with another number of its file. -/
def ConstDecl.refile (c : ConstDecl) : ConstDecl := { c with file := σ c.file }

/-- The package with other numbers of its files, which it lists in the order of the numbers. -/
def Package.refile (p : Package) : Package :=
  { p with files := (p.files.map σ).mergeSort fun a b => decide (a ≤ b) }

namespace Registry

/-- The second registry is the first with other numbers of files: types, constants, instances and
short names have the same numbers in both. -/
structure Refiles (σ : Equiv.Perm FileId) (r r' : Registry) : Prop where
  count : r'.files.size = r.files.size
  files : ∀ id : FileId, r'.files[σ id]? = r.files[id]?
  collected : r'.collected = r.collected
  packages : r'.packages = r.packages.mapValues (Package.refile σ)
  types : r'.types = r.types.map (TypeDecl.refile σ)
  consts : r'.consts = r.consts.map (ConstDecl.refile σ)
  unique : r'.unique = r.unique
  instances : r'.instances = r.instances
  goroot : r'.goroot = r.goroot

variable {r r' : Registry}

theorem Mirrors.symm {σ : Equiv.Perm FileId} (h : Mirrors σ r r') : Mirrors σ.symm r' r where
  files id := by rw [← h.files, Equiv.apply_symm_apply]
  packages := h.packages.symm
  types id := by
    have hback := congrArg (Option.map fun e : TypeExpr × FileId => (e.1, σ.symm e.2)) (h.types id)
    simpa [Option.map_map, Function.comp_def] using hback.symm
  unique := h.unique.symm

theorem Settled.of_folded {σ : FileId → FileId}
    (hsame : ∀ id : ConstId, (r'.consts[id]?.map fun c => (c.expr, c.type, c.iota, c.file)) =
      r.consts[id]?.map fun c => (c.expr, c.type, c.iota, σ c.file)) (hfolded : ∀ id : ConstId,
      r'.consts[id]?.map ConstDecl.folded = r.consts[id]?.map ConstDecl.folded) :
    Settled σ r r' := by
  refine ⟨hsame, fun id c w hc hw => ?_, fun id c c' w hc hnone hc' hw => ?_⟩
  · have hvalue := hfolded id
    rw [hc, Option.map_some, hw] at hvalue
    obtain ⟨c', hc', hw'⟩ := Option.map_eq_some_iff.1 hvalue
    exact ⟨c', hc', .inl hw'⟩
  · -- both have a value or none has
    have hvalue := hfolded id
    rw [hc, hc', Option.map_some, Option.map_some, hnone, hw] at hvalue
    cases hvalue

namespace Refiles

variable {σ : Equiv.Perm FileId} {r r' : Registry}

theorem getElem?_types (h : Refiles σ r r') (id : TypeId) :
    r'.types[id]? = r.types[id]?.map (TypeDecl.refile σ) := by
  rw [h.types, Array.getElem?_map]

theorem getElem?_consts (h : Refiles σ r r') (id : ConstId) :
    r'.consts[id]? = r.consts[id]?.map (ConstDecl.refile σ) := by
  rw [h.consts, Array.getElem?_map]

theorem mirrors (h : Refiles σ r r') : Mirrors σ r r' where
  files := h.files
  packages := by
    rw [h.packages]
    simp only [Table.mapValues, List.map_map]
    rfl
  types id := by
    rw [h.getElem?_types, Option.map_map]
    rfl
  unique := h.unique

/-! ### Declarations -/

/-- Steps that are alike, one after the other. -/
theorem foldl {α : Type} {step step' : Registry → α → Registry}
    (hstep : ∀ a r r', Refiles σ r r' → Refiles σ (step r a) (step' r' a)) (l : List α) :
    ∀ {r r' : Registry}, Refiles σ r r' → Refiles σ (l.foldl step r) (l.foldl step' r') := by
  induction l with
  | nil => exact fun h => h
  | cons a l ih => exact fun h => ih (hstep a _ _ h)

/-- A change of one package that does not concern its files. -/
theorem packages_modify (h : Refiles σ r r') (path : String) {f f' : Package → Package}
    (hf : ∀ p, (f p).refile σ = f' (p.refile σ)) :
    r'.packages.modify path ⟨"", "", [], [], [], []⟩ f' =
      (r.packages.modify path ⟨"", "", [], [], [], []⟩ f).mapValues (Package.refile σ) := by
  have hfresh : (⟨"", "", [], [], [], []⟩ : Package).refile σ = ⟨"", "", [], [], [], []⟩ := by
    simp [Package.refile]
  rw [h.packages, Table.mapValues_modify (hf _), hfresh]

theorem addType (h : Refiles σ r r') (d : TypeDecl) :
    Refiles σ (r.addType d) (r'.addType (d.refile σ)) := by
  have hsize : r'.types.size = r.types.size := by rw [h.types, Array.size_map]
  have hlisted : r'.typeIn? (d.refile σ).packagePath (d.refile σ).scopedName =
      r.typeIn? d.packagePath d.scopedName := h.mirrors.typeIn? _ _
  unfold Registry.addType
  rw [hlisted]
  split
  · exact h
  dsimp only [modifyPackage]
  rw [hsize]
  refine ⟨h.count, h.files, h.collected, ?_, ?_, h.consts, h.unique, h.instances, h.goroot⟩
  · dsimp only
    refine h.packages_modify _ ?_
    exact fun _ => rfl
  · rw [h.types, Array.map_push]

theorem addConst (h : Refiles σ r r') (c : ConstDecl) :
    Refiles σ (r.addConst c) (r'.addConst (c.refile σ)) := by
  have hsize : r'.consts.size = r.consts.size := by rw [h.consts, Array.size_map]
  have hname : (c.refile σ).name = c.name := rfl
  unfold Registry.addConst
  rw [hname]
  split
  · exact h
  dsimp only [modifyPackage]
  rw [hsize]
  refine ⟨h.count, h.files, h.collected, ?_, h.types, ?_, h.unique, h.instances, h.goroot⟩
  · dsimp only
    refine h.packages_modify _ ?_
    exact fun _ => rfl
  · rw [h.consts, Array.map_push]

end Refiles

theorem constDecls_refile (file : FileId) (path : String)
    (values : List Go.Expr) (type : Option TypeExpr) (specs : List Go.ValueSpec) :
    constDecls (σ file) path values type specs =
      (constDecls file path values type specs).map (ConstDecl.refile σ) := by
  induction specs generalizing values type with
  | nil => rfl
  | cons spec specs ih =>
    simp only [constDecls, ih, List.map_append]
    congr 1
    apply List.ext_getElem?
    intro i
    rw [List.getElem?_map, List.getElem?_mapIdx, List.getElem?_mapIdx, Option.map_map]
    rfl

theorem constsOf_refile (file : FileId) (path : String) (decls : List Go.Decl) :
    constsOf (σ file) path decls = (constsOf file path decls).map (ConstDecl.refile σ) := by
  unfold constsOf
  rw [List.map_flatMap]
  congr 1
  funext d
  cases d with
  | const specs => exact constDecls_refile σ file path [] none specs
  | type spec | func decl => rfl

namespace Refiles

variable {σ : Equiv.Perm FileId} {r r' : Registry} (h : Refiles σ r r')
include h

theorem collectFile (file : FileId) :
    Refiles σ (r.collectFile file) (r'.collectFile (σ file)) := by
  unfold Registry.collectFile
  rw [h.files]
  cases r.files[file]? with
  | none => exact h
  | some u =>
    have htypes : Refiles σ
        (((typeSpecs u.tree.decls).map (typeDecl file u)).foldl Registry.addType r)
        (((typeSpecs u.tree.decls).map (typeDecl (σ file) u)).foldl Registry.addType r') := by
      rw [List.foldl_map, List.foldl_map]
      exact foldl (fun entry _ _ hs => hs.addType (typeDecl file u entry)) _ h
    dsimp only
    generalize ((typeSpecs u.tree.decls).map (typeDecl file u)).foldl Registry.addType r = s at *
    generalize ((typeSpecs u.tree.decls).map (typeDecl (σ file) u)).foldl Registry.addType r' =
      s' at *
    rw [constsOf_refile, List.foldl_map]
    exact foldl (fun c _ _ hs => hs.addConst c) _ htypes

/-! ### The order of the paths -/

theorem pathOf (id : FileId) : r'.pathOf (σ id) = r.pathOf id := by
  rw [Registry.pathOf, h.files, Registry.pathOf]

theorem perm_range :
    ((List.range r.files.size).map σ).Perm (List.range r'.files.size) := by
  have hlt : ∀ id : FileId, σ id < r'.files.size ↔ id < r.files.size := by
    intro id
    rw [← not_iff_not, Nat.not_lt, Nat.not_lt, ← Array.getElem?_eq_none_iff, h.files,
      Array.getElem?_eq_none_iff]
  refine (List.perm_ext_iff_of_nodup (List.nodup_range.map σ.injective) List.nodup_range).2
    fun id => ?_
  rw [List.mem_map, List.mem_range]
  constructor
  · rintro ⟨id', hid', rfl⟩
    exact (hlt id').2 (List.mem_range.1 hid')
  · intro hid
    refine ⟨σ.symm id, List.mem_range.2 ((hlt _).1 ?_), σ.apply_symm_apply id⟩
    rwa [σ.apply_symm_apply]

end Refiles

/-- Files have different paths. -/
def Distinct (r : Registry) : Prop :=
  ∀ (i j : FileId) (u v : SourceUnit), r.files[i]? = some u → r.files[j]? = some v →
    Path.same u.path v.path = true → i = j

theorem pairwise_inPathOrder (r : Registry) (ids : List FileId) :
    (r.inPathOrder ids).Pairwise fun a b => Path.le (r.pathOf a) (r.pathOf b) = true := by
  unfold inPathOrder
  apply List.pairwise_mergeSort
  · intro a b c hab hbc
    exact Path.le_trans hab hbc
  · intro a b
    rw [Bool.or_eq_true]
    exact Path.le_total _ _

theorem Distinct.eq_of_le (h : r.Distinct) {i j : FileId} (hi : i < r.files.size)
    (hj : j < r.files.size) (hij : Path.le (r.pathOf i) (r.pathOf j) = true)
    (hji : Path.le (r.pathOf j) (r.pathOf i) = true) : i = j := by
  have hi' := Array.getElem?_eq_getElem hi
  have hj' := Array.getElem?_eq_getElem hj
  rw [pathOf, pathOf, hi', hj'] at hij hji
  exact h i j _ _ hi' hj' (beq_iff_eq.2 (Path.partsLe_antisymm hij hji))

namespace Refiles

variable {σ : Equiv.Perm FileId} {r r' : Registry} (h : Refiles σ r r')
include h

theorem distinct (hd : r.Distinct) : r'.Distinct := by
  intro i j u v hi hj hsame
  rw [← σ.apply_symm_apply i, h.files] at hi
  rw [← σ.apply_symm_apply j, h.files] at hj
  exact σ.symm.injective (hd _ _ u v hi hj hsame)

/-- **The order of the paths** is the same under other numbers. -/
theorem inPathOrder_range (hd : r.Distinct) :
    r'.inPathOrder (List.range r'.files.size) =
      (r.inPathOrder (List.range r.files.size)).map σ := by
  have hperm : (r'.inPathOrder (List.range r'.files.size)).Perm
      ((r.inPathOrder (List.range r.files.size)).map σ) :=
    (List.mergeSort_perm _ _).trans (h.perm_range.symm.trans ((List.mergeSort_perm _ _).map σ).symm)
  have hlt : ∀ id ∈ r'.inPathOrder (List.range r'.files.size), id < r'.files.size := fun id hid =>
    List.mem_range.1 (List.mem_mergeSort.1 hid)
  refine List.Perm.eq_of_pairwise ?_ (r'.pairwise_inPathOrder _) ?_ hperm
  · intro i j hi hj hij hji
    exact (h.distinct hd).eq_of_le (hlt i hi) (hlt j (hperm.mem_iff.2 hj)) hij hji
  · refine List.pairwise_map.2 ((r.pairwise_inPathOrder _).imp fun {a b} hab => ?_)
    rw [h.pathOf, h.pathOf]
    exact hab

theorem collectNew (hd : r.Distinct) (hnew : r.collected = 0) :
    Refiles σ r.collectNew r'.collectNew := by
  have hnew' : r'.collected = 0 := h.collected.trans hnew
  have hfold : Refiles σ ((r.inPathOrder (List.range r.files.size)).foldl Registry.collectFile r)
      ((r'.inPathOrder (List.range r'.files.size)).foldl Registry.collectFile r') := by
    rw [h.inPathOrder_range hd, List.foldl_map]
    exact foldl (fun file _ _ hs => hs.collectFile file) _ h
  unfold Registry.collectNew
  rw [hnew, hnew', List.drop_zero, List.drop_zero]
  exact ⟨hfold.count, hfold.files, h.count, hfold.packages, hfold.types, hfold.consts, hfold.unique,
    hfold.instances, hfold.goroot⟩

/-! ### Marks -/

theorem overlay :
    r' = Registry.overlay r' (fun _ d => d.refile σ) r := by
  have htypes : r.types.mapIdx (fun _ d => d.refile σ) = r'.types := by
    apply Array.ext_getElem?
    intro id
    rw [Array.getElem?_mapIdx, h.getElem?_types]
  rw [Registry.overlay, htypes, ← h.unique, ← h.instances]

theorem markUnique : Refiles σ r.markUnique r'.markUnique := by
  have hneutral : Neutral fun (_ : TypeId) (d : TypeDecl) => d.refile σ :=
    ⟨fun _ _ => rfl, fun _ _ => rfl, fun _ _ => rfl, fun _ _ _ => rfl⟩
  have hmarked : r'.markUnique = Registry.overlay r' (fun _ d => d.refile σ) r.markUnique := by
    rw [← markUnique_overlay hneutral, ← h.overlay]
  have hframe : ∀ {β : Type} (g : Registry → β), (∀ s : Registry, g s.blank = g s) →
      g r.markUnique = g r := fun g hg => markUnique_frame g hg r
  rw [hmarked]
  refine ⟨?_, fun id => ?_, ?_, ?_, ?_, ?_, rfl, rfl, ?_⟩
  · rw [hframe (·.files) fun _ => rfl]
    exact h.count
  · rw [hframe (·.files) fun _ => rfl]
    exact h.files id
  · rw [hframe (·.collected) fun _ => rfl]
    exact h.collected
  · rw [hframe (·.packages) fun _ => rfl]
    exact h.packages
  · apply Array.ext_getElem?
    intro id
    rw [Array.getElem?_map]
    exact Array.getElem?_mapIdx
  · rw [hframe (·.consts) fun _ => rfl]
    exact h.consts
  · rw [hframe (·.goroot) fun _ => rfl]
    exact h.goroot

/-! ### Constants -/

theorem settled : Settled σ r r' ∧ Settled σ.symm r' r := by
  have hfolded : ∀ id : ConstId,
      r'.consts[id]?.map ConstDecl.folded = r.consts[id]?.map ConstDecl.folded := by
    intro id
    rw [h.getElem?_consts, Option.map_map]
    rfl
  refine ⟨.of_folded (fun id => ?_) hfolded, .of_folded (fun id => ?_) fun id => (hfolded id).symm⟩
  · rw [h.getElem?_consts, Option.map_map]
    rfl
  · rw [h.getElem?_consts, Option.map_map]
    congr 1
    funext c
    simp [ConstDecl.refile]

theorem foldOne (id : ConstId) : r'.foldOne id = r.foldOne id :=
  foldOne_eq_of_mirrors h.mirrors h.settled.1 h.mirrors.symm h.settled.2 id

theorem listed : r'.listed = r.listed := by
  rw [Registry.listed, h.packages, Table.values_mapValues, List.flatMap_map]
  rfl

theorem settle (id : ConstId) (c : ConstDecl) :
    r'.settle id (c.refile σ) = (r.settle id c).refile σ := by
  have hfolded : (c.refile σ).folded = c.folded := rfl
  rw [Registry.settle, Registry.settle, h.listed, h.foldOne, hfolded]
  split
  · rfl
  · rfl

theorem withValues : Refiles σ r.withValues r'.withValues := by
  refine ⟨h.count, h.files, h.collected, h.packages, h.types, ?_, h.unique, h.instances, h.goroot⟩
  apply Array.ext_getElem?
  intro id
  rw [Array.getElem?_map, Registry.withValues, Registry.withValues, Array.getElem?_mapIdx,
    Array.getElem?_mapIdx, h.getElem?_consts, Option.map_map, Option.map_map]
  congr 1
  funext c
  exact h.settle id c

theorem enumMembers (type : TypeId) :
    r'.enumMembers type = r.enumMembers type := by
  have hmember : ∀ id, r'.enumMember? type id = r.enumMember? type id := by
    intro id
    rw [Registry.enumMember?, h.getElem?_consts, Registry.enumMember?]
    cases r.consts[id]? with
    | none | some c => rfl
  show r'.listed.filterMap (r'.enumMember? type) = r.listed.filterMap (r.enumMember? type)
  rw [h.listed, funext hmember]

theorem foldConstants : Refiles σ r.foldConstants r'.foldConstants := by
  have hvalues := h.withValues
  rw [foldConstants_eq, foldConstants_eq]
  refine ⟨hvalues.count, hvalues.files, hvalues.collected, hvalues.packages, ?_, hvalues.consts,
    hvalues.unique, hvalues.instances, hvalues.goroot⟩
  apply Array.ext_getElem?
  intro id
  rw [Array.getElem?_map, Array.getElem?_mapIdx, Array.getElem?_mapIdx, h.getElem?_types,
    Option.map_map, Option.map_map]
  congr 1
  funext d
  simp only [Function.comp_apply, hvalues.enumMembers]
  rfl

/-- **Collecting does not depend on the numbers of files**, if no file has been collected before and
no two files have the same path. -/
theorem parseTypes (hd : r.Distinct) (hnew : r.collected = 0) :
    Refiles σ r.parseTypes r'.parseTypes := by
  rw [parseTypes_eq, parseTypes_eq]
  exact (h.collectNew hd hnew).markUnique.foldConstants

end Refiles

end Registry

end GoApiDoc
