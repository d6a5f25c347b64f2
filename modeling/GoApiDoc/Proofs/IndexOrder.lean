/-
The order in which files are indexed.

A file gets its number when it is indexed.  Two files that are indexed one after the other may change
places: then they change their numbers, and nothing else differs.  Every order comes from every other
by such exchanges, so registries to which the same files have been added in different orders differ
in the numbers of the files only, and they still do after the declarations have been collected.

* `Registry.addFiles_order_irrelevant` — **the order in which files are added is irrelevant**.
-/

import GoApiDoc.Proofs.Refiling
import GoApiDoc.Proofs.Reparsing

set_option autoImplicit false

namespace GoApiDoc

variable {id : FileId} {r r' : Registry} {path : String}

/-! ### Tables and lists -/

theorem Table.get?_modify {α : Type} (k k' : String) (fresh : α) (f : α → α) (t : Table α) :
    (t.modify k fresh f).get? k' =
      if k' = k then some (f ((t.get? k).getD fresh)) else t.get? k' := by
  rw [modify, get?_insert]

theorem pairwise_mergeSort_le (l : List FileId) :
    (l.mergeSort fun a b => decide (a ≤ b)).Pairwise (· ≤ ·) := by
  refine (List.pairwise_mergeSort ?_ ?_ l).imp fun hab => of_decide_eq_true hab
  · intro a b c hab hbc
    exact decide_eq_true (Nat.le_trans (of_decide_eq_true hab) (of_decide_eq_true hbc))
  · intro a b
    simpa using Nat.le_total a b

theorem mergeSort_eq_of_perm {l l' : List FileId} (h : l.Perm l') (hl' : l'.Pairwise (· ≤ ·)) :
    l.mergeSort (fun a b => decide (a ≤ b)) = l' :=
  List.Perm.eq_of_pairwise (fun _ _ _ _ => Nat.le_antisymm) (pairwise_mergeSort_le l) hl'
    ((List.mergeSort_perm l _).trans h)

/-! ### Packages -/

namespace Package

/-- The package with one more file. -/
def withFile (id : FileId) (p : Package) : Package := { p with files := p.files ++ [id] }

theorem refile_of_perm {σ : FileId → FileId} {p : Package} {files : List FileId}
    (h : (p.files.map σ).Perm files) (hfiles : files.Pairwise (· ≤ ·)) :
    p.refile σ = { p with files := files } := by
  rw [refile, mergeSort_eq_of_perm h hfiles]

theorem refile_refile (σ τ : FileId → FileId) (p : Package) :
    (p.refile σ).refile τ = p.refile (τ ∘ σ) := by
  refine refile_of_perm ?_ (pairwise_mergeSort_le _)
  refine (((List.mergeSort_perm _ _).map τ).trans ?_).trans (List.mergeSort_perm _ _).symm
  rw [List.map_map]

/-- The files of the package have numbers below `n` and are listed in their order. -/
structure FilesBelow (n : FileId) (p : Package) : Prop where
  ascending : p.files.Pairwise (· ≤ ·)
  below : ∀ id ∈ p.files, id < n

namespace FilesBelow

variable {n : FileId} {p : Package}

theorem mono {m : FileId} (h : FilesBelow n p) (hnm : n ≤ m) : FilesBelow m p :=
  ⟨h.ascending, fun id hid => Nat.lt_of_lt_of_le (h.below id hid) hnm⟩

theorem withFile (h : FilesBelow n p) : FilesBelow (n + 1) (p.withFile n) where
  ascending := by
    refine List.pairwise_append.2 ⟨h.ascending, List.pairwise_singleton _ _, fun a ha b hb => ?_⟩
    rw [List.mem_singleton.1 hb]
    exact Nat.le_of_lt (h.below a ha)
  below id hid := by
    rcases List.mem_append.1 hid with hold | hlast
    · exact Nat.lt_succ_of_lt (h.below id hold)
    · rw [List.mem_singleton.1 hlast]
      exact Nat.lt_succ_self n

/-- Numbers that are not changed. -/
theorem map_eq {σ : FileId → FileId} (h : FilesBelow n p) (hσ : ∀ id < n, σ id = id) :
    p.files.map σ = p.files := by
  conv_rhs => rw [← List.map_id p.files]
  exact List.map_congr_left fun id hid => hσ id (h.below id hid)

theorem refile_eq {σ : FileId → FileId} (h : FilesBelow n p) (hσ : ∀ id < n, σ id = id) :
    p.refile σ = p := by
  refine refile_of_perm ?_ h.ascending
  rw [h.map_eq hσ]

theorem refile_withFile {σ : FileId → FileId} (h : FilesBelow n p) (hn : σ n = n)
    (hσ : ∀ id < n, σ id < n) : (p.withFile n).refile σ = (p.refile σ).withFile n := by
  have hbelow : FilesBelow n (p.refile σ) := by
    refine ⟨pairwise_mergeSort_le _, fun id hid => ?_⟩
    obtain ⟨id', hid', rfl⟩ := List.mem_map.1 (List.mem_mergeSort.1 hid)
    exact hσ id' (h.below id' hid')
  refine refile_of_perm ?_ hbelow.withFile.ascending
  have hmap : (p.withFile n).files.map σ = p.files.map σ ++ [n] := by
    rw [Package.withFile, List.map_append, List.map_singleton, hn]
  rw [hmap]
  exact (List.mergeSort_perm _ _).symm.append_right [n]

/-! The next two files change places. -/

theorem swap_eq (h : id < n) : Equiv.swap n (n + 1) id = id :=
  Equiv.swap_apply_of_ne_of_ne (Nat.ne_of_lt h) (Nat.ne_of_lt (Nat.lt_succ_of_lt h))

theorem refile_swap_first (h : FilesBelow n p) :
    (p.withFile n).refile (Equiv.swap n (n + 1)) = p.withFile (n + 1) := by
  refine refile_of_perm ?_ (h.mono (Nat.le_succ n)).withFile.ascending
  rw [Package.withFile, List.map_append, h.map_eq fun _ => swap_eq, List.map_singleton,
    Equiv.swap_apply_left]

theorem refile_swap_second (h : FilesBelow n p) :
    (p.withFile (n + 1)).refile (Equiv.swap n (n + 1)) = p.withFile n := by
  refine refile_of_perm ?_ h.withFile.ascending
  rw [Package.withFile, List.map_append, h.map_eq fun _ => swap_eq, List.map_singleton,
    Equiv.swap_apply_right]

theorem refile_swap_both (h : FilesBelow n p) :
    ((p.withFile n).withFile (n + 1)).refile (Equiv.swap n (n + 1)) =
      (p.withFile n).withFile (n + 1) := by
  have hmap : ((p.withFile n).withFile (n + 1)).files.map (Equiv.swap n (n + 1)) =
      p.files ++ [n + 1, n] := by
    simp [Package.withFile, h.map_eq fun _ => swap_eq]
  have hfiles : ((p.withFile n).withFile (n + 1)).files = p.files ++ [n, n + 1] := by
    simp [Package.withFile]
  refine refile_of_perm ?_ h.withFile.withFile.ascending
  change (((p.withFile n).withFile (n + 1)).files.map (Equiv.swap n (n + 1))).Perm
    ((p.withFile n).withFile (n + 1)).files
  rw [hmap, hfiles]
  exact (List.Perm.swap n (n + 1) []).append_left p.files

end FilesBelow

end Package

open Package (FilesBelow)

/-- The package of a file whose package is not known. -/
def SourceUnit.newPackage (u : SourceUnit) : Package := ⟨u.packagePath, u.packageName, [], [], [], []⟩

namespace Registry

/-! ### Indexing -/

theorem fileId?_eq_none :
    r.fileId? path = none ↔ ∀ (id : FileId) (u : SourceUnit), r.files[id]? = some u →
      Path.same u.path path = false := by
  rw [fileId?, Array.findIdx?_eq_none_iff]
  constructor
  · intro h id u hu
    exact h u (Array.mem_of_getElem? hu)
  · intro h u hu
    obtain ⟨id, hid⟩ := Array.getElem?_of_mem hu
    exact h id u hid

theorem exists_of_fileId? (h : r.fileId? path = some id) :
    ∃ u, r.files[id]? = some u ∧ Path.same u.path path = true := by
  obtain ⟨hlt, hsame, -⟩ := Array.findIdx?_eq_some_iff_getElem.1 h
  exact ⟨_, Array.getElem?_eq_getElem hlt, hsame⟩

/-- A file with a new path gets the next number. -/
theorem index_of_new {u : SourceUnit} (h : r.fileId? u.path = none) :
    (r.index u).2 = { r with
      files := r.files.push u
      packages := r.packages.modify u.packagePath u.newPackage
        (Package.withFile r.files.size) } := by
  rw [index, h]
  rfl

theorem index_of_known {u : SourceUnit} (h : r.fileId? u.path = some id) : (r.index u).2 = r := by
  rw [index, h]

/-- A path is new after a file has been indexed if it was new and is not that of the file. -/
theorem fileId?_index_eq_none {u : SourceUnit} : (r.index u).2.fileId? path = none ↔
      r.fileId? path = none ∧ Path.same u.path path = false := by
  cases hu : r.fileId? u.path with
  | some id =>
    rw [index_of_known hu]
    refine ⟨fun h => ⟨h, ?_⟩, And.left⟩
    obtain ⟨w, hw, hsame⟩ := exists_of_fileId? hu
    by_contra hpath
    have hpath' := Path.same_iff.1 (Bool.eq_true_of_not_eq_false hpath)
    have hsame' := Path.same_iff.2 ((Path.same_iff.1 hsame).trans hpath')
    cases (fileId?_eq_none.1 h id w hw).symm.trans hsame'
  | none =>
    rw [index_of_new hu, fileId?_eq_none, fileId?_eq_none]
    simp only [Array.getElem?_push]
    constructor
    · intro h
      refine ⟨fun id w hw => h id w ?_, h r.files.size u (if_pos rfl)⟩
      rw [if_neg, hw]
      rintro rfl
      simp at hw
    · rintro ⟨hold, hnew⟩ id w hw
      split_ifs at hw
      · cases hw
        exact hnew
      · exact hold id w hw

theorem Distinct.index (h : r.Distinct) (u : SourceUnit) : (r.index u).2.Distinct := by
  cases hnew : r.fileId? u.path with
  | some id => rwa [index_of_known hnew]
  | none =>
    rw [index_of_new hnew]
    rw [fileId?_eq_none] at hnew
    intro i j v w hv hw hsame
    simp only [Array.getElem?_push] at hv hw
    have hsymm := Path.same_iff.2 (Path.same_iff.1 hsame).symm
    split_ifs at hv hw with hi hj hj
    · rw [hi, hj]
    · cases hv
      cases (hnew j w hw).symm.trans hsymm
    · cases hw
      cases (hnew i v hv).symm.trans hsame
    · exact h i j v w hv hw hsame

/-- Files have been indexed, and nothing has been collected. -/
structure Indexed (r : Registry) : Prop where
  sorted : r.packages.Sorted
  packages : ∀ path p, r.packages.get? path = some p → FilesBelow r.files.size p
  types : r.types = #[]
  consts : r.consts = #[]
  collected : r.collected = 0

theorem indexed_empty (goroot : Option String) : Indexed { goroot := goroot } where
  sorted := List.Pairwise.nil
  packages _ _ h := by cases h
  types := rfl
  consts := rfl
  collected := rfl

/-- The package to which a file is added. -/
theorem Indexed.packageOf (h : Indexed r) (u : SourceUnit) :
    FilesBelow r.files.size ((r.packages.get? u.packagePath).getD u.newPackage) := by
  cases hp : r.packages.get? u.packagePath with
  | none => exact ⟨List.Pairwise.nil, fun id hid => by cases hid⟩
  | some p => exact h.packages _ p hp

theorem Indexed.index (h : Indexed r) (u : SourceUnit) : Indexed (r.index u).2 := by
  cases hnew : r.fileId? u.path with
  | some id => rwa [index_of_known hnew]
  | none =>
    rw [index_of_new hnew]
    refine ⟨Table.sorted_insert h.sorted, fun path p hp => ?_, h.types, h.consts, h.collected⟩
    rw [Array.size_push]
    rw [Table.get?_modify] at hp
    split_ifs at hp with hpath
    · cases hp
      exact (h.packageOf u).withFile
    · exact (h.packages path p hp).mono (Nat.le_succ _)

/-! ### Other orders -/

namespace Refiles

variable {σ τ : Equiv.Perm FileId} {r r' r'' : Registry}

theorem trans (h : Refiles σ r r') (h' : Refiles τ r' r'') : Refiles (σ.trans τ) r r'' where
  count := h'.count.trans h.count
  files id := (h'.files (σ id)).trans (h.files id)
  collected := h'.collected.trans h.collected
  packages := by
    rw [h'.packages, h.packages]
    simp [Table.mapValues, Package.refile_refile]
  types := by
    rw [h'.types, h.types, Array.map_map]
    rfl
  consts := by
    rw [h'.consts, h.consts, Array.map_map]
    rfl
  unique := h'.unique.trans h.unique
  instances := h'.instances.trans h.instances
  goroot := h'.goroot.trans h.goroot

theorem fileId?_eq_none_iff (h : Refiles σ r r') (path : String) :
    r'.fileId? path = none ↔ r.fileId? path = none := by
  rw [fileId?_eq_none, fileId?_eq_none]
  constructor
  · intro hnew id u hu
    exact hnew (σ id) u ((h.files id).trans hu)
  · intro hnew id u hu
    rw [← σ.apply_symm_apply id, h.files] at hu
    exact hnew (σ.symm id) u hu

/-- **A path is that of the file with the other number.** -/
theorem fileId? (h : Refiles σ r r') (hd : r.Distinct) (path : String) :
    r'.fileId? path = (r.fileId? path).map σ := by
  cases hid : r.fileId? path with
  | none => exact (h.fileId?_eq_none_iff path).2 hid
  | some id =>
    cases hid' : r'.fileId? path with
    | none => cases hid.symm.trans ((h.fileId?_eq_none_iff path).1 hid')
    | some id' =>
      obtain ⟨u, hu, hsame⟩ := exists_of_fileId? hid
      obtain ⟨u', hu', hsame'⟩ := exists_of_fileId? hid'
      have hboth : Path.same u'.path u.path = true :=
        Path.same_iff.2 ((Path.same_iff.1 hsame').trans (Path.same_iff.1 hsame).symm)
      rw [h.distinct hd id' (σ id) u' u hu' ((h.files id).trans hu) hboth]
      rfl

end Refiles

/-- The second registry is the first with other numbers of its files; files that come later get the
same numbers in both. -/
def Reorders (r r' : Registry) : Prop :=
  ∃ σ : Equiv.Perm FileId, Refiles σ r r' ∧ ∀ id, r.files.size ≤ id → σ id = id

theorem Reorders.trans {r'' : Registry} (h : Reorders r r') (h' : Reorders r' r'') :
    Reorders r r'' := by
  obtain ⟨σ, hσ, hlater⟩ := h
  obtain ⟨τ, hτ, hlater'⟩ := h'
  refine ⟨σ.trans τ, hσ.trans hτ, fun id hid => ?_⟩
  have hid' : r'.files.size ≤ id := hσ.count.trans_le hid
  rw [Equiv.trans_apply, hlater id hid, hlater' id hid']

/-- Packages are the same if each of them is. -/
theorem Indexed.packages_eq (h : Indexed r) {σ : FileId → FileId} {t : Table Package}
    (ht : t.Sorted) (heq : ∀ path, t.get? path = (r.packages.get? path).map (Package.refile σ)) :
    t = r.packages.mapValues (Package.refile σ) := by
  refine Table.eq_of_get?_iff ht (Table.sorted_mapValues _ h.sorted) fun path p => ?_
  rw [heq, Table.get?_mapValues]

theorem Indexed.reorders_refl (h : Indexed r) : Reorders r r := by
  refine ⟨Equiv.refl FileId, ⟨rfl, fun _ => rfl, rfl, ?_, ?_, ?_, rfl, rfl, rfl⟩, fun _ _ => rfl⟩
  · refine h.packages_eq h.sorted fun path => ?_
    cases hp : r.packages.get? path with
    | none => rfl
    | some p => exact congrArg some ((h.packages path p hp).refile_eq fun _ _ => rfl).symm
  · rw [h.types, Array.map_empty]
  · rw [h.consts, Array.map_empty]

theorem Reorders.index (h : Reorders r r') (hr : Indexed r) (u : SourceUnit) :
    Reorders (r.index u).2 (r'.index u).2 := by
  obtain ⟨σ, hσ, hlater⟩ := h
  cases hnew : r.fileId? u.path with
  | some id =>
    cases hknown : r'.fileId? u.path with
    | none => cases hnew.symm.trans ((hσ.fileId?_eq_none_iff u.path).1 hknown)
    | some id' =>
      rw [index_of_known hnew, index_of_known hknown]
      exact ⟨σ, hσ, hlater⟩
  | none =>
    have hlast : σ r.files.size = r.files.size := hlater _ (Nat.le_refl _)
    -- an earlier number cannot become a later one, which only stands for itself
    have hearlier : ∀ id < r.files.size, σ id < r.files.size := by
      intro id hid
      by_contra hge
      have hfix := σ.injective (hlater (σ id) (Nat.le_of_not_lt hge))
      rw [hfix] at hge
      exact hge hid
    rw [index_of_new hnew, index_of_new ((hσ.fileId?_eq_none_iff u.path).2 hnew), hσ.count]
    refine ⟨σ, ⟨?_, fun id => ?_, hσ.collected, ?_, hσ.types, hσ.consts, hσ.unique, hσ.instances,
      hσ.goroot⟩, fun id hid => hlater id ?_⟩
    · rw [Array.size_push, Array.size_push, hσ.count]
    · have hiff : σ id = r.files.size ↔ id = r.files.size := by
        rw [← hlast, σ.injective.eq_iff, hlast]
      simp only [Array.getElem?_push, hσ.count, hiff, hσ.files]
    · have hfresh : u.newPackage.refile σ = u.newPackage := by
        simp [Package.refile, SourceUnit.newPackage]
      dsimp only
      rw [hσ.packages, Table.mapValues_modify
        ((hr.packageOf u).refile_withFile hlast hearlier), hfresh]
    · rw [Array.size_push] at hid
      exact Nat.le_of_succ_le hid

theorem index_index_of_known {u : SourceUnit} (h : r.fileId? u.path = some id) (v : SourceUnit) :
    ((r.index v).2.index u).2 = (r.index v).2 := by
  cases hknown : (r.index v).2.fileId? u.path with
  | some id' => exact index_of_known hknown
  | none => cases h.symm.trans (fileId?_index_eq_none.1 hknown).1

theorem index_index_of_new {u v : SourceUnit} (hu : r.fileId? u.path = none)
    (hv : r.fileId? v.path = none) (hpath : Path.same u.path v.path = false) :
    ((r.index u).2.index v).2 = { r with
      files := (r.files.push u).push v
      packages := (r.packages.modify u.packagePath u.newPackage
        (Package.withFile r.files.size)).modify v.packagePath v.newPackage
          (Package.withFile (r.files.size + 1)) } := by
  rw [index_of_new (fileId?_index_eq_none.2 ⟨hv, hpath⟩), index_of_new hu]
  simp only [Array.size_push]

/-- Files that may change places: they have different paths, and one name of their package. -/
def Compatible (u v : SourceUnit) : Prop :=
  Path.same u.path v.path = false ∧ (u.packagePath = v.packagePath → u.packageName = v.packageName)

theorem Compatible.symm {u v : SourceUnit} (h : Compatible u v) : Compatible v u := by
  refine ⟨?_, fun hpath => (h.2 hpath.symm).symm⟩
  rw [← Bool.not_eq_true, Path.same_iff, eq_comm, ← Path.same_iff, Bool.not_eq_true]
  exact h.1

theorem getElem?_push_push_swap (files : Array SourceUnit) (u v : SourceUnit) (id : FileId) :
    ((files.push v).push u)[Equiv.swap files.size (files.size + 1) id]? =
      ((files.push u).push v)[id]? := by
  simp only [Array.getElem?_push, Array.size_push]
  by_cases hfirst : id = files.size
  · rw [hfirst, Equiv.swap_apply_left]
    simp
  by_cases hsecond : id = files.size + 1
  · rw [hsecond, Equiv.swap_apply_right]
    simp
  · rw [Equiv.swap_apply_of_ne_of_ne hfirst hsecond]
    simp only [hfirst, hsecond, if_false]

theorem Indexed.packages_swap (hr : Indexed r) {u v : SourceUnit}
    (h : u.packagePath = v.packagePath → u.packageName = v.packageName) (path : String) :
    ((r.packages.modify v.packagePath v.newPackage (Package.withFile r.files.size)).modify
        u.packagePath u.newPackage (Package.withFile (r.files.size + 1))).get? path =
      (((r.packages.modify u.packagePath u.newPackage (Package.withFile r.files.size)).modify
        v.packagePath v.newPackage (Package.withFile (r.files.size + 1))).get? path).map
        (Package.refile (Equiv.swap r.files.size (r.files.size + 1))) := by
  have hu := hr.packageOf u
  have hv := hr.packageOf v
  simp only [Table.get?_modify]
  by_cases hboth : u.packagePath = v.packagePath
  · -- one package gets both files
    have hnew : u.newPackage = v.newPackage := by
      rw [SourceUnit.newPackage, hboth, h hboth, SourceUnit.newPackage]
    simp only [hboth, hnew, if_true] at hu ⊢
    split_ifs with hpath
    · exact congrArg some hv.refile_swap_both.symm
    cases hp : r.packages.get? path with
    | none => rfl
    | some p =>
      have heq := (hr.packages path p hp).refile_eq fun _ => FilesBelow.swap_eq
      exact congrArg some heq.symm
  · -- each of two packages gets one file
    simp only [if_neg hboth, if_neg (Ne.symm hboth)]
    split_ifs with hpu hpv hpv
    · exact absurd (hpu.symm.trans hpv) hboth
    · exact congrArg some hu.refile_swap_first.symm
    · exact congrArg some hv.refile_swap_second.symm
    · cases hp : r.packages.get? path with
      | none => rfl
      | some p =>
        have heq := (hr.packages path p hp).refile_eq fun _ => FilesBelow.swap_eq
        exact congrArg some heq.symm

/-- Two new files get the next two numbers, in one order or the other. -/
theorem reorders_swap_of_new (hr : Indexed r) {u v : SourceUnit} (h : Compatible u v)
    (hu : r.fileId? u.path = none) (hv : r.fileId? v.path = none) :
    Reorders ((r.index u).2.index v).2 ((r.index v).2.index u).2 := by
  have hindexed := (hr.index u).index v
  rw [index_index_of_new hu hv h.1] at hindexed ⊢
  rw [index_index_of_new hv hu h.symm.1]
  refine ⟨Equiv.swap r.files.size (r.files.size + 1), ⟨?_, ?_, rfl, ?_, ?_, ?_, rfl, rfl, rfl⟩,
    fun id hid => ?_⟩
  · simp only [Array.size_push]
  · exact getElem?_push_push_swap r.files u v
  · refine hindexed.packages_eq ?_ (hr.packages_swap h.2)
    exact Table.sorted_insert (Table.sorted_insert hr.sorted)
  -- no type and no constant has a number of a file yet
  · rw [hr.types, Array.map_empty]
  · rw [hr.consts, Array.map_empty]
  · simp only [Array.size_push] at hid
    exact Equiv.swap_apply_of_ne_of_ne (Nat.ne_of_gt (Nat.lt_of_succ_lt hid)) (Nat.ne_of_gt hid)

/-- **Two files may change places.** -/
theorem reorders_swap (hr : Indexed r) {u v : SourceUnit} (h : Compatible u v) :
    Reorders ((r.index u).2.index v).2 ((r.index v).2.index u).2 := by
  cases hu : r.fileId? u.path with
  | some id =>
    rw [index_of_known hu, index_index_of_known hu v]
    exact (hr.index v).reorders_refl
  | none =>
    cases hv : r.fileId? v.path with
    | some id =>
      rw [index_of_known hv, index_index_of_known hv u]
      exact (hr.index u).reorders_refl
    | none => exact reorders_swap_of_new hr h hu hv

/-- All files, one after the other. -/
def indexAll (r : Registry) (us : List SourceUnit) : Registry :=
  us.foldl (fun r u => (r.index u).2) r

theorem Indexed.indexAll (h : Indexed r) (us : List SourceUnit) : Indexed (r.indexAll us) :=
  List.foldlRecOn us _ h fun _ hs u _ => hs.index u

theorem Distinct.indexAll (h : Distinct r) (us : List SourceUnit) : Distinct (r.indexAll us) :=
  List.foldlRecOn us _ h fun _ hs u _ => hs.index u

theorem Distinct.parseTypes (h : Distinct r) : Distinct r.parseTypes := by
  have hfiles : r.parseTypes.files = r.files := by
    rw [parseTypes_frame (·.files) (fun _ => rfl) fun s => by rw [foldConstants_eq]; rfl]
    exact files_collectNew r
  unfold Distinct
  rw [hfiles]
  exact h

theorem Reorders.indexAll (h : Reorders r r') (hr : Indexed r) (us : List SourceUnit) :
    Reorders (r.indexAll us) (r'.indexAll us) := by
  induction us generalizing r r' with
  | nil => exact h
  | cons u us ih => exact ih (h.index hr u) (hr.index u)

/-- **All files in two orders**: every exchange of neighbours gives other numbers only. -/
theorem reorders_indexAll {us us' : List SourceUnit} (h : us.Perm us')
    (hus : us.Pairwise Compatible) (hr : Indexed r) :
    Reorders (r.indexAll us) (r.indexAll us') := by
  induction h generalizing r with
  | nil => exact hr.reorders_refl
  | cons u _ ih => exact ih hus.of_cons (hr.index u)
  | swap u v us =>
    have hcompatible := List.rel_of_pairwise_cons hus (.head _)
    exact (reorders_swap hr hcompatible).indexAll ((hr.index v).index u) us
  | trans hfirst _ ihfirst ihsecond =>
    have hmiddle := (hfirst.pairwise_iff fun {u v} => Compatible.symm).1 hus
    exact (ihfirst hus hr).trans (ihsecond hmiddle hr)

end Registry

/-! ### Adding texts -/

/-- A file to be read. -/
structure SourceText where
  /-- The import path of its package. -/
  packagePath : String
  path : String
  role : Role
  text : String

/-- What is read from a text. -/
def SourceText.unit? (s : SourceText) : Option SourceUnit :=
  (SourceUnit.ofText s.path s.packagePath s.role s.text).toOption

theorem SourceText.paths_of_unit? {s : SourceText} {u : SourceUnit} (h : s.unit? = some u) :
    u.path = s.path ∧ u.packagePath = s.packagePath := by
  unfold unit? SourceUnit.ofText at h
  split at h
  · cases h
    exact ⟨rfl, rfl⟩
  · cases h

namespace Registry

/-- Reads files and adds them, one after the other. -/
def addFiles (r : Registry) (sources : List SourceText) : Except DocError Registry :=
  sources.foldlM (fun r s => do return (← r.addFile s.packagePath s.path s.role s.text).2) r

theorem addFile_of_unit? {s : SourceText} {u : SourceUnit} (h : s.unit? = some u) (r : Registry) :
    r.addFile s.packagePath s.path s.role s.text = .ok (r.index u) := by
  unfold SourceText.unit? SourceUnit.ofText at h
  unfold addFile SourceUnit.ofText index
  cases htree : Go.fileOfText s.text with
  | error e =>
    rw [htree] at h
    cases h
  | ok tree =>
    rw [htree] at h
    cases h
    dsimp only
    cases r.fileId? s.path with
    | none | some id => rfl

theorem addFiles_of_unit? {sources : List SourceText} (h : ∀ s ∈ sources, s.unit?.isSome)
    (r : Registry) :
    r.addFiles sources = .ok (r.indexAll (sources.filterMap SourceText.unit?)) := by
  induction sources generalizing r with
  | nil => rfl
  | cons s sources ih =>
    obtain ⟨u, hu⟩ := Option.isSome_iff_exists.1 (h s (.head _))
    have hrest := ih (fun t ht => h t (.tail _ ht)) (r.index u).2
    rw [List.filterMap_cons_some hu, addFiles, List.foldlM_cons, addFile_of_unit? hu]
    exact hrest

/-- Texts with different paths and one name for each package are read as files that may change
places. -/
theorem pairwise_compatible {sources : List SourceText}
    (hpaths : sources.Pairwise fun s t => Path.same s.path t.path = false)
    (hclauses : ∀ s ∈ sources, ∀ t ∈ sources, s.packagePath = t.packagePath →
      s.unit?.map (·.packageName) = t.unit?.map (·.packageName)) :
    (sources.filterMap SourceText.unit?).Pairwise Compatible := by
  refine List.pairwise_filterMap.2 (hpaths.imp_of_mem fun {s t} hs ht hpath u hu v hv => ?_)
  obtain ⟨hupath, hupackage⟩ := SourceText.paths_of_unit? hu
  obtain ⟨hvpath, hvpackage⟩ := SourceText.paths_of_unit? hv
  refine ⟨by rw [hupath, hvpath, hpath], fun hpackage => ?_⟩
  have hname := hclauses s hs t ht (hupackage.symm.trans (hpackage.trans hvpackage))
  rw [hu, hv] at hname
  exact Option.some.inj hname

/-- **The order in which files are added is irrelevant.**  Files that can be read have different
paths, and files of one package have the same name of the package in their clauses.  Then the
registries with all declarations, made in any two orders, differ only in the numbers of the files:
types and constants have the same numbers and the same data, packages the same contents, a path is
that of the file with the other number, and a name or qualifier stands there for the same type or
package. -/
theorem addFiles_order_irrelevant {sources sources' : List SourceText} (goroot : Option String)
    (h : sources.Perm sources') (hread : ∀ s ∈ sources, s.unit?.isSome)
    (hpaths : sources.Pairwise fun s t => Path.same s.path t.path = false)
    (hclauses : ∀ s ∈ sources, ∀ t ∈ sources, s.packagePath = t.packagePath →
      s.unit?.map (·.packageName) = t.unit?.map (·.packageName)) :
    ∃ (r r' : Registry) (σ : Equiv.Perm FileId),
      Registry.addFiles { goroot := goroot } sources = .ok r ∧
      Registry.addFiles { goroot := goroot } sources' = .ok r' ∧
      Refiles σ r.parseTypes r'.parseTypes ∧
      (∀ path, r'.parseTypes.fileId? path = (r.parseTypes.fileId? path).map σ) ∧
      (∀ name file, r'.parseTypes.lookupType? name (σ file) = r.parseTypes.lookupType? name file) ∧
      ∀ qualifier file,
        r'.parseTypes.packageOf? qualifier (σ file) = r.parseTypes.packageOf? qualifier file := by
  have hread' : ∀ s ∈ sources', s.unit?.isSome := fun s hs => hread s (h.mem_iff.2 hs)
  have hempty : Indexed { goroot := goroot } := indexed_empty goroot
  have hdistinct : Distinct { goroot := goroot } := by
    intro i j u v hu
    cases hu
  obtain ⟨σ, hσ, -⟩ := reorders_indexAll (h.filterMap SourceText.unit?)
    (pairwise_compatible hpaths hclauses) hempty
  have hparsed := hσ.parseTypes (hdistinct.indexAll _) (hempty.indexAll _).collected
  refine ⟨_, _, σ, addFiles_of_unit? hread _, addFiles_of_unit? hread' _, hparsed, fun path => ?_,
    fun name file => hparsed.mirrors.lookupType? name file,
    fun qualifier file => hparsed.mirrors.packageOf? qualifier file⟩
  exact hparsed.fileId? (hdistinct.indexAll _).parseTypes path

/-- Three files of two packages that have one name. -/
def depot : List SourceText :=
  [⟨"example.com/shop/item", "/shop/item/size.go", .models,
      "package item\n\ntype Size int\n\nconst (\n\tSmall Size = iota + 1\n\tLarge\n)\n"⟩,
    ⟨"example.com/shop/item", "/shop/item/shelf.go", .models,
      "package item\n\ntype Shelf struct \x7b\n\tSize Size\n\x7d\n"⟩,
    ⟨"example.com/depot/item", "/depot/shelf.go", .models,
      "package item\n\ntype Shelf struct \x7b\n\tRoom int\n\x7d\n"⟩]

theorem addFiles_order_irrelevant_depot :
    (depot.Perm depot.reverse ∧ (∀ s ∈ depot, s.unit?.isSome) ∧
      (depot.Pairwise fun s t => Path.same s.path t.path = false) ∧
      ∀ s ∈ depot, ∀ t ∈ depot, s.packagePath = t.packagePath →
        s.unit?.map (·.packageName) = t.unit?.map (·.packageName)) ∧
    ∃ (r r' : Registry) (σ : Equiv.Perm FileId),
      Registry.addFiles {} depot = .ok r ∧ Registry.addFiles {} depot.reverse = .ok r' ∧
      Refiles σ r.parseTypes r'.parseTypes ∧
      (∀ path, r'.parseTypes.fileId? path = (r.parseTypes.fileId? path).map σ) ∧
      (∀ name file, r'.parseTypes.lookupType? name (σ file) = r.parseTypes.lookupType? name file) ∧
      ∀ qualifier file,
        r'.parseTypes.packageOf? qualifier (σ file) = r.parseTypes.packageOf? qualifier file := by
  have hread : ∀ s ∈ depot, s.unit?.isSome := by decide +kernel
  have hpaths : depot.Pairwise fun s t => Path.same s.path t.path = false := by decide +kernel
  have hclauses : ∀ s ∈ depot, ∀ t ∈ depot, s.packagePath = t.packagePath →
      s.unit?.map (·.packageName) = t.unit?.map (·.packageName) := by decide +kernel
  have hperm := depot.reverse_perm.symm
  exact ⟨⟨hperm, hread, hpaths, hclauses⟩,
    addFiles_order_irrelevant none hperm hread hpaths hclauses⟩

end Registry

end GoApiDoc
