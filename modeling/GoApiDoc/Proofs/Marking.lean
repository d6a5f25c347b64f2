/-
Short names found again.

Finding the ambiguous short names reads the names and the packages of the types and nothing else.  It
starts from types without marks, so marks of an earlier run do not matter, and a second run finds
what the first one found.

* `Registry.markUnique_overlay` — **marks and short names are found as before such a change**;
* `Registry.markUnique_markUnique` — **a second run changes nothing**.
-/

import Mathlib
import GoApiDoc.Proofs.WellIndexed

set_option autoImplicit false

namespace GoApiDoc.Registry

open Go (TypeId)

variable {id : TypeId} {d : TypeDecl} {r' : Registry}

/-! ### Changes that names do not see -/

/-- A change of each type, given its number, that touches neither names nor marks. -/
structure Neutral (f : TypeId → TypeDecl → TypeDecl) : Prop where
  instanceName : ∀ id d, (f id d).instanceName = d.instanceName
  packagePath : ∀ id d, (f id d).packagePath = d.packagePath
  shortName : ∀ id d, (f id d).shortName = d.shortName
  mark : ∀ id d b, f id { d with notUnique := b } = { f id d with notUnique := b }

/-- A registry with the types, changed in this way, and the names of another. -/
def overlay (base : Registry) (f : TypeId → TypeDecl → TypeDecl) (r : Registry) : Registry :=
  { base with types := r.types.mapIdx f, unique := r.unique, instances := r.instances }

variable {f : TypeId → TypeDecl → TypeDecl} {base r : Registry}

theorem unmarked_mapIdx (hf : Neutral f) (types : Array TypeDecl) :
    unmarked (types.mapIdx f) = (unmarked types).mapIdx f := by
  apply Array.ext_getElem?
  intro id
  simp only [unmarked, Array.getElem?_map, Array.getElem?_mapIdx, Option.map_map]
  congr 1
  funext d
  have hinst : (f id d).instanceName.isSome = d.instanceName.isSome := by rw [hf.instanceName]
  simp only [Function.comp_apply]
  rw [hinst]
  split
  · rfl
  · exact (hf.mark id d false).symm

theorem zipIdx_mapIdx {α : Type} (g : Nat → α → α) (l : List α) :
    (l.mapIdx g).zipIdx = l.zipIdx.map fun e => (g e.2 e.1, e.2) := by
  apply List.ext_getElem?
  intro i
  simp only [List.getElem?_zipIdx, List.getElem?_mapIdx, List.getElem?_map, Option.map_map,
    Nat.zero_add]
  rfl

theorem byShortName_mapIdx (hf : Neutral f) (types : Array TypeDecl) :
    byShortName (types.mapIdx f) = byShortName types := by
  unfold byShortName
  rw [Array.toList_mapIdx, zipIdx_mapIdx, List.filter_map, List.foldl_map]
  simp only [Function.comp_def, hf.instanceName, hf.shortName]

theorem collide_mapIdx (hf : Neutral f) (types : Array TypeDecl) (ids : List TypeId) :
    collide (types.mapIdx f) ids = collide types ids := by
  have hpath : ∀ id : TypeId, ((types.mapIdx f)[id]?.map fun d => d.packagePath) =
      types[id]?.map fun d => d.packagePath := by
    intro id
    rw [Array.getElem?_mapIdx, Option.map_map]
    congr 1
    funext d
    exact hf.packagePath id d
  simp only [collide, hpath]

theorem mapIdx_setIfInBounds (types : Array TypeDecl) (id : TypeId) (d : TypeDecl) :
    (types.mapIdx f).setIfInBounds id (f id d) = (types.setIfInBounds id d).mapIdx f := by
  apply Array.ext_getElem?
  intro i
  simp only [Array.getElem?_setIfInBounds, Array.getElem?_mapIdx, Array.size_mapIdx]
  split
  · next heq =>
    subst heq
    split
    · rfl
    · rfl
  · rfl

theorem qualify_overlay (hf : Neutral f) (r : Registry) (id : TypeId) :
    (overlay base f r).qualify id = overlay base f (r.qualify id) := by
  have hget : (overlay base f r).types[id]? = r.types[id]?.map (f id) := Array.getElem?_mapIdx
  unfold qualify
  cases hd : r.types[id]? with
  | none => rw [hget, hd]; rfl
  | some d =>
    rw [hget, hd]
    simp only [Option.map_some]
    rw [← hf.mark, hf.shortName]
    simp only [overlay, mapIdx_setIfInBounds]
    rfl

theorem enterName_overlay (hf : Neutral f) (r : Registry) (entry : String × List TypeId) :
    (overlay base f r).enterName entry = overlay base f (r.enterName entry) := by
  unfold enterName
  have hcollide : collide (overlay base f r).types entry.2 = collide r.types entry.2 :=
    collide_mapIdx hf r.types entry.2
  rw [hcollide]
  split
  · show entry.2.foldl qualify (overlay base f { r with unique := r.unique.insert entry.1 none }) = _
    exact List.foldl_hom (overlay base f) fun r id => qualify_overlay hf r id
  · rfl

/-- The registry without marks and short names. -/
def blank (r : Registry) : Registry := { r with types := unmarked r.types, unique := [] }

/-- Marks and short names, found from a registry without any. -/
def markFrom (r : Registry) : Registry :=
  let r := (byShortName r.types).foldl enterName r
  { r with unique := r.unique.extend (r.instances.mapValues some) }

theorem markUnique_eq (r : Registry) : r.markUnique = r.blank.markFrom := rfl

theorem blank_overlay (hf : Neutral f) (r : Registry) :
    (overlay base f r).blank = overlay base f r.blank := by
  simp only [blank, overlay, unmarked_mapIdx hf]

/-- **Marks and short names are found as before a change** that touches neither names nor marks. -/
theorem markUnique_overlay (hf : Neutral f) (r : Registry) :
    (overlay base f r).markUnique = overlay base f r.markUnique := by
  have hfold : (byShortName (overlay base f r.blank).types).foldl enterName
        (overlay base f r.blank) =
      overlay base f ((byShortName r.blank.types).foldl enterName r.blank) := by
    rw [show (overlay base f r.blank).types = r.blank.types.mapIdx f from rfl,
      byShortName_mapIdx hf]
    exact List.foldl_hom (overlay base f) fun r entry => enterName_overlay hf r entry
  rw [markUnique_eq, markUnique_eq, blank_overlay hf]
  unfold markFrom
  rw [hfold]
  rfl

/-! ### A second run -/

theorem unmarked_unmarked (types : Array TypeDecl) : unmarked (unmarked types) = unmarked types := by
  simp only [unmarked, Array.map_map]
  congr 1
  funext d
  simp only [Function.comp_apply]
  split
  · rfl
  · rfl

theorem blank_blank (r : Registry) : r.blank.blank = r.blank := by
  simp only [blank, unmarked_unmarked]

theorem unmarked_setIfInBounds {types : Array TypeDecl} (hd : types[id]? = some d)
    (hinst : d.instanceName = none) :
    unmarked (types.setIfInBounds id { d with notUnique := true }) = unmarked types := by
  apply Array.ext_getElem?
  intro i
  simp only [unmarked, Array.getElem?_map, Array.getElem?_setIfInBounds]
  split
  · next heq =>
    subst heq
    obtain ⟨hlt, -⟩ := Array.getElem?_eq_some_iff.1 hd
    rw [if_pos hlt, hd]
    simp [hinst]
  · rfl

theorem blank_qualify (hd : r.types[id]? = some d) (hinst : d.instanceName = none) :
    (r.qualify id).blank = r.blank := by
  unfold qualify
  rw [hd]
  simp only [blank, unmarked_setIfInBounds hd hinst]

theorem instanceName_unmarked (types : Array TypeDecl) (id : TypeId) :
    ((unmarked types)[id]?.map fun d => d.instanceName) = types[id]?.map fun d => d.instanceName := by
  simp only [unmarked, Array.getElem?_map, Option.map_map]
  congr 1
  funext d
  simp only [Function.comp_apply]
  split
  · rfl
  · rfl

theorem declared_of_blank (h : r'.blank = r.blank) (hd : r.types[id]? = some d)
    (hinst : d.instanceName = none) : ∃ d', r'.types[id]? = some d' ∧ d'.instanceName = none := by
  have hget : (r'.types[id]?.map fun d => d.instanceName) = some none := by
    rw [← instanceName_unmarked,
      show unmarked r'.types = unmarked r.types from congrArg Registry.types h,
      instanceName_unmarked, hd, Option.map_some, hinst]
  exact Option.map_eq_some_iff.1 hget

theorem blank_enterName (h : r'.blank = r.blank) {entry : String × List TypeId}
    (hentry : ∀ id ∈ entry.2, ∃ d, r.types[id]? = some d ∧ d.instanceName = none) :
    (r'.enterName entry).blank = r.blank := by
  unfold enterName
  split
  · refine List.foldlRecOn (motive := fun s : Registry => s.blank = r.blank) _ _ h ?_
    intro s hs id hid
    obtain ⟨d, hd, hinst⟩ := hentry id hid
    obtain ⟨d', hd', hinst'⟩ := declared_of_blank hs hd hinst
    exact (blank_qualify hd' hinst').trans hs
  · exact h

/-- Marks are only set on declared types, and nothing else is changed but short names. -/
theorem blank_markUnique (r : Registry) : r.markUnique.blank = r.blank := by
  refine List.foldlRecOn (motive := fun s : Registry => s.blank = r.blank)
    (byShortName r.blank.types) enterName r.blank_blank fun s hs entry hentry => ?_
  rw [← blank_blank r] at hs ⊢
  refine blank_enterName hs fun id hid => ?_
  obtain ⟨d, hd, hinst, -⟩ := mem_byShortName _ entry hentry id hid
  exact ⟨d, hd, hinst⟩

/-- What does not depend on marks and short names is as before. -/
theorem markUnique_frame {β : Type} (g : Registry → β) (hg : ∀ r : Registry, g r.blank = g r)
    (r : Registry) : g r.markUnique = g r := by
  rw [← hg, blank_markUnique, hg]

/-- **A second run changes nothing.** -/
theorem markUnique_markUnique (r : Registry) : r.markUnique.markUnique = r.markUnique := by
  rw [markUnique_eq r.markUnique, blank_markUnique, ← markUnique_eq]

/-! ### Before marks are set -/

/-- The registry with the declarations of the files that are new. -/
def collectNew (r : Registry) : Registry :=
  { (r.inPathOrder ((List.range r.files.size).drop r.collected)).foldl collectFile r with
    collected := r.files.size }

theorem parseTypes_eq (r : Registry) : r.parseTypes = r.collectNew.markUnique.foldConstants := rfl

theorem files_addType (r : Registry) (d : TypeDecl) : (r.addType d).files = r.files := by
  unfold addType
  split
  · rfl
  · rfl

theorem files_addConst (r : Registry) (c : ConstDecl) : (r.addConst c).files = r.files := by
  unfold addConst
  split
  · rfl
  · rfl

theorem files_collectFile (r : Registry) (file : FileId) : (r.collectFile file).files = r.files := by
  unfold collectFile
  split
  · rfl
  · refine List.foldlRecOn (motive := fun s : Registry => s.files = r.files) _ _ ?_
      fun s hs c _ => (files_addConst s c).trans hs
    exact List.foldlRecOn (motive := fun s : Registry => s.files = r.files) _ _ rfl
      fun s hs d _ => (files_addType s d).trans hs

theorem files_collectNew (r : Registry) : r.collectNew.files = r.files :=
  List.foldlRecOn (motive := fun s : Registry => s.files = r.files)
    (r.inPathOrder ((List.range r.files.size).drop r.collected)) collectFile rfl
    fun s hs file _ => (files_collectFile s file).trans hs

theorem collectNew_of_collected (h : r.collected = r.files.size) : r.collectNew = r := by
  have hpending : r.inPathOrder ((List.range r.files.size).drop r.collected) = [] := by
    rw [h, List.drop_eq_nil_of_le (Nat.le_of_eq List.length_range), inPathOrder, List.mergeSort_nil]
  unfold collectNew
  rw [hpending, ← h]
  rfl

end GoApiDoc.Registry
