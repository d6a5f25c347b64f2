/-
The members of enumerations.

A constant is entered at the end of the list of its package, and the packages are in the order of
their paths.  So what a package lists are its constants in the order in which they are declared:
file by file in the order of the paths, and from top to bottom in each file.  The members of a type
are those among them that have a value of the type.  A name that a package declares twice stands for
the first constant, but both are listed.

* `Registry.enumerations_exact` — **the members are exactly the constants of the type**, in order.
-/

import GoApiDoc.Proofs.IndexOrder

set_option autoImplicit false

namespace GoApiDoc.Registry

open Go (TypeId)

variable {r : Registry}

/-! ### The constants of the files -/

/-- The constants of a file from top to bottom, without those that have no name. -/
def constsOfFile (r : Registry) (file : FileId) : List ConstDecl :=
  match r.files[file]? with
  | none => []
  | some u => (constsOf file u.packagePath u.tree.decls).filter (·.name != "_")

/-- The constants of all files, in the order of the paths. -/
def declaredConsts (r : Registry) : List ConstDecl :=
  (r.inPathOrder (List.range r.files.size)).flatMap r.constsOfFile

theorem consts_foldl_addType (ds : List TypeDecl) (r : Registry) :
    (ds.foldl addType r).consts = r.consts := by
  refine List.foldlRecOn (motive := fun s : Registry => s.consts = r.consts) ds _ rfl fun s hs d _ => ?_
  unfold addType
  split
  · exact hs
  · exact hs

theorem consts_foldl_addConst (cs : List ConstDecl) (r : Registry) :
    (cs.foldl addConst r).consts.toList = r.consts.toList ++ cs.filter (·.name != "_") := by
  induction cs generalizing r with
  | nil => simp
  | cons c cs ih =>
    rw [List.foldl_cons, ih, addConst]
    by_cases hname : c.name = "_"
    · simp [hname]
    · simp [hname, modifyPackage]

theorem consts_collectFile (r : Registry) (file : FileId) :
    (r.collectFile file).consts.toList = r.consts.toList ++ r.constsOfFile file := by
  unfold collectFile constsOfFile
  cases r.files[file]? with
  | none => exact (List.append_nil _).symm
  | some u => rw [consts_foldl_addConst, consts_foldl_addType]

theorem consts_foldl_collectFile (files : List FileId) (r : Registry) :
    (files.foldl collectFile r).consts.toList = r.consts.toList ++ files.flatMap r.constsOfFile := by
  induction files generalizing r with
  | nil => simp
  | cons file files ih =>
    have hrest : (r.collectFile file).constsOfFile = r.constsOfFile := by
      funext file'
      rw [constsOfFile, files_collectFile, constsOfFile]
    rw [List.foldl_cons, ih, hrest, consts_collectFile, List.flatMap_cons, List.append_assoc]

/-- A constant as it is declared, without its value. -/
def unfolded (c : ConstDecl) : ConstDecl := { c with folded := none }

/-- **The constants that are entered** are those of the files, up to their values. -/
theorem consts_parseTypes (h : Indexed r) :
    r.parseTypes.consts.toList.map unfolded = r.declaredConsts.map unfolded := by
  have hfold (s : Registry) :
      s.foldConstants.consts.toList.map unfolded = s.consts.toList.map unfolded := by
    apply List.ext_getElem?
    intro id
    simp only [List.getElem?_map, Array.getElem?_toList, consts_foldConstants, Option.map_map]
    congr 1
    funext c
    simp only [Function.comp_apply, settle]
    split
    · rfl
    · rfl
  refine (parseTypes_frame (·.consts.toList.map unfolded) (fun _ => rfl) hfold r).trans ?_
  congr 1
  refine (consts_foldl_collectFile _ r).trans ?_
  rw [h.consts, h.collected, List.drop_zero]
  rfl

/-! ### The members of a type -/

/-- The member that a constant is of the enumeration of a type: it has a value of the type that can be
written. -/
def memberOf (type : TypeId) (c : ConstDecl) : Option EnumMember :=
  match c.folded with
  | some ⟨value, .named t⟩ =>
    if t = type then value.toJson?.map fun json => ⟨c.name, json, c.comment.getD ""⟩ else none
  | _ => none

/-- The constants of a package, in the order in which they were entered. -/
def constsAt (r : Registry) (path : String) : List ConstDecl :=
  r.consts.toList.filter (·.packagePath == path)

theorem filterMap_range_getElem? {α : Type} (l : List α) :
    (List.range l.length).filterMap (l[·]?) = l := by
  induction l using List.reverseRecOn with
  | nil => rfl
  | append_singleton l x ih =>
    have hlow : ∀ i ∈ List.range l.length, (l ++ [x])[i]? = l[i]? :=
      fun i hi => List.getElem?_append_left (List.mem_range.1 hi)
    rw [List.length_append, List.length_singleton, List.range_succ, List.filterMap_append,
      List.filterMap_congr hlow, ih]
    simp

theorem filterMap_constsIn (r : Registry) (path : String) (type : TypeId) :
    (r.constsIn path).filterMap (r.enumMember? type) = (r.constsAt path).filterMap (memberOf type) := by
  rw [constsAt, ← filterMap_range_getElem? r.consts.toList, constsIn, List.filterMap_filter,
    List.filter_filterMap, List.filterMap_filterMap]
  refine List.filterMap_congr fun id _ => ?_
  rw [Array.getElem?_toList, enumMember?]
  cases r.consts[id]? with
  | none => rfl
  | some c =>
    by_cases hpath : c.packagePath = path
    · simp only [Option.any_some, Option.filter_some, hpath, beq_self_eq_true, if_true]
      rfl
    · simp [Option.filter_some, hpath]

/-- **The members of a type**, package by package. -/
theorem enums_eq (h : Orders r) {id : TypeId} {d : TypeDecl} (hd : r.parseTypes.types[id]? = some d) :
    d.enums = r.parseTypes.packages.keys.flatMap fun path =>
      (r.parseTypes.constsAt path).filterMap (memberOf id) := by
  rw [enums_parseTypes hd, h.parseTypes.listed_eq, List.filterMap_flatMap]
  exact List.flatMap_congr fun path _ => filterMap_constsIn _ path id

/-- **The value of a constant** that is entered is the one that it carries. -/
theorem folded_parseTypes (h : Orders r) {id : ConstId} {c : ConstDecl}
    (hc : r.parseTypes.consts[id]? = some c) : c.folded = r.parseTypes.foldOne id := by
  have hlisted := (h.parseTypes.mem_keys hc).2
  rw [parseTypes_eq] at hc hlisted ⊢
  rw [listed_foldConstants] at hlisted
  rw [consts_foldConstants] at hc
  obtain ⟨c₀, hc₀, rfl⟩ := Option.map_eq_some_iff.1 hc
  rw [foldOne_foldConstants]
  cases hfolded : c₀.folded with
  | none => rw [settle, if_pos ⟨hlisted, hfolded⟩]
  | some w =>
    rw [settle_of_folded hfolded, hfolded]
    exact ((foldOne_eq_some _ id w).2 ⟨c₀, hc₀, .inl hfolded⟩).symm

theorem keys_sublist (cs : List ConstDecl) (type : TypeId) :
    ((cs.filterMap (memberOf type)).map (·.key)).Sublist (cs.map (·.name)) := by
  have hkey (c : ConstDecl) (m : EnumMember) (hm : memberOf type c = some m) : m.key = c.name := by
    unfold memberOf at hm
    split at hm
    · split at hm
      · obtain ⟨json, -, rfl⟩ := Option.map_eq_some_iff.1 hm
        rfl
      · cases hm
    · cases hm
  induction cs with
  | nil => exact .slnil
  | cons c cs ih =>
    rw [List.filterMap_cons, List.map_cons]
    cases hm : memberOf type c with
    | none => exact ih.cons _
    | some m =>
      rw [List.map_cons, hkey c m hm]
      exact ih.cons_cons _

theorem reachable_indexAll (goroot : Option String) (us : List SourceUnit) :
    Reachable (Registry.indexAll { goroot := goroot } us) :=
  List.foldlRecOn us _ (.empty goroot) fun _ hs u _ => hs.index u

/-- **The members of an enumeration** are exactly the constants of the type.  When files have been
indexed and collected, the constants are those that the files declare, without those that have no
name, file by file in the order of the paths and from top to bottom; each has the value that it
carries by the rules.  The members of every type are those constants that have a value of the type
which can be written, with name, value and comment, package by package in the order of the paths.  A
package that declares no constant twice contributes no name twice. -/
theorem enumerations_exact (goroot : Option String) (us : List SourceUnit) {r s : Registry}
    (hr : Registry.indexAll { goroot := goroot } us = r) (hs : r.parseTypes = s) :
    s.consts.toList.map unfolded = r.declaredConsts.map unfolded ∧
    (r.inPathOrder (List.range r.files.size)).Perm (List.range r.files.size) ∧
    ((r.inPathOrder (List.range r.files.size)).Pairwise fun a b =>
      Path.le (r.pathOf a) (r.pathOf b) = true) ∧
    (∀ (id : ConstId) c, s.consts[id]? = some c →
      c.packagePath ∈ s.packages.keys ∧ ∀ w, c.folded = some w ↔ s.Carries id w) ∧
    s.packages.Sorted ∧
    ∀ (type : TypeId) d, s.types[type]? = some d →
      (d.enums = s.packages.keys.flatMap fun path => (s.constsAt path).filterMap (memberOf type)) ∧
      ∀ path, ((s.constsAt path).map (·.name)).Nodup →
        (((s.constsAt path).filterMap (memberOf type)).map (·.key)).Nodup := by
  subst hr hs
  have horders := (reachable_indexAll goroot us).orders
  refine ⟨consts_parseTypes ((indexed_empty goroot).indexAll us), List.mergeSort_perm _ _,
    pairwise_inPathOrder _ _, fun id c hc => ⟨(horders.parseTypes.mem_keys hc).1, fun w => ?_⟩,
    horders.parseTypes.sorted, fun type d hd => ⟨enums_eq horders hd, fun path hnames => ?_⟩⟩
  · rw [folded_parseTypes horders hc, foldOne_eq_some]
  · exact (keys_sublist _ type).nodup hnames

/-- A package that declares `Low` twice, above and below `High`. -/
def levels : SourceUnit :=
  let level : Option Go.TypeExpr := some (.ident "Level")
  let value (text : String) : List Go.Expr := [.lit .int text]
  ⟨"/m/level.go", "m", .all, ⟨"m", [], [.type ⟨"Level", [], false, .ident "int", none, none, 0⟩,
    .const [⟨["Low"], level, value "1", 0, none, none, 0⟩],
    .const [⟨["High"], level, value "2", 0, none, none, 0⟩],
    .const [⟨["Low"], level, value "3", 0, none, none, 0⟩]], []⟩⟩

/-- Both constants are entered, though the name stands for the first one. -/
theorem enumerations_exact_levels :
    (Registry.indexAll {} [levels]).parseTypes.consts.toList.map (·.name) = ["Low", "High", "Low"] ∧
    ∀ d, (Registry.indexAll {} [levels]).parseTypes.types[0]? = some d →
      d.enums = (Registry.indexAll {} [levels]).parseTypes.packages.keys.flatMap fun path =>
        ((Registry.indexAll {} [levels]).parseTypes.constsAt path).filterMap (memberOf 0) := by
  obtain ⟨hconsts, -, -, -, -, hmembers⟩ := enumerations_exact none [levels] rfl rfl
  refine ⟨?_, fun d hd => (hmembers 0 d hd).1⟩
  have hnames := congrArg (List.map ConstDecl.name) hconsts
  rw [List.map_map, List.map_map] at hnames
  exact hnames.trans (by decide +kernel)

end GoApiDoc.Registry
