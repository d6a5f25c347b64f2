/-
Collecting declarations twice.

Collecting brings everything up to date: marks, short names, values and members of enumerations are
found anew each time.  A second run in a row reads what the first one has left behind.  It finds no
file that is new; marks and short names do not depend on what the first run has set; a constant with
a value keeps it, and a constant without one is folded again, with the same result, for the values
that are there now are those that constants carried before.  Members are listed anew, not added.

* `Registry.foldOne_foldConstants` — **constants carry the same values afterwards**;
* `Registry.parseTypes_fixed` — **a second run changes nothing**.
-/

import GoApiDoc.Proofs.Marking
import GoApiDoc.Proofs.Mirror
import GoApiDoc.Proofs.Argument

set_option autoImplicit false

namespace GoApiDoc.Registry

open Go (TypeId)

variable {r r' : Registry} {c : ConstDecl} {path : String} {w : Folded}

/-! ### Values found again -/

theorem settle_of_folded {id : ConstId} (h : c.folded = some w) : r.settle id c = c := by
  have hnone : ¬(id ∈ r.listed ∧ c.folded = none) := by simp [h]
  rw [settle, if_neg hnone]

/-- A value that a constant has in the end is one that it had or carried. -/
theorem carries_of_settle {id : ConstId} (hc : r.consts[id]? = some c)
    (hw : (r.settle id c).folded = some w) : r.Carries id w := by
  unfold settle at hw
  split at hw
  · exact (r.foldOne_eq_some id w).1 hw
  · exact ⟨c, hc, .inl hw⟩

theorem consts_foldConstants (r : Registry) (id : ConstId) :
    r.foldConstants.consts[id]? = r.consts[id]?.map (r.settle id) := by
  rw [foldConstants_eq]
  exact Array.getElem?_mapIdx

theorem mirrors_foldConstants (r : Registry) :
    Mirrors id r r.foldConstants ∧ Mirrors id r.foldConstants r := by
  have htypes : ∀ id : TypeId, (r.foldConstants.types[id]?.map fun d => (d.type, d.file)) =
      r.types[id]?.map fun d => (d.type, d.file) := by
    intro id
    rw [foldConstants_eq, Array.getElem?_mapIdx, Option.map_map]
    rfl
  have hrest : r.foldConstants.files = r.files ∧ r.foldConstants.packages = r.packages ∧
      r.foldConstants.unique = r.unique := by
    rw [foldConstants_eq]
    exact ⟨rfl, rfl, rfl⟩
  obtain ⟨hfiles, hpackages, hunique⟩ := hrest
  refine ⟨⟨fun id => ?_, ?_, htypes, hunique⟩, ⟨fun id => ?_, ?_, fun id => (htypes id).symm,
    hunique.symm⟩⟩
  · rw [hfiles, id_eq]
  · rw [hpackages]
  · rw [hfiles, id_eq]
  · rw [hpackages]

theorem settled_foldConstants (r : Registry) :
    Settled id r r.foldConstants ∧ Settled id r.foldConstants r := by
  have hsame : ∀ id : ConstId,
      (r.foldConstants.consts[id]?.map fun c => (c.expr, c.type, c.iota, c.file)) =
        r.consts[id]?.map fun c => (c.expr, c.type, c.iota, c.file) := by
    intro id
    rw [consts_foldConstants, Option.map_map]
    congr 1
    funext c
    dsimp only [Function.comp]
    unfold settle
    split <;> rfl
  have hget : ∀ {id : ConstId} {c' : ConstDecl}, r.foldConstants.consts[id]? = some c' →
      ∃ c, r.consts[id]? = some c ∧ r.settle id c = c' := by
    intro id c' hc'
    rw [consts_foldConstants] at hc'
    exact Option.map_eq_some_iff.1 hc'
  refine ⟨⟨hsame, fun id c w hc hw => ?_, fun id c c' w hc _ hc' hw => ?_⟩,
    ⟨fun id => (hsame id).symm, fun id c' w hc' hw => ?_, fun id c' c w hc' hnone hc hw => ?_⟩⟩
  · refine ⟨c, ?_, .inl hw⟩
    rw [consts_foldConstants, hc, Option.map_some, settle_of_folded hw]
  · obtain ⟨c₀, hc₀, rfl⟩ := hget hc'
    exact carries_of_settle hc₀ hw
  · obtain ⟨c, hc, rfl⟩ := hget hc'
    exact carries_of_settle hc hw
  · -- a constant that had a value has it still
    obtain ⟨c₀, hc₀, rfl⟩ := hget hc'
    obtain rfl : c₀ = c := Option.some.inj (hc₀.symm.trans hc)
    rw [settle_of_folded hw, hw] at hnone
    cases hnone

/-- **Constants carry the same values** after values have been stored. -/
theorem foldOne_foldConstants (r : Registry) (id : ConstId) :
    r.foldConstants.foldOne id = r.foldOne id :=
  foldOne_eq_of_mirrors r.mirrors_foldConstants.1 r.settled_foldConstants.1
    r.mirrors_foldConstants.2 r.settled_foldConstants.2 id

theorem listed_foldConstants (r : Registry) : r.foldConstants.listed = r.listed := by
  rw [foldConstants_eq]
  rfl

theorem settle_settle (r : Registry) (id : ConstId) (c : ConstDecl) :
    r.foldConstants.settle id (r.settle id c) = r.settle id c := by
  by_cases hfresh : id ∈ r.listed ∧ c.folded = none
  · have hsettle : r.settle id c = { c with folded := r.foldOne id } := if_pos hfresh
    rw [hsettle, settle, r.listed_foldConstants, r.foldOne_foldConstants]
    split
    · rfl
    · rfl
  · have hsettle : r.settle id c = c := if_neg hfresh
    rw [hsettle, settle, r.listed_foldConstants, if_neg hfresh]

theorem withValues_foldConstants (r : Registry) : r.foldConstants.withValues = r.foldConstants := by
  have hconsts : r.foldConstants.consts.mapIdx r.foldConstants.settle = r.foldConstants.consts := by
    apply Array.ext_getElem?
    intro id
    rw [Array.getElem?_mapIdx, consts_foldConstants, Option.map_map]
    congr 1
    funext c
    exact r.settle_settle id c
  rw [withValues, hconsts]

theorem enumMembers_foldConstants (r : Registry) (id : TypeId) :
    r.foldConstants.enumMembers id = r.withValues.enumMembers id := by
  rw [foldConstants_eq]
  rfl

/-- **Values and members are found again.** -/
theorem foldConstants_foldConstants (r : Registry) :
    r.foldConstants.foldConstants = r.foldConstants := by
  have htypes : (r.foldConstants.types.mapIdx fun id d =>
      { d with enums := r.withValues.enumMembers id }) = r.foldConstants.types := by
    rw [foldConstants_eq]
    apply Array.ext_getElem?
    intro id
    rw [Array.getElem?_mapIdx, Array.getElem?_mapIdx, Option.map_map]
    rfl
  rw [foldConstants_eq r.foldConstants, withValues_foldConstants]
  simp only [enumMembers_foldConstants, htypes]

/-! ### Marks found again -/

theorem markUnique_foldConstants (r : Registry) :
    r.markUnique.foldConstants.markUnique = r.markUnique.foldConstants := by
  have hf : Neutral fun id d => { d with enums := r.markUnique.withValues.enumMembers id } :=
    ⟨fun _ _ => rfl, fun _ _ => rfl, fun _ _ => rfl, fun _ _ _ => rfl⟩
  have hoverlay : r.markUnique.foldConstants = overlay r.markUnique.foldConstants
      (fun id d => { d with enums := r.markUnique.withValues.enumMembers id }) r.markUnique := by
    rw [foldConstants_eq]
    rfl
  calc r.markUnique.foldConstants.markUnique
      = (overlay r.markUnique.foldConstants
          (fun id d => { d with enums := r.markUnique.withValues.enumMembers id })
          r.markUnique).markUnique := by rw [← hoverlay]
    _ = overlay r.markUnique.foldConstants
          (fun id d => { d with enums := r.markUnique.withValues.enumMembers id })
          r.markUnique := by rw [markUnique_overlay hf, markUnique_markUnique]
    _ = r.markUnique.foldConstants := hoverlay.symm

/-- What neither marks, members, values nor short names change. -/
theorem parseTypes_frame {β : Type} (g : Registry → β) (hblank : ∀ r : Registry, g r.blank = g r)
    (hfold : ∀ r : Registry, g r.foldConstants = g r) (r : Registry) :
    g r.parseTypes = g r.collectNew := by
  rw [parseTypes_eq, hfold, markUnique_frame g hblank]

/-- **A second run changes nothing.** -/
theorem parseTypes_fixed (r : Registry) : r.parseTypes.parseTypes = r.parseTypes := by
  have hcollected : r.parseTypes.collected = r.parseTypes.files.size := by
    rw [parseTypes_frame (·.collected) (fun _ => rfl) (fun s => by rw [foldConstants_eq]; rfl),
      parseTypes_frame (·.files) (fun _ => rfl) (fun s => by rw [foldConstants_eq]; rfl),
      files_collectNew]
    rfl
  rw [parseTypes_eq r.parseTypes, collectNew_of_collected hcollected, parseTypes_eq,
    markUnique_foldConstants, foldConstants_foldConstants]

/-! ### The constants of a package -/

/-- The numbers of the constants of a package, in order. -/
def constsIn (r : Registry) (path : String) : List ConstId :=
  (List.range r.consts.size).filter fun id => r.consts[id]?.any fun c => c.packagePath == path

/-- Each package lists its constants in the order of their numbers. -/
structure Orders (r : Registry) : Prop where
  sorted : r.packages.Sorted
  order : ∀ path, ((r.packages.get? path).map (·.constOrder)).getD [] = r.constsIn path

namespace Orders

theorem of_packages (h : Orders r) (hp : r'.packages = r.packages)
    (hc : r'.consts.map (·.packagePath) = r.consts.map (·.packagePath)) : Orders r' := by
  refine ⟨hp ▸ h.sorted, fun path => ?_⟩
  have hsize : r'.consts.size = r.consts.size := by simpa using congrArg Array.size hc
  have hpath (id : ConstId) : (r'.consts[id]?.any fun c => c.packagePath == path) =
      r.consts[id]?.any fun c => c.packagePath == path := by
    have := congrArg (fun paths => paths[id]?.any (· == path)) hc
    simpa only [Array.getElem?_map, Option.any_map] using this
  simp only [hp, h.order path, constsIn, hsize, hpath]

variable {fresh : Package} {f : Package → Package}

/-- A change of one package, which lists at its end the constants that are new. -/
theorem modify (h : Orders r)
    (hp : r'.packages = r.packages.modify path fresh f) (hfresh : fresh.constOrder = [])
    (hf : ∀ p, (f p).constOrder = p.constOrder ++ (r'.constsIn path).drop (r.constsIn path).length)
    (hc : ∀ path', r.constsIn path' <+: r'.constsIn path' ∧
      (path' ≠ path → r'.constsIn path' = r.constsIn path')) : Orders r' := by
  refine ⟨hp ▸ Table.sorted_insert h.sorted, fun path' => ?_⟩
  rw [hp, Table.modify, Table.get?_insert]
  split
  · next hpath =>
    subst hpath
    have hold : ((r.packages.get? path').getD fresh).constOrder = r.constsIn path' := by
      rw [← h.order path']
      cases r.packages.get? path' with
      | none => exact hfresh
      | some p => rfl
    rw [Option.map_some, Option.getD_some, hf, hold]
    obtain ⟨rest, hrest⟩ := (hc path').1
    rw [← hrest, List.drop_left]
  · next hpath => rw [h.order path', (hc path').2 hpath]

/-- A change of one package that leaves its constants alone. -/
theorem keep (h : Orders r)
    (hp : r'.packages = r.packages.modify path fresh f) (hfresh : fresh.constOrder = [])
    (hf : ∀ p, (f p).constOrder = p.constOrder) (hc : r'.consts = r.consts) : Orders r' := by
  have hsame (path' : String) : r'.constsIn path' = r.constsIn path' := by
    rw [constsIn, hc, constsIn]
  refine h.modify hp hfresh (fun p => ?_) fun path' => ⟨?_, fun _ => hsame path'⟩
  · rw [hf, hsame, List.drop_length, List.append_nil]
  · rw [hsame]

theorem index (h : Orders r) (u : SourceUnit) : Orders (r.index u).2 := by
  unfold Registry.index
  split
  · exact h
  · exact h.keep (f := fun p => { p with files := p.files ++ [r.files.size] }) rfl (by rfl)
      (fun _ => rfl) rfl

theorem addType (h : Orders r) (d : TypeDecl) : Orders (r.addType d) := by
  unfold Registry.addType
  split
  · exact h
  · exact h.keep (f := fun p => { p with types := p.types.insert d.scopedName r.types.size }) rfl
      (by rfl) (fun _ => rfl) rfl

theorem constsIn_push (hc : r'.consts = r.consts.push c) (path : String) :
    r'.constsIn path = r.constsIn path ++ if c.packagePath = path then [r.consts.size] else [] := by
  unfold constsIn
  rw [hc, Array.size_push, List.range_succ, List.filter_append]
  congr 1
  · refine List.filter_congr fun id hid => ?_
    rw [Array.getElem?_push, if_neg (Nat.ne_of_lt (List.mem_range.1 hid))]
  · by_cases hpath : c.packagePath = path
    · simp [hpath]
    · simp [hpath]

theorem addConst (h : Orders r) (c : ConstDecl) : Orders (r.addConst c) := by
  unfold Registry.addConst
  split
  · exact h
  have hpush (path : String) : constsIn { r with consts := r.consts.push c } path =
      r.constsIn path ++ if c.packagePath = path then [r.consts.size] else [] :=
    constsIn_push rfl path
  refine h.modify (f := fun p => { p with
    consts := if p.consts.contains c.name then p.consts else p.consts.insert c.name r.consts.size
    constOrder := p.constOrder ++ [r.consts.size] }) rfl (by rfl) (fun p => ?_) fun path => ⟨?_, ?_⟩
  · change p.constOrder ++ [r.consts.size] = _
    congr 1
    exact (by rw [hpush, List.drop_left, if_pos rfl] :
      [r.consts.size] = (constsIn { r with consts := r.consts.push c } c.packagePath).drop _)
  · exact ⟨_, (hpush path).symm⟩
  · intro hpath
    exact (hpush path).trans (by rw [if_neg (Ne.symm hpath), List.append_nil])

theorem collectFile (h : Orders r) (file : FileId) : Orders (r.collectFile file) := by
  unfold Registry.collectFile
  split
  · exact h
  · refine List.foldlRecOn (motive := Orders) _ _ ?_ fun s hs c _ => hs.addConst c
    exact List.foldlRecOn (motive := Orders) _ _ h fun s hs d _ => hs.addType d

theorem parseTypes (h : Orders r) : Orders r.parseTypes := by
  have hcollected : Orders r.collectNew :=
    (List.foldlRecOn (motive := Orders) (r.inPathOrder ((List.range r.files.size).drop r.collected))
      Registry.collectFile h fun s hs file _ => hs.collectFile file).of_packages rfl rfl
  refine hcollected.of_packages ?_ ?_
  · exact parseTypes_frame (·.packages) (fun _ => rfl) (fun s => by rw [foldConstants_eq]; rfl) r
  refine parseTypes_frame (·.consts.map (·.packagePath)) (fun _ => rfl) (fun s => ?_) r
  rw [foldConstants_eq]
  apply Array.ext_getElem?
  intro id
  simp only [withValues, Array.getElem?_map, Array.getElem?_mapIdx, Option.map_map]
  congr 1
  funext c
  simp only [Function.comp_apply, settle]
  split
  · rfl
  · rfl

end Orders

theorem Gains.consts (h : Gains r r') : r'.consts = r.consts :=
  h.invariant (P := fun s => s.consts = r.consts) rfl fun _ _ _ hs _ _ => hs

theorem Reachable.orders (h : Reachable r) : Orders r := by
  induction h with
  | empty goroot => exact ⟨List.Pairwise.nil, fun path => rfl⟩
  | index u h ih => exact ih.index u
  | collect h ih => exact ih.parseTypes
  | gain h hg ih => exact ih.of_packages hg.packages (by rw [hg.consts])

/-- **The constants that are listed**, package by package. -/
theorem Orders.listed_eq (h : Orders r) : r.listed = r.packages.keys.flatMap r.constsIn := by
  rw [listed, Table.values, Table.keys, List.flatMap_map, List.flatMap_map]
  refine List.flatMap_congr fun e he => ?_
  rw [← h.order e.1, Table.get?_of_mem h.sorted he]
  rfl

/-- A package that has a constant is there. -/
theorem Orders.mem_keys (h : Orders r) {id : ConstId} (hc : r.consts[id]? = some c) :
    c.packagePath ∈ r.packages.keys ∧ id ∈ r.listed := by
  have hid : id ∈ r.constsIn c.packagePath := by
    obtain ⟨hlt, rfl⟩ := Array.getElem?_eq_some_iff.1 hc
    simp [constsIn, hlt]
  have hkey : c.packagePath ∈ r.packages.keys := by
    rw [Table.mem_keys_iff]
    cases hp : r.packages.get? c.packagePath with
    | some p => exact ⟨p, rfl⟩
    | none =>
      rw [← h.order, hp] at hid
      cases hid
  exact ⟨hkey, h.listed_eq ▸ List.mem_flatMap.2 ⟨_, hkey, hid⟩⟩

theorem Orders.nodup (h : Orders r) : r.listed.Nodup := by
  rw [h.listed_eq, List.nodup_flatMap]
  refine ⟨fun path _ => List.nodup_range.filter _, ?_⟩
  refine (Table.nodup_keys h.sorted).imp fun {path path'} hne id hid hid' => ?_
  obtain ⟨c, hc, hpath⟩ := (Option.any_eq_true _ _).1 (List.mem_filter.1 hid).2
  obtain ⟨c', hc', hpath'⟩ := (Option.any_eq_true _ _).1 (List.mem_filter.1 hid').2
  obtain rfl := Option.some.inj (hc.symm.trans hc')
  exact hne ((beq_iff_eq.1 hpath).symm.trans (beq_iff_eq.1 hpath'))

/-- The members of an enumeration are the constants of the type, in the order in which packages list
them. -/
theorem enums_parseTypes {id : TypeId} {d : TypeDecl} (hd : r.parseTypes.types[id]? = some d) :
    d.enums = r.parseTypes.listed.filterMap (r.parseTypes.enumMember? id) := by
  have hmembers := r.collectNew.markUnique.enumMembers_foldConstants id
  rw [parseTypes_eq] at hd ⊢
  rw [foldConstants_eq, Array.getElem?_mapIdx] at hd
  obtain ⟨d₀, -, rfl⟩ := Option.map_eq_some_iff.1 hd
  exact hmembers.symm

/-- **Collecting twice in a row is collecting once.**  Whatever has been done to a registry before,
with instances made and files added in between, a second run leaves it as it is: types with their
names, marks and members, the table of short names, values and types of constants.  No constant is
listed twice, and the members of each type are its constants in the order of that list, so none is a
member twice. -/
theorem parseTypes_idempotent (h : Reachable r) :
    r.parseTypes.parseTypes = r.parseTypes ∧ r.parseTypes.listed.Nodup ∧
      ∀ (id : TypeId) (d : TypeDecl), r.parseTypes.types[id]? = some d →
        d.enums = r.parseTypes.listed.filterMap (r.parseTypes.enumMember? id) :=
  ⟨r.parseTypes_fixed, h.orders.parseTypes.nodup, fun _ _ hd => enums_parseTypes hd⟩

/-- A package with an enumeration, two constants that refer to each other, and a generic struct of
which there is an instance. -/
def signals : Registry :=
  let color : Go.Decl := .type ⟨"Color", [], false, .ident "int", none, none, 0⟩
  let lamp : Go.Decl := .type ⟨"Lamp", [⟨"T", .ident "any"⟩], false,
    .struct [⟨["Light"], .ident "T", none, none, none⟩], none, none, 0⟩
  let colors : Go.Decl := .const
    [⟨["Red"], some (.ident "Color"), [.ident "iota"], 0, none, none, 0⟩,
      ⟨["Green"], none, [], 1, none, none, 0⟩]
  let circle : Go.Decl := .const
    [⟨["Up"], none, [.ident "Down"], 0, none, none, 0⟩,
      ⟨["Down"], none, [.ident "Up"], 1, none, none, 0⟩]
  let unit : SourceUnit := ⟨"/s/s.go", "s", .all, ⟨"s", [], [color, lamp, colors, circle], []⟩⟩
  (((({} : Registry).index unit).2.parseTypes).findType "Lamp[Color]" 0).2

theorem reachable_signals : signals.Reachable :=
  ((Reachable.empty none).index _).collect.gain (gains_findType _ _ _)

set_option maxRecDepth 100000 in
/-- The instance and the constants without a value are there when the two runs begin. -/
theorem parseTypes_idempotent_signals :
    signals.types.size = 3 ∧ signals.parseTypes.listed = [0, 1, 2, 3] ∧
      signals.parseTypes.parseTypes = signals.parseTypes ∧
      ∀ d, signals.parseTypes.types[0]? = some d →
        d.enums = [0, 1, 2, 3].filterMap (signals.parseTypes.enumMember? 0) := by
  obtain ⟨hfixed, -, henums⟩ := parseTypes_idempotent reachable_signals
  have hlisted : signals.parseTypes.listed = [0, 1, 2, 3] := by
    rw [parseTypes_frame (·.listed) (fun _ => rfl) listed_foldConstants]
    decide +kernel
  refine ⟨by decide +kernel, hlisted, hfixed, fun d hd => ?_⟩
  rw [← hlisted]
  exact henums 0 d hd

end GoApiDoc.Registry
