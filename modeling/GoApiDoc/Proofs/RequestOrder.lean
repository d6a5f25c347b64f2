/-
The order of requests.

The definitions that a resolver ends with do not depend on the order in which types are asked for,
if all requests are answered and no circle of types is disorderly.  Each request is a step from one
steady state to another in which nothing is being built.  What a history of requests defines has
been built by runs of its own, so that any other history with the same requests defines the same, by
the comparison of two runs.  The histories may make instances of generic declarations in different
orders and number them differently.

* `Resolver.Steady.answer`, `Resolver.Steady.after` — **a request that is answered leaves a steady
  state**, and so do many;
* `Resolver.definitions_eq_of_perm` — **the order of the requests does not matter**.
-/

import GoApiDoc.Proofs.Matching

set_option autoImplicit false

namespace GoApiDoc

open Go (TypeId TypeExpr)

variable {id i : TypeId} {v : Entry} {x : Resolving Schema} {qs : List Request} {file : FileId}
  {d : TypeDecl} {name : String}

/-! ### What a request reads -/

namespace Request

/-- The type is entered when the request is answered, before any other type is. -/
def Enters (r : Filling) (settings : Settings) : Request → TypeId → Entry → Prop
  | .type t file => GoApiDoc.Enters r settings (.type t file)
  | .text source file => fun id v =>
    ∃ t, Go.typeOfText (Text.trim source) = .ok t ∧ GoApiDoc.Enters r settings (.type t file) id v
  | .symbol i => GoApiDoc.Enters r settings (.symbol i)
  | .instantiate _ _ _ => fun _ _ => False

/-- The request does not embed a type that leads back to itself. -/
def Apart (r : Filling) (settings : Settings) (q : Request) : Prop :=
  ∀ ⦃id : TypeId⦄, q.Enters r settings id .embedding → ¬Circular r settings id

/-- The request with other numbers in it. -/
def renumber (σ : TypeId → TypeId) : Request → Request
  | .type t file => .type (t.renumber σ) file
  | .text source file => .text source file
  | .symbol id => .symbol (σ id)
  | .instantiate generic args file =>
    .instantiate (σ generic) (TypeExpr.renumberAll σ args) file

theorem renumber_of_inverse {σ τ : TypeId → TypeId} (h : ∀ id, τ (σ id) = id) (q : Request) :
    (q.renumber σ).renumber τ = q := by
  cases q with
  | type t file => rw [renumber, renumber, TypeExpr.renumber_of_inverse h]
  | text source file => rfl
  | symbol id => rw [renumber, renumber, h]
  | instantiate generic args file =>
    rw [renumber, renumber, h, TypeExpr.renumberAll_of_inverse h]

variable {σ : Equiv.Perm TypeId} {r r' : Filling} {settings : Settings} {q : Request}

theorem enters_renumber (hσ : r.Renumbers σ settings r')
    (h : (q.renumber σ).Enters r' settings id v) : q.Enters r settings (σ.symm id) v := by
  cases q with
  | type t file => exact (hσ.enters_iff (.type t file)).1 h
  | text text file =>
    obtain ⟨t, ht, h⟩ := h
    refine ⟨t, ht, (hσ.enters_iff (.type t file)).1 ?_⟩
    rwa [Site.renumber, Go.unnumbered_typeOfText ht σ]
  | symbol i => exact (hσ.enters_iff (.symbol i)).1 h
  | instantiate => exact h

theorem Apart.renumber (hσ : r.Renumbers σ settings r') (h : q.Apart r settings) :
    (q.renumber σ).Apart r' settings :=
  fun _ hid hc => h (enters_renumber hσ hid) (hσ.symm.circular hc)

end Request

namespace Resolver

open Resolving

variable {σ : Equiv.Perm TypeId} {r r' : Filling} {settings : Settings} {k g h : Resolver}
  {q : Request}

/-! ### One request -/

theorem steady_fresh (h : r.start.Gains r) : Steady r settings (fresh r.start settings) where
  sound := sound_fresh r.start settings
  configured := rfl
  started := .refl _
  registry := h
  sorted := List.Pairwise.nil
  distinct := List.nodup_nil
  grounded := trivial
  objects := fun _ _ _ _ hn => nomatch hn
  claims := fun _ hid => nomatch hid
  sane := fun _ _ hn => nomatch hn

theorem Linked.of_idle {P : TypeId → Entry → Prop} (hidle : g.building = [])
    (hP : ∀ ⦃id : TypeId⦄, P id .embedding → ¬Circular r settings id) : g.Linked r settings P where
  chain := hidle ▸ .nil
  next := by
    rw [hidle]
    nofun
  apart := hP

theorem gains_answer (g : Resolver) (q : Request) : g.registry.Gains (g.answer q).registry := by
  cases q with
  | type t file => exact (enlargesWith _).resolve t file g
  | text text file => exact (enlargesWith _).text text file g
  | symbol id => exact (enlargesWith _).symbol id g
  | instantiate generic args file => exact g.registry.gains_instantiate generic args file

theorem gains_after (g : Resolver) (qs : List Request) :
    g.registry.Gains (g.after qs).registry := by
  induction qs generalizing g with
  | nil => exact .refl _
  | cons q qs ih => exact (g.gains_answer q).trans (ih (g.answer q))

/-- A request that is answered has a schema, unless it asks for an instance. -/
theorem ok_of_refusal?
    (h : (match (x.runOn g).1 with
      | .ok _ => none
      | .error e => some e) = (none : Option DocError)) : ∃ s, (x.runOn g).1 = .ok s := by
  cases ho : (x.runOn g).1 with
  | ok s => exact ⟨s, rfl⟩
  | error e =>
    rw [ho] at h
    cases h

/-- **A request that is answered leaves a steady state.** -/
theorem Steady.answer (ho : Orderly r settings) (hg : Steady r settings g)
    (hidle : g.building = []) (hq : q.Apart r settings) (hok : g.refusal? q = none)
    (hgain : (g.answer q).registry.Gains r) : Onward r settings g (g.answer q) := by
  cases q with
  | type t file =>
    obtain ⟨s, hs⟩ := ok_of_refusal? hok
    exact ((settlesWith ho _).resolve t file g).onward hg (.of_idle hidle hq) (Prod.ext hs rfl) hgain
      (settled_ok s)
  | text source file =>
    obtain ⟨s, hs⟩ := ok_of_refusal? hok
    refine ((settlesWith ho _).text source file g _
      (∃ t, Go.typeOfText (Text.trim source) = .ok t ∧ Fails r settings (.type t file))
      fun t ht => ⟨fun _ _ henters => ⟨t, ht, henters⟩, fun hf => ⟨t, ht, hf⟩, ?_⟩).onward hg
      (.of_idle hidle hq) (Prod.ext hs rfl) hgain (settled_ok s)
    rintro ⟨t', ht', hf⟩
    cases ht.symm.trans ht'
    exact hf
  | symbol id =>
    obtain ⟨s, hs⟩ := ok_of_refusal? hok
    exact ((settlesWith ho _).symbol id g).onward hg (.of_idle hidle hq) (Prod.ext hs rfl) hgain
      (settled_ok s)
  | instantiate generic args file =>
    exact hg.onward_gains (g.registry.gains_instantiate generic args file) hgain

theorem withinBy_answer (hσ : r.Renumbers σ settings r') (ho : Orderly r settings)
    (hk : Final r' settings k) (hg : Steady r settings g) (hidle : g.building = [])
    (hin : g.WithinBy σ k) (hq : q.Apart r settings) (hok : g.refusal? q = none)
    (hgain : (g.answer q).registry.Gains r) (hh : Steady r' settings h)
    (hidle' : h.building = []) (hin' : h.Within k) (hok' : h.refusal? (q.renumber σ) = none)
    (hgain' : (h.answer (q.renumber σ)).registry.Gains r')
    (hin₁' : (h.answer (q.renumber σ)).Within k) : (g.answer q).WithinBy σ k := by
  have hpaired : Paired σ r r' settings k g h (q.Enters r settings) :=
    { steady := hg
      steady' := hh
      linked := .of_idle hidle hq
      linked' := .of_idle hidle' fun id hid hc => hq hid (hσ.symm.circular hc)
      fits := ⟨hin, by simp [hidle]⟩
      fits' := ⟨hin'.withinBy, by simp [hidle']⟩ }
  have hcompare : ∀ {x y : Resolving Schema},
      Matches σ r r' settings k x y g h (q.Enters r settings) →
      (∃ s, (x.runOn g).1 = .ok s) → (∃ s, (y.runOn h).1 = .ok s) →
      (x.runOn g).2.registry.Gains r → (y.runOn h).2.registry.Gains r' →
      (y.runOn h).2.Within k → (x.runOn g).2.WithinBy σ k := by
    rintro x y hxy ⟨s, hs⟩ ⟨s', hs'⟩ hgain hgain' hin'
    exact (hxy hpaired _ _ _ _ (Prod.ext hs rfl) (Prod.ext hs' rfl) hgain hgain' (settled_ok s)
      (settled_ok s') hin').2
  cases q with
  | type t file =>
    exact hcompare ((matchesWith hσ ho hk _).resolve _ t file g h) (ok_of_refusal? hok)
      (ok_of_refusal? hok') hgain hgain' hin₁'
  | text source file =>
    exact hcompare ((matchesWith hσ ho hk _).text _ source file g h _
      fun t ht _ _ henters => ⟨t, ht, henters⟩) (ok_of_refusal? hok) (ok_of_refusal? hok') hgain
      hgain' hin₁'
  | symbol id =>
    exact hcompare ((matchesWith hσ ho hk _).symbol _ id g h) (ok_of_refusal? hok)
      (ok_of_refusal? hok') hgain hgain' hin₁'
  | instantiate generic args file => exact ⟨hin.definitions, hin.parsed⟩

/-! ### Many requests -/

/-- All requests are answered, one after the other. -/
def Accepts (g : Resolver) : List Request → Prop
  | [] => True
  | q :: qs => g.refusal? q = none ∧ (g.answer q).Accepts qs

/-- The request has been answered on the way to this state, at a time when nothing was being
built. -/
def Answered (r : Filling) (settings : Settings) (k : Resolver) (q : Request) : Prop :=
  ∃ h, Steady r settings h ∧ h.building = [] ∧ h.refusal? q = none ∧
    (h.answer q).registry.Gains r ∧ h.Within k ∧ (h.answer q).Within k

/-- **Requests that are answered leave a steady state.** -/
theorem Steady.after (ho : Orderly r settings) (hg : Steady r settings g) (hidle : g.building = [])
    (hqs : ∀ q ∈ qs, q.Apart r settings) (hok : g.Accepts qs)
    (hgain : (g.after qs).registry.Gains r) :
    Onward r settings g (g.after qs) ∧ ∀ q ∈ qs, Answered r settings (g.after qs) q := by
  induction qs generalizing g with
  | nil => exact ⟨hg.onward_refl, fun _ hq => nomatch hq⟩
  | cons q qs ih =>
    have hgain₁ : (g.answer q).registry.Gains r := (gains_after _ qs).trans hgain
    have hon := hg.answer ho hidle (hqs q List.mem_cons_self) hok.1 hgain₁
    obtain ⟨hon', hanswered⟩ := ih hon.steady (hon.ext.building.trans hidle)
      (fun q' hq' => hqs q' (List.mem_cons_of_mem q hq')) hok.2 hgain
    refine ⟨hon.trans hon', fun q' hq' => ?_⟩
    rcases List.mem_cons.1 hq' with rfl | hq'
    · exact ⟨g, hg, hidle, hok.1, hgain₁, (hon.trans hon').ext.within, hon'.ext.within⟩
    · exact hanswered q' hq'

/-- **What a history of requests defines is defined by any other that has the same requests.** -/
theorem withinBy_after (hσ : r.Renumbers σ settings r') (ho : Orderly r settings)
    (hk : Final r' settings k) (hg : Steady r settings g) (hidle : g.building = [])
    (hin : g.WithinBy σ k) (hqs : ∀ q ∈ qs, q.Apart r settings) (hok : g.Accepts qs)
    (hgain : (g.after qs).registry.Gains r)
    (hanswered : ∀ q ∈ qs, Answered r' settings k (q.renumber σ)) :
    (g.after qs).WithinBy σ k := by
  induction qs generalizing g with
  | nil => exact hin
  | cons q qs ih =>
    have hgain₁ : (g.answer q).registry.Gains r := (gains_after _ qs).trans hgain
    have hapart := hqs q List.mem_cons_self
    have hon := hg.answer ho hidle hapart hok.1 hgain₁
    obtain ⟨h, hh, hidle', hok', hgain', hin', hin₁'⟩ := hanswered q List.mem_cons_self
    have hin₁ := withinBy_answer hσ ho hk hg hidle hin hapart hok.1 hgain₁ hh hidle' hin' hok'
      hgain' hin₁'
    exact ih hon.steady (hon.ext.building.trans hidle) hin₁
      (fun q' hq' => hqs q' (List.mem_cons_of_mem q hq')) hok.2 hgain
      fun q' hq' => hanswered q' (List.mem_cons_of_mem q hq')

/-- The registry that a history of requests leaves. -/
def filled (r : Registry) (settings : Settings) (qs : List Request) : Filling :=
  ⟨((fresh r settings).after qs).registry, r⟩

section Histories

variable {r : Registry} {qs qs' : List Request}

/-- A history of requests that are answered ends in a final state. -/
theorem final_after (ho : Orderly (filled r settings qs) settings)
    (hapart : ∀ q ∈ qs, q.Apart (filled r settings qs) settings)
    (hok : (fresh r settings).Accepts qs) :
    Final (filled r settings qs) settings ((fresh r settings).after qs) ∧
      ∀ q ∈ qs, Answered (filled r settings qs) settings ((fresh r settings).after qs) q := by
  have hfresh : Steady (filled r settings qs) settings (fresh r settings) :=
    steady_fresh (gains_after (fresh r settings) qs)
  obtain ⟨hon, hanswered⟩ := hfresh.after ho rfl hapart hok (.refl _)
  exact ⟨⟨hon.steady, hon.recorded nofun, hon.ext.building⟩, hanswered⟩

/-- The definitions of a history are definitions of any other that has its requests. -/
theorem withinBy_of_mem (hok : (fresh r settings).Accepts qs)
    (hok' : (fresh r settings).Accepts qs')
    (hσ : (filled r settings qs).Renumbers σ settings (filled r settings qs'))
    (ho : Orderly (filled r settings qs) settings) (hqs : ∀ q ∈ qs, q.renumber σ ∈ qs')
    (hapart : ∀ q ∈ qs, q.Apart (filled r settings qs) settings)
    (hapart' : ∀ q ∈ qs', q.Apart (filled r settings qs') settings) :
    ((fresh r settings).after qs).WithinBy σ ((fresh r settings).after qs') := by
  have hfresh : Steady (filled r settings qs) settings (fresh r settings) :=
    steady_fresh (gains_after (fresh r settings) qs)
  obtain ⟨hk, hanswered⟩ := final_after (hσ.orderly ho) hapart' hok'
  exact withinBy_after hσ ho hk hfresh rfl ⟨nofun, nofun⟩ hapart hok (.refl _)
    fun q hq => hanswered _ (hqs q hq)

end Histories

/-- **The order of the requests does not matter.**  Two histories of the same requests that are all
answered end with the same definitions, where

* both make the same instances, which may have different numbers,
* the requests name no type by a number that changes,
* every circle of types is orderly, and
* no request embeds a type that leads back to itself. -/
theorem definitions_eq_of_perm (r : Registry) (settings : Settings) {qs qs' : List Request}
    (hperm : qs.Perm qs') (hok : (fresh r settings).Accepts qs)
    (hok' : (fresh r settings).Accepts qs') {σ : Equiv.Perm TypeId}
    (hσ : (filled r settings qs).Renumbers σ settings (filled r settings qs'))
    (hfixed : ∀ q ∈ qs, q.renumber σ = q) (ho : Orderly (filled r settings qs) settings)
    (hapart : ∀ q ∈ qs, q.Apart (filled r settings qs) settings) :
    ((fresh r settings).after qs).definitions = ((fresh r settings).after qs').definitions := by
  have hfixed' : ∀ q ∈ qs', q.renumber σ.symm = q := by
    intro q hq
    have hback := q.renumber_of_inverse σ.symm_apply_apply
    rwa [hfixed q (hperm.mem_iff.2 hq)] at hback
  have hapart' : ∀ q ∈ qs', q.Apart (filled r settings qs') settings := by
    intro q hq
    have hrenumber := (hapart q (hperm.mem_iff.2 hq)).renumber hσ
    rwa [hfixed q (hperm.mem_iff.2 hq)] at hrenumber
  have hin := withinBy_of_mem hok hok' hσ ho
    (fun q hq => (hfixed q hq).symm ▸ hperm.mem_iff.1 hq) hapart hapart'
  have hin' := withinBy_of_mem hok' hok hσ.symm (hσ.orderly ho)
    (fun q hq => (hfixed' q hq).symm ▸ hperm.mem_iff.2 hq) hapart' hapart
  exact Table.eq_of_get?_iff (final_after ho hapart hok).1.steady.sorted
    (final_after (hσ.orderly ho) hapart' hok').1.steady.sorted
    fun _ _ => ⟨fun h => hin.definitions h, fun h => hin'.definitions h⟩

end Resolver

/-! ### Registries without new instances -/

/-- Instances that are added make a registry larger. -/
theorem Registry.Gains.eq_or_size_lt {r r' : Registry} (h : r.Gains r') :
    r' = r ∨ r.types.size < r'.types.size := by
  refine h.invariant (P := fun s => s = r ∨ r.types.size < s.types.size) (.inl rfl) ?_
  intro s name d hs _ _
  have hpush : (s.pushInstance name d).types.size = s.types.size + 1 := Array.size_push d
  refine .inr ?_
  rcases hs with rfl | hs <;> omega

theorem Filling.Finds.declaredOf {r : Filling} (hr : r.toRegistry = r.start) {t : TypeExpr}
    (h : r.Finds file t id) :
    (Registry.declaredOf file t r.start).1 = some id := by
  obtain ⟨r₀, hstart, hgain, hid⟩ := h
  rcases hstart.eq_or_size_lt with rfl | hlt
  · exact hid
  have hle := ((Registry.gains_declaredOf file t r₀).trans hgain).eq_or_size_lt
  rw [hr] at hle
  rcases hle with heq | hlt'
  · exact absurd (heq ▸ hlt) (Nat.lt_irrefl _)
  · exact absurd (hlt.trans hlt') (Nat.lt_irrefl _)

namespace Resolver

/-- A field of type `[]Child` whose length is limited. -/
def kidsField : Go.Field :=
  ⟨["Kids"], .slice (.ident "Child"), some "json:\"kids\" binding:\"max=3\"", none, none⟩

/-- A field of type `*Parent`. -/
def parentField : Go.Field :=
  ⟨["Parent"], .pointer (.ident "Parent"), some "json:\"parent\"", none, none⟩

/-- Two structs that lead to each other, `Parent` and `Child`, with one of these fields each. -/
def kinship : Registry :=
  let parent : Go.Decl := .type ⟨"Parent", [], false, .struct [kidsField], none, none, 0⟩
  let child : Go.Decl := .type ⟨"Child", [], false, .struct [parentField], none, none, 0⟩
  let web : SourceUnit := ⟨"web.go", "app/web", .all, ⟨"web", [], [parent, child], []⟩⟩
  (({} : Registry).index web).2.parseTypes

/-- The registry, to which no instance is added. -/
def kinshipFilling : Filling := ⟨kinship, kinship⟩

theorem kinship_parent : ∃ d, kinship.types[0]? = some d ∧ d.isAlias = false ∧ d.file = 0 ∧
    d.type = .struct [kidsField] := by
  have hparent : kinship.types[0]?.map (fun d => (d.isAlias, d.file, d.type)) =
      some (false, 0, .struct [kidsField]) := by cbv
  obtain ⟨d, hd, hfields⟩ := Option.map_eq_some_iff.1 hparent
  obtain ⟨halias, hfields⟩ := Prod.mk.inj hfields
  exact ⟨d, hd, halias, Prod.mk.inj hfields⟩

theorem kinship_child : ∃ d, kinship.types[1]? = some d ∧ d.isAlias = false ∧ d.file = 0 ∧
    d.type = .struct [parentField] := by
  have hchild : kinship.types[1]?.map (fun d => (d.isAlias, d.file, d.type)) =
      some (false, 0, .struct [parentField]) := by cbv
  obtain ⟨d, hd, hfields⟩ := Option.map_eq_some_iff.1 hchild
  obtain ⟨halias, hfields⟩ := Prod.mk.inj hfields
  exact ⟨d, hd, halias, Prod.mk.inj hfields⟩

theorem types_kinship (hd : kinship.types[i]? = some d) :
    d.isAlias = false ∧ ∃ f, d.type = .struct [f] ∧ (f = kidsField ∨ f = parentField) := by
  have hsize : kinship.types.size = 2 := by decide +kernel
  have hlt : i < 2 := hsize ▸ (Array.getElem?_eq_some_iff.1 hd).1
  obtain rfl | rfl := Nat.le_one_iff_eq_zero_or_eq_one.1 (Nat.lt_succ_iff.1 hlt)
  · obtain ⟨d', hd', halias, -, htype⟩ := kinship_parent
    cases hd.symm.trans hd'
    exact ⟨halias, kidsField, htype, .inl rfl⟩
  · obtain ⟨d', hd', halias, -, htype⟩ := kinship_child
    cases hd.symm.trans hd'
    exact ⟨halias, parentField, htype, .inr rfl⟩

theorem reference_kinship (h : Enters kinshipFilling {} (.type (.ident name) file) id v) :
    v = .reference :=
  h.eq_reference fun _ _ hd => (types_kinship hd).1

theorem not_embeds_kinship {j : TypeId} : ¬Leads kinshipFilling {} i j .embedding := by
  rintro ⟨d, hd, h⟩
  obtain ⟨-, f, htype, hf⟩ := types_kinship hd
  rw [htype] at h
  obtain ⟨f', hmem, hfield⟩ := h.of_struct
  obtain rfl := List.mem_singleton.1 hmem
  rcases hf with rfl | rfl
  · cases hfield with
    | embedded hf | kept hf => cases hf.unnamed
    | typed _ h => cases reference_kinship h.of_slice
  · cases hfield with
    | embedded hf | kept hf => cases hf.unnamed
    | typed _ h => cases reference_kinship h.of_pointer

theorem orderly_kinship : Orderly kinshipFilling {} where
  certain := fun _ _ _ _ hi hj =>
    Option.some.inj ((hi.declaredOf rfl).symm.trans (hj.declaredOf rfl))
  struct := by
    intro i hi
    obtain ⟨_, ⟨_, d, hd, -⟩, -⟩ := Relation.TransGen.head'_iff.1 hi
    obtain ⟨-, f, htype, hf⟩ := types_kinship hd
    refine ⟨d, [f], hd, htype, fun hc => ?_⟩
    cases hc with
    | field hmem h =>
      obtain rfl := List.mem_singleton.1 hmem
      cases h with
      | kept hembeds | inside hembeds => rcases hf with rfl | rfl <;> cases hembeds.unnamed
  apart := fun _ _ _ h => not_embeds_kinship h

theorem enters_kinship (hd : kinship.types[id]? = some d)
    (hid : (Registry.declaredOf 0 (.ident name) kinship).1 = some id)
    (hsize : (Registry.declaredOf 0 (.ident name) kinship).2.types.size ≤ kinship.types.size) :
    Enters kinshipFilling {} (.type (.ident name) 0) id .reference := by
  refine .declared rfl ⟨kinship, .refl _, ?_, hid⟩ (.symbol hd rfl (types_kinship hd).1)
  rcases (Registry.gains_declaredOf 0 (.ident name) kinship).eq_or_size_lt with heq | hlt
  · rw [heq]
    exact .refl _
  · exact absurd hsize (Nat.not_le.2 hlt)

set_option maxRecDepth 100000 in
theorem circular_kinship : Circular kinshipFilling {} 0 := by
  obtain ⟨parent, hparent, -, hfile, htype⟩ := kinship_parent
  obtain ⟨child, hchild, -, hfile', htype'⟩ := kinship_child
  have hto : Refers kinshipFilling {} 0 1 := by
    refine ⟨.reference, parent, hparent, ?_⟩
    rw [htype, hfile]
    exact .struct (.field (List.mem_singleton_self _) (.typed
      ⟨by decide +kernel, by cbv, .inr ⟨"Kids", List.mem_singleton_self _, by decide +kernel⟩⟩
      (.slice (enters_kinship hchild (by decide +kernel) (by decide +kernel)))))
  have hback : Refers kinshipFilling {} 1 0 := by
    refine ⟨.reference, child, hchild, ?_⟩
    rw [htype', hfile']
    exact .struct (.field (List.mem_singleton_self _) (.typed
      ⟨by decide +kernel, by cbv, .inr ⟨"Parent", List.mem_singleton_self _, by decide +kernel⟩⟩
      (.pointer (enters_kinship hparent (by decide +kernel) (by decide +kernel)))))
  exact .head hto (.single hback)

/-- The types are asked for by their names. -/
def askKinship (name : String) : Request := .type (.ident name) 0

set_option maxRecDepth 100000 in
theorem accepts_kinship :
    (fresh kinship {}).Accepts [askKinship "Parent", askKinship "Child"] ∧
      (fresh kinship {}).Accepts [askKinship "Child", askKinship "Parent"] :=
  ⟨⟨by decide +kernel, by decide +kernel, trivial⟩,
    ⟨by decide +kernel, by decide +kernel, trivial⟩⟩

theorem filled_kinship
    (hsize : ((fresh kinship {}).after qs).registry.types.size ≤ kinship.types.size) :
    filled kinship {} qs = kinshipFilling := by
  rcases (gains_after (fresh kinship {}) qs).eq_or_size_lt with heq | hlt
  · rw [filled, heq]
    rfl
  · exact absurd hsize (Nat.not_le.2 hlt)

set_option maxRecDepth 100000 in
/-- The two structs may be asked for in either order, though each leads back to itself. -/
theorem definitions_eq_of_perm_kinship : Circular kinshipFilling {} 0 ∧
    ((fresh kinship {}).after [askKinship "Parent", askKinship "Child"]).definitions =
      ((fresh kinship {}).after [askKinship "Child", askKinship "Parent"]).definitions := by
  have hfirst : filled kinship {} [askKinship "Parent", askKinship "Child"] = kinshipFilling :=
    filled_kinship (by decide +kernel)
  have hsecond : filled kinship {} [askKinship "Child", askKinship "Parent"] = kinshipFilling :=
    filled_kinship (by decide +kernel)
  refine ⟨circular_kinship, definitions_eq_of_perm kinship {} (.swap _ _ _) accepts_kinship.1
    accepts_kinship.2 (σ := .refl TypeId) ?_ ?_ ?_ ?_⟩
  · rw [hfirst, hsecond]
    exact .refl {} kinshipFilling
  · intro q hq
    rcases List.mem_pair.1 hq with rfl | rfl <;> rfl
  · rw [hfirst]
    exact orderly_kinship
  · rw [hfirst]
    intro q hq id hid
    rcases List.mem_pair.1 hq with rfl | rfl <;> cases reference_kinship hid

end Resolver

end GoApiDoc
