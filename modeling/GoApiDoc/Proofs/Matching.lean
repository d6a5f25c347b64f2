/-
Two runs of one resolution.

A type is resolved twice, from two steady states, with two numbers of steps and with two registries
that may number the types differently.  The second run belongs to a history that ends in a final
state, in which every definition has been built by a run.  Then both runs have the same outcome, and
what the first run defines is defined in the final state as well, and in the same way.

The argument is by induction on the steps of the first run.  Where it builds a definition, the final
state has a definition of that type, and the run that built it takes the place of the second one.

* `Resolver.matches_definitionWith` — **a definition is built alike by both**;
* `Resolver.matchesWith` — **every function that resolves types does the same in both**.
-/

import GoApiDoc.Proofs.DefinitionPath
import GoApiDoc.Proofs.Settling
import GoApiDoc.Proofs.Struct

set_option autoImplicit false

namespace GoApiDoc

open Go (TypeId TypeExpr)

variable {σ : Equiv.Perm TypeId} {r r' : Filling} {settings : Settings}
  {k g h g' h' g₁ h₁ : Resolver} {P P' : TypeId → Entry → Prop} {F F' : Prop} {id : TypeId}
  {e e' : DocError} {d : TypeDecl} {n m : Nat} {s : Schema} {file : FileId} {key : String}
  {x y : Resolving Schema}

namespace Resolver

/-- Nothing is being built, and every definition has been built by a run from a steady state. -/
structure Final (r : Filling) (settings : Settings) (k : Resolver) : Prop where
  steady : Steady r settings k
  recorded : Recorded r settings k
  idle : k.building = []

/-- The condition on types, for the numbers that they have in the other registry. -/
def Renumbered (σ : Equiv.Perm TypeId) (P : TypeId → Entry → Prop) : TypeId → Entry → Prop :=
  fun id v => P (σ.symm id) v

theorem renumbered_apply {v : Entry} (h : P id v) : Renumbered σ P (σ id) v := by
  rwa [Renumbered, σ.symm_apply_apply]

/-- Two steady states in which the same may be entered, and which both fit a third one. -/
structure Paired (σ : Equiv.Perm TypeId) (r r' : Filling) (settings : Settings)
    (k g h : Resolver) (P : TypeId → Entry → Prop) : Prop where
  steady : Steady r settings g
  steady' : Steady r' settings h
  linked : g.Linked r settings P
  linked' : h.Linked r' settings (Renumbered σ P)
  fits : g.Fits σ r settings k
  fits' : h.Fits (.refl TypeId) r' settings k

theorem Paired.imp (hp : Paired σ r r' settings k g h P) (hP : ∀ id v, P' id v → P id v) :
    Paired σ r r' settings k g h P' :=
  { hp with linked := hp.linked.imp hP, linked' := hp.linked'.imp fun _ v => hP _ v }

/-- Both states may go on to ones that still have the definitions of the third. -/
theorem Paired.onward (hp : Paired σ r r' settings k g h P) (hg : Onward r settings g g')
    (hh : Onward r' settings h h') (hin : g'.WithinBy σ k) (hin' : h'.Within k) :
    Paired σ r r' settings k g' h' P where
  steady := hg.steady
  steady' := hh.steady
  linked := hp.linked.of_building hg.ext.building
  linked' := hp.linked'.of_building hh.ext.building
  fits := ⟨hin, hg.ext.building ▸ hp.fits.covers⟩
  fits' := ⟨hin'.withinBy, hh.ext.building ▸ hp.fits'.covers⟩

end Resolver

/-! ### The judgement -/

namespace Resolving

open Resolver (Steady Linked Onward Paired Renumbered Within WithinBy)

variable {α β : Type} {x y : Resolving α} {φ φ' : Resolver → α → Prop} {o₁ : Except DocError α}

/-- The outcome is a value, or an error that leaves a field out. -/
def Settled (settings : Settings) (o : Except DocError α) : Prop :=
  ∀ e, o = .error e → e.IsLeftOut settings

theorem settled_ok (a : α) : Settled settings (.ok a) := fun _ he => nomatch he

theorem Settles.onward (hx : Settles r settings x g P F φ) (hg : Steady r settings g)
    (hlinked : Linked r settings g P) {o : Except DocError α} (hrun : x.runOn g = (o, g'))
    (hgain : g'.registry.Gains r) (ho : Settled settings o) :
    Onward r settings g g' := by
  obtain ⟨hok, herror⟩ := hx hg hlinked o g' hrun hgain
  cases o with
  | ok a => exact (hok a rfl).1
  | error e => exact (herror e rfl (ho e rfl)).1

/-- The definitions there are stay, if the computation does not fail for good. -/
def Retains (r : Filling) (settings : Settings) (x : Resolving α) (g : Resolver)
    (P : TypeId → Entry → Prop) : Prop :=
  Steady r settings g → Linked r settings g P → ∀ o g', x.runOn g = (o, g') →
    g'.registry.Gains r → Settled settings o → g.Within g'

theorem Settles.retains (hx : Settles r settings x g P F φ) : Retains r settings x g P :=
  fun hg hlinked _ _ hrun hgain ho => (hx.onward hg hlinked hrun hgain ho).ext.within

/-- From a pair of states both computations yield the same value or none, and what the first one
defines is defined in the third state, if what the second one defines is.  Nothing is said if one of
them fails for good. -/
def Matches (σ : Equiv.Perm TypeId) (r r' : Filling) (settings : Settings) (k : Resolver)
    (x y : Resolving α) (g h : Resolver) (P : TypeId → Entry → Prop) : Prop :=
  Paired σ r r' settings k g h P → ∀ o g' o' h', x.runOn g = (o, g') → y.runOn h = (o', h') →
    g'.registry.Gains r → h'.registry.Gains r' → Settled settings o → Settled settings o' →
    h'.Within k → o.toOption = o'.toOption ∧ g'.WithinBy σ k

theorem Matches.imp (hxy : Matches σ r r' settings k x y g h P) (hP : ∀ id v, P id v → P' id v) :
    Matches σ r r' settings k x y g h P' :=
  fun hp => hxy (hp.imp hP)

theorem matches_intro (hxy : Paired σ r r' settings k g h P → Matches σ r r' settings k x y g h P) :
    Matches σ r r' settings k x y g h P :=
  fun hp => hxy hp hp

/-- Computations that change nothing, and yield the same value or none. -/
theorem matches_of_eq {o o' : Except DocError α} (hx : x.runOn g = (o, g))
    (hy : y.runOn h = (o', h)) (ho : o.toOption = o'.toOption) :
    Matches σ r r' settings k x y g h P := by
  intro hp o₁ g₁ o₂ h₁ hrun hrun' _ _ _ _ _
  cases hx.symm.trans hrun
  cases hy.symm.trans hrun'
  exact ⟨ho, hp.fits.within⟩

theorem matches_pure (a : α) : Matches σ r r' settings k (pure a) (pure a) g h P :=
  matches_of_eq (runOn_pure a g) (runOn_pure a h) rfl

theorem matches_throw (e e' : DocError) :
    Matches σ r r' settings k (throw e : Resolving α) (throw e') g h P :=
  matches_of_eq (runOn_throw e g) (runOn_throw e' h) rfl

theorem matches_left (hx : x.runOn g = (.error e, g'))
    (he : ¬e.IsLeftOut settings := by rintro ⟨⟩) : Matches σ r r' settings k x y g h P := by
  intro _ o g₁ o' h₁ hrun _ _ _ ho _ _
  cases hx.symm.trans hrun
  exact absurd (ho e rfl) he

theorem matches_right (hy : y.runOn h = (.error e, h'))
    (he : ¬e.IsLeftOut settings := by rintro ⟨⟩) : Matches σ r r' settings k x y g h P := by
  intro _ o g₁ o' h₁ _ hrun' _ _ _ ho' _
  cases hy.symm.trans hrun'
  exact absurd (ho' e rfl) he

theorem matches_endless_left (hx : x = throw .endless) : Matches σ r r' settings k x y g h P := by
  subst hx
  exact matches_left (runOn_throw _ g)

/-- The steps of the second run are used up. -/
theorem matches_endless_right (hy : y = throw .endless) : Matches σ r r' settings k x y g h P := by
  subst hy
  exact matches_right (runOn_throw _ h)

theorem matches_get_bind {f f' : Resolver → Resolving β}
    (hf : Matches σ r r' settings k (f g) (f' h) g h P) :
    Matches σ r r' settings k (get >>= f) (get >>= f') g h P := hf

/-- A value is changed at the end. -/
theorem matches_map (hxy : Matches σ r r' settings k x y g h P) (f : α → β) :
    Matches σ r r' settings k (x >>= fun a => pure (f a)) (y >>= fun a => pure (f a)) g h P := by
  have hmap : ∀ {x : Resolving α} {g : Resolver} {o : Except DocError β} {g' : Resolver},
      (x >>= fun a => pure (f a)).runOn g = (o, g') →
      ∃ o₁, x.runOn g = (o₁, g') ∧ o = o₁.map f := by
    intro x g o g' hrun
    rcases hfirst : x.runOn g with ⟨e | a, g₁⟩
    · cases (runOn_bind_error _ hfirst).symm.trans hrun
      exact ⟨_, rfl, rfl⟩
    · cases (runOn_bind_ok _ hfirst).symm.trans hrun
      exact ⟨_, rfl, rfl⟩
  have hsettled : ∀ {o : Except DocError α}, Settled settings (o.map f) → Settled settings o := by
    rintro (e | a) ho e' he'
    · cases he'
      exact ho e rfl
    · cases he'
  intro hp o g' o' h' hrun hrun' hgain hgain' ho ho' hin'
  obtain ⟨o₁, hfirst, rfl⟩ := hmap hrun
  obtain ⟨o₁', hfirst', rfl⟩ := hmap hrun'
  obtain ⟨hsame, hin⟩ := hxy hp _ _ _ _ hfirst hfirst' hgain hgain' (hsettled ho) (hsettled ho')
    hin'
  have htoOption : ∀ o : Except DocError α, (o.map f).toOption = o.toOption.map f := by
    rintro (e | a) <;> rfl
  exact ⟨by rw [htoOption, htoOption, hsame], hin⟩

/-- What is known of the registry and of the outcome at the end is known after the first part. -/
theorem settled_first {f : α → Resolving β} (hadd : ∀ a, Enlarges (f a))
    {o : Except DocError β} (hfirst : x.runOn g = (o₁, g₁)) (hrun : (x >>= f).runOn g = (o, g'))
    (hgain : g'.registry.Gains r) (ho : Settled settings o) :
    g₁.registry.Gains r ∧ Settled settings o₁ := by
  cases o₁ with
  | error e =>
    cases (runOn_bind_error f hfirst).symm.trans hrun
    refine ⟨hgain, fun e' he' => ?_⟩
    cases he'
    exact ho e rfl
  | ok a =>
    have hlater := hadd a g₁
    rw [(runOn_bind_ok f hfirst).symm.trans hrun] at hlater
    exact ⟨hlater.trans hgain, settled_ok a⟩

theorem within_first {f : α → Resolving β} (hx : Settles r settings x g P F φ)
    (hret : ∀ a g₁, Onward r settings g g₁ → φ g₁ a → Retains r settings (f a) g₁ P)
    (hg : Steady r settings g) (hlinked : Linked r settings g P)
    {o : Except DocError β} (hfirst : x.runOn g = (o₁, g₁)) (hrun : (x >>= f).runOn g = (o, g'))
    (hgain₁ : g₁.registry.Gains r) (hgain : g'.registry.Gains r) (ho : Settled settings o) :
    g₁.Within g' := by
  cases o₁ with
  | error e =>
    cases (runOn_bind_error f hfirst).symm.trans hrun
    exact .refl _
  | ok a =>
    obtain ⟨hon, -, hval⟩ := (hx hg hlinked _ _ hfirst hgain₁).1 a rfl
    exact hret a g₁ hon hval hon.steady (hlinked.of_building hon.ext.building) _ _
      ((runOn_bind_ok f hfirst).symm.trans hrun) hgain ho

theorem matches_bind {f f' : α → Resolving β} (hxy : Matches σ r r' settings k x y g h P)
    (hx : Settles r settings x g P F φ) (hy : Settles r' settings y h (Renumbered σ P) F' φ')
    (hadd : ∀ a, Enlarges (f a)) (hadd' : ∀ a, Enlarges (f' a))
    (hret : ∀ a h₁, Onward r' settings h h₁ → φ' h₁ a →
      Retains r' settings (f' a) h₁ (Renumbered σ P))
    (hf : ∀ a g₁ h₁, Onward r settings g g₁ → Onward r' settings h h₁ → φ g₁ a → φ' h₁ a →
      Matches σ r r' settings k (f a) (f' a) g₁ h₁ P) :
    Matches σ r r' settings k (x >>= f) (y >>= f') g h P := by
  intro hp o g' o' h' hrun hrun' hgain hgain' ho ho' hin'
  cases hfirst : x.runOn g with
  | mk o₁ g₁ =>
    cases hfirst' : y.runOn h with
    | mk o₁' h₁ =>
      obtain ⟨hgain₁, ho₁⟩ := settled_first hadd hfirst hrun hgain ho
      obtain ⟨hgain₁', ho₁'⟩ := settled_first hadd' hfirst' hrun' hgain' ho'
      have hin₁' : h₁.Within k := (within_first hy hret hp.steady' hp.linked' hfirst' hrun'
        hgain₁' hgain' ho').trans hin'
      obtain ⟨hsame, hin₁⟩ := hxy hp _ _ _ _ hfirst hfirst' hgain₁ hgain₁' ho₁ ho₁' hin₁'
      cases o₁ with
      | error e =>
        cases o₁' with
        | ok a => cases hsame
        | error e' =>
          cases (runOn_bind_error f hfirst).symm.trans hrun
          cases (runOn_bind_error f' hfirst').symm.trans hrun'
          exact ⟨rfl, hin₁⟩
      | ok a =>
        cases o₁' with
        | error e => cases hsame
        | ok a' =>
          obtain rfl := Option.some.inj hsame
          rw [runOn_bind_ok f hfirst] at hrun
          rw [runOn_bind_ok f' hfirst'] at hrun'
          obtain ⟨hon, -, hval⟩ := (hx hp.steady hp.linked _ _ hfirst hgain₁).1 a rfl
          obtain ⟨hon', -, hval'⟩ := (hy hp.steady' hp.linked' _ _ hfirst' hgain₁').1 a rfl
          exact hf a g₁ h₁ hon hon' hval hval' (hp.onward hon hon' hin₁ hin₁') _ _ _ _ hrun
            hrun' hgain hgain' ho ho' hin'

/-- The second computation goes through other values, which are got from those of the first. -/
theorem matches_foldlM {γ δ : Type} {f : α → γ → Resolving α} {f' : α → δ → Resolving α}
    {G : γ → Prop} {G' : δ → Prop} (j : γ → δ) (l : List γ) (hadd : ∀ a c, Enlarges (f a c))
    (hadd' : ∀ a c, Enlarges (f' a c))
    (hset : ∀ c ∈ l, ∀ a g, φ g a → Settles r settings (f a c) g P (G c) φ)
    (hset' : ∀ c ∈ l.map j, ∀ a h, φ' h a →
      Settles r' settings (f' a c) h (Renumbered σ P) (G' c) φ')
    (hf : ∀ c ∈ l, ∀ a g h, φ g a → φ' h a →
      Matches σ r r' settings k (f a c) (f' a (j c)) g h P) {a : α} (ha : φ g a) (ha' : φ' h a) :
    Matches σ r r' settings k (l.foldlM f a) ((l.map j).foldlM f' a) g h P := by
  induction l generalizing g h a with
  | nil => exact matches_pure a
  | cons c l ih =>
    have hrest := fun d (hd : d ∈ l) => hset d (List.mem_cons_of_mem c hd)
    have hrest' := fun d (hd : d ∈ l.map j) => hset' d (List.mem_cons_of_mem (j c) hd)
    rw [List.map_cons, List.foldlM_cons, List.foldlM_cons]
    refine matches_bind (hf c List.mem_cons_self a g h ha ha') (hset c List.mem_cons_self a g ha)
      (hset' (j c) List.mem_cons_self a h ha') (fun a => enlarges_foldlM l hadd a)
      (fun a => enlarges_foldlM (l.map j) hadd' a) (fun b h₁ _ hb => ?_)
      fun b g₁ h₁ _ _ hb hb' => ?_
    · exact (settles_foldlM (l.map j) hadd' hrest' hb).retains
    · exact ih hrest hrest' (fun d hd => hf d (List.mem_cons_of_mem c hd)) hb hb'

end Resolving

/-! ### Building definitions -/

namespace Resolver

open Resolving

/-- A definition that cannot be built is given up, with the error of its right-hand side. -/
theorem runOn_buildDefinition_eq_error (hg : g.Sound) (hfresh : g.parsed.lookup id = none)
    (hout : id ∉ g.building) {body : Resolving Schema} (he : e.IsLeftOut settings)
    (hrun : (buildDefinition id d body).runOn g = (.error e, g')) :
    g.names.get? d.typeName = none ∧
      ∃ g₁, body.runOn ((g.claim id d.typeName).enter id) = (.error e, g₁) ∧
        g' = g₁.leave.release id d.typeName := by
  rcases runOn_buildDefinition hg hfresh hout body with ⟨e', hrefused⟩ | ⟨hn, hbuild⟩
  · cases hrefused.symm.trans hrun
    cases he
  rw [hbuild] at hrun
  rcases hbody : body.runOn ((g.claim id d.typeName).enter id) with ⟨e' | s, g₁⟩
  all_goals rw [hbody] at hrun
  · cases hrun
    exact ⟨hn, g₁, rfl, rfl⟩
  · cases hrun

/-- A declared type that is no alias is answered without a change, or built. -/
theorem runOn_definitionWith_cases (halias : d.isAlias = false) {o : Except DocError Schema}
    (hrun : (definitionWith (n + 1) id d).runOn g = (o, g')) :
    ((∃ s, o = .ok s) ∧ g' = g) ∨ (g.parsed.lookup id = none ∧ id ∉ g.building ∧
      (buildDefinition id d (resolveWith n d.type d.file)).runOn g = (o, g')) := by
  rw [definitionWith, halias, if_neg Bool.false_ne_true, runOn_get_bind] at hrun
  split at hrun
  · cases hrun
    exact .inl ⟨⟨_, rfl⟩, rfl⟩
  · next hfresh =>
    split at hrun
    · cases hrun
      exact .inl ⟨⟨_, rfl⟩, rfl⟩
    · next hout => exact .inr ⟨hfresh, by simpa using hout, hrun⟩

/-- What is settled with the numbers of the second registry is settled with those of the first. -/
theorem settles_renumbered {α : Type} (hσ : r.Renumbers σ settings r') (site : Site)
    {x : Resolving α} {φ : Resolver → α → Prop}
    (hx : Settles r' settings x h (Enters r' settings (site.renumber σ)) F φ)
    (hP : ∀ id v, Enters r settings site id v → P id v) :
    Settles r' settings x h (Renumbered σ P) F φ :=
  hx.entry fun _ _ he => hP _ _ ((hσ.enters_iff site).1 he)

/-- A type that is entered is on no circle, or it has its definition in the other state. -/
theorem Fits.enter (hg : g.Fits σ r settings k) (hbuilding : g'.building = g.building ++ [id])
    (hdefinitions : g'.definitions = g.definitions) (hparsed : g'.parsed = g.parsed)
    (hid : Circular r settings id → ∃ n, k.parsed.lookup (σ id) = some n) :
    g'.Fits σ r settings k := by
  refine ⟨⟨hdefinitions ▸ hg.within.definitions, hparsed ▸ hg.within.parsed⟩, fun b hb hc => ?_⟩
  rw [hbuilding] at hb
  rcases List.mem_append.1 hb with hb | hb
  · exact hg.covers b hb hc
  · obtain rfl := List.mem_singleton.1 hb
    exact hid hc

/-- A type is entered on the one side, and on the other as well. -/
theorem Paired.claim_enter (hσ : r.Renumbers σ settings r') (ho : Orderly r settings)
    (hp : Paired σ r r' settings k g h P) (hd : g.registry.types[id]? = some d)
    (hid : P id .reference) (hfree : g.names.get? d.typeName = none)
    (hsteady : Steady r' settings h₁) (hlinked : h₁.Linked r' settings (Leads r' settings (σ id)))
    (hfits : h₁.Fits (.refl TypeId) r' settings k)
    (hcovers : Circular r settings id → ∃ n, k.parsed.lookup (σ id) = some n) :
    Paired σ r r' settings k ((g.claim id d.typeName).enter id) h₁ (Leads r settings id) where
  steady := hp.steady.claim_enter hd hfree
  steady' := hsteady
  linked := (hp.linked.enter ho hid).of_building rfl
  linked' := hlinked.imp fun _ _ hl => hσ.leads_iff.2 hl
  fits := hp.fits.enter rfl rfl rfl hcovers
  fits' := hfits

section Definition

variable (hσ : r.Renumbers σ settings r') (ho : Orderly r settings) {n : Nat} {id : TypeId}
  {d : TypeDecl}
  (hbody : ∀ m g h, Matches σ r r' settings k (resolveWith n d.type d.file)
    (resolveWith m (d.type.renumber σ) d.file) g h (Enters r settings (.type d.type d.file)))

include hσ ho hbody

theorem within_of_not_built (hp : Paired σ r r' settings k g h P)
    (hd : g.registry.types[id]? = some d)
    (hd' : h.registry.types[σ id]? = some (d.renumber σ)) (hid : P id .reference)
    (hfails : Fails r settings (.symbol id)) (hfree : g.names.get? d.typeName = none)
    (hfree' : h.names.get? d.typeName = none)
    (hrun : (resolveWith n d.type d.file).runOn ((g.claim id d.typeName).enter id) =
      (.error e, g₁))
    (hrun' : (resolveWith m (d.type.renumber σ) d.file).runOn
      ((h.claim (σ id) d.typeName).enter (σ id)) = (.error e', h₁))
    (hgain : g₁.registry.Gains r) (hgain' : h₁.registry.Gains r') (he : e.IsLeftOut settings)
    (he' : e'.IsLeftOut settings) (hin : h₁.Within k) : g₁.WithinBy σ k := by
  have hcircular : ¬Circular r settings id := fun hc => ho.not_fails hc hfails
  have hfits : ((h.claim (σ id) d.typeName).enter (σ id)).Fits (.refl TypeId) r' settings k :=
    hp.fits'.enter rfl rfl rfl fun hc => absurd (hσ.circular_iff.1 hc) hcircular
  have hpaired := (hp.claim_enter hσ ho hd hid hfree (hp.steady'.claim_enter hd' hfree')
    ((hp.linked'.enter (hσ.orderly ho) (renumbered_apply hid)).of_building rfl) hfits
    fun hc => absurd hc hcircular).imp
    fun _ _ henters => ⟨d, hp.steady.registry.grows hd, henters⟩
  have hleft : ∀ {e : DocError}, e.IsLeftOut settings →
      Settled settings (.error e : Except DocError Schema) := by
    intro e he e' he'
    cases he'
    exact he
  exact (hbody m _ _ hpaired _ _ _ _ hrun hrun' hgain hgain' (hleft he) (hleft he') hin).2

variable (hk : Final r' settings k)

include hk

/-- **A definition is built alike.**  The final state has a definition of the type, which was built
by a run of its own; that run and this one have the same outcome. -/
theorem within_of_build (hp : Paired σ r r' settings k g h P) (hd : g.registry.types[id]? = some d)
    (hid : P id .reference) (hfree : g.names.get? d.typeName = none)
    (hdefined : ∃ n, k.parsed.lookup (σ id) = some n)
    (hrun : (resolveWith n d.type d.file).runOn ((g.claim id d.typeName).enter id) = (.ok s, g₁))
    (hgain : g₁.registry.Gains r) :
    (g₁.leave.store id d.typeName (Schema.ofDecl d s)).WithinBy σ k := by
  obtain ⟨name, hname⟩ := hdefined
  have hd' := hp.steady.registry.grows hd
  have hdσ := hσ.types_some hd'
  obtain ⟨d', m, s', h₁, h₂, hd₁, hsteady, hlinked, hrun', hgain', hdef, hin, hcovers⟩ :=
    hk.recorded hname
  cases hdσ.symm.trans hd₁
  have hfits : h₁.Fits (.refl TypeId) r' settings k := by
    have hon := ((settlesWith (hσ.orderly ho) m).resolve _ _ h₁).onward hsteady
      (hlinked.imp fun _ _ henters => ⟨_, hdσ, henters⟩) hrun' hgain' (settled_ok s')
    refine ⟨(hon.ext.within.trans hin).withinBy, fun b hb hc => ?_⟩
    rcases hcovers b hb hc with hparsed | ⟨hbuilding, -⟩
    · exact hparsed
    · rw [hk.idle] at hbuilding
      cases hbuilding
  have hpaired := (hp.claim_enter hσ ho hd hid hfree hsteady hlinked hfits
    fun _ => ⟨name, hname⟩).imp fun _ _ henters => ⟨d, hd', henters⟩
  obtain ⟨hsame, hin₁⟩ := hbody m _ h₁ hpaired _ _ _ _ hrun hrun' hgain hgain' (settled_ok s)
    (settled_ok s') hin
  obtain rfl := Option.some.inj hsame
  refine ⟨fun n' t ht => ?_, fun id' n' hn' => ?_⟩
  · change (g₁.definitions.insert d.typeName _).get? n' = some t at ht
    rw [Table.get?_insert] at ht
    split at ht
    · next heq =>
      cases ht
      exact heq ▸ hdef
    · exact hin₁.definitions ht
  · rcases lookup_of_store hn' with ⟨rfl, rfl⟩ | ⟨-, hn'⟩
    · rw [hname, hk.steady.name_of_lookup hname hdσ]
      rfl
    · exact hin₁.parsed hn'

/-- **A declared type is resolved alike.**  Whether it is left out is known from the declarations,
so it is left out in both runs or in none. -/
theorem matches_definitionWith (m : Nat) (hd : g.registry.types[id]? = some d)
    (hd' : h.registry.types[σ id]? = some (d.renumber σ))
    (hkept : settings.overrides.get? d.fullPath = none) :
    Matches σ r r' settings k (definitionWith (n + 1) id d)
      (definitionWith (m + 1) (σ id) (d.renumber σ)) g h (Enters r settings (.symbol id)) := by
  by_cases halias : d.isAlias = true
  · refine matches_intro fun hp => ?_
    have halias' : (d.renumber σ).isAlias = true := halias
    rw [definitionWith, definitionWith, if_pos halias, if_pos halias']
    exact (hbody m g h).imp fun _ _ henters =>
      .aliased (hp.steady.registry.grows hd) hkept halias henters
  · intro hp o g' o' h' hrun hrun' hgain hgain' hset hset' hin'
    have hown : d.isAlias = false := by simpa using halias
    have hown' : (d.renumber σ).isAlias = false := hown
    have hentered : Enters r settings (.symbol id) id .reference :=
      .symbol (hp.steady.registry.grows hd) hkept hown
    have hsettles := (settlesWith ho (n + 1)).definition id d g hd hkept hp.steady hp.linked o g'
      hrun hgain
    have hsettles' := settles_renumbered hσ (.symbol id) ((settlesWith (hσ.orderly ho)
      (m + 1)).definition (σ id) (d.renumber σ) h hd' hkept) (fun _ _ henters => henters) hp.steady'
      hp.linked' o' h' hrun' hgain'
    cases o with
    | ok s =>
      obtain ⟨-, hnot, -, hs⟩ := hsettles.1 s rfl
      cases o' with
      | error e =>
        have hfails := (hsettles'.2 e rfl (hset' e rfl)).2
        exact absurd ((hσ.fails_iff (.symbol id)).1 hfails) hnot
      | ok s' =>
        obtain ⟨hon', -, -, hs'⟩ := hsettles'.1 s' rfl
        obtain ⟨rfl, -⟩ := hs hown
        obtain ⟨rfl, hhas⟩ := hs' hown
        refine ⟨rfl, ?_⟩
        rcases runOn_definitionWith_cases hown hrun with ⟨-, rfl⟩ | ⟨hfresh, hout, hbuild⟩
        · exact hp.fits.within
        obtain ⟨hfree, b, g₁, hrunBody, -, rfl⟩ :=
          runOn_buildDefinition_eq_ok hp.steady.sound hfresh hout hbuild
        refine within_of_build hσ ho hbody hk hp hd hentered hfree ?_ hrunBody hgain
        rcases hhas with ⟨name, hname⟩ | ⟨hbuilding, hc⟩
        · exact ⟨name, hin'.parsed hname⟩
        · exact hp.fits'.covers (σ id) (hon'.ext.building ▸ hbuilding) hc
    | error e =>
      have hfails := (hsettles.2 e rfl (hset e rfl)).2
      cases o' with
      | ok s' => exact absurd (hσ.fails hfails) (hsettles'.1 s' rfl).2.1
      | error e' =>
        rcases runOn_definitionWith_cases hown hrun with ⟨⟨_, hok⟩, -⟩ | ⟨hfresh, hout, hbuild⟩
        · cases hok
        rcases runOn_definitionWith_cases hown' hrun' with
          ⟨⟨_, hok⟩, -⟩ | ⟨hfresh', hout', hbuild'⟩
        · cases hok
        obtain ⟨hfree, g₁, hrunBody, rfl⟩ :=
          runOn_buildDefinition_eq_error hp.steady.sound hfresh hout (hset e rfl) hbuild
        obtain ⟨hfree', h₁, hrunBody', rfl⟩ :=
          runOn_buildDefinition_eq_error hp.steady'.sound hfresh' hout' (hset' e' rfl) hbuild'
        have hin := within_of_not_built hσ ho hbody hp hd hd' hentered hfails hfree hfree'
          hrunBody hrunBody' hgain hgain' (hset e rfl) (hset' e' rfl)
          ⟨hin'.definitions, hin'.parsed⟩
        exact ⟨rfl, hin.definitions, hin.parsed⟩

end Definition

/-! ### Leaves -/

theorem matches_builtinSchema (name : String) :
    Matches σ r r' settings k (builtinSchema name) (builtinSchema name) g h P := by
  unfold builtinSchema
  split
  · exact matches_pure _
  · exact matches_throw _ _

/-- A type that is looked up is the same in both states, as both look-ups are certain. -/
theorem matches_declaredType (hσ : r.Renumbers σ settings r') (ho : Orderly r settings)
    {t : TypeExpr} {β : Type}
    {f f' : Option TypeId → Resolving β} (hadd : ∀ id, Enlarges (f id))
    (hadd' : ∀ id, Enlarges (f' id)) (hnone : f none = throw e) (hnone' : f' none = throw e')
    (hf : ∀ id g₁ h₁, r.Finds file t id → Onward r settings g g₁ → Onward r' settings h h₁ →
      Matches σ r r' settings k (f (some id)) (f' (some (σ id))) g₁ h₁ P)
    (he : ¬e.IsLeftOut settings := by rintro ⟨⟩) (he' : ¬e'.IsLeftOut settings := by rintro ⟨⟩) :
    Matches σ r r' settings k (declaredType t file >>= f)
      (declaredType (t.renumber σ) file >>= f') g h P := by
  intro hp o g' o' h' hrun hrun' hgain hgain' hset hset' hin'
  rw [runOn_bind_ok _ (runOn_declaredType t file g)] at hrun
  rw [runOn_bind_ok _ (runOn_declaredType (t.renumber σ) file h)] at hrun'
  have hgain₁ : (Registry.declaredOf file t g.registry).2.Gains r := by
    have hlater := hadd (Registry.declaredOf file t g.registry).1
      { g with registry := (Registry.declaredOf file t g.registry).2 }
    rw [hrun] at hlater
    exact hlater.trans hgain
  have hgain₁' : (Registry.declaredOf file (t.renumber σ) h.registry).2.Gains r' := by
    have hlater := hadd' (Registry.declaredOf file (t.renumber σ) h.registry).1
      { h with registry := (Registry.declaredOf file (t.renumber σ) h.registry).2 }
    rw [hrun'] at hlater
    exact hlater.trans hgain'
  cases hid : (Registry.declaredOf file t g.registry).1 with
  | none =>
    rw [hid, hnone, runOn_throw] at hrun
    cases hrun
    exact absurd (hset e rfl) he
  | some id =>
    cases hid' : (Registry.declaredOf file (t.renumber σ) h.registry).1 with
    | none =>
      rw [hid', hnone', runOn_throw] at hrun'
      cases hrun'
      exact absurd (hset' e' rfl) he'
    | some id' =>
      rw [hid] at hrun
      rw [hid'] at hrun'
      have hfinds : r.Finds file t id := ⟨g.registry, hp.steady.started, hgain₁, hid⟩
      have hfinds' : r'.Finds file (t.renumber σ) id' :=
        ⟨h.registry, hp.steady'.started, hgain₁', hid'⟩
      cases (hσ.orderly ho).certain ((hσ.finds _ _ _).2 hfinds) hfinds'
      have hon := hp.steady.onward_gains (Registry.gains_declaredOf file t g.registry) hgain₁
      have hon' := hp.steady'.onward_gains
        (Registry.gains_declaredOf file (t.renumber σ) h.registry) hgain₁'
      have hpaired := hp.onward hon hon'
        ⟨hp.fits.within.definitions, hp.fits.within.parsed⟩
        ⟨hp.fits'.within.definitions, hp.fits'.within.parsed⟩
      exact hf id _ _ hfinds hon hon' hpaired _ _ _ _ hrun hrun' hgain hgain' hset hset' hin'

theorem runOn_overrideWith_none (hkey : g.settings.overrides.get? key = none) (n : Nat)
    (file : FileId) :
    (overrideWith (n + 1) key file).runOn g = (.ok none, g) := by
  rw [overrideWith, runOn_get_bind, hkey]
  rfl

/-- A type that the settings replace is the replacement, and any other is as without settings. -/
theorem matches_override {key' : String}
    (hkeys : settings.overrides.get? key' = settings.overrides.get? key)
    (hover : Matches σ r r' settings k (overrideWith n key file) (overrideWith m key' file) g h P)
    (hxy : settings.overrides.get? key = none → Matches σ r r' settings k x y g h P) :
    Matches σ r r' settings k
      (do match ← overrideWith n key file with
        | some s => return s
        | none => x)
      (do match ← overrideWith m key' file with
        | some s => return s
        | none => y) g h P := by
  refine matches_intro fun hp => ?_
  cases hkey : settings.overrides.get? key with
  | none =>
    -- the settings are asked in vain, and the states stay as they are
    cases n with
    | zero =>
      rw [overrideWith]
      exact matches_left rfl
    | succ n =>
      cases m with
      | zero =>
        have hzero : overrideWith 0 key' file = throw .endless := by rw [overrideWith]
        rw [hzero]
        exact matches_right rfl
      | succ m =>
        intro hp o g' o' h' hrun hrun'
        rw [runOn_bind_ok _ (runOn_overrideWith_none (hp.steady.configured ▸ hkey) n file)]
          at hrun
        rw [runOn_bind_ok _ (runOn_overrideWith_none
          (hp.steady'.configured ▸ hkeys.trans hkey) m file)] at hrun'
        exact hxy hkey hp o g' o' h' hrun hrun'
  | some text =>
    have hsome : ∀ {key : String} {n : Nat} {x : Resolving Schema} {g : Resolver},
        settings.overrides.get? key = some text → g.settings = settings →
        (do match ← overrideWith n key file with
          | some s => return s
          | none => x : Resolving Schema).runOn g =
        (overrideWith n key file >>= fun o => pure (o.getD default)).runOn g := by
      intro key n x g hkey hset
      rcases hrun : (overrideWith n key file).runOn g with ⟨e | s, g₁⟩
      · rw [runOn_bind_error _ hrun, runOn_bind_error _ hrun]
      rw [runOn_bind_ok _ hrun, runOn_bind_ok _ hrun]
      cases s with
      | some s => rfl
      | none =>
        have hnone := (get?_of_overrideWith hrun).1
        rw [hset, hkey] at hnone
        cases hnone
    intro hp o g' o' h' hrun hrun'
    rw [hsome hkey hp.steady.configured] at hrun
    rw [hsome (hkeys.trans hkey) hp.steady'.configured] at hrun'
    exact matches_map hover _ hp o g' o' h' hrun hrun'

theorem matches_passThrough (hσ : r.Renumbers σ settings r') (ho : Orderly r settings)
    {fields fields' : Resolving StructParts} (hid : P id .embedding)
    (hfields : ∀ g h, Matches σ r r' settings k fields fields' g h (Leads r settings id)) :
    Matches σ r r' settings k (passThrough id fields) (passThrough (σ id) fields') g h P := by
  intro hp o g' o' h' hrun hrun' hgain hgain' hset hset' hin'
  have hcircular := hp.linked.apart hid
  have hcircular' := hp.linked'.apart (renumbered_apply hid)
  have hlinked' : ((h.noteOpen (σ id)).enter (σ id)).Linked r' settings
      (Leads r' settings (σ id)) :=
    (hp.linked'.enter (hσ.orderly ho) (renumbered_apply hid)).of_building rfl
  have hpaired : Paired σ r r' settings k ((g.noteOpen id).enter id)
      ((h.noteOpen (σ id)).enter (σ id)) (Leads r settings id) :=
    { steady := hp.steady.noteOpen_enter hcircular
      steady' := hp.steady'.noteOpen_enter hcircular'
      linked := (hp.linked.enter ho hid).of_building rfl
      linked' := hlinked'.imp fun _ _ hl => hσ.leads_iff.2 hl
      fits := hp.fits.enter rfl rfl rfl fun hc => absurd hc hcircular
      fits' := hp.fits'.enter rfl rfl rfl fun hc => absurd hc hcircular' }
  have hleave : ∀ {id : TypeId} {fields : Resolving StructParts} {g g' : Resolver}
      {o : Except DocError StructParts}, (passThrough id fields).runOn g = (o, g') →
      ∃ g₁, fields.runOn ((g.noteOpen id).enter id) = (o, g₁) ∧ g' = g₁.leave := by
    intro id fields g g' o hrun
    unfold passThrough at hrun
    rw [runOn_bind_ok _ (runOn_leaveOpen id g), runOn_whileBuilding] at hrun
    obtain ⟨hout, hstate⟩ := Prod.mk.inj hrun
    exact ⟨_, Prod.ext hout rfl, hstate.symm⟩
  obtain ⟨g₁, hrunFields, rfl⟩ := hleave hrun
  obtain ⟨h₁, hrunFields', rfl⟩ := hleave hrun'
  obtain ⟨hsame, hin⟩ := hfields _ _ hpaired _ _ _ _ hrunFields hrunFields' hgain hgain' hset hset'
    ⟨hin'.definitions, hin'.parsed⟩
  exact ⟨hsame, hin.definitions, hin.parsed⟩

/-! ### Fields -/

theorem state_addResolved (parts : StructParts) (f : Go.Field) (property : String)
    (o : Except DocError Schema) (g : Resolver) :
    ((addResolved parts f property o).runOn g).2 = g := by
  cases o with
  | ok s => rw [runOn_addResolved_ok]
  | error e =>
    by_cases he : e.IsLeftOut g.settings
    · rw [runOn_addResolved_leftOut he]
    · rw [runOn_addResolved_error he]

/-- **The tag of a field is read alike**, as the type path of the schema is the same. -/
theorem matches_addResolved (hσ : r.Renumbers σ settings r') (hk : Final r' settings k)
    (parts : StructParts) (f : Go.Field) (property : String) (hs : g.Vouches r settings s)
    (hs' : h.Vouches r' settings s) :
    Matches σ r r' settings k (addResolved parts f property (.ok s))
      (addResolved parts (Field.renumber σ f) property (.ok s)) g h P := by
  refine matches_intro fun hp => ?_
  have htypes : g.typePath? 2 s = h.typePath? 2 s :=
    calc g.typePath? 2 s = k.typePath? 2 s := hp.steady.typePath?_eq hσ hk.steady hp.fits hs 1
      _ = h.typePath? 2 s :=
        (hp.steady'.typePath?_eq (.refl settings r') hk.steady hp.fits' hs' 1).symm
  refine matches_of_eq (runOn_addResolved_ok s) (runOn_addResolved_ok s) ?_
  rw [complement_eq_of_typePath? htypes, hp.steady.configured, hp.steady'.configured]
  rfl

theorem matches_outcome_addResolved (hσ : r.Renumbers σ settings r') (hk : Final r' settings k)
    (parts : StructParts) (f : Go.Field) (property : String)
    (hxy : Matches σ r r' settings k x y g h P) (hkeeps : Keeps x g Backs)
    (hkeeps' : Keeps y h Backs)
    (hx : Settles r settings x g P F fun g' s => g'.Vouches r settings s)
    (hy : Settles r' settings y h (Renumbered σ P) F' fun h' s => h'.Vouches r' settings s) :
    Matches σ r r' settings k (do addResolved parts f property (← outcome x))
      (do addResolved parts (Field.renumber σ f) property (← outcome y)) g h P := by
  intro hp o g' o' h' hrun hrun' hgain hgain' hset hset' hin'
  -- an error of the type that is not looked away is one of the field
  have hfirst : ∀ {r : Filling} {f : Go.Field} {x : Resolving Schema} {g g' : Resolver}
      {o : Except DocError StructParts}, Keeps x g Backs → Steady r settings g →
      (do addResolved parts f property (← outcome x) : Resolving StructParts).runOn g = (o, g') →
      Settled settings o → ∃ o₁, x.runOn g = (o₁, g') ∧ Settled settings o₁ ∧
        (addResolved parts f property o₁).runOn g' = (o, g') ∧ g'.settings = settings := by
    intro r f x g g' o hkeeps hg hrun hset
    rw [runOn_bind_ok _ (runOn_outcome _ g)] at hrun
    have hext := (hkeeps hg.sound).1
    cases hrunX : x.runOn g with
    | mk o₁ g₁ =>
      rw [hrunX] at hrun hext
      have hstate := state_addResolved parts f property o₁ g₁
      rw [hrun] at hstate
      obtain rfl : g' = g₁ := hstate
      have hconfigured : g'.settings = settings := hext.settings.trans hg.configured
      refine ⟨o₁, rfl, fun e he => ?_, hrun, hconfigured⟩
      subst he
      by_contra hleft
      rw [runOn_addResolved_error (hconfigured ▸ hleft)] at hrun
      cases hrun
      exact hleft (hset e rfl)
  obtain ⟨o₁, hrunX, ho₁, hrun, hconfigured⟩ := hfirst hkeeps hp.steady hrun hset
  obtain ⟨o₂, hrunY, ho₂, hrun', hconfigured'⟩ := hfirst hkeeps' hp.steady' hrun' hset'
  obtain ⟨hsame, hin⟩ := hxy hp _ _ _ _ hrunX hrunY hgain hgain' ho₁ ho₂ hin'
  cases o₁ with
  | ok s =>
    cases o₂ with
    | error e => cases hsame
    | ok s' =>
      obtain rfl := Option.some.inj hsame
      obtain ⟨hon, -, hs⟩ := (hx hp.steady hp.linked _ _ hrunX hgain).1 s rfl
      obtain ⟨hon', -, hs'⟩ := (hy hp.steady' hp.linked' _ _ hrunY hgain').1 s rfl
      exact matches_addResolved hσ hk parts f property hs hs' (hp.onward hon hon' hin hin')
        _ _ _ _ hrun hrun' hgain hgain' hset hset' hin'
  | error e =>
    cases o₂ with
    | ok s => cases hsame
    | error e' =>
      rw [runOn_addResolved_leftOut (hconfigured.symm ▸ ho₁ e rfl)] at hrun
      rw [runOn_addResolved_leftOut (hconfigured'.symm ▸ ho₂ e' rfl)] at hrun'
      cases hrun
      cases hrun'
      exact ⟨rfl, hin⟩

theorem matches_fieldPart (hσ : r.Renumbers σ settings r') (hk : Final r' settings k)
    (parts : StructParts) (f : Go.Field) (hkeeps : Keeps x g Backs) (hkeeps' : Keeps y h Backs)
    (hxy : Field.isHidden f = false → Field.customSchema? f = .ok none →
      Matches σ r r' settings k x y g h P ∧
        Settles r settings x g P F (fun g' s => g'.Vouches r settings s) ∧
        Settles r' settings y h (Renumbered σ P) F' fun h' s => h'.Vouches r' settings s) :
    Matches σ r r' settings k (fieldPart parts f x) (fieldPart parts (Field.renumber σ f) y) g h
      P := by
  refine matches_intro fun hp => ?_
  unfold fieldPart
  rw [Field.isHidden_renumber]
  split
  · exact matches_pure parts
  · next hidden =>
    refine matches_get_bind ?_
    rw [hp.steady.configured, hp.steady'.configured, Field.propertyName?_renumber,
      Field.customSchema?_renumber]
    split
    · exact matches_pure parts
    · next property _ =>
      cases hc : Field.customSchema? f with
      | error e => exact matches_left rfl (Field.tagFails_customSchema? f e hc).not_isLeftOut
      | ok o =>
        cases o with
        | some s =>
          exact matches_addResolved hσ hk parts f property (Field.allRefs_customSchema? hc)
            (Field.allRefs_customSchema? hc)
        | none =>
          obtain ⟨hmatches, hx, hy⟩ := hxy (by simpa using hidden) hc
          exact matches_outcome_addResolved hσ hk parts f property hmatches hkeeps hkeeps'
            hx hy

/-! ### The recursion -/

/-- The laws of the functions that resolve types, for a given number of steps of the first run. -/
structure MatchesWith (σ : Equiv.Perm TypeId) (r r' : Filling) (settings : Settings)
    (k : Resolver) (n : Nat) : Prop where
  resolve : ∀ m t file g h, Matches σ r r' settings k (resolveWith n t file)
    (resolveWith m (t.renumber σ) file) g h (Enters r settings (.type t file))
  text : ∀ m text file g h P, (∀ t, Go.typeOfText (Text.trim text) = .ok t →
      ∀ id v, Enters r settings (.type t file) id v → P id v) →
    Matches σ r r' settings k (textWith n text file) (textWith m text file) g h P
  override : ∀ m key key' file g h P, settings.overrides.get? key' = settings.overrides.get? key →
    (∀ t, settings.replacement? key = some t →
      ∀ id v, Enters r settings (.type t file) id v → P id v) →
    Matches σ r r' settings k (overrideWith n key file) (overrideWith m key' file) g h P
  named : ∀ m t file g h, Matches σ r r' settings k (namedWith n t file)
    (namedWith m (t.renumber σ) file) g h (Enters r settings (.type t file))
  symbol : ∀ m id g h, Matches σ r r' settings k (symbolWith n id) (symbolWith m (σ id)) g h
    (Enters r settings (.symbol id))
  definition : ∀ m id d g h, g.registry.types[id]? = some d →
    h.registry.types[σ id]? = some (d.renumber σ) → settings.overrides.get? d.fullPath = none →
    Matches σ r r' settings k (definitionWith n id d) (definitionWith m (σ id) (d.renumber σ)) g h
      (Enters r settings (.symbol id))
  struct : ∀ m fields file g h, Matches σ r r' settings k (structWith n fields file)
    (structWith m (TypeExpr.renumberFields σ fields) file) g h
    (Enters r settings (.fields fields file))
  field : ∀ m parts f file g h, g.VouchesParts r settings parts →
    h.VouchesParts r' settings parts →
    Matches σ r r' settings k (fieldWith n parts f file)
      (fieldWith m parts (Field.renumber σ f) file) g h (Enters r settings (.field f file))
  namedField : ∀ m parts f file g h P, (Field.isHidden f = false →
      Field.customSchema? f = .ok none →
      ∀ id v, Enters r settings (.type f.type file) id v → P id v) →
    Matches σ r r' settings k (namedFieldWith n parts f file)
      (namedFieldWith m parts (Field.renumber σ f) file) g h P
  embedded : ∀ m parts f file g h, f.names = [] → h.VouchesParts r' settings parts →
    Matches σ r r' settings k (embeddedWith n parts f file)
      (embeddedWith m parts (Field.renumber σ f) file) g h (Enters r settings (.field f file))
  embeddedStruct : ∀ m parts id d fields readOnly g h P, h.VouchesParts r' settings parts →
    r.types[id]? = some d → d.type = .struct fields → P id .embedding →
    (readOnly = true → ∀ i v, Enters r settings (.symbol id) i v → P i v) →
    Matches σ r r' settings k (embeddedStructWith n parts id d fields readOnly)
      (embeddedStructWith m parts (σ id) (d.renumber σ) (TypeExpr.renumberFields σ fields) readOnly)
      g h P

section Step

variable {n : Nat} (ih : MatchesWith σ r r' settings k n)

include ih

variable (hσ : r.Renumbers σ settings r')

include hσ

theorem matches_symbolWith (m : Nat) (id : TypeId) (g h : Resolver) :
    Matches σ r r' settings k (symbolWith (n + 1) id) (symbolWith m (σ id)) g h
      (Enters r settings (.symbol id)) := by
  obtain _ | m := m
  · exact matches_endless_right (by rw [symbolWith])
  refine matches_intro fun hp => ?_
  rw [symbolWith, symbolWith]
  refine matches_get_bind ?_
  cases hd : g.registry.types[id]? with
  | none => exact matches_left rfl
  | some d =>
    cases hd' : h.registry.types[σ id]? with
    | none => exact matches_right rfl
    | some d' =>
      have hdr := hp.steady.registry.grows hd
      cases (hσ.types_some hdr).symm.trans (hp.steady'.registry.grows hd')
      refine matches_override rfl
        (ih.override m _ _ d.file g h _ rfl fun t ht i v h => .replacedSymbol hdr ht h)
        fun hkept => ?_
      have hdefinition := ih.definition m id d g h hd hd' hkept
      rw [show (d.renumber σ).type = d.type.renumber σ from rfl]
      cases d.type with
      | ident name =>
        rw [TypeExpr.renumber, show (d.renumber σ).enums = d.enums from rfl]
        dsimp only
        split
        · exact matches_builtinSchema _
        · exact hdefinition
      | _ => exact hdefinition

variable (ho : Orderly r settings)

include ho

theorem matches_declared_symbol (m : Nat) (t : TypeExpr) (file : FileId) (g h : Resolver)
    (hkept : settings.overrides.get? t.text = none) :
    Matches σ r r' settings k (declaredType t file >>= symbolOf n t)
      (declaredType (t.renumber σ) file >>= symbolOf m (t.renumber σ)) g h
      (Enters r settings (.type t file)) := by
  refine matches_declaredType hσ ho (enlarges_symbolOf n t) (enlarges_symbolOf m (t.renumber σ))
    rfl rfl fun id g₁ h₁ hid _ _ => ?_
  exact (ih.symbol m id g₁ h₁).imp fun _ _ h => .declared hkept hid h

theorem matches_resolveWith (m : Nat) (t : TypeExpr) (file : FileId) (g h : Resolver) :
    Matches σ r r' settings k (resolveWith (n + 1) t file) (resolveWith m (t.renumber σ) file) g h
      (Enters r settings (.type t file)) := by
  obtain _ | m := m
  · exact matches_endless_right (by rw [resolveWith])
  cases t <;> rw [TypeExpr.renumber, resolveWith, resolveWith]
  case ident name =>
    split
    · exact matches_builtinSchema name
    · exact ih.named m (.ident name) file g h
  case qualified package name => exact ih.named m (.qualified package name) file g h
  case generic base args =>
    have hkeys := hσ.replaced (.generic base args)
    have hdeclared := matches_declared_symbol ih hσ ho m (.generic base args) file g h
    rw [TypeExpr.renumber] at hkeys hdeclared
    exact matches_override hkeys (ih.override m _ _ file g h _ hkeys
      fun t ht id v h => .replaced ht h) hdeclared
  case pointer elem => exact (ih.resolve m elem file g h).imp fun _ _ h => .pointer h
  case slice elem => exact matches_map ((ih.resolve m elem file g h).imp fun _ _ h => .slice h) _
  case array elem => exact matches_map ((ih.resolve m elem file g h).imp fun _ _ h => .array h) _
  case map key value => exact matches_map ((ih.resolve m value file g h).imp fun _ _ h => .map h) _
  case struct fields =>
    exact matches_map ((ih.struct m fields file g h).imp fun _ _ h => .struct h) _
  case resolved id => exact (ih.symbol m id g h).imp fun _ _ h => .resolved h
  case interface => exact matches_pure _
  case func | chan | tilde | union => exact matches_throw _ _

theorem matches_fieldWith (m : Nat) (parts : StructParts) (f : Go.Field) (file : FileId)
    (g h : Resolver) (hparts : g.VouchesParts r settings parts)
    (hparts' : h.VouchesParts r' settings parts) :
    Matches σ r r' settings k (fieldWith (n + 1) parts f file)
      (fieldWith m parts (Field.renumber σ f) file) g h (Enters r settings (.field f file)) := by
  obtain _ | m := m
  · exact matches_endless_right (by rw [fieldWith])
  have hnames : (Field.renumber σ f).names = f.names := rfl
  rw [fieldWith, fieldWith, hnames]
  split
  · next hnone => exact ih.embedded m parts f file g h (by simpa using hnone) hparts'
  have henters : ∀ {r : Filling} {f : Go.Field},
      ∀ name ∈ f.names.filter Text.isExported, Field.isHidden f = false →
      Field.customSchema? f = .ok none → ∀ id v, Enters r settings (.type f.type file) id v →
      Enters r settings (.field f file) id v := by
    intro r f name hname hf hc id v h
    obtain ⟨hmem, hexported⟩ := List.mem_filter.1 hname
    exact .typed ⟨hf, hc, .inr ⟨name, hmem, hexported⟩⟩ h
  have hsettles : ∀ {r : Filling} {f : Go.Field}, Orderly r settings →
      ∀ n, ∀ name ∈ f.names.filter Text.isExported, ∀ p g, g.VouchesParts r settings p →
      Settles r settings (namedFieldWith n p { f with names := [name] } file) g
        (Enters r settings (.field f file)) False fun g' p => g'.VouchesParts r settings p :=
    fun {r f} ho n name hname p g hp => ((settlesWith ho n).namedField p
      { f with names := [name] } file g _ hp (henters (f := f) name hname)).value fun _ _ h => h.1
  have hfold := matches_foldlM (σ := σ) (r := r) (k := k) (fun name => name)
    (f.names.filter Text.isExported) (fun p name => (enlargesWith n).namedField p _ file)
    (fun p name => (enlargesWith m).namedField p _ file) (hsettles ho n)
    (fun name hname p h hp => settles_renumbered hσ (.field f file)
      (hsettles (hσ.orderly ho) m name (by rwa [List.map_id'] at hname) p h hp) fun _ _ h => h)
    (fun name hname p g h _ _ => ih.namedField m p { f with names := [name] } file g h _
      (henters (f := f) name hname)) hparts hparts'
  rwa [List.map_id'] at hfold

theorem matches_embeddedWith (m : Nat) (parts : StructParts) (f : Go.Field) (file : FileId)
    (g h : Resolver) (hnames : f.names = []) (hparts : h.VouchesParts r' settings parts) :
    Matches σ r r' settings k (embeddedWith (n + 1) parts f file)
      (embeddedWith m parts (Field.renumber σ f) file) g h (Enters r settings (.field f file)) := by
  obtain _ | m := m
  · exact matches_endless_right (by rw [embeddedWith])
  refine matches_intro fun hp => ?_
  rw [embeddedWith_succ, embeddedWith_succ, Field.isHidden_renumber]
  split
  · exact matches_pure _
  · next hidden =>
    refine matches_get_bind ?_
    rw [hp.steady.configured, hp.steady'.configured, Field.propertyName?_renumber]
    split
    · exact ih.namedField m parts f file g h _ fun hf hc _ _ h => .typed ⟨hf, hc, .inl hnames⟩ h
    · next hname =>
      rw [Field.target_renumber]
      refine matches_declaredType hσ ho (enlarges_embeddedOf n parts f file)
        (enlarges_embeddedOf m parts (Field.renumber σ f) file) rfl rfl
        fun id g₁ h₁ hfound hon hon' => matches_get_bind ?_
      cases hd : g₁.registry.types[id]? with
      | none => exact matches_left rfl
      | some d =>
        cases hd' : h₁.registry.types[σ id]? with
        | none => exact matches_right rfl
        | some d' =>
          have hdr := hon.steady.registry.grows hd
          cases (hσ.types_some hdr).symm.trans (hon'.steady.registry.grows hd')
          have hproperty := ih.namedField m parts { f with names := [d.name] } file g₁ h₁
            (Enters r settings (.field f file)) fun hf hc _ _ h =>
              .typed ⟨hf, hc, .inl hnames⟩ h
          dsimp only
          rw [show (d.renumber σ).type = d.type.renumber σ from rfl]
          cases htype : d.type with
          | struct fields =>
            rw [TypeExpr.renumber]
            have hembeds : Field.Embeds r settings f file id := ⟨hnames, by simpa using hidden,
              by simpa using hname, hfound, d, fields, hdr, htype⟩
            exact ih.embeddedStruct m parts id d fields _ g₁ h₁ _
              (hon'.vouchesParts hparts) hdr htype (.embedded hembeds)
              fun hro _ _ h => .kept hembeds hro h
          | _ => exact hproperty

theorem matches_embedFields (m : Nat) {parts : StructParts} {fields : List Go.Field}
    (readOnly : Bool) (hd : r.types[id]? = some d)
    (htype : d.type = .struct fields) (hid : P id .embedding) :
    Matches σ r r' settings k (embedFields parts id readOnly (structWith n fields d.file))
      (embedFields parts (σ id) readOnly
        (structWith m (TypeExpr.renumberFields σ fields) (d.renumber σ).file)) g h P := by
  refine matches_get_bind ?_
  by_cases hin : g.building.contains id = true
  · rw [if_pos hin]
    exact matches_left (runOn_throw _ _)
  by_cases hin' : h.building.contains (σ id) = true
  · rw [if_pos hin']
    exact matches_right (runOn_throw _ _)
  · rw [if_neg hin, if_neg hin']
    exact matches_map (matches_passThrough hσ ho hid fun g h =>
      (ih.struct m fields d.file g h).imp fun _ _ h => ⟨d, hd, htype ▸ .struct h⟩) _

theorem matches_embeddedStructWith (m : Nat) (parts : StructParts) (id : TypeId) (d : TypeDecl)
    (fields : List Go.Field) (readOnly : Bool) (g h : Resolver) (P : TypeId → Entry → Prop)
    (hparts : h.VouchesParts r' settings parts) (hd : r.types[id]? = some d)
    (htype : d.type = .struct fields) (hid : P id .embedding)
    (hkept : readOnly = true → ∀ i v, Enters r settings (.symbol id) i v → P i v) :
    Matches σ r r' settings k (embeddedStructWith (n + 1) parts id d fields readOnly)
      (embeddedStructWith m parts (σ id) (d.renumber σ) (TypeExpr.renumberFields σ fields) readOnly)
      g h P := by
  obtain _ | m := m
  · exact matches_endless_right (by rw [embeddedStructWith])
  have ho' := hσ.orderly ho
  have htype' : (d.renumber σ).type = .struct (TypeExpr.renumberFields σ fields) := by
    rw [TypeDecl.renumber, htype]
    rfl
  rw [embeddedStructWith_succ, embeddedStructWith_succ]
  by_cases hro : readOnly = true
  · rw [if_pos hro, if_pos hro]
    have hadd : ∀ n id (d : TypeDecl) fields (s : Schema), Enlarges (do
        let parts ← pure { parts with composed := parts.composed ++ [s] }
        embedFields parts id readOnly (structWith n fields d.file)) := fun n id d fields s =>
      enlarges_bind (enlarges_pure _) fun parts => enlarges_embedFields n parts id d fields readOnly
    refine matches_bind ((ih.symbol m id g h).imp (hkept hro))
      (((settlesWith ho n).symbol id g).entry (hkept hro))
      (settles_renumbered hσ (.symbol id) ((settlesWith ho' m).symbol (σ id) h) (hkept hro))
      (hadd n id d fields) (hadd m (σ id) (d.renumber σ) _) (fun s h₁ hon hs => ?_)
      fun s g₁ h₁ hon hon' hs hs' => ?_
    · exact (settles_embedFields (settlesWith ho' m) ho' readOnly
        ((hon.vouchesParts hparts).compose hs) (hσ.types_some hd) htype'
        (renumbered_apply hid)).retains
    · exact matches_embedFields ih hσ ho m readOnly hd htype hid
  · rw [if_neg hro, if_neg hro]
    exact matches_embedFields ih hσ ho m readOnly hd htype hid

variable (hk : Final r' settings k)

include hk

theorem MatchesWith.next : MatchesWith σ r r' settings k (n + 1) where
  resolve := matches_resolveWith ih hσ ho
  symbol := matches_symbolWith ih hσ
  field := matches_fieldWith ih hσ ho
  embedded := matches_embeddedWith ih hσ ho
  embeddedStruct := matches_embeddedStructWith ih hσ ho
  text m text file g h P hP := by
    obtain _ | m := m
    · exact matches_endless_right (by rw [textWith])
    rw [textWith, textWith]
    split
    · next t ht =>
      have hmatches := (ih.resolve m t file g h).imp (hP t ht)
      rwa [Go.unnumbered_typeOfText ht σ] at hmatches
    · exact matches_throw _ _
  override m key key' file g h P hkeys hP := by
    obtain _ | m := m
    · exact matches_endless_right (by rw [overrideWith])
    refine matches_intro fun hp => ?_
    rw [overrideWith, overrideWith]
    refine matches_get_bind ?_
    rw [hp.steady.configured, hp.steady'.configured, hkeys]
    split
    · exact matches_pure _
    · next text htext =>
      split
      · exact matches_throw _ _
      · refine matches_map (ih.text m text file g h P fun t ht => hP t ?_) _
        simp [Settings.replacement?, htext, ht, Except.toOption]
  named m t file g h := by
    obtain _ | m := m
    · exact matches_endless_right (by rw [namedWith])
    rw [namedWith, namedWith]
    refine matches_override (hσ.replaced t) (ih.override m _ _ file g h _ (hσ.replaced t)
      fun t ht id v h => .replaced ht h) fun hkept => matches_intro fun hp => matches_get_bind ?_
    rw [← isTime_eq hp.steady.registry, ← isTime_eq hp.steady'.registry, hσ.isTime]
    split
    · exact matches_pure _
    · exact matches_declared_symbol ih hσ ho m t file g h hkept
  definition m id d g h hd hd' hkept := by
    obtain _ | m := m
    · exact matches_endless_right (by rw [definitionWith])
    · exact matches_definitionWith hσ ho (fun m g h => ih.resolve m d.type d.file g h) hk m hd hd'
        hkept
  struct m fields file g h := by
    obtain _ | m := m
    · exact matches_endless_right (by rw [structWith])
    have hsettles : ∀ {r : Filling} {fields : List Go.Field}, Orderly r settings →
        ∀ n, ∀ f ∈ fields, ∀ p g, g.VouchesParts r settings p →
        Settles r settings (fieldWith n p f file) g (Enters r settings (.fields fields file))
          (Fails r settings (.field f file)) fun g' p => g'.VouchesParts r settings p :=
      fun ho n f hf p g hp => ((settlesWith ho n).field p f file g hp).imp
        (fun _ _ h => .field hf h) Iff.rfl fun _ _ h => h.1
    have hsettles' := fun f hf p h hp => settles_renumbered hσ (.fields fields file)
      (hsettles (hσ.orderly ho) m f hf p h hp) fun _ _ h => h
    rw [structWith, structWith]
    rw [TypeExpr.renumberFields_eq_map] at hsettles' ⊢
    exact matches_map (matches_foldlM (Field.renumber σ) fields
      (fun p f => (enlargesWith n).field p f file) (fun p f => (enlargesWith m).field p f file)
      (hsettles ho n) hsettles'
      (fun f hf p g h hp hp' => (ih.field m p f file g h hp hp').imp fun _ _ h => .field hf h)
      StructParts.allRefs_empty StructParts.allRefs_empty) _
  namedField m parts f file g h P hP := by
    obtain _ | m := m
    · exact matches_endless_right (by rw [namedFieldWith])
    rw [namedFieldWith_succ, namedFieldWith_succ]
    exact matches_fieldPart hσ hk parts f ((keepsWith n).resolve f.type file g)
      ((keepsWith m).resolve _ file h) fun hf hc =>
        ⟨(ih.resolve m f.type file g h).imp (hP hf hc),
          ((settlesWith ho n).resolve f.type file g).imp (hP hf hc) Iff.rfl fun _ _ h => h.1,
          settles_renumbered hσ (.type f.type file) (((settlesWith (hσ.orderly ho) m).resolve
            (f.type.renumber σ) file h).value fun _ _ h => h.1) (hP hf hc)⟩

end Step

/-- **Two runs of a function that resolves types match**, whatever the numbers of steps. -/
theorem matchesWith (hσ : r.Renumbers σ settings r') (ho : Orderly r settings)
    (hk : Final r' settings k) (n : Nat) : MatchesWith σ r r' settings k n := by
  induction n with
  | zero =>
    constructor <;> intros <;> refine matches_endless_left ?_ <;>
      simp only [resolveWith, textWith, overrideWith, namedWith, symbolWith, definitionWith,
        structWith, fieldWith, namedFieldWith, embeddedWith, embeddedStructWith]
  | succ n ih => exact ih.next hσ ho hk

end Resolver

end GoApiDoc
