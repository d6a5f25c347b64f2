/-
Outcomes of computations that can fail.

Results are taken apart at their binds: a composed computation yields a value only if its first part
does.  For computations with the resolver's state, `Resolving.runOn` is the outcome from a given
state, together with the state that is left, and each way of composing such computations has one
equation for it.

* `bind_eq_ok_iff`, `foldlM_invariant` — composed results and folds that yield a value;
* `Resolving.runOn` — running a computation from a state;
* `Resolving.runOn_bind`, `Resolving.runOn_outcome`, `Resolving.runOn_whileBuilding` — the equations.
-/

import GoApiDoc.Resolve.Basic

set_option autoImplicit false

namespace GoApiDoc

variable {g g' : Resolver} (id : Go.TypeId)

/-! ### Results -/

section Results

variable {ε α β : Type}

theorem bind_eq_ok_iff {x : Except ε α} {f : α → Except ε β} {b : β} :
    (x >>= f) = .ok b ↔ ∃ a, x = .ok a ∧ f a = .ok b := by
  cases x with
  | error e | ok a => simp [bind, Except.bind]

theorem map_eq_ok_iff {x : Except ε α} {f : α → β} {b : β} :
    x.map f = .ok b ↔ ∃ a, x = .ok a ∧ f a = b := by
  cases x with
  | error e | ok a => simp [Except.map]

/-- A fold that yields a value keeps what its steps with the items of the list keep. -/
theorem foldlM_invariant_of_mem {I : β → Prop} {f : β → α → Except ε β} {l : List α}
    (hf : ∀ b, ∀ c ∈ l, ∀ b', I b → f b c = .ok b' → I b') {b b' : β} (hb : I b)
    (h : l.foldlM f b = .ok b') : I b' := by
  induction l generalizing b with
  | nil => exact Except.ok.inj h ▸ hb
  | cons c l ih =>
    obtain ⟨b₁, h₁, h⟩ := bind_eq_ok_iff.1 h
    exact ih (fun b c' hc' => hf b c' (.tail _ hc')) (hf b c (.head _) b₁ hb h₁) h

/-- A fold that yields a value keeps what each of its steps keeps. -/
theorem foldlM_invariant {I : β → Prop} {f : β → α → Except ε β}
    (hf : ∀ b c b', I b → f b c = .ok b' → I b') {l : List α} {b b' : β} (hb : I b)
    (h : l.foldlM f b = .ok b') : I b' :=
  foldlM_invariant_of_mem (fun b c _ => hf b c) hb h

end Results

/-! ### Resolving -/

namespace Resolving

variable {α β : Type} (x : Resolving α) (f : α → Resolving β)

/-- The outcome of a computation from a state, and the state that is left. -/
def runOn (g : Resolver) : Except DocError α × Resolver := x.run.run g

@[simp] theorem runOn_pure (a : α) (g : Resolver) :
    runOn (pure a : Resolving α) g = (.ok a, g) := rfl

@[simp] theorem runOn_throw (e : DocError) (g : Resolver) :
    runOn (throw e : Resolving α) g = (.error e, g) := rfl

/-- A composed computation goes on from the state that its first part leaves, unless that fails. -/
theorem runOn_bind (f : α → Resolving β) (g : Resolver) : runOn (x >>= f) g = match runOn x g with
      | (.ok a, g') => runOn (f a) g'
      | (.error e, g') => (.error e, g') := by
  simp only [runOn, ExceptT.run_bind, StateT.run_bind]
  generalize StateT.run (ExceptT.run x) g = p
  obtain ⟨r, g'⟩ := p
  cases r with
  | ok a | error e => rfl

theorem runOn_bind_ok {x : Resolving α} {a : α}
    (h : runOn x g = (.ok a, g')) : runOn (x >>= f) g = runOn (f a) g' := by
  rw [runOn_bind, h]

theorem runOn_bind_error {x : Resolving α} {e : DocError}
    (h : runOn x g = (.error e, g')) : runOn (x >>= f) g = (.error e, g') := by
  rw [runOn_bind, h]

/-- A composed computation that yields a value does so in both parts. -/
theorem runOn_bind_eq_ok {x : Resolving α} {f : α → Resolving β} {b : β}
    (h : runOn (x >>= f) g = (.ok b, g')) :
    ∃ a g₁, runOn x g = (.ok a, g₁) ∧ runOn (f a) g₁ = (.ok b, g') := by
  rcases hx : runOn x g with ⟨e | a, g₁⟩
  · cases (runOn_bind_error f hx).symm.trans h
  · exact ⟨a, g₁, rfl, (runOn_bind_ok f hx).symm.trans h⟩

/-- A fold that yields a value keeps what each of its steps keeps. -/
theorem runOn_foldlM_invariant {I : Resolver → β → Prop} {f : β → α → Resolving β} {l : List α}
    (hf : ∀ c ∈ l, ∀ b g b' g', I g b → runOn (f b c) g = (.ok b', g') → I g' b') {b b' : β}
    (hb : I g b) (h : runOn (l.foldlM f b) g = (.ok b', g')) : I g' b' := by
  induction l generalizing b g with
  | nil =>
    cases h
    exact hb
  | cons c l ih =>
    rw [List.foldlM_cons] at h
    obtain ⟨b₁, g₁, hfirst, hrest⟩ := runOn_bind_eq_ok h
    exact ih (fun d hd => hf d (.tail c hd)) (hf c (.head _) b g b₁ g₁ hb hfirst) hrest

@[simp] theorem runOn_get_bind (f : Resolver → Resolving β) (g : Resolver) :
    runOn (get >>= f) g = runOn (f g) g := rfl

@[simp] theorem runOn_ofResult (r : Except DocError α) (g : Resolver) :
    runOn (ofResult r) g = (r, g) := by
  cases r with
  | ok a | error e => rfl

/-- Looking at an outcome never fails. -/
@[simp] theorem runOn_outcome (g : Resolver) :
    runOn (outcome x) g = (.ok (runOn x g).1, (runOn x g).2) := rfl

@[simp] theorem runOn_leaveOpen (g : Resolver) :
    runOn (leaveOpen id) g = (.ok (), { g with leftOpen := id :: g.leftOpen }) := rfl

end Resolving

namespace Resolver

/-- The state in which one more type is being built. -/
def enter (g : Resolver) (id : Go.TypeId) : Resolver := { g with building := g.building ++ [id] }

/-- The state after the innermost of the types being built. -/
def leave (g : Resolver) : Resolver := { g with building := g.building.dropLast }

end Resolver

/-- A type is entered and left around a computation, also if that fails. -/
theorem Resolving.runOn_whileBuilding {α : Type} (x : Resolving α) (g : Resolver) :
    runOn (whileBuilding id x) g = ((runOn x (g.enter id)).1, (runOn x (g.enter id)).2.leave) := by
  change runOn (do
    let r ← outcome x
    modify Resolver.leave
    ofResult r) (g.enter id) = _
  rw [runOn_bind_ok _ (runOn_outcome x _)]
  exact runOn_ofResult _ _

end GoApiDoc
