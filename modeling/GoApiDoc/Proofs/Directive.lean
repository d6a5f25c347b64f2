/-
What all annotations have in common.

An annotation is read by a composed computation: it fails, resolves types, reads the state for
something that the mode has no part in, and changes the endpoint.  A property of computations that
passes through these holds of every annotation.  Left out are the few annotations that say what the
operation is selected and bound by.

* `Annotating.Compositional.addDirective` — **they hold of every other annotation**.
-/

import GoApiDoc.Operation.Basic
import GoApiDoc.Proofs.Strict

set_option autoImplicit false

namespace GoApiDoc

/-- What an endpoint is selected and bound by. -/
structure Declared where
  routes : List Route := []
  /-- The operation should not be used any more. -/
  deprecated : Bool := false
  operationId : Option String := none
  tags : List String := []

/-- What the endpoint is selected and bound by. -/
def Endpoint.declared (e : Endpoint) : Declared :=
  ⟨e.routes, e.operation.deprecated, e.operation.operationId, e.operation.tags⟩

/-- The words of the annotations that say what an operation is selected and bound by. -/
def bindingWords : List String := ["@router", "@deprecatedrouter", "@deprecated", "@id", "@tags"]

/-- The state with strict mode switched on or off. -/
def Annotated.mode (st : Annotated) (strict : Bool) : Annotated :=
  { st with resolver := st.resolver.mode strict }

namespace Annotating

/-- The words of the annotations that list the codes of responses. -/
def codeWords : List String := ["@success", "@failure", "@response", "@header"]

/-- Two properties of computations, of which the first one holds of those that read and check, and
passes on to the second one.  That holds of changes that leave what the endpoint is selected and bound
by, and of what reads and checks first and then has it. -/
structure Staged (K J : (α : Type) → Annotating α → Prop) : Prop where
  pure : ∀ {α : Type} (a : α), K α (pure a)
  throw : ∀ {α : Type} (e : DocError), K α (throw e)
  map : ∀ {α β : Type} {x : Annotating α} (f : α → β), K α x → K β (x >>= fun a => Pure.pure (f a))
  resolving : ∀ {α : Type} {x : Resolving α}, x.Gated → K α (resolving x)
  checked : ∀ {α : Type} {x : Annotating α}, K α x → J α x
  bind : ∀ {α β : Type} {x : Annotating α} {f : α → Annotating β},
    K α x → (∀ a, J β (f a)) → J β (x >>= f)
  read : ∀ {β : Type} {f : Annotated → Annotating β},
    (∀ st : Annotated, f (st.mode true) = f (st.mode false)) → (∀ st, J β (f st)) → J β (get >>= f)
  change : ∀ {f : Endpoint → Endpoint}, (∀ e, (f e).declared = e.declared) → J Unit (change f)
  changes : ∀ {γ : Type} {f : γ → Endpoint → Endpoint}, (∀ c e, (f c e).declared = e.declared) →
    ∀ l : List γ, J Unit (l.forM fun c => Annotating.change (f c))

variable {ctx : AnnotationContext} {word rest : String}

namespace Staged

variable {K J : (α : Type) → Annotating α → Prop} (h : Staged K J) {α : Type}

include h

theorem ofResult (r : Except DocError α) : K α (ofResult r) := by
  cases r with
  | ok a => exact h.pure a
  | error e => exact h.throw e

theorem fail (e : DocError) : J α (MonadExcept.throw e) := h.checked (h.throw e)

/-! ### Parameters -/

theorem addWithAttributes (p : Parameter) (attributes : String) :
    J Unit (addWithAttributes p attributes) := by
  unfold Annotating.addWithAttributes
  refine h.read (fun _ => rfl) fun st => h.bind (h.ofResult _) fun a => ?_
  exact h.change fun _ => rfl

theorem addObjectParam (ctx : AnnotationContext) (p : Parameter) (type attributes : String) :
    J Unit (addObjectParam ctx p type attributes) := by
  unfold Annotating.addObjectParam
  refine h.bind (h.resolving (Resolver.gated_resolveText type ctx.file)) fun s => ?_
  refine h.read (fun _ => rfl) fun st => ?_
  dsimp only
  split
  · exact h.addWithAttributes _ attributes
  · split
    · exact h.changes (f := fun q e => e.addParameter q) (fun _ _ => rfl) _
    · exact h.fail _

theorem addPlainParam (ctx : AnnotationContext) (p : Parameter) (shape : ParamShape)
    (type attributes : String) : J Unit (addPlainParam ctx p shape type attributes) := by
  cases shape with
  | simple =>
    rw [Annotating.addPlainParam]
    exact h.addWithAttributes _ attributes
  | array =>
    rw [Annotating.addPlainParam]
    split
    · exact h.addWithAttributes _ attributes
    · exact h.fail _
  | object =>
    rw [Annotating.addPlainParam]
    exact h.addObjectParam ctx p type attributes

theorem bodySchema (ctx : AnnotationContext) (shape : ParamShape) (written type : String) :
    K Schema (bodySchema ctx shape written type) := by
  cases shape with
  | simple =>
    rw [Annotating.bodySchema]
    exact h.pure _
  | array =>
    rw [Annotating.bodySchema]
    exact h.map _ (h.resolving (gated_annotatedSchema ctx.file _))
  | object =>
    rw [Annotating.bodySchema]
    exact h.resolving (gated_annotatedSchema ctx.file written)

theorem addParam (ctx : AnnotationContext) (rest : String) : J Unit (addParam ctx rest) := by
  unfold Annotating.addParam
  split
  · exact h.fail _
  dsimp only
  split
  iterate 4
    · exact h.addPlainParam ctx _ _ _ _
  · exact h.bind (h.bodySchema ctx _ _ _) fun s => h.addWithAttributes _ _
  · exact h.fail _

/-! ### Annotations -/

theorem responseSchema (ctx : AnnotationContext) (kind type : String) :
    K (Option Schema) (responseSchema ctx kind type) := by
  unfold Annotating.responseSchema
  split
  · split
    · exact h.map _ (h.resolving (gated_annotatedSchema ctx.file _))
    · exact h.resolving (gated_annotatedSchema? ctx.file type)
  · exact h.map _ (h.resolving (gated_annotatedSchema ctx.file _))
  · dsimp only
    split
    · exact h.pure _
    · exact h.throw _

theorem addCodeSamples (ctx : AnnotationContext) (word : String) :
    J Unit (addCodeSamples ctx word) := by
  unfold Annotating.addCodeSamples
  refine h.read (fun _ => rfl) fun st => h.bind (h.ofResult _) fun text => ?_
  split
  · exact h.change fun _ => rfl
  · exact h.fail _

theorem addExtension (word rest : String) : J Unit (addExtension word rest) := by
  unfold Annotating.addExtension
  split
  · exact h.fail _
  · exact h.change fun _ => rfl

theorem addDirective
    (hw : Text.asciiLower word ∉ bindingWords) (hcodes : Text.asciiLower word ∉ codeWords) :
    J Unit (addDirective ctx word rest) := by
  unfold Annotating.addDirective
  dsimp only
  split
  case h_2 => exact h.bind (h.ofResult _) fun _ => h.change fun _ => rfl
  case h_4 heq => exact absurd (by simp [bindingWords]) (heq ▸ hw)
  case h_5 heq => exact absurd (by simp [bindingWords]) (heq ▸ hw)
  case h_6 => exact h.bind (h.ofResult _) fun _ => h.change fun _ => rfl
  case h_7 => exact h.bind (h.ofResult _) fun _ => h.change fun _ => rfl
  case h_8 => exact h.addParam ctx rest
  case h_9 heq => exact absurd (by simp [codeWords]) (heq ▸ hcodes)
  case h_10 heq => exact absurd (by simp [codeWords]) (heq ▸ hcodes)
  case h_11 heq => exact absurd (by simp [codeWords]) (heq ▸ hcodes)
  case h_12 heq => exact absurd (by simp [codeWords]) (heq ▸ hcodes)
  case h_13 heq => exact absurd (by simp [bindingWords]) (heq ▸ hw)
  case h_14 heq => exact absurd (by simp [bindingWords]) (heq ▸ hw)
  case h_16 heq => exact absurd (by simp [bindingWords]) (heq ▸ hw)
  case h_17 =>
    split
    · exact h.addCodeSamples ctx word
    · split
      · exact h.addExtension word rest
      · exact h.checked (h.pure ())
  -- the other annotations change one keyword of the operation
  all_goals exact h.change fun _ => rfl

end Staged

/-- The property passes from the parts of a computation to the whole, and it holds of resolving types
and of changes that leave what the endpoint is selected and bound by. -/
structure Compositional (J : (α : Type) → Annotating α → Prop) : Prop where
  pure : ∀ {α : Type} (a : α), J α (pure a)
  throw : ∀ {α : Type} (e : DocError), J α (throw e)
  bind : ∀ {α β : Type} {x : Annotating α} {f : α → Annotating β},
    J α x → (∀ a, J β (f a)) → J β (x >>= f)
  read : ∀ {β : Type} {f : Annotated → Annotating β},
    (∀ st : Annotated, f (st.mode true) = f (st.mode false)) → (∀ st, J β (f st)) → J β (get >>= f)
  resolving : ∀ {α : Type} {x : Resolving α}, x.Gated → J α (resolving x)
  change : ∀ {f : Endpoint → Endpoint}, (∀ e, (f e).declared = e.declared) → J Unit (change f)

namespace Compositional

variable {J : (α : Type) → Annotating α → Prop} (hJ : Compositional J)

include hJ

theorem forM {γ : Type} {f : γ → Annotating Unit} (hf : ∀ c, J Unit (f c)) (l : List γ) :
    J Unit (l.forM f) := by
  induction l with
  | nil => exact hJ.pure ()
  | cons c l ih =>
    change J Unit (f c >>= fun _ => l.forM f)
    exact hJ.bind (hf c) fun _ => ih

theorem staged : Staged J J where
  pure := hJ.pure
  throw := hJ.throw
  map := fun f hx => hJ.bind hx fun a => hJ.pure (f a)
  resolving := hJ.resolving
  checked := id
  bind := hJ.bind
  read := hJ.read
  change := hJ.change
  changes := fun hf => hJ.forM fun c => hJ.change (hf c)

theorem addResponses (line codes description : String) (schema : Option Schema) :
    J Unit (addResponses line codes description schema) := by
  unfold Annotating.addResponses
  refine hJ.forM (fun code => hJ.bind (hJ.staged.ofResult _) fun kv => ?_) _
  exact hJ.change fun _ => rfl

theorem addResponse (ctx : AnnotationContext) (rest : String) : J Unit (addResponse ctx rest) := by
  unfold Annotating.addResponse
  split
  · unfold addEmptyResponse
    dsimp only
    split
    · exact hJ.throw _
    · exact hJ.addResponses _ _ _ _
  · exact hJ.bind (hJ.staged.responseSchema ctx _ _) fun schema => hJ.addResponses _ _ _ _

theorem addHeader (rest : String) : J Unit (addHeader rest) := by
  unfold Annotating.addHeader
  split
  · exact hJ.throw _
  split
  · exact hJ.change fun _ => rfl
  · refine hJ.forM (fun code => hJ.bind (hJ.staged.ofResult _) fun kv => ?_) _
    refine hJ.change fun e => ?_
    unfold addHeaderTo
    split <;> rfl

/-- **Every annotation** but those that say what the operation is selected and bound by. -/
theorem addDirective
    (hw : Text.asciiLower word ∉ bindingWords) : J Unit (addDirective ctx word rest) := by
  by_cases hcodes : Text.asciiLower word ∈ codeWords
  · simp only [codeWords, List.mem_cons, List.not_mem_nil, or_false] at hcodes
    unfold Annotating.addDirective
    rcases hcodes with hcodes | hcodes | hcodes | hcodes
    all_goals rw [hcodes]
    iterate 3
      · exact hJ.addResponse ctx rest
    · exact hJ.addHeader rest
  · exact hJ.staged.addDirective hw hcodes

end Compositional

end Annotating

end GoApiDoc
