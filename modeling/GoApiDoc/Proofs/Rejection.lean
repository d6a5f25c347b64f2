/-
What a rejected line leaves behind.

Most annotations check everything before they change anything, so a line that is rejected leaves the
endpoint as it was.  A line that lists the codes of responses reads one code after the other and
writes each at once: those before the first one that is no code have been written.

* `Annotating.endpoint_of_rejected` — **a rejected line leaves the endpoint as it was, but for the
  responses of the codes that it could read**.
-/

import GoApiDoc.Proofs.AnnotationLaw
import GoApiDoc.Proofs.Directive

set_option autoImplicit false

namespace GoApiDoc

/-- The endpoint with other responses. -/
def Endpoint.withResponses (e : Endpoint) (responses : Table Response) : Endpoint :=
  { e with operation := { e.operation with responses := responses } }

/-- The codes that a line about responses or their headers lists. -/
def listedCodes (rest : String) : List String :=
  Text.commaList (((ResponseLine.ofText? rest).map (·.codes)).getD (Text.splitAttribute rest).1)

/-- How a code is written, once it is read: as a response, or as a header of the response that is
there already. -/
inductive WritesCode (word : String) : (String × Option Nat → Table Response → Table Response) → Prop
  | response (h : word ∈ ["@success", "@failure", "@response"]) (description : String)
      (schema : Option Schema) :
      WritesCode word fun code responses =>
        responses.insert code.1 ⟨responseDescription description code.2, schema, []⟩
  | header (h : word = "@header") (name : String) (header : Header) :
      WritesCode word fun code responses =>
        match responses.get? code.1 with
        | some r => responses.insert code.1 { r with headers := r.headers.insert name header }
        | none => responses

/-- The codes have been written one by one up to the first that is none. -/
def Stops (rest : String) (codes : List String)
    (write : String × Option Nat → Table Response → Table Response) (before after : Endpoint) :
    Prop :=
  ∃ good bad more keys, codes = good ++ bad :: more ∧ good.mapM (responseKey rest) = .ok keys ∧
    responseKey rest bad = .error (.malformed (.response rest)) ∧
    after = before.withResponses (keys.foldl (fun t key => write key t) before.operation.responses)

/-- The endpoint that a rejected annotation leaves: as it was, or with the codes written that it could
read. -/
def Leaves (word rest : String) (before after : Endpoint) : Prop :=
  after = before ∨ ∃ write, WritesCode word write ∧ Stops rest (listedCodes rest) write before after

namespace Annotating

variable {α β : Type} {ctx : AnnotationContext} {word rest line : String} {st st' : Annotated}
  {e : DocError} {x : Annotating α}

/-! ### Checks before changes -/

/-- The computation has no part in the endpoint. -/
def Spares (x : Annotating α) : Prop := ∀ st, (runOn x st).2.endpoint = st.endpoint

/-- Where the computation fails, the endpoint is the one that it began with. -/
def Checks (x : Annotating α) : Prop :=
  ∀ st e st', runOn x st = (.error e, st') → st'.endpoint = st.endpoint

theorem spares_map (f : α → β) (hx : Spares x) : Spares (x >>= fun a => pure (f a)) := by
  intro st
  have hst := hx st
  rw [runOn_bind]
  rcases hrun : runOn x st with ⟨e | a, st₁⟩
  all_goals rw [hrun] at hst
  · exact hst
  · exact hst

theorem checks_bind {f : α → Annotating β} (hx : Spares x)
    (hf : ∀ a, Checks (f a)) : Checks (x >>= f) := by
  intro st e st' h
  have hst := hx st
  rcases hrun : runOn x st with ⟨e₁ | a, st₁⟩
  all_goals rw [hrun] at hst
  · rw [runOn_bind_error f hrun] at h
    cases h
    exact hst
  · rw [runOn_bind_ok f hrun] at h
    exact (hf a st₁ e st' h).trans hst

theorem checks_forM_change {γ : Type} {f : γ → Endpoint → Endpoint} (l : List γ) :
    Checks (l.forM fun c => change (f c)) := by
  -- no change fails, so neither do several
  have hok : ∀ st, (runOn (l.forM fun c => change (f c)) st).1 = .ok () := by
    induction l with
    | nil => exact fun _ => rfl
    | cons c l ih => exact fun st => ih { st with endpoint := f c st.endpoint }
  intro st e st' h
  have hst := hok st
  rw [h] at hst
  cases hst

theorem staged_checks : Staged (fun _ x => Spares x) (fun _ x => Checks x) where
  pure := fun _ _ => rfl
  throw := fun _ _ => rfl
  map := spares_map
  resolving := fun _ _ => rfl
  checked := by
    intro α x hx st e st' h
    have hst := hx st
    rwa [h] at hst
  bind := checks_bind
  read := fun _ hf st => hf st st
  change := by rintro f - st e st' ⟨⟩
  changes := fun _ => checks_forM_change

theorem endpoint_of_addRoute {deprecated : Bool}
    (h : runOn (addRoute rest deprecated) st = (.error e, st')) : st'.endpoint = st.endpoint := by
  unfold addRoute at h
  split at h
  · cases h
    rfl
  · split at h
    · cases h
      rfl
    · cases h

/-! ### Codes -/

theorem responseKey_eq_error {code : String} (h : responseKey rest code = .error e) :
    e = .malformed (.response rest) := by
  unfold responseKey at h
  split at h
  · cases h
  · split at h
    · cases h
    · cases h
      rfl

/-- **The loop over the codes**, where it fails. -/
theorem stops_of_forM {write : String × Option Nat → Table Response → Table Response}
    {f : String × Option Nat → Annotating Unit} {codes : List String}
    (hf : ∀ key st, runOn (f key) st = (.ok (), { st with
      endpoint := st.endpoint.withResponses (write key st.endpoint.operation.responses) }))
    (h : runOn (codes.forM fun code => ofResult (responseKey rest code) >>= f) st =
      (.error e, st')) : Stops rest codes write st.endpoint st'.endpoint := by
  induction codes generalizing st with
  | nil => cases h
  | cons code codes ih =>
    change runOn ((ofResult (responseKey rest code) >>= f) >>= fun _ => codes.forM _) st = _ at h
    cases hkey : responseKey rest code with
    | error e₁ =>
      rw [hkey] at h
      cases h
      exact ⟨[], code, codes, [], rfl, rfl, responseKey_eq_error hkey ▸ hkey, rfl⟩
    | ok k =>
      have hfirst : runOn (ofResult (.ok k) >>= f) st = _ := hf k st
      rw [hkey, runOn_bind_ok _ hfirst] at h
      obtain ⟨good, bad, more, keys, rfl, hgood, hbad, hst⟩ := ih h
      refine ⟨code :: good, bad, more, k :: keys, rfl, ?_, hbad, hst⟩
      rw [List.mapM_cons, hkey]
      change good.mapM (responseKey rest) >>= _ = _
      rw [hgood]
      rfl

theorem leaves_addResponse (hword : word ∈ ["@success", "@failure", "@response"])
    (h : runOn (addResponse ctx rest) st = (.error e, st')) :
    Leaves word rest st.endpoint st'.endpoint := by
  have hcodes : ∀ {codes description : String} {schema : Option Schema} {st : Annotated},
      Text.commaList codes = listedCodes rest →
      runOn (addResponses rest codes description schema) st = (.error e, st') →
      Leaves word rest st.endpoint st'.endpoint := fun hlisted h =>
    .inr ⟨_, .response hword _ _, hlisted ▸ stops_of_forM (fun _ _ => rfl) h⟩
  unfold addResponse at h
  cases hline : ResponseLine.ofText? rest with
  | none =>
    rw [hline] at h
    dsimp only [addEmptyResponse] at h
    split at h
    · cases h
      exact .inl rfl
    · exact hcodes (by simp [listedCodes, hline]) h
  | some l =>
    rw [hline] at h
    dsimp only at h
    have hst := staged_checks.responseSchema ctx l.kind l.type st
    rcases hrun : runOn (responseSchema ctx l.kind l.type) st with ⟨e₁ | schema, st₁⟩
    all_goals rw [hrun] at hst
    · rw [runOn_bind_error _ hrun] at h
      cases h
      exact .inl hst
    · rw [runOn_bind_ok _ hrun] at h
      exact hst ▸ hcodes (by simp [listedCodes, hline]) h

theorem leaves_addHeader (h : runOn (addHeader rest) st = (.error e, st')) :
    Leaves "@header" rest st.endpoint st'.endpoint := by
  unfold addHeader at h
  cases hline : ResponseLine.ofText? rest with
  | none =>
    rw [hline] at h
    cases h
    exact .inl rfl
  | some l =>
    rw [hline] at h
    dsimp only at h
    split at h
    · cases h
    refine .inr ⟨_, .header rfl l.type ⟨l.kind, Text.nonEmpty l.description⟩, ?_⟩
    rw [listedCodes, hline]
    refine stops_of_forM (fun key st => ?_) h
    change (_, _) = (_, _)
    cases hget : st.endpoint.operation.responses.get? key.1 with
    | none | some r => simp [addHeaderTo, Endpoint.withResponses, hget]

/-! ### Lines -/

theorem leaves_addDirective (h : runOn (addDirective ctx word rest) st = (.error e, st')) :
    Leaves (Text.asciiLower word) rest st.endpoint st'.endpoint := by
  by_cases hcodes : Text.asciiLower word ∈ codeWords
  · simp only [codeWords, List.mem_cons, List.not_mem_nil, or_false] at hcodes
    unfold addDirective at h
    rcases hcodes with hcodes | hcodes | hcodes | hcodes
    all_goals rw [hcodes] at h ⊢
    iterate 3
      · exact leaves_addResponse (by simp) h
    · exact leaves_addHeader h
  · by_cases hw : Text.asciiLower word ∈ bindingWords
    · refine .inl ?_
      simp only [bindingWords, List.mem_cons, List.not_mem_nil, or_false] at hw
      unfold addDirective at h
      rcases hw with hw | hw | hw | hw | hw
      all_goals rw [hw] at h
      · exact endpoint_of_addRoute h
      · exact endpoint_of_addRoute h
      all_goals cases h
    · exact .inl (staged_checks.addDirective hw hcodes st e st' h)

/-- **A rejected line leaves the endpoint as it was, but for the responses of the codes that it could
read.**  The routes are what they were.  If the operation is not, then the line is about responses or
their headers, and of the codes that it lists those before the first unreadable one are written. -/
theorem endpoint_of_rejected (h : runOn (addLine ctx line) st = (.error e, st')) :
    st'.endpoint.routes = st.endpoint.routes ∧ ∃ word rest, annotation? line = some (word, rest) ∧
      Leaves word rest st.endpoint st'.endpoint := by
  unfold addLine at h
  unfold annotation?
  dsimp only at h
  split at h
  · next hat =>
    rw [if_pos hat]
    generalize Text.splitAttribute (lineText line) = split at h ⊢
    obtain ⟨word, rest⟩ := split
    rw [runOn_inComment] at h
    rcases hrun : runOn (addDirective ctx word rest) st with ⟨e₁ | u, st₁⟩
    all_goals rw [hrun] at h
    · cases h
      have hleaves := leaves_addDirective hrun
      refine ⟨?_, _, rest, rfl, hleaves⟩
      obtain heq | ⟨write, -, good, bad, more, keys, -, -, -, heq⟩ := hleaves
      · rw [heq]
      · rw [heq]
        rfl
    · cases h
  · cases h

/-- What a line with two codes leads to, of which the second one is none. -/
def coded : Except DocError Unit × Annotated :=
  runOn (addLine ⟨.ofTables [] [], 0, "csv"⟩ "@Success 200,abc") ⟨{ registry := {}, settings := {} }, {}⟩

/-- The response of the first code stays behind. -/
theorem endpoint_of_rejected_codes : ∃ e st', coded = (.error e, st') ∧
    st'.endpoint.operation.responses.keys = ["200"] ∧ st'.endpoint.routes = [] ∧
    ∃ word rest, annotation? "@Success 200,abc" = some (word, rest) ∧
      Leaves word rest {} st'.endpoint := by
  have hfails : coded.1.isOk = false := by decide +kernel
  have hkeys : coded.2.endpoint.operation.responses.keys = ["200"] := by decide +kernel
  rcases hrun : coded with ⟨e | u, st'⟩
  all_goals rw [hrun] at hfails hkeys
  · exact ⟨e, st', rfl, hkeys, endpoint_of_rejected hrun⟩
  · cases hfails

end Annotating

end GoApiDoc
