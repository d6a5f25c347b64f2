/-
What reading annotations does to the state.

The annotations of a comment are read line by line into an endpoint, and the types they name are
resolved on the way.  The resolver stays sound, and it answers every reference of the endpoint, which
is one of the laws of `GoApiDoc/Proofs/AnnotationLaw.lean`.

* `soundAnnotations` — **annotations keep the state sound**, whatever they look up and list.
-/

import GoApiDoc.Proofs.AnnotationLaw
import GoApiDoc.Proofs.Resolve

set_option autoImplicit false

namespace GoApiDoc

open Resolver (Backs)

variable {s : Schema} {p : Parameter} {format place : String} {P : String → Prop}

/-! ### Types that annotations write -/

theorem Composite.allRefs_combine {base : Schema} {properties : Table Schema}
    (hb : base.AllRefs P) (hp : ∀ e ∈ properties, e.2.AllRefs P) :
    (combine base properties).AllRefs P := by
  unfold combine
  split
  · exact hb
  split
  · have h := Schema.allRefs_iff.1 hb
    exact Schema.allRefs_iff.2 ⟨h.1, h.2.1, h.2.2.1, hp, h.2.2.2.2⟩
  refine Schema.allRefs_combined fun t ht => ?_
  rcases List.mem_cons.1 ht with rfl | ht
  · exact hb
  · rw [List.mem_singleton.1 ht, Schema.allRefs_iff]
    simpa using hp

theorem Resolver.composes_soundness : soundness.Composes where
  schemaLater hext hs := hext.backs hs
  ofType := Schema.allRefs_ofType
  combine hs _ hp := Composite.allRefs_combine hs hp

/-! ### Parameters -/

namespace Annotating

/-- A parameter without schemas refers to nothing. -/
theorem allRefs_plain (hs : p.schema = none) (hi : p.items = none) : p.AllRefs P := by
  rw [Parameter.allRefs_iff, hs, hi]
  simp

section Parameters

variable {g : Resolver} (hg : g.Sound)

include hg

theorem backs_flattened (hs : g.Backs s) : g.Backs (flattened g s) :=
  forall_flattened hg.settled hs fun _ => hs.allOf

theorem allRefs_structParameters (hs : g.Backs s) :
    ∀ p ∈ structParameters g format place s, p.AllRefs g.Answers := by
  refine forall_structParameters (P := g.Backs) (fun e he => hs.property he)
    (fun t ht e he => (forall_dereference hg.settled (hs.allOf ht)).property he) fun t p ht hp => ?_
  refine Parameter.allRefs_iff.2 ⟨by simp [hp.schema], fun u hu => ?_⟩
  obtain ⟨-, items, hitems, rfl⟩ := hp.items u hu
  exact forall_dereference hg.settled ((backs_flattened hg ht).items hitems)

end Parameters

end Annotating

/-! ### Operations -/

namespace Operation

variable {P : String → Prop} {o : Operation}

/-- An operation with other responses, whose schemas are among those of the operation. -/
theorem allRefs_withResponses (h : o.AllRefs P) {responses : Table Response}
    (hr : ∀ e ∈ responses, ∃ e' ∈ o.responses, e.2.schema = e'.2.schema) :
    AllRefs P { o with responses := responses } := by
  rw [allRefs_iff] at h ⊢
  refine ⟨h.1, fun e he s hs => ?_⟩
  obtain ⟨e', he', hschema⟩ := hr e he
  exact h.2 e' he' s (hschema ▸ hs)

theorem allRefs_addHeaderTo (h : o.AllRefs P) (key name : String) (header : Header) :
    (Annotating.addHeaderTo key name header o).AllRefs P := by
  unfold Annotating.addHeaderTo
  split
  · next r hget =>
    exact allRefs_withResponses h (Table.forall_mem_insert ⟨_, Table.mem_of_get? hget, rfl⟩
      fun e he => ⟨e, he, rfl⟩)
  · exact h

end Operation

open Annotating in
/-- **Annotations keep the state sound**: the resolver answers every reference of the operation. -/
def soundAnnotations : AnnotationLaw where
  source := Resolver.soundness
  composes := Resolver.composes_soundness
  AdmitsText _ := True
  AdmitsMember _ := True
  AdmitsAttributes _ := True
  AdmitsBare g p := p.AllRefs g.Answers
  AdmitsParameter g p := p.AllRefs g.Answers
  AdmitsOperation g o := o.AllRefs g.Answers
  reads _ g := Resolver.reads_soundness g _
  bareLater hext hp r hr := hext.answers (hp r hr)
  parameterLater hext hp r hr := hext.answers (hp r hr)
  operationLater hext ho r hr := hext.answers (ho r hr)
  attributes _ _ := trivial
  bare hp := allRefs_plain hp.schema hp.items
  array hp _ type := by
    refine Parameter.allRefs_iff.2 ⟨fun _ ht => ?_, fun _ ht => ?_⟩
    · cases hp.schema.symm.trans ht
    · exact Option.some.inj ht ▸ Schema.allRefs_ofType type
  named hp _ _ := allRefs_plain hp.schema hp.items
  body hp hs := by
    refine Parameter.allRefs_iff.2 ⟨fun _ ht => Option.some.inj ht ▸ hs, fun _ ht => ?_⟩
    cases hp.items.symm.trans ht
  onSchema {g p s a} hp hs _ := by
    have h := Parameter.allRefs_iff.1 hp
    exact Parameter.allRefs_iff.2
      ⟨fun _ ht => Option.some.inj ht ▸ a.allRefs_onSchema (h.1 s hs), h.2⟩
  onParameter hp _ _ := ParamAttributes.allRefs_onParameter _ hp
  struct hg hs _ _ := allRefs_structParameters hg (backs_flattened hg hs)
  empty := fun _ hr => nomatch hr
  parameter ho hp := by
    have h := Operation.allRefs_iff.1 ho
    exact Operation.allRefs_iff.2
      ⟨List.forall_mem_append.2 ⟨h.1, List.forall_mem_singleton.2 hp⟩, h.2⟩
  response {g o schema} ho hs key text := by
    have h := Operation.allRefs_iff.1 ho
    exact Operation.allRefs_iff.2 ⟨h.1, Table.forall_mem_insert hs h.2⟩
  header ho _ _ := Operation.allRefs_withResponses ho fun e he => by
    obtain ⟨e', he', rfl⟩ := List.mem_map.1 he
    exact ⟨e', he', rfl⟩
  headerTo := Operation.allRefs_addHeaderTo
  member ho _ _ := ho
  security ho _ := ho
  other ho hp hr _ _ := by
    rw [Operation.allRefs_iff, hp, hr]
    exact Operation.allRefs_iff.1 ho

theorem soundAnnotations_admitsLine (line : String) : soundAnnotations.AdmitsLine line :=
  ⟨fun _ _ => trivial, fun _ _ => trivial⟩

end GoApiDoc
