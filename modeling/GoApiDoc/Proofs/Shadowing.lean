/-
Own fields and promoted ones.

A struct has properties of its own and those of the structs it embeds.  The contributions of its
members are added in the order of the fields, by three rules: a property takes the place of one with
the same name, the properties of an embedded struct only fill places that are free, and those of a
read-only one take their places too.  The names that must be present are collected from all.

So an own field keeps its property unless an embedded field behind it sets one of the same name, and
its property must be present also if an embedded struct asks for it.

* `Resolver.own_property_shadows` — **what becomes of the property of an own field**.
-/

import GoApiDoc.Proofs.Contribution
import GoApiDoc.Proofs.Shape

set_option autoImplicit false

namespace GoApiDoc

open Go (TypeId TypeExpr)
open Resolving

/-! ### Look-up in sums -/

namespace Table

variable {α : Type}

theorem get?_extend (t : Table α) (entries : List (String × α)) (k : String) :
    (t.extend entries).get? k = ((ofEntries entries).get? k <|> t.get? k) := by
  induction entries generalizing t with
  | nil => rfl
  | cons e entries ih =>
    have hcons : ∀ t : Table α, t.extend (e :: entries) = (t.insert e.1 e.2).extend entries :=
      fun _ => rfl
    rw [ofEntries, hcons, hcons, ih, ih (Table.insert _ _ _), get?_insert, get?_insert]
    cases (ofEntries entries).get? k with
    | some v => rfl
    | none =>
      split
      · rfl
      · rfl

end Table

theorem mem_eraseReps {x : String} {l : List String} : x ∈ l.eraseReps ↔ x ∈ l := by
  have hloop : ∀ (a : String) (l seen : List String),
      x ∈ List.eraseRepsBy.loop (· == ·) a l seen ↔ x = a ∨ x ∈ l ∨ x ∈ seen := by
    intro a l seen
    induction l generalizing a seen with
    | nil => simp [List.eraseRepsBy.loop, or_comm]
    | cons b l ih =>
      rw [List.eraseRepsBy.loop]
      split
      · next heq =>
        rw [ih, ← eq_of_beq heq]
        simp only [List.mem_cons]
        grind
      · rw [ih]
        simp only [List.mem_cons]
        grind
  cases l with
  | nil => rfl
  | cons a l => simpa [List.eraseReps, List.eraseRepsBy] using hloop a l []

variable {p : StructParts}

namespace StructParts

theorem get?_foldl_offer (entries t : Table Schema) (k : String) :
    (entries.foldl offerProperty t).get? k = (t.get? k <|> Table.get? k entries) := by
  induction entries generalizing t with
  | nil => simp [Table.get?]
  | cons e entries ih =>
    obtain ⟨name, s⟩ := e
    rw [List.foldl_cons, ih, offerProperty, Table.get?]
    by_cases hname : k = name
    · subst hname
      rw [if_pos rfl]
      cases ht : t.get? k with
      | some v => simp [Table.contains, ht]
      | none => simp [Table.contains, ht, Table.get?_insert]
    · rw [if_neg hname]
      split
      · rfl
      · rw [Table.get?_insert, if_neg hname]

/-- The properties of an embedded struct, marked as read-only. -/
def marked (inner : StructParts) : Table Schema :=
  Table.ofEntries (inner.properties.map fun e => (e.1, { e.2 with readOnly := true }))

theorem get?_embedReadOnly (p inner : StructParts) (k : String) :
    (p.embedReadOnly inner).properties.get? k = (inner.marked.get? k <|> p.properties.get? k) := by
  rw [marked, ← Table.get?_extend, Table.extend, List.foldl_map]
  rfl

theorem mem_normalized {k : String} : k ∈ p.normalized.required ↔ k ∈ p.required := by
  rw [normalized, mem_eraseReps, List.mem_mergeSort]

end StructParts

/-- The object of the schema of a struct, which comes last if it is combined with embedded types. -/
def Schema.objectPart (s : Schema) : Schema := s.allOf.getLast?.getD s

theorem StructParts.objectPart_toSchema (h : p.properties ≠ []) :
    p.toSchema.objectPart.properties = p.properties ∧
      p.toSchema.objectPart.required = p.required := by
  have hfull : p.properties.isEmpty = false := List.isEmpty_eq_false_iff.2 h
  unfold StructParts.toSchema
  split
  · exact ⟨rfl, rfl⟩
  · rw [hfull]
    simp [Schema.objectPart, Schema.combined]

/-! ### What a contribution does to a name -/

namespace Contribution

/-- The schema that a contribution puts under a name, whatever stands there. -/
def set? (k : String) : Contribution → Option Schema
  | property name s _ => if k = name then some s else none
  | marked _ inner => inner.marked.get? k
  | nothing | promoted _ => none

/-- The schema that a contribution puts under a name if the place is free. -/
def offer? (k : String) : Contribution → Option Schema
  | promoted inner => inner.properties.get? k
  | nothing | property _ _ _ | marked _ _ => none

/-- The contribution asks for a property. -/
def Requires (k : String) : Contribution → Prop
  | property name _ required => required = true ∧ k = name
  | promoted inner => k ∈ inner.required
  | nothing | marked _ _ => False

variable {k : String}

theorem get?_addTo (p : StructParts) (c : Contribution) :
    (c.addTo p).properties.get? k = (c.set? k <|> p.properties.get? k <|> c.offer? k) := by
  cases c with
  | nothing => simp [addTo, set?, offer?]
  | property name s required =>
    rw [addTo, StructParts.addProperty, Table.get?_insert, set?, offer?]
    split
    · rfl
    · simp
  | promoted inner => exact StructParts.get?_foldl_offer _ _ _
  | marked kept inner => simp [addTo, set?, offer?, StructParts.get?_embedReadOnly]

theorem mem_required_addTo (p : StructParts) (c : Contribution) :
    k ∈ (c.addTo p).required ↔ k ∈ p.required ∨ c.Requires k := by
  cases c with
  | nothing => simp [addTo, Requires]
  | property name s required =>
    cases required with
    | false | true => simp [addTo, StructParts.addProperty, Requires]
  | promoted inner => simp [addTo, StructParts.embed, Requires]
  | marked kept inner => simp [addTo, StructParts.embedReadOnly, Requires]

end Contribution

namespace Resolver

variable {k : String}

/-- The schema that the last of several contributions sets under a name. -/
def lastSet (k : String) : List (Go.Field × Contribution) → Option Schema
  | [] => none
  | c :: cs => lastSet k cs <|> c.2.set? k

theorem get?_sumFrom {parts : StructParts} {s : Schema} (h : parts.properties.get? k = some s)
    (cs : List (Go.Field × Contribution)) :
    (sumFrom parts cs).properties.get? k = some ((lastSet k cs).getD s) := by
  induction cs generalizing parts s with
  | nil => exact h
  | cons c cs ih =>
    have hstep : (c.2.addTo parts).properties.get? k = some ((c.2.set? k).getD s) := by
      rw [Contribution.get?_addTo, h]
      cases c.2.set? k with
      | some t | none => rfl
    rw [sumFrom, List.foldl_cons]
    refine (ih hstep).trans ?_
    rw [lastSet]
    cases lastSet k cs with
    | some t | none => rfl

theorem mem_required_sumFrom (parts : StructParts) (cs : List (Go.Field × Contribution)) :
    k ∈ (sumFrom parts cs).required ↔ k ∈ parts.required ∨ ∃ c ∈ cs, c.2.Requires k := by
  induction cs generalizing parts with
  | nil => simp [sumFrom]
  | cons c cs ih =>
    rw [sumFrom, List.foldl_cons]
    refine (ih _).trans ?_
    simp only [Contribution.mem_required_addTo, List.mem_cons, exists_eq_or_imp, or_assoc]

/-! ### Gathering -/

/-- The contributions of embedded members. -/
def embedded (cs : List (Go.Field × Contribution)) : List (Go.Field × Contribution) :=
  cs.filter fun c => c.1.names.isEmpty

/-- The name of the property of an own field: one that is not embedded and not left out. -/
def ownProperty? (naming : Naming) (m : Go.Field) : Option String :=
  if m.names.isEmpty || Field.isHidden m then none else Field.propertyName? naming m

variable {n : Nat} {file : FileId} {g g' : Resolver} {m : Go.Field} {c : Contribution}
  {ms ms' : List Go.Field} {cs : List (Go.Field × Contribution)}

theorem runOn_map {α β : Type} (f : α → β) (x : Resolving α) (g : Resolver) :
    (f <$> x).runOn g = ((x.runOn g).1.map f, (x.runOn g).2) := by
  rw [map_eq_pure_bind, runOn_bind]
  rcases x.runOn g with ⟨r, g'⟩
  cases r with
  | ok a | error e => rfl

/-- A member keeps the state sound and the settings as they are. -/
theorem keeps_memberWith (hg : g.Sound) (h : (memberWith n m file).runOn g = (.ok c, g')) :
    g'.Sound ∧ g'.settings = g.settings := by
  have hrun : ∀ {x : Resolving Contribution}, x.runOn g = (.ok c, g') →
      Keeps (Contribution.addTo {} <$> x) g BacksParts → g'.Sound ∧ g'.settings = g.settings := by
    intro x hx hkeeps
    obtain ⟨hext, hsound, -⟩ := hkeeps hg
    rw [runOn_map, hx] at hext hsound
    exact ⟨hsound, hext.settings⟩
  unfold memberWith at h
  split at h
  · exact hrun h (embeddedWith_eq n {} m file ▸
      (keepsWith _).embedded {} m file g StructParts.allRefs_empty)
  · exact hrun h (namedFieldWith_eq (n + 1) {} m file ▸
      (keepsWith _).namedField {} m file g StructParts.allRefs_empty)

theorem apart_of_memberWith (hown : m.names.isEmpty = false)
    (hne : ownProperty? g.settings.naming m ≠ some k)
    (h : (memberWith n m file).runOn g = (.ok c, g')) : c.set? k = none ∧ ¬ c.Requires k := by
  have hnothing : c = .nothing → c.set? k = none ∧ ¬ c.Requires k := by
    rintro rfl
    exact ⟨rfl, id⟩
  rw [memberWith, hown, if_neg Bool.false_ne_true] at h
  rw [ownProperty?, hown, Bool.false_or] at hne
  cases hhidden : Field.isHidden m with
  | true =>
    rw [propertyWith, hhidden, if_pos rfl] at h
    cases h
    exact hnothing rfl
  | false =>
    rw [hhidden, if_neg Bool.false_ne_true] at hne
    cases hname : Field.propertyName? g.settings.naming m with
    | none =>
      rw [propertyWith, hhidden, if_neg Bool.false_ne_true, runOn_get_bind, hname] at h
      cases h
      exact hnothing rfl
    | some property =>
      have hne' : k ≠ property := by
        rintro rfl
        exact hne hname
      rcases propertyWith_cases hhidden hname h with ⟨_, -, -, hc⟩ | ⟨s, -, rfl⟩
      · exact hnothing hc
      · exact ⟨if_neg hne', fun hreq => hne' hreq.2⟩

theorem runOn_gatherWith_cons (h : (gatherWith n (m :: ms) file).runOn g = (.ok cs, g')) :
    ∃ c g₁ cs', (memberWith n m file).runOn g = (.ok c, g₁) ∧
      (gatherWith n ms file).runOn g₁ = (.ok cs', g') ∧ cs = (m, c) :: cs' := by
  rw [gatherWith, List.mapM_cons, bind_assoc] at h
  obtain ⟨c, g₁, hc, h⟩ := runOn_bind_eq_ok h
  rw [pure_bind] at h
  obtain ⟨cs', g₂, hcs', h⟩ := runOn_bind_eq_ok h
  cases h
  exact ⟨c, g₁, cs', hc, hcs', rfl⟩

theorem runOn_gatherWith_append (h : (gatherWith n (ms ++ ms') file).runOn g = (.ok cs, g')) :
    ∃ cs₁ g₁ cs₂, (gatherWith n ms file).runOn g = (.ok cs₁, g₁) ∧
      (gatherWith n ms' file).runOn g₁ = (.ok cs₂, g') ∧ cs = cs₁ ++ cs₂ := by
  rw [gatherWith, List.mapM_append] at h
  obtain ⟨cs₁, g₁, h₁, h⟩ := runOn_bind_eq_ok h
  obtain ⟨cs₂, g₂, h₂, h⟩ := runOn_bind_eq_ok h
  cases h
  exact ⟨cs₁, g₁, cs₂, h₁, h₂, rfl⟩

/-- Going through members keeps the state sound and the settings as they are, and of the members
with names only those of a property do anything to its name. -/
theorem keeps_gatherWith (hg : g.Sound) (h : (gatherWith n ms file).runOn g = (.ok cs, g'))
    (hne : ∀ m ∈ ms, ownProperty? g.settings.naming m ≠ some k) :
    g'.Sound ∧ g'.settings = g.settings ∧
      ∀ c ∈ cs, c.1.names.isEmpty = false → c.2.set? k = none ∧ ¬ c.2.Requires k := by
  induction ms generalizing g cs with
  | nil =>
    cases h
    exact ⟨hg, rfl, List.forall_mem_nil _⟩
  | cons m ms ih =>
    obtain ⟨c, g₁, cs', hc, hcs', rfl⟩ := runOn_gatherWith_cons h
    obtain ⟨hfirst, hrest⟩ := List.forall_mem_cons.1 hne
    obtain ⟨hg₁, hsettings⟩ := keeps_memberWith hg hc
    rw [← hsettings] at hrest
    obtain ⟨hg', hsettings', hapart⟩ := ih hg₁ hcs' hrest
    refine ⟨hg', hsettings'.trans hsettings, List.forall_mem_cons.2 ⟨fun hown => ?_, hapart⟩⟩
    exact apart_of_memberWith hown hfirst hc

theorem lastSet_embedded (h : ∀ c ∈ cs, c.1.names.isEmpty = false → c.2.set? k = none) :
    lastSet k (embedded cs) = lastSet k cs := by
  induction cs with
  | nil => rfl
  | cons c cs ih =>
    obtain ⟨hfirst, hrest⟩ := List.forall_mem_cons.1 h
    rw [embedded, List.filter_cons, lastSet, ← ih hrest]
    cases hnames : c.1.names.isEmpty with
    | true => rfl
    | false =>
      rw [hfirst hnames]
      simp [embedded]

/-! ### Own fields -/

theorem ownProperty?_ne {naming : Naming} {before after : List Go.Field}
    (h : ((before ++ m :: after).filterMap (ownProperty? naming)).Nodup)
    (hm : ownProperty? naming m = some k) : (∀ m' ∈ before, ownProperty? naming m' ≠ some k) ∧
      ∀ m' ∈ after, ownProperty? naming m' ≠ some k := by
  rw [List.filterMap_append, List.filterMap_cons_some hm, List.nodup_append] at h
  obtain ⟨-, hafter, hbefore⟩ := h
  refine ⟨fun m' hm' heq => ?_, fun m' hm' heq => ?_⟩
  · exact hbefore k (List.mem_filterMap.2 ⟨m', hm', heq⟩) k (.head _) rfl
  · exact (List.nodup_cons.1 hafter).1 (List.mem_filterMap.2 ⟨m', hm', heq⟩)

/-- The property of a member and the names required in a sum of contributions. -/
theorem sumFrom_own (m : Go.Field) (own : Schema) (required : Bool)
    {cs₁ cs₂ : List (Go.Field × Contribution)}
    (h₁ : ∀ c ∈ cs₁, c.1.names.isEmpty = false → c.2.set? k = none ∧ ¬ c.2.Requires k)
    (h₂ : ∀ c ∈ cs₂, c.1.names.isEmpty = false → c.2.set? k = none ∧ ¬ c.2.Requires k) :
    let p := sumFrom {} (cs₁ ++ (m, .property k own required) :: cs₂)
    p.properties.get? k = some ((lastSet k (embedded cs₂)).getD own) ∧
      (k ∈ p.required ↔ required = true ∨ ∃ c ∈ embedded (cs₁ ++ cs₂), c.2.Requires k) := by
  intro p
  constructor
  · have hsplit : p =
        sumFrom (Contribution.addTo (sumFrom {} cs₁) (.property k own required)) cs₂ := by
      simp only [p, sumFrom, List.foldl_append, List.foldl_cons]
    have hown : ((Contribution.property k own required).addTo
        (sumFrom {} cs₁)).properties.get? k = some own := by
      rw [Contribution.get?_addTo, Contribution.set?, if_pos rfl]
      rfl
    rw [hsplit, get?_sumFrom hown, lastSet_embedded fun c hc hnames => (h₂ c hc hnames).1]
  · have hmem : ∀ c ∈ cs₁ ++ cs₂, c.2.Requires k → c ∈ embedded (cs₁ ++ cs₂) := by
      intro c hc hreq
      refine List.mem_filter.2 ⟨hc, ?_⟩
      cases hown : c.1.names.isEmpty with
      | true => rfl
      | false =>
        rcases List.mem_append.1 hc with hc | hc
        · exact absurd hreq (h₁ c hc hown).2
        · exact absurd hreq (h₂ c hc hown).2
    rw [mem_required_sumFrom]
    constructor
    · rintro (hnone | ⟨c, hc, hreq⟩)
      · cases hnone
      · rcases List.mem_append.1 hc with hc | hc
        · have hc' := List.mem_append_left cs₂ hc
          exact .inr ⟨c, hmem c hc' hreq, hreq⟩
        · rcases List.mem_cons.1 hc with rfl | hc
          · exact .inl hreq.1
          · have hc' := List.mem_append_right cs₁ hc
            exact .inr ⟨c, hmem c hc' hreq, hreq⟩
    · rintro (hreq | ⟨c, hc, hreq⟩)
      · exact .inr ⟨_, List.mem_append_right _ (.head _), hreq, rfl⟩
      · refine .inr ⟨c, ?_, hreq⟩
        rcases List.mem_append.1 (List.mem_filter.1 hc).1 with hc | hc
        · exact List.mem_append_left _ hc
        · exact List.mem_append_right _ (.tail _ hc)

/-- **What becomes of the property of an own field.**  The own fields of a struct have properties
with different names.  Then each of them is left out because of its type, or its property in the
object of the struct has the schema computed from it, unless embedded fields behind it set the
property anew, and it must be present if the field asks for it or an embedded one does. -/
theorem own_property_shadows {fields : List Go.Field} {s : Schema} (hg : g.Sound)
    (hnames : ((Go.members fields).filterMap (ownProperty? g.settings.naming)).Nodup)
    (hrun : (resolveWith (n + 5) (.struct fields) file).runOn g = (.ok s, g'))
    {before after : List Go.Field} (hm : Go.members fields = before ++ m :: after)
    (hk : ownProperty? g.settings.naming m = some k) :
    ∃ cs₁ g₁ o g₂ cs₂, (gatherWith n before file).runOn g = (.ok cs₁, g₁) ∧
      (fieldSchemaWith (n + 1) m file).runOn g₁ = (o, g₂) ∧
      (gatherWith n after file).runOn g₂ = (.ok cs₂, g') ∧
      ((∃ e, o = .error e ∧ e.LeavesOut) ∨
        ∃ own, o = .ok own ∧
          Table.get? k s.objectPart.properties = some ((lastSet k (embedded cs₂)).getD own) ∧
          (k ∈ s.objectPart.required ↔ Field.isRequired g.settings.requiredByDefault m = true ∨
            ∃ c ∈ embedded (cs₁ ++ cs₂), c.2.Requires k)) := by
  rw [resolveWith, structWith_eq, bind_map_left] at hrun
  obtain ⟨cs, g₃, hcs, hs⟩ := runOn_bind_eq_ok hrun
  cases hs
  rw [hm] at hnames hcs
  obtain ⟨hbefore, hafter⟩ := ownProperty?_ne hnames hk
  obtain ⟨cs₁, g₁, rest, h₁, hrest, rfl⟩ := runOn_gatherWith_append hcs
  obtain ⟨c, g₂, cs₂, hc, h₂, rfl⟩ := runOn_gatherWith_cons hrest
  obtain ⟨hg₁, hsettings₁, hapart₁⟩ := keeps_gatherWith hg h₁ hbefore
  obtain ⟨hg₂, hsettings₂⟩ := keeps_memberWith hg₁ hc
  have hsettings : g₂.settings = g.settings := hsettings₂.trans hsettings₁
  rw [← hsettings] at hafter
  obtain ⟨-, -, hapart₂⟩ := keeps_gatherWith hg₂ h₂ hafter
  obtain ⟨hown, hhidden, hname⟩ : m.names.isEmpty = false ∧ Field.isHidden m = false ∧
      Field.propertyName? g₁.settings.naming m = some k := by
    rw [hsettings₁]
    unfold ownProperty? at hk
    split at hk
    · cases hk
    · next h =>
      obtain ⟨hnames, hhidden⟩ := Bool.or_eq_false_iff.1 (Bool.eq_false_iff.2 h)
      exact ⟨hnames, hhidden, hk⟩
  rw [memberWith, hown, if_neg Bool.false_ne_true] at hc
  rcases propertyWith_cases hhidden hname hc with ⟨e, hout, herror, -⟩ | ⟨own, hschema, rfl⟩
  · exact ⟨cs₁, g₁, .error e, g₂, cs₂, h₁, herror, h₂, .inl ⟨e, rfl, hout⟩⟩
  refine ⟨cs₁, g₁, .ok own, g₂, cs₂, h₁, hschema, h₂, .inr ⟨own, rfl, ?_⟩⟩
  rw [hsettings]
  obtain ⟨hproperty, hrequired⟩ := sumFrom_own m own
    (Field.isRequired g.settings.requiredByDefault m) hapart₁ hapart₂
  generalize sumFrom {} _ = p at hproperty hrequired ⊢
  have hfull : p.normalized.properties ≠ [] := by
    intro hempty
    have hnone : p.properties.get? k = none := by
      rw [show p.properties = [] from hempty]
      rfl
    cases hnone.symm.trans hproperty
  obtain ⟨hproperties, hrequireds⟩ := StructParts.objectPart_toSchema hfull
  rw [hproperties, hrequireds, StructParts.mem_normalized]
  exact ⟨hproperty, hrequired⟩

/-- A struct `Base` whose property `id` must be present. -/
def based : Registry :=
  let id : Go.Field := ⟨["ID"], .ident "string", some "binding:\"required\"", none, none⟩
  let base : Go.Decl := .type ⟨"Base", [], false, .struct [id], none, none, 0⟩
  (({} : Registry).index ⟨"app.go", "example.com/app", .all, ⟨"app", [], [base], []⟩⟩).2.parseTypes

/-- An own field `ID`. -/
def idField : Go.Field := ⟨["ID"], .ident "int", none, none, none⟩

/-- An embedded field of the type `Base`. -/
def baseField : Go.Field := ⟨[], .ident "Base", none, none, none⟩

set_option maxRecDepth 100000 in
/-- The property `id` is that of the own field, which does not ask for it, and yet it must be present
because of the embedded one. -/
theorem own_property_shadows_based :
    let g := fresh based {}
    ∃ s g' g₂ cs, (resolveWith 45 (.struct [idField, baseField]) 0).runOn g = (.ok s, g') ∧
      Field.isRequired g.settings.requiredByDefault idField = false ∧
      "id" ∈ s.objectPart.required ∧ (gatherWith 40 [baseField] 0).runOn g₂ = (.ok cs, g') ∧
      ∃ c ∈ embedded cs, c.2.Requires "id" := by
  intro g
  have hnames : ((Go.members [idField, baseField]).filterMap
      (ownProperty? g.settings.naming)).Nodup := by decide +kernel
  have hmembers : Go.members [idField, baseField] = [] ++ idField :: [baseField] := by
    have hexported : Text.isExported "ID" = true := by decide +kernel
    simp [Go.members, idField, baseField, hexported]
  have hread : ((resolveWith 45 (.struct [idField, baseField]) 0).runOn g).1.toOption.map
      (fun s => decide ("id" ∈ s.objectPart.required)) = some true := by decide +kernel
  have hschema : ((fieldSchemaWith 41 idField 0).runOn g).1.isOk = true := by decide +kernel
  have hplain : Field.isRequired g.settings.requiredByDefault idField = false := by decide +kernel
  obtain ⟨s, hs, hid⟩ := Option.map_eq_some_iff.1 hread
  have hrun : (resolveWith 45 (.struct [idField, baseField]) 0).runOn g =
      (.ok s, ((resolveWith 45 (.struct [idField, baseField]) 0).runOn g).2) :=
    Prod.ext (eq_ok_of_toOption hs) rfl
  obtain ⟨cs₁, g₁, o, g₂, cs₂, h₁, ho, h₂, hcases⟩ :=
    own_property_shadows (sound_fresh based {}) hnames hrun hmembers (k := "id") (by decide +kernel)
  cases h₁
  have hrequired : "id" ∈ s.objectPart.required := of_decide_eq_true hid
  rcases hcases with ⟨e, rfl, -⟩ | ⟨own, -, -, hasked⟩
  · rw [ho] at hschema
    cases hschema
  · rcases hasked.1 hrequired with htrue | hembedded
    · cases hplain.symm.trans htrue
    · exact ⟨s, _, g₂, cs₂, hrun, hplain, hrequired, h₂, hembedded⟩

end Resolver

end GoApiDoc
