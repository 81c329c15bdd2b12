import TypeSketch.Proofs.Declaration.Writing

/-!
# How writing is composed

`Meets o gs s` says that the declared object `gs` is met in the shape `s` before any other declared
object.  `Steps o objects met w value` says that the step `w` is composed of the operations of
writing, where `objects` are the declared objects it has to do with at any depth, `met` those that
it refers to, and `value` its result under the names given in the end.  Whatever holds of the
operations holds of everything that is composed of them.  Main statement: `Steps.writes`.
-/

namespace TypeSketch.Emission

open Shape (Regular Within)

section Met

variable {o : Options}

/-- The object is met in the shape, and no other object with a declaration is passed on the way. -/
inductive Meets (o : Options) (gs : List (Field Shape)) : Shape → Prop
  | here (hdeclared : isInline o gs = false) : Meets o gs (.object gs)
  | item {s : Shape} (h : Meets o gs s) : Meets o gs (.array s)
  | member {m : Shape} {ms : List Shape} (hm : m ∈ ms) (h : Meets o gs m) : Meets o gs (.union ms)
  | content {fs : List (Field Shape)} {f : Field Shape} (hinline : isInline o fs = true)
      (hf : f ∈ fs) (h : Meets o gs f.content) : Meets o gs (.object fs)

/-- What is met in several shapes. -/
def met (o : Options) (shapes : List Shape) : Set (List (Field Shape)) :=
  {gs | ∃ s ∈ shapes, Meets o gs s}

theorem mem_met {gs : List (Field Shape)} {s : Shape} : gs ∈ met o [s] ↔ Meets o gs s := by
  simp [met]

@[simp]
theorem met_nil : met o [] = ∅ := by
  ext gs
  simp [met]

theorem met_cons (s : Shape) (rest : List Shape) : met o (s :: rest) = met o [s] ∪ met o rest := by
  ext gs
  simp [met]

@[simp]
theorem met_null : met o [.null] = ∅ := by
  ext gs
  rw [mem_met]
  exact ⟨fun h => (by cases h), fun h => h.elim⟩

@[simp]
theorem met_primitive (kind : Kind) (l : Option Literal) : met o [.primitive kind l] = ∅ := by
  ext gs
  rw [mem_met]
  exact ⟨fun h => (by cases h), fun h => h.elim⟩

@[simp]
theorem met_array (s : Shape) : met o [.array s] = met o [s] := by
  ext gs
  rw [mem_met, mem_met]
  constructor
  · intro h
    cases h with
    | item h => exact h
  · exact .item

@[simp]
theorem met_union (ms : List Shape) : met o [.union ms] = met o ms := by
  ext gs
  rw [mem_met]
  constructor
  · intro h
    cases h with
    | member hm h => exact ⟨_, hm, h⟩
  · rintro ⟨m, hm, h⟩
    exact .member hm h

theorem met_inline {fs : List (Field Shape)} (h : isInline o fs = true) :
    met o [.object fs] = met o (fs.map (·.content)) := by
  ext gs
  rw [mem_met]
  constructor
  · intro hmeets
    cases hmeets with
    | here hdeclared => exact Bool.noConfusion (h.symm.trans hdeclared)
    | content _ hf hmeets => exact ⟨_, List.mem_map_of_mem hf, hmeets⟩
  · rintro ⟨s, hs, hmeets⟩
    obtain ⟨f, hf, rfl⟩ := List.mem_map.mp hs
    exact .content h hf hmeets

/-- Of a declared object nothing is met but itself. -/
theorem met_declared {fs : List (Field Shape)} (h : isInline o fs = false) :
    met o [.object fs] = {fs} := by
  ext gs
  rw [mem_met]
  constructor
  · intro hmeets
    cases hmeets with
    | here => rfl
    | content hinline => exact Bool.noConfusion (h.symm.trans hinline)
  · rintro rfl
    exact .here h

theorem Meets.within {gs : List (Field Shape)} {s : Shape} (h : Meets o gs s) :
    Within (.object gs) s := by
  induction h with
  | here => exact .refl _
  | item _ ih => exact .item ih
  | member hm _ ih => exact .member hm ih
  | content _ hf _ ih => exact .content hf ih

theorem Meets.declared {gs : List (Field Shape)} {s : Shape} (h : Meets o gs s) :
    isInline o gs = false := by
  induction h with
  | here hdeclared => exact hdeclared
  | item _ ih => exact ih
  | member _ _ ih => exact ih
  | content _ _ _ ih => exact ih

theorem met_subset_occurring (shapes : List Shape) : met o shapes ⊆ occurring o shapes := by
  rintro gs ⟨s, hs, h⟩
  exact ⟨h.declared, s, hs, h.within⟩

end Met

/-- A step composed of the operations of writing. -/
inductive Steps (o : Options) : {α : Type} → (objects met : Set (List (Field Shape))) → Emit α →
    ((Key → Option String) → α) → Prop
  | pure {α : Type} (a : α) : Steps o ∅ ∅ (Pure.pure a) fun _ => a
  /-- Only the result is changed. -/
  | bind_pure {α β : Type} {D M : Set (List (Field Shape))} {w : Emit α}
      {value : (Key → Option String) → α} {g : α → Emit β} {f : α → β} (h : Steps o D M w value)
      (hg : ∀ σ, g (value σ) = Pure.pure (f (value σ))) :
      Steps o D M (w >>= g) fun σ => f (value σ)
  /-- One step after another. -/
  | seq {α β γ : Type} {D E M N : Set (List (Field Shape))} {w : Emit α} {w' : Emit β}
      {value : (Key → Option String) → α} {value' : (Key → Option String) → β}
      (h : Steps o D M w value) (h' : Steps o E N w' value') (f : α → β → γ) :
      Steps o (D ∪ E) (M ∪ N) (do let a ← w; let b ← w'; Pure.pure (f a b))
        fun σ => f (value σ) (value' σ)
  /-- A structure that no registry has a name for. -/
  | named {D M : Set (List (Field Shape))} {w : Emit (List Char)}
      {value : (Key → Option String) → List Char} {k : Key} (h : Steps o D M w value)
      (hk : ∀ fs, isInline o fs = false → (Shape.object fs).identity ≠ k) :
      Steps o D M (Emission.named k w) value
  /-- An object with a declaration of its own. -/
  | extract {fs : List (Field Shape)} {write : Emit (List (List Char))}
      (hfs : (Shape.object fs).Regular) (hdeclared : isInline o fs = false)
      (h : Steps o (occurring o (fs.map (·.content))) (met o (fs.map (·.content))) write
        fun σ => lines o σ fs) (suggested : String) (fields : List String) :
      Steps o (occurring o [.object fs]) {fs}
        (Emission.named (Shape.object fs).identity
          (Emission.extract o (Shape.object fs).identity suggested fields write))
        fun σ => ((σ (Shape.object fs).identity).getD "").toList

namespace Steps

variable {o : Options} {α β : Type} {D M : Set (List (Field Shape))} {w : Emit α}
  {value : (Key → Option String) → α}

theorem map (h : Steps o D M w value) (f : α → β) :
    Steps o D M (f <$> w) fun σ => f (value σ) := by
  rw [map_eq_pure_bind]
  exact h.bind_pure fun _ => rfl

/-- What is composed of the operations gives its value and declares its objects. -/
theorem writes (h : Steps o D M w value) : Writes o D w value := by
  induction h with
  | pure a => exact .pure a
  | bind_pure _ hg ih => exact ih.bind_pure hg
  | seq _ _ f ih ih' => exact ih.seq ih' f
  | named _ hk ih => exact ih.named hk
  | extract hfs hdeclared _ suggested fields ih => exact .extract hfs hdeclared ih suggested fields

end Steps

end TypeSketch.Emission
