import TypeSketch.Declaration.Registry
import TypeSketch.Proofs.Entries
import TypeSketch.Proofs.Name

/-!
# What a registry keeps

A sound registry gives distinct structures distinct declared names, all of them in use.  A
registry that extends another one has all its names and declarations unchanged.
-/

namespace TypeSketch.Registry

section Operations

variable (r : Registry)

theorem freeName_notMem (suggested : String) : r.freeName suggested ∉ r.used :=
  Name.unique_notMem suggested r.used

theorem nameOf?_declare (name : String) (k l : Key) :
    (r.declare name k).nameOf? l = if l = k then some name else r.nameOf? l := by
  rw [nameOf?, declare, List.lookup_cons]
  split
  · rename_i h
    rw [if_pos (beq_iff_eq.mp h)]
  · rename_i h
    have hne : l ≠ k := fun heq => by simp [heq] at h
    rw [if_neg hne, lookup_filter_ne hne, nameOf?]

theorem declaration?_declare (name : String) (k : Key) (n : String) :
    (r.declare name k).declaration? n =
      (r.declaration? n).or (if name = n then some { name } else none) := by
  rw [declaration?, declare, List.find?_append, declaration?]
  by_cases h : name = n
  · simp [h]
  · simp [h]

variable {r} in
/-- What is found under a name is a declaration of the name. -/
theorem mem_of_declaration? {name : String} {d : Declaration} (h : r.declaration? name = some d) :
    d ∈ r.declarations ∧ d.name = name :=
  ⟨List.mem_of_find?_eq_some h, by simpa using List.find?_some h⟩

variable {r} in
/-- Where no name is declared twice, each declaration is found under its name. -/
theorem declaration?_of_mem (hnodup : (r.declarations.map (·.name)).Nodup) {d : Declaration}
    (hd : d ∈ r.declarations) : r.declaration? d.name = some d := by
  have hfound : (r.declaration? d.name).isSome = true :=
    List.find?_isSome.mpr ⟨d, hd, beq_self_eq_true _⟩
  obtain ⟨d', hd'⟩ := Option.isSome_iff_exists.mp hfound
  obtain ⟨hmem, hname⟩ := mem_of_declaration? hd'
  rw [hd', List.inj_on_of_nodup_map hnodup hmem hd hname]

variable {f : Declaration → Declaration} (hf : ∀ d, (f d).name = d.name)

@[simp]
theorem nameOf?_update (name : String) (k : Key) : (r.update name f).nameOf? k = r.nameOf? k := rfl

include hf

omit r in
theorem name_updated (name : String) (d : Declaration) :
    (if d.name = name then f d else d).name = d.name := by
  split
  · exact hf d
  · rfl

theorem declaration?_update (name n : String) :
    (r.update name f).declaration? n =
      if n = name then (r.declaration? n).map f else r.declaration? n := by
  have hsame : ((fun d : Declaration => d.name == n) ∘ fun d => if d.name = name then f d else d) =
      fun d => d.name == n := by
    funext d
    rw [Function.comp_apply, name_updated hf]
  rw [declaration?, update, List.find?_map, hsame, declaration?]
  cases h : r.declarations.find? fun d => d.name == n with
  | none => rw [Option.map_none, Option.map_none, ite_self]
  | some d =>
      rw [Option.map_some, Option.map_some, (mem_of_declaration? h).2]
      split
      · rfl
      · rfl

end Operations

/-- Distinct structures have distinct names, and these are declared and in use. -/
structure Sound (r : Registry) : Prop where
  used_of_declared : ∀ {name d}, r.declaration? name = some d → name ∈ r.used
  declared_of_named : ∀ {k name}, r.nameOf? k = some name → ∃ d, r.declaration? name = some d
  eq_of_named : ∀ {k l name}, r.nameOf? k = some name → r.nameOf? l = some name → k = l

namespace Sound

theorem empty : ({} : Registry).Sound where
  used_of_declared h := by cases h
  declared_of_named h := by cases h
  eq_of_named h := by cases h

variable {r : Registry}

theorem used_of_named (hr : r.Sound) {k : Key} {name : String} (h : r.nameOf? k = some name) :
    name ∈ r.used := by
  obtain ⟨d, hd⟩ := hr.declared_of_named h
  exact hr.used_of_declared hd

theorem declaration?_freeName (hr : r.Sound) (suggested : String) :
    r.declaration? (r.freeName suggested) = none := by
  cases h : r.declaration? (r.freeName suggested) with
  | none => rfl
  | some d => exact absurd (hr.used_of_declared h) (r.freeName_notMem suggested)

theorem reserve (hr : r.Sound) (name : String) : (r.reserve name).Sound := by
  rw [Registry.reserve]
  split
  · exact hr
  · exact {
      used_of_declared := fun h => List.mem_cons_of_mem _ (hr.used_of_declared h)
      declared_of_named := hr.declared_of_named
      eq_of_named := hr.eq_of_named }

theorem declare (hr : r.Sound) {name : String} (hname : name ∉ r.used) (k : Key) :
    (r.declare name k).Sound where
  used_of_declared := by
    intro n d h
    show n ∈ name :: r.used
    rw [declaration?_declare, Option.or_eq_some_iff] at h
    rcases h with h | ⟨-, h⟩
    · exact List.mem_cons_of_mem _ (hr.used_of_declared h)
    · split at h
      · rename_i heq
        exact heq ▸ List.mem_cons_self
      · cases h
  declared_of_named := by
    intro l n h
    rw [nameOf?_declare] at h
    rw [declaration?_declare]
    split at h
    · cases h
      cases r.declaration? name with
      | none => exact ⟨_, by rw [if_pos rfl, Option.none_or]⟩
      | some d => exact ⟨d, Option.some_or⟩
    · obtain ⟨d, hd⟩ := hr.declared_of_named h
      exact ⟨d, by rw [hd, Option.some_or]⟩
  eq_of_named := by
    intro l l' n h h'
    rw [nameOf?_declare] at h h'
    split at h
    · -- a name that is not in use belongs to the new structure alone
      rename_i hl
      cases h
      split at h'
      · rename_i hl'
        rw [hl, hl']
      · exact absurd (hr.used_of_named h') hname
    · split at h'
      · cases h'
        exact absurd (hr.used_of_named h) hname
      · exact hr.eq_of_named h h'

theorem update (hr : r.Sound) {f : Declaration → Declaration} (hf : ∀ d, (f d).name = d.name)
    (name : String) : (r.update name f).Sound where
  used_of_declared := by
    intro n d h
    show n ∈ r.used
    rw [declaration?_update r hf] at h
    split at h
    · obtain ⟨e, he, -⟩ := Option.map_eq_some_iff.mp h
      exact hr.used_of_declared he
    · exact hr.used_of_declared h
  declared_of_named := by
    intro k n h
    obtain ⟨d, hd⟩ := hr.declared_of_named h
    rw [declaration?_update r hf, hd]
    split
    · exact ⟨f d, rfl⟩
    · exact ⟨d, rfl⟩
  eq_of_named := hr.eq_of_named

end Sound

/-- The second registry has all names and declarations of the first one unchanged. -/
structure Extends (r r' : Registry) : Prop where
  named : ∀ {k name}, r.nameOf? k = some name → r'.nameOf? k = some name
  declared : ∀ {name d}, r.declaration? name = some d → r'.declaration? name = some d

namespace Extends

variable {r r' r'' : Registry}

theorem refl (r : Registry) : r.Extends r := ⟨id, id⟩

theorem trans (h : r.Extends r') (h' : r'.Extends r'') : r.Extends r'' :=
  ⟨fun hk => h'.named (h.named hk), fun hd => h'.declared (h.declared hd)⟩

theorem declare (name : String) {k : Key} (h : r.nameOf? k = none) :
    r.Extends (r.declare name k) where
  named := by
    intro l n hl
    have hne : l ≠ k := fun heq => by rw [heq, h] at hl; cases hl
    rw [nameOf?_declare, if_neg hne, hl]
  declared := by
    intro n d hd
    -- the new declaration stands behind all others
    rw [declaration?_declare, hd, Option.some_or]

/-- A later change of a declaration that the first registry does not have. -/
theorem update (h : r.Extends r') {name : String} (hname : r.declaration? name = none)
    {f : Declaration → Declaration} (hf : ∀ d, (f d).name = d.name) :
    r.Extends (r'.update name f) where
  named := h.named
  declared := by
    intro n d hd
    have hne : n ≠ name := fun heq => by rw [heq, hname] at hd; cases hd
    rw [declaration?_update r' hf, if_neg hne, h.declared hd]

end Extends

end TypeSketch.Registry
