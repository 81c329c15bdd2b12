import TypeSketch.Proofs.Declaration.Emission

/-!
# What declarations refer to

While an expression is written, the names it refers to are noted, and those that are noted for the
fields of an object become the dependencies of its declaration.  `Links` says of a step what it
notes and declares.  Main statement: `Steps.links`.
-/

namespace TypeSketch.Emission

open Shape (Regular Within)

/-- The names of several objects. -/
def namesOf (σ : Key → Option String) (objects : Set (List (Field Shape))) : Set String :=
  {n | ∃ gs ∈ objects, σ (Shape.object gs).identity = some n}

section Names

variable {σ τ : Key → Option String} {M N : Set (List (Field Shape))}

theorem namesOf_empty : namesOf σ ∅ = ∅ := by
  ext n
  simp [namesOf]

theorem namesOf_union : namesOf σ (M ∪ N) = namesOf σ M ∪ namesOf σ N := by
  ext n
  simp only [namesOf, Set.mem_union, or_and_right, exists_or, Set.mem_ofPred_eq]

theorem namesOf_singleton {fs : List (Field Shape)} {name : String}
    (h : σ (Shape.object fs).identity = some name) : namesOf σ {fs} = {name} := by
  ext n
  simp [namesOf, h, eq_comm]

theorem namesOf_congr (h : Agree σ τ M) : namesOf σ M = namesOf τ M := by
  ext n
  constructor
  · rintro ⟨gs, hgs, hn⟩
    exact ⟨gs, hgs, (h gs hgs).symm.trans hn⟩
  · rintro ⟨gs, hgs, hn⟩
    exact ⟨gs, hgs, (h gs hgs).trans hn⟩

end Names

/-- A declaration of an object, of which the dependencies are the names of what is met in its
fields. -/
structure DeclaredFor (o : Options) (σ : Key → Option String) (fs : List (Field Shape))
    (d : Declaration) : Prop where
  name : σ (Shape.object fs).identity = some d.name
  /-- Everything that occurs in the object has a name. -/
  named : ∀ gs ∈ occurring o [.object fs], ∃ n, σ (Shape.object gs).identity = some n
  dependencies : ∀ n, n ∈ d.dependencies ↔ n ∈ namesOf σ (met o (fs.map (·.content)))

theorem DeclaredFor.extend {o : Options} {r r' : Registry} {fs : List (Field Shape)}
    {d : Declaration} (h : DeclaredFor o r.nameOf? fs d) (hext : r.Extends r') :
    DeclaredFor o r'.nameOf? fs d where
  name := hext.named h.name
  named := Named.extend h.named hext
  dependencies := by
    have hcontents : Named r (met o (fs.map (·.content))) :=
      Named.mono h.named ((met_subset_occurring _).trans (occurring_contents_subset fs))
    rw [← namesOf_congr (hcontents.agree hext)]
    exact h.dependencies

/-- What a step notes and declares: it refers to the objects that are met, and each of its new
declarations is that of an object it has to do with. -/
structure Links (o : Options) (objects met : Set (List (Field Shape))) (e e' : Emission)
    (refs : List String) (added : List Declaration) : Prop where
  references : e'.references = e.references ++ refs
  referred : ∀ n, n ∈ refs ↔ n ∈ namesOf e'.registry.nameOf? met
  declarations : e'.registry.declarations = e.registry.declarations ++ added
  used : ∀ n, n ∈ e'.registry.used ↔ n ∈ e.registry.used ∨ n ∈ added.map (·.name)
  fresh : ∀ d ∈ added, d.name ∉ e.registry.used
  nodup : (added.map (·.name)).Nodup
  owner : ∀ d ∈ added, ∃ fs ∈ objects, DeclaredFor o e'.registry.nameOf? fs d

section Steps

variable {o : Options} {D E M N : Set (List (Field Shape))} {e e' e'' : Emission}
  {refs refs' : List String} {added added' : List Declaration}

theorem Links.refl (o : Options) (e : Emission) : Links o ∅ ∅ e e [] [] where
  references := (List.append_nil _).symm
  referred := by simp [namesOf_empty]
  declarations := (List.append_nil _).symm
  used := by simp
  fresh _ hd := absurd hd List.not_mem_nil
  nodup := List.nodup_nil
  owner _ hd := absurd hd List.not_mem_nil

/-- One step after another.  What the first one met is named, and keeps its name. -/
theorem Links.trans (h : Links o D M e e' refs added) (h' : Links o E N e' e'' refs' added')
    (hnamed : Named e'.registry M) (hext : e'.registry.Extends e''.registry) :
    Links o (D ∪ E) (M ∪ N) e e'' (refs ++ refs') (added ++ added') where
  references := by rw [h'.references, h.references, List.append_assoc]
  referred := by
    intro n
    rw [List.mem_append, h.referred, h'.referred, namesOf_union, namesOf_congr (hnamed.agree hext)]
    rfl
  declarations := by rw [h'.declarations, h.declarations, List.append_assoc]
  used := by
    intro n
    rw [h'.used, h.used, List.map_append, List.mem_append, or_assoc]
  fresh := by
    intro d hd hused
    rcases List.mem_append.mp hd with hd | hd
    · exact h.fresh d hd hused
    · exact h'.fresh d hd ((h.used _).mpr (.inl hused))
  nodup := by
    rw [List.map_append, List.nodup_append]
    refine ⟨h.nodup, h'.nodup, ?_⟩
    rintro _ hn _ hn' rfl
    obtain ⟨d, hd, hname⟩ := List.mem_map.mp hn'
    exact h'.fresh d hd (hname ▸ (h.used _).mpr (.inr hn))
  owner := by
    intro d hd
    rcases List.mem_append.mp hd with hd | hd
    · obtain ⟨fs, hfs, hdeclared⟩ := h.owner d hd
      exact ⟨fs, .inl hfs, hdeclared.extend hext⟩
    · obtain ⟨fs, hfs, hdeclared⟩ := h'.owner d hd
      exact ⟨fs, .inr hfs, hdeclared⟩

theorem Steps.met_subset {α : Type} {w : Emit α} {value : (Key → Option String) → α}
    (h : Steps o D M w value) : M ⊆ D := by
  induction h with
  | pure => exact Set.empty_subset _
  | bind_pure _ _ ih => exact ih
  | seq _ _ _ ih ih' => exact Set.union_subset_union ih ih'
  | named _ _ ih => exact ih
  | extract _ hdeclared _ _ _ _ =>
      exact Set.singleton_subset_iff.mpr (mem_occurring_object.mpr (.inl ⟨hdeclared, rfl⟩))

end Steps

section Extraction

variable {o : Options} {fs : List (Field Shape)} {e : Emission}

/-- An object that was declared before is referred to by its name. -/
theorem links_found {name : String}
    (h : e.registry.nameOf? (Shape.object fs).identity = some name) :
    Links o (occurring o [.object fs]) {fs} e { e with references := e.references ++ [name] }
      [name] [] where
  references := rfl
  referred := by simp [namesOf_singleton h]
  declarations := (List.append_nil _).symm
  used := by simp
  fresh _ hd := absurd hd List.not_mem_nil
  nodup := List.nodup_nil
  owner _ hd := absurd hd List.not_mem_nil

theorem mem_used_of_mem_declarations {r : Registry} (hr : r.Sound) {d : Declaration}
    (hd : d ∈ r.declarations) : d.name ∈ r.used := by
  have hfound : (r.declaration? d.name).isSome = true :=
    List.find?_isSome.mpr ⟨d, hd, beq_self_eq_true _⟩
  obtain ⟨d', hd'⟩ := Option.isSome_iff_exists.mp hfound
  exact hr.used_of_declared hd'

/-- No declaration has a name that is free. -/
theorem ne_freeName_of_mem {r : Registry} (hr : r.Sound) (suggested : String) :
    ∀ d ∈ r.declarations, d.name ≠ r.freeName suggested := fun _ hd hname =>
  r.freeName_notMem suggested (hname ▸ mem_used_of_mem_declarations hr hd)

theorem map_update_of_ne {ds : List Declaration} {name : String} {f : Declaration → Declaration}
    (h : ∀ d ∈ ds, d.name ≠ name) : (ds.map fun d => if d.name = name then f d else d) = ds := by
  conv => rhs; rw [← List.map_id ds]
  exact List.map_congr_left fun d hd => if_neg (h d hd)

theorem declarations_opened {r : Registry} (hr : r.Sound) (k : Key) (suggested : String)
    (fields : List String) :
    (Writes.opened r k suggested fields).declarations =
      r.declarations ++ [{ name := r.freeName suggested, fields }] := by
  rw [Writes.opened, Registry.update, Registry.declare, List.map_append,
    map_update_of_ne (ne_freeName_of_mem hr suggested), List.map_singleton, if_pos rfl]

theorem declarations_closed {r : Registry} {before after : List Declaration} {name : String}
    {fields dependencies : List String} {parts : List (List Char)}
    (h : r.declarations = before ++ [{ name := name, fields }] ++ after)
    (hbefore : ∀ d ∈ before, d.name ≠ name) (hafter : ∀ d ∈ after, d.name ≠ name) :
    (Writes.closed o r name dependencies parts).declarations =
      before ++ [{ name := name, fields, dependencies, body := bodyText o parts }] ++ after := by
  rw [Writes.closed, Registry.update, Registry.update, h, List.map_append, List.map_append,
    map_update_of_ne hbefore, map_update_of_ne hafter, List.map_append, List.map_append,
    map_update_of_ne hbefore, map_update_of_ne hafter, List.map_singleton, if_pos rfl,
    List.map_singleton, if_pos rfl]

/-- A new declaration depends on what its fields refer to. -/
theorem links_extracted {e' : Emission} {suggested : String} {fields : List String}
    {refs : List String} {added : List Declaration} (hdeclared : isInline o fs = false)
    (hr : e.registry.Sound)
    (hwritten : Written o (occurring o (fs.map (·.content)))
      (Writes.opened e.registry (Shape.object fs).identity suggested fields) e'.registry)
    (h : Links o (occurring o (fs.map (·.content))) (met o (fs.map (·.content)))
      ⟨Writes.opened e.registry (Shape.object fs).identity suggested fields, []⟩ e' refs added) :
    Links o (occurring o [.object fs]) {fs} e
      ⟨Writes.closed o e'.registry (e.registry.freeName suggested) e'.references
          (lines o e'.registry.nameOf? fs), e.references ++ [e.registry.freeName suggested]⟩
      [e.registry.freeName suggested]
      ({ name := e.registry.freeName suggested, fields, dependencies := e'.references
         body := bodyText o (lines o e'.registry.nameOf? fs) } :: added) := by
  have hname := Writes.nameOf?_of_opened hwritten
  have hused : ∀ d ∈ added, d.name ∉ e.registry.freeName suggested :: e.registry.used := h.fresh
  have hdeclarations : e'.registry.declarations =
      e.registry.declarations ++ [{ name := e.registry.freeName suggested, fields }] ++ added := by
    rw [h.declarations, declarations_opened hr]
  have hbefore := ne_freeName_of_mem hr suggested
  have hafter : ∀ d ∈ added, d.name ≠ e.registry.freeName suggested :=
    fun d hd heq => hused d hd (heq ▸ List.mem_cons_self)
  constructor
  case references => rfl
  case referred =>
    intro n
    show n ∈ [e.registry.freeName suggested] ↔ n ∈ namesOf e'.registry.nameOf? {fs}
    rw [namesOf_singleton hname, List.mem_singleton]
    rfl
  case declarations =>
    show (Writes.closed o e'.registry _ _ _).declarations = _
    rw [declarations_closed hdeclarations hbefore hafter, List.append_assoc]
    rfl
  case used =>
    intro n
    show n ∈ e'.registry.used ↔ _
    rw [h.used, List.map_cons, List.mem_cons]
    show n ∈ e.registry.freeName suggested :: e.registry.used ∨ _ ↔ _
    rw [List.mem_cons, or_assoc, or_left_comm]
  case fresh =>
    rw [List.forall_mem_cons]
    exact ⟨e.registry.freeName_notMem suggested,
      fun d hd hmem => hused d hd (List.mem_cons_of_mem _ hmem)⟩
  case nodup =>
    rw [List.map_cons, List.nodup_cons]
    refine ⟨fun hmem => ?_, h.nodup⟩
    obtain ⟨d, hd, heq⟩ := List.mem_map.mp hmem
    exact hafter d hd heq
  case owner =>
    rw [List.forall_mem_cons]
    constructor
    · -- what the fields refer to has been noted from nothing on
      have hnamed : Named (Writes.closed o e'.registry (e.registry.freeName suggested)
          e'.references (lines o e'.registry.nameOf? fs)) (occurring o [.object fs]) :=
        Writes.named_closed hwritten
      refine ⟨fs, mem_occurring_object.mpr (.inl ⟨hdeclared, rfl⟩), hname, hnamed, fun n => ?_⟩
      show n ∈ e'.references ↔ n ∈ namesOf e'.registry.nameOf? (met o (fs.map (·.content)))
      rw [h.references, List.nil_append]
      exact h.referred n
    · intro d hd
      obtain ⟨gs, hgs, hgsdeclared⟩ := h.owner d hd
      exact ⟨gs, occurring_contents_subset fs hgs, hgsdeclared⟩

end Extraction

/-- Whatever is composed of the operations notes what it meets and declares what it has to do
with. -/
theorem Steps.links {o : Options} {α : Type} {D M : Set (List (Field Shape))} {w : Emit α}
    {value : (Key → Option String) → α} (h : Steps o D M w value) {e e' : Emission} {a : α}
    (he : Ready o D e.registry) (hw : w e = (.ok a, e')) :
    ∃ refs added, Links o D M e e' refs added := by
  induction h generalizing e e' with
  | pure =>
      cases hw
      exact ⟨[], [], .refl o e⟩
  | bind_pure h hg ih =>
      obtain ⟨e₁, hrun, -⟩ := h.writes.run e he
      rw [Writes.bind_ok hrun, hg] at hw
      cases hw
      exact ih he hrun
  | seq h h' f ih ih' =>
      obtain ⟨e₁, hrun, hwritten⟩ := h.writes.run e (he.mono Set.subset_union_left)
      have he₁ := (he.after hwritten).mono Set.subset_union_right
      obtain ⟨e₂, hrun', hwritten'⟩ := h'.writes.run e₁ he₁
      rw [Writes.bind_ok hrun, Writes.bind_ok hrun'] at hw
      cases hw
      obtain ⟨refs, added, hlinks⟩ := ih (he.mono Set.subset_union_left) hrun
      obtain ⟨refs', added', hlinks'⟩ := ih' he₁ hrun'
      exact ⟨_, _, hlinks.trans hlinks' (hwritten.named.mono h.met_subset) hwritten'.kept⟩
  | named _ hk ih =>
      rw [Writes.named_of_none (he.fit.nameOf?_eq_none hk)] at hw
      exact ih he hw
  | @extract fs write hfs hdeclared h suggested fields ih =>
      cases hknown : e.registry.nameOf? (Shape.object fs).identity with
      | some name =>
          rw [Writes.named_of_some hknown] at hw
          cases hw
          exact ⟨_, _, links_found hknown⟩
      | none =>
          have hopened := Writes.ready_opened hfs hdeclared he hknown suggested fields
          obtain ⟨e₁, hrun, hwritten⟩ := h.writes.run
            ⟨Writes.opened e.registry (Shape.object fs).identity suggested fields, []⟩ hopened
          rw [Writes.named_of_none hknown, Writes.extract_ok hrun] at hw
          cases hw
          obtain ⟨refs, added, hlinks⟩ := ih hopened hrun
          exact ⟨_, _, links_extracted hdeclared he.fit.sound hwritten hlinks⟩

end TypeSketch.Emission
