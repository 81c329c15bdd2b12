import TypeSketch.Proofs.Declaration.Registry
import TypeSketch.Proofs.Declaration.Rendering

/-!
# Steps of writing

`Writes o objects w value` says of a step that it never fails on a registry that fits the objects
it meets, that its result is `value` of the names given in the end, and that it leaves these
objects declared with the bodies that rendering gives them.  An object is named before its body is
there, so a registry may hold objects that are pending; it fits as long as none of those is met
again.  Main statement: `Writes.extract`, a declaration whose fields are written is a step of its
own.
-/

namespace TypeSketch.Emission

open Shape (Regular Within)

section Completion

variable {o : Options}

/-- All of the objects have names. -/
def Named (r : Registry) (objects : Set (List (Field Shape))) : Prop :=
  ∀ fs ∈ objects, ∃ name, r.nameOf? (Shape.object fs).identity = some name

theorem Named.mono {r : Registry} {D E : Set (List (Field Shape))} (h : Named r E) (hsub : D ⊆ E) :
    Named r D :=
  fun fs hfs => h fs (hsub hfs)

theorem Named.extend {r r' : Registry} {D : Set (List (Field Shape))} (h : Named r D)
    (hext : r.Extends r') : Named r' D := by
  intro fs hfs
  obtain ⟨name, hname⟩ := h fs hfs
  exact ⟨name, hext.named hname⟩

/-- Names are kept, so that what is named has the same name later on. -/
theorem Named.agree {r r' : Registry} {D : Set (List (Field Shape))} (h : Named r D)
    (hext : r.Extends r') : Agree r.nameOf? r'.nameOf? D := by
  intro fs hfs
  obtain ⟨name, hname⟩ := h fs hfs
  rw [hname, hext.named hname]

/-- The structure is declared with the body of one of its objects, and what occurs in it is named
too. -/
def Complete (o : Options) (r : Registry) (k : Key) : Prop :=
  ∃ fs name d, (Shape.object fs).Regular ∧ (Shape.object fs).identity = k ∧
    Named r (occurring o [.object fs]) ∧ r.nameOf? k = some name ∧
      r.declaration? name = some d ∧ d.body = body o r.nameOf? fs

theorem occurring_contents_subset (fs : List (Field Shape)) :
    occurring o (fs.map (·.content)) ⊆ occurring o [.object fs] :=
  fun _ hgs => mem_occurring_object.mpr (.inr hgs)

theorem Complete.extend {r r' : Registry} {k : Key} (h : Complete o r k) (hext : r.Extends r') :
    Complete o r' k := by
  obtain ⟨fs, name, d, hfs, hk, hnamed, hname, hd, hbody⟩ := h
  have hsame : body o r.nameOf? fs = body o r'.nameOf? fs :=
    body_congr hfs hfs rfl ((hnamed.mono (occurring_contents_subset fs)).agree hext)
  exact ⟨fs, name, d, hfs, hk, hnamed.extend hext, hext.named hname, hext.declared hd,
    hbody.trans hsame⟩

/-- A change of another declaration. -/
theorem Complete.update {r : Registry} {k : Key} (h : Complete o r k) {name : String}
    (hname : r.nameOf? k ≠ some name) {f : Declaration → Declaration}
    (hf : ∀ d, (f d).name = d.name) : Complete o (r.update name f) k := by
  obtain ⟨fs, name', d, hfs, hk, hnamed, hname', hd, hbody⟩ := h
  have hne : name' ≠ name := fun heq => hname (heq ▸ hname')
  refine ⟨fs, name', d, hfs, hk, hnamed, hname', ?_, hbody⟩
  rw [Registry.declaration?_update r hf, if_neg hne, hd]

/-- What occurs in any object of a complete structure is named. -/
theorem Complete.named {r : Registry} {gs : List (Field Shape)}
    (h : Complete o r (Shape.object gs).identity) (hgs : (Shape.object gs).Regular) :
    Named r (occurring o [.object gs]) := by
  obtain ⟨fs, -, -, hfs, hk, hnamed, -⟩ := h
  intro ls hls
  obtain ⟨hdeclared, hwithin⟩ := mem_occurring.mp hls
  obtain ⟨u, hu, hidentity⟩ := Shape.exists_within_of_identity_eq hwithin hgs hfs hk.symm
  cases u with
  | object us =>
      -- its like in the object that was written is declared, too
      have hus : us ∈ occurring o [.object fs] :=
        mem_occurring.mpr ⟨isInline_congr hidentity ▸ hdeclared, hu⟩
      rw [← hidentity]
      exact hnamed us hus
  | _ => cases hidentity

/-- The body under the name of any object of a complete structure. -/
theorem Complete.body {r : Registry} {gs : List (Field Shape)}
    (h : Complete o r (Shape.object gs).identity) (hgs : (Shape.object gs).Regular) :
    ∃ name d, r.nameOf? (Shape.object gs).identity = some name ∧ r.declaration? name = some d ∧
      d.body = body o r.nameOf? gs := by
  obtain ⟨fs, name, d, hfs, hk, -, hname, hd, hbody⟩ := h
  have hsame : Emission.body o r.nameOf? fs = Emission.body o r.nameOf? gs :=
    body_congr hfs hgs hk fun _ _ => rfl
  exact ⟨name, d, hname, hd, hbody.trans hsame⟩

end Completion

/-- A sound registry of none but objects that are not written inline. -/
structure Fit (o : Options) (r : Registry) : Prop where
  sound : r.Sound
  declared : ∀ {k name}, r.nameOf? k = some name →
    ∃ fs, isInline o fs = false ∧ (Shape.object fs).identity = k

theorem Fit.update {o : Options} {r : Registry} (h : Fit o r) {f : Declaration → Declaration}
    (hf : ∀ d, (f d).name = d.name) (name : String) : Fit o (r.update name f) :=
  ⟨h.sound.update hf name, h.declared⟩

/-- Nothing but the objects that are not written inline has a name. -/
theorem Fit.nameOf?_eq_none {o : Options} {r : Registry} (h : Fit o r) {k : Key}
    (hk : ∀ fs, isInline o fs = false → (Shape.object fs).identity ≠ k) : r.nameOf? k = none := by
  cases hname : r.nameOf? k with
  | none => rfl
  | some name =>
      obtain ⟨fs, hdeclared, hidentity⟩ := h.declared hname
      exact absurd hidentity (hk fs hdeclared)

/-- A registry in which none of the objects is pending. -/
structure Ready (o : Options) (objects : Set (List (Field Shape))) (r : Registry) : Prop where
  fit : Fit o r
  settled : ∀ fs ∈ objects, r.nameOf? (Shape.object fs).identity = none ∨
    Complete o r (Shape.object fs).identity

/-- What writing has done to a registry when it is over. -/
structure Written (o : Options) (objects : Set (List (Field Shape))) (r r' : Registry) : Prop where
  fit : Fit o r'
  kept : r.Extends r'
  named : Named r' objects
  /-- Nothing new is pending. -/
  complete : ∀ {k name}, r'.nameOf? k = some name → r.nameOf? k = some name ∨ Complete o r' k

section Steps

variable {o : Options} {r r' r'' : Registry} {D E : Set (List (Field Shape))}

theorem Ready.mono (h : Ready o E r) (hsub : D ⊆ E) : Ready o D r :=
  ⟨h.fit, fun fs hfs => h.settled fs (hsub hfs)⟩

/-- What was not pending before a step is not pending after it. -/
theorem Ready.after (h : Ready o E r) (hstep : Written o D r r') : Ready o E r' where
  fit := hstep.fit
  settled := by
    intro fs hfs
    show r'.nameOf? (Shape.object fs).identity = none ∨ Complete o r' (Shape.object fs).identity
    rcases h.settled fs hfs with hnone | hcomplete
    · cases hname : r'.nameOf? (Shape.object fs).identity with
      | none => exact .inl rfl
      | some name =>
          rcases hstep.complete hname with hbefore | hcomplete
          · rw [hnone] at hbefore
            cases hbefore
          · exact .inr hcomplete
    · exact .inr (hcomplete.extend hstep.kept)

theorem Written.refl (h : Fit o r) (hnamed : Named r D) : Written o D r r :=
  ⟨h, .refl r, hnamed, .inl⟩

theorem Written.trans (h : Written o D r r') (h' : Written o E r' r'') :
    Written o (D ∪ E) r r'' where
  fit := h'.fit
  kept := h.kept.trans h'.kept
  named := by
    rintro fs (hfs | hfs)
    · exact h.named.extend h'.kept fs hfs
    · exact h'.named fs hfs
  complete := by
    intro k name hname
    show r.nameOf? k = some name ∨ Complete o r'' k
    rcases h'.complete hname with hbefore | hcomplete
    · rcases h.complete hbefore with hbefore | hcomplete
      · exact .inl hbefore
      · exact .inr (hcomplete.extend h'.kept)
    · exact .inr hcomplete

end Steps

/-- A step that gives `value` of the names and declares the objects. -/
structure Writes {α : Type} (o : Options) (objects : Set (List (Field Shape))) (w : Emit α)
    (value : (Key → Option String) → α) : Prop where
  congr : ∀ {σ τ}, Agree σ τ objects → value σ = value τ
  run : ∀ e : Emission, Ready o objects e.registry → ∃ e' : Emission,
    w e = (.ok (value e'.registry.nameOf?), e') ∧ Written o objects e.registry e'.registry

namespace Writes

variable {α β γ : Type} {o : Options} {D E : Set (List (Field Shape))} {w : Emit α}
  {value : (Key → Option String) → α}

theorem pure (a : α) : Writes o ∅ (Pure.pure a) fun _ => a where
  congr _ := rfl
  run e he := ⟨e, rfl, .refl he.fit fun _ h => h.elim⟩

theorem bind_ok {e e' : Emission} {a : α} (h : w e = (.ok a, e')) (g : α → Emit β) :
    (w >>= g) e = g a e' := by
  show ExceptT.bindCont g (w e).1 (w e).2 = g a e'
  rw [h]
  rfl

/-- A step that only has its result changed. -/
theorem bind_pure (h : Writes o D w value) {g : α → Emit β} {f : α → β}
    (hg : ∀ σ, g (value σ) = Pure.pure (f (value σ))) :
    Writes o D (w >>= g) fun σ => f (value σ) where
  congr hagree := congrArg f (h.congr hagree)
  run := by
    intro e he
    obtain ⟨e', hw, hwritten⟩ := h.run e he
    refine ⟨e', ?_, hwritten⟩
    rw [bind_ok hw, hg]
    rfl

theorem map (h : Writes o D w value) (f : α → β) : Writes o D (f <$> w) fun σ => f (value σ) := by
  rw [map_eq_pure_bind]
  exact h.bind_pure fun _ => rfl

/-- Two steps one after the other.  The names that the first one met are the same in the end. -/
theorem seq (h : Writes o D w value) {w' : Emit β} {value' : (Key → Option String) → β}
    (h' : Writes o E w' value') (f : α → β → γ) :
    Writes o (D ∪ E) (do let a ← w; let b ← w'; Pure.pure (f a b))
      fun σ => f (value σ) (value' σ) where
  congr := by
    intro σ τ hagree
    rw [h.congr (hagree.mono Set.subset_union_left), h'.congr (hagree.mono Set.subset_union_right)]
  run := by
    intro e he
    obtain ⟨e', hw, hwritten⟩ := h.run e (he.mono Set.subset_union_left)
    obtain ⟨e'', hw', hwritten'⟩ := h'.run e' ((he.after hwritten).mono Set.subset_union_right)
    have hvalue : value e'.registry.nameOf? = value e''.registry.nameOf? :=
      h.congr (hwritten.named.agree hwritten'.kept)
    refine ⟨e'', ?_, hwritten.trans hwritten'⟩
    rw [bind_ok hw, bind_ok hw', hvalue]
    rfl

section Lookup

variable {k : Key} {e : Emission}

theorem named_of_none {w : Emit (List Char)} (h : e.registry.nameOf? k = none) :
    named k w e = w e := by
  have hget : (get : Emit Emission) e = (.ok e, e) := rfl
  rw [Emission.named, bind_ok hget, h]

theorem named_of_some {w : Emit (List Char)} {name : String}
    (h : e.registry.nameOf? k = some name) :
    named k w e = (.ok name.toList, { e with references := e.references ++ [name] }) := by
  have hget : (get : Emit Emission) e = (.ok e, e) := rfl
  rw [Emission.named, bind_ok hget, h]
  rfl

end Lookup

/-- A structure that no registry has a name for. -/
theorem named {w : Emit (List Char)} {value : (Key → Option String) → List Char}
    (h : Writes o D w value) {k : Key}
    (hk : ∀ fs, isInline o fs = false → (Shape.object fs).identity ≠ k) :
    Writes o D (Emission.named k w) value where
  congr := h.congr
  run := by
    intro e he
    obtain ⟨e', hw, hwritten⟩ := h.run e he
    exact ⟨e', (named_of_none (he.fit.nameOf?_eq_none hk)).trans hw, hwritten⟩

section Extract

variable {fs : List (Field Shape)} {write : Emit (List (List Char))}

/-- What the registry has when the fields of an object are about to be written. -/
def opened (r : Registry) (identity : Key) (suggested : String) (fields : List String) : Registry :=
  (r.declare (r.freeName suggested) identity).update (r.freeName suggested)
    fun d => { d with fields }

/-- What the registry has when they are written. -/
def closed (o : Options) (r : Registry) (name : String) (dependencies : List String)
    (parts : List (List Char)) : Registry :=
  (r.update name fun d => { d with dependencies }).update name
    fun d => { d with body := bodyText o parts }

theorem name_fields (fields : List String) (d : Declaration) :
    ({ d with fields } : Declaration).name = d.name := rfl

theorem name_dependencies (dependencies : List String) (d : Declaration) :
    ({ d with dependencies } : Declaration).name = d.name := rfl

theorem name_body (parts : List (List Char)) (d : Declaration) :
    ({ d with body := bodyText o parts } : Declaration).name = d.name := rfl

theorem extract_ok {e e' : Emission} {k : Key} {suggested : String} {fields : List String}
    {parts : List (List Char)}
    (h : write ⟨opened e.registry k suggested fields, []⟩ = (.ok parts, e')) :
    Emission.extract o k suggested fields write e =
      (.ok (e.registry.freeName suggested).toList,
        ⟨closed o e'.registry (e.registry.freeName suggested) e'.references parts,
          e.references ++ [e.registry.freeName suggested]⟩) := by
  have hrun : write.run ⟨opened e.registry k suggested fields, []⟩ = (.ok parts, e') := h
  rw [opened] at hrun
  rw [Emission.extract]
  simp only [hrun]
  rfl

section Opened

variable {r : Registry} {k : Key}

theorem nameOf?_opened (suggested : String) (fields : List String) (l : Key) :
    (opened r k suggested fields).nameOf? l =
      if l = k then some (r.freeName suggested) else r.nameOf? l :=
  r.nameOf?_declare _ k l

theorem declaration?_opened (hr : r.Sound) (suggested : String) (fields : List String) :
    (opened r k suggested fields).declaration? (r.freeName suggested) =
      some { name := r.freeName suggested, fields } := by
  rw [opened, Registry.declaration?_update _ (name_fields fields), if_pos rfl,
    Registry.declaration?_declare, hr.declaration?_freeName, Option.none_or, if_pos rfl]
  rfl

theorem fit_opened (hr : Fit o r) (hdeclared : isInline o fs = false) (suggested : String)
    (fields : List String) : Fit o (opened r (Shape.object fs).identity suggested fields) where
  sound := (hr.sound.declare (r.freeName_notMem suggested) _).update (name_fields fields) _
  declared := by
    intro l name hl
    rw [nameOf?_opened] at hl
    split at hl
    · rename_i heq
      exact ⟨fs, hdeclared, heq.symm⟩
    · exact hr.declared hl

theorem extends_opened (hr : r.Sound) (hk : r.nameOf? k = none) (suggested : String)
    (fields : List String) : r.Extends (opened r k suggested fields) :=
  (Registry.Extends.declare _ hk).update (hr.declaration?_freeName suggested) (name_fields fields)

/-- The object itself is pending now, but it does not occur in its own fields. -/
theorem ready_opened (hfs : (Shape.object fs).Regular) (hdeclared : isInline o fs = false)
    (hr : Ready o (occurring o [.object fs]) r) (hnone : r.nameOf? (Shape.object fs).identity = none)
    (suggested : String) (fields : List String) :
    Ready o (occurring o (fs.map (·.content)))
      (opened r (Shape.object fs).identity suggested fields) where
  fit := fit_opened hr.fit hdeclared suggested fields
  settled := by
    intro gs hgs
    have hne : (Shape.object gs).identity ≠ (Shape.object fs).identity := by
      obtain ⟨-, s, hs, hwithin⟩ := hgs
      obtain ⟨f, hf, rfl⟩ := List.mem_map.mp hs
      exact Shape.identity_ne_of_within_content hfs hf hwithin
    rcases hr.settled gs (occurring_contents_subset fs hgs) with hgsnone | hcomplete
    · left
      rw [nameOf?_opened, if_neg hne, hgsnone]
    · exact .inr (hcomplete.extend (extends_opened hr.fit.sound hnone suggested fields))

end Opened

section Closed

variable {r : Registry} {name : String} {dependencies : List String} {parts : List (List Char)}

theorem declaration?_closed {d : Declaration} (hd : r.declaration? name = some d) :
    (closed o r name dependencies parts).declaration? name =
      some { d with dependencies, body := bodyText o parts } := by
  rw [closed, Registry.declaration?_update _ (name_body parts), if_pos rfl,
    Registry.declaration?_update _ (name_dependencies dependencies), if_pos rfl, hd]
  rfl

theorem fit_closed (hr : Fit o r) : Fit o (closed o r name dependencies parts) :=
  (hr.update (name_dependencies dependencies) name).update (name_body parts) name

theorem complete_closed {k : Key} (h : Complete o r k) (hk : r.nameOf? k ≠ some name) :
    Complete o (closed o r name dependencies parts) k :=
  (h.update hk (name_dependencies dependencies)).update hk (name_body parts)

end Closed

theorem nameOf?_of_opened {r r' : Registry} {k : Key} {suggested : String} {fields : List String}
    (h : Written o D (opened r k suggested fields) r') :
    r'.nameOf? k = some (r.freeName suggested) := by
  apply h.kept.named
  rw [nameOf?_opened, if_pos rfl]

theorem named_closed {r r' : Registry} {name suggested : String}
    {fields dependencies : List String} {parts : List (List Char)}
    (h : Written o (occurring o (fs.map (·.content)))
      (opened r (Shape.object fs).identity suggested fields) r') :
    Named (closed o r' name dependencies parts) (occurring o [.object fs]) := by
  intro gs hgs
  show ∃ n, r'.nameOf? (Shape.object gs).identity = some n
  have hname := nameOf?_of_opened h
  rcases mem_occurring_object.mp hgs with ⟨-, rfl⟩ | hcontents
  · exact ⟨_, hname⟩
  · exact h.named gs hcontents

/-- The object is complete when its fields are written, and nothing else is pending because of
it. -/
theorem written_closed {r r' : Registry} {suggested : String} {fields dependencies : List String}
    (hfs : (Shape.object fs).Regular) (hr : Fit o r)
    (hnone : r.nameOf? (Shape.object fs).identity = none)
    (h : Written o (occurring o (fs.map (·.content)))
      (opened r (Shape.object fs).identity suggested fields) r') :
    Written o (occurring o [.object fs]) r
      (closed o r' (r.freeName suggested) dependencies (lines o r'.nameOf? fs)) where
  fit := fit_closed h.fit
  kept := by
    have hkept := (extends_opened hr.sound hnone suggested fields).trans h.kept
    have hfree := hr.sound.declaration?_freeName suggested
    exact (hkept.update hfree (name_dependencies dependencies)).update hfree (name_body _)
  named := named_closed h
  complete := by
    intro k name hk
    have hname := nameOf?_of_opened h
    by_cases hself : k = (Shape.object fs).identity
    · -- its lines were written under the names that there are now
      right
      rw [hself]
      have hd := h.kept.declared (declaration?_opened hr.sound suggested fields)
      exact ⟨fs, r.freeName suggested, _, hfs, rfl, named_closed h, hname, declaration?_closed hd, rfl⟩
    · -- everything else was complete before the body was filled in, under another name
      rcases h.complete hk with hbefore | hcomplete
      · left
        rwa [nameOf?_opened, if_neg hself] at hbefore
      · right
        apply complete_closed hcomplete
        exact fun heq => hself (h.fit.sound.eq_of_named heq hname)

/-- An object gets its name first and its body when its fields are written, and both are what
rendering says of it. -/
theorem extract (hfs : (Shape.object fs).Regular) (hdeclared : isInline o fs = false)
    (h : Writes o (occurring o (fs.map (·.content))) write fun σ => lines o σ fs)
    (suggested : String) (fields : List String) :
    Writes o (occurring o [.object fs])
      (Emission.named (Shape.object fs).identity
        (Emission.extract o (Shape.object fs).identity suggested fields write))
      fun σ => ((σ (Shape.object fs).identity).getD "").toList where
  congr := by
    intro σ τ hagree
    rw [hagree fs (mem_occurring_object.mpr (.inl ⟨hdeclared, rfl⟩))]
  run := by
    intro e he
    have hself : fs ∈ occurring o [.object fs] := mem_occurring_object.mpr (.inl ⟨hdeclared, rfl⟩)
    cases hknown : e.registry.nameOf? (Shape.object fs).identity with
    | some name =>
        -- what has a name and is not pending is declared already
        have hcomplete : Complete o e.registry (Shape.object fs).identity := by
          rcases he.settled fs hself with hnone | hcomplete
          · rw [hknown] at hnone
            cases hnone
          · exact hcomplete
        refine ⟨{ e with references := e.references ++ [name] }, ?_,
          .refl he.fit (hcomplete.named hfs)⟩
        rw [named_of_some hknown, hknown, Option.getD_some]
    | none =>
        -- the fields are written while the object itself is pending
        obtain ⟨e', hwrite, hwritten⟩ := h.run
          ⟨opened e.registry (Shape.object fs).identity suggested fields, []⟩
          (ready_opened hfs hdeclared he hknown suggested fields)
        refine ⟨⟨closed o e'.registry (e.registry.freeName suggested) e'.references
            (lines o e'.registry.nameOf? fs), e.references ++ [e.registry.freeName suggested]⟩,
          ?_, written_closed hfs he.fit hknown hwritten⟩
        rw [named_of_none hknown, extract_ok hwrite, closed, Registry.nameOf?_update,
          Registry.nameOf?_update, nameOf?_of_opened hwritten, Option.getD_some]

end Extract

end Writes

end TypeSketch.Emission
