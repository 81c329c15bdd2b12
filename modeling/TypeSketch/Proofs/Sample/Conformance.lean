import TypeSketch.Proofs.Sample.Outline

/-!
# Soundness of inference

`Conforms v s` says that the sample `v` is described by the shape `s`.  Conformance is kept by
everything that happens to a shape on its way into the result: it depends on the structure of the
shape alone, and merging, widening and uniting only ever allow more.  Main statements:

* `conforms_of_shape_eq_ok`: a sample conforms to the shape that was inferred from it;
* `upper_bound`: the operations on shapes never fail on regular ones, and give a shape of every
  sample of any of them.
-/

namespace TypeSketch

namespace Sample

open Shape

/-- A sample is of a shape.  Foreign data is of the unknown shape. -/
inductive Conforms : Sample → Shape → Prop
  | null : Conforms .null .null
  | bare (l : Literal) : Conforms (.scalar l) (.primitive l.kind none)
  | literal {l m : Literal} (hequal : l.Equal m) :
      Conforms (.scalar l) (.primitive l.kind (some m))
  | list {items : List Sample} {s : Shape} (hitems : ∀ v ∈ items, Conforms v s) :
      Conforms (.list items) (.array s)
  | record {fields : List (String × Sample)} {fs : List (Field Shape)}
      (hknown : ∀ e ∈ settle fields, e.1 ∈ fs.map (·.name))
      (hvalues : ∀ e ∈ settle fields, ∀ f ∈ fs, f.name = e.1 → Conforms e.2 f.content)
      (hrequired : ∀ f ∈ fs, f.isOptional = false → f.name ∈ (settle fields).map (·.1)) :
      Conforms (.record fields) (.object fs)
  | union {v : Sample} {ms : List Shape} {m : Shape} (hm : m ∈ ms) (h : Conforms v m) :
      Conforms v (.union ms)
  | foreign : Conforms .foreign .unknown

section Structure

/-- Conformance depends on the structure of a shape alone. -/
theorem Conforms.congr {v : Sample} {s : Shape} (h : Conforms v s) :
    ∀ {r : Shape}, s.Regular → r.Regular → s.identity = r.identity → Conforms v r := by
  induction h with
  | null =>
      intro r _ _ heq
      cases r <;> cases heq
      exact .null
  | foreign =>
      intro r _ _ heq
      cases r with
      | primitive kind l =>
          cases l <;> cases heq
          exact .foreign
      | _ => cases heq
  | bare l =>
      intro r _ _ heq
      cases r with
      | primitive kind m =>
          cases m <;> cases heq
          exact .bare l
      | _ => cases heq
  | @literal l m hequal =>
      intro r hs hr heq
      cases r with
      | primitive kind o =>
          rw [identity_primitive, identity_primitive, Key.primitive.injEq] at heq
          obtain ⟨rfl, heq⟩ := heq
          cases o with
          | none => exact .bare l
          | some n =>
              have hm : m.kind = l.kind := by
                cases hs with
                | primitive hkind => exact hkind m rfl
              have hn : n.kind = l.kind := by
                cases hr with
                | primitive hkind => exact hkind n rfl
              have hln := (Literal.canonical_eq_iff rfl hm).mpr hequal
              exact .literal ((Literal.canonical_eq_iff rfl hn).mp (hln.trans (Option.some.inj heq)))
      | _ => cases heq
  | list _ ih =>
      intro r hs hr heq
      cases hs with
      | array hs =>
          cases hr with
          | array hr => exact .list fun v hv => ih v hv hs hr (Key.array.inj heq)
          | _ => cases heq
  | @record fields fs hknown _ hrequired ih =>
      intro r hs hr heq
      cases r with
      | object gs =>
          constructor
          · -- each name of one object is a name of the other
            intro e he
            obtain ⟨f, hf, hname⟩ := List.mem_map.mp (hknown e he)
            obtain ⟨g, hg, hgf⟩ := exists_field_of_identity_eq heq hf
            rw [← hname, ← Field.map_name identity f, ← hgf]
            exact List.mem_map_of_mem hg
          · intro e he g hg hname
            obtain ⟨f, hf, hfg⟩ := exists_field_of_identity_eq heq.symm hg
            have hname' : f.name = g.name := congrArg (fun x : Field Key => x.name) hfg
            have hcontent : f.content.identity = g.content.identity :=
              congrArg (fun x : Field Key => x.content) hfg
            exact ih e he f hf (hname'.trans hname) (hs.content hf) (hr.content hg) hcontent
          · intro g hg hflag
            obtain ⟨f, hf, hfg⟩ := exists_field_of_identity_eq heq.symm hg
            have hname : f.name = g.name := congrArg (fun x : Field Key => x.name) hfg
            have hoptional : f.isOptional = g.isOptional :=
              congrArg (fun x : Field Key => x.isOptional) hfg
            exact hname ▸ hrequired f hf (hoptional.trans hflag)
      | _ => cases heq
  | @union v ms m hm _ ih =>
      intro r hs hr heq
      cases r with
      | union ns =>
          have hmem : m.identity ∈ classes ns :=
            (identity_union_eq_iff hs hr).mp heq ▸ identity_mem_classes hm
          obtain ⟨n, hn, hnm⟩ := mem_classes.mp hmem
          exact .union hn (ih (hs.of_mem hm) (hr.of_mem hn) hnm.symm)
      | _ => cases heq

/-- Where a structure is among several, a sample of that structure conforms to one of them. -/
theorem Conforms.exists_of_mem_classes {v : Sample} {s : Shape} (h : Conforms v s) (hs : s.Regular)
    {shapes : List Shape} (hreg : ∀ r ∈ shapes, r.Regular) (hmem : s.identity ∈ classes shapes) :
    ∃ r ∈ shapes, Conforms v r := by
  obtain ⟨r, hr, heq⟩ := mem_classes.mp hmem
  exact ⟨r, hr, h.congr hs (hreg r hr) heq.symm⟩

end Structure

section Merging

variable {t : Nat} {v : Sample}

theorem Conforms.exists_member {s : Shape} (h : Conforms v s) : ∃ m ∈ s.members, Conforms v m := by
  cases h with
  | union hm h => exact ⟨_, hm, h⟩
  | null => exact ⟨_, List.mem_singleton_self _, .null⟩
  | foreign => exact ⟨_, List.mem_singleton_self _, .foreign⟩
  | bare l => exact ⟨_, List.mem_singleton_self _, .bare l⟩
  | literal hequal => exact ⟨_, List.mem_singleton_self _, .literal hequal⟩
  | list hitems => exact ⟨_, List.mem_singleton_self _, .list hitems⟩
  | record hknown hvalues hrequired =>
      exact ⟨_, List.mem_singleton_self _, .record hknown hvalues hrequired⟩

/-- Uniting loses no sample. -/
theorem Conforms.unite {P : List Shape} (hP : Flat P) {s : Shape} (hs : s ∈ P)
    (h : Conforms v s) : Conforms v (unite P) := by
  have hmem : s.identity ∈ classes (distinct P) := by
    rw [classes_distinct]
    exact identity_mem_classes hs
  obtain ⟨r, hr, hvr⟩ := h.exists_of_mem_classes (hP.regular s hs) hP.distinct.regular hmem
  rcases length_distinct_cases P with rfl | ⟨p, hp⟩ | htwo
  · cases hs
  · rw [hp] at hr
    rw [unite_of_single hP hp, ← List.mem_singleton.mp hr]
    exact hvr
  · rw [unite_of_several hP htwo]
    exact .union hr hvr

theorem Conforms.bare_of_primitive {kind : Kind} {l : Option Literal}
    (h : Conforms v (.primitive kind l)) : Conforms v (.primitive kind none) := by
  cases h with
  | bare l => exact .bare l
  | literal _ => exact .bare _
  | foreign => exact .foreign

/-- Merging objects field by field loses no record. -/
theorem Conforms.mergedFields_of {bodies : List (List (Field Shape))} {fs : List (Field Shape)}
    (hfs : fs ∈ bodies) (hnames : (fs.map (·.name)).Nodup) (h : Conforms v (.object fs))
    (hposition : ∀ name s u, s ∈ contentsNamed name bodies → Conforms u s →
      Conforms u (position t (contentsNamed name bodies))) :
    Conforms v (.object (mergedFields t bodies)) := by
  cases h with
  | record hknown hvalues hrequired =>
      constructor
      · intro e he
        rw [names_mergedFields, mem_fieldNames]
        exact ⟨fs, hfs, hknown e he⟩
      · -- the value went into the contents that were merged under its name
        intro e he f hf hname
        obtain ⟨name, -, rfl⟩ := List.mem_map.mp hf
        obtain ⟨g, hg, hgname⟩ := List.mem_map.mp (hknown e he)
        have hentry : entry name fs = some g :=
          (entry_eq_some_iff hnames).mpr ⟨hg, hgname.trans hname.symm⟩
        exact hposition name g.content e.2 (mem_contentsNamed.mpr ⟨fs, hfs, g, hentry, rfl⟩)
          (hvalues e he g hg hgname)
      · intro f hf hflag
        obtain ⟨name, -, rfl⟩ := List.mem_map.mp hf
        -- no object may lack a field that stays required
        have hall : ¬ ∀ g ∈ entry name fs, g.isOptional = true := by
          intro hall
          have htrue := isOptionalIn_iff.mpr ⟨fs, hfs, hall⟩
          exact Bool.false_ne_true (hflag.symm.trans htrue)
        simp only [not_forall, Bool.not_eq_true] at hall
        obtain ⟨g, hg, hrequired'⟩ := hall
        obtain ⟨hmem, hname⟩ := mem_of_entry_eq_some hg
        exact hname ▸ hrequired g hmem hrequired'

/-- Blending loses no sample, if merging objects does not. -/
theorem Conforms.blend_of {F : List Shape} (hF : Flat F) {s : Shape} (hs : s ∈ F)
    (h : Conforms v s)
    (hposition : ∀ name s u, s ∈ contentsNamed name (bodiesOf F) → Conforms u s →
      Conforms u (position t (contentsNamed name (bodiesOf F)))) :
    Conforms v (blend t F) := by
  have hpieces : Flat (pieces t F) := hF.pieces
  obtain ⟨r, hr, hvr⟩ : ∃ r ∈ pieces t F, Conforms v r := by
    have hkept : s.identity.IsKept → ∃ r ∈ pieces t F, Conforms v r := fun hk =>
      h.exists_of_mem_classes (hF.regular s hs) hpieces.regular
        (mem_classes_pieces.mpr (Or.inr (Or.inr ⟨identity_mem_classes hs, hk⟩)))
    cases hF.regular s hs with
    | null => exact hkept trivial
    | array _ => exact hkept trivial
    | union _ _ _ => exact absurd (hF.noUnion _ hs) (by simp [isUnion])
    | @primitive kind l _ =>
        have hmem : (primitive kind l).identity ∈ ofKind kind (classes F) :=
          Finset.mem_filter.mpr ⟨identity_mem_classes hs, _, identity_primitive kind l⟩
        -- the literal is among the pieces, or the bare kind is
        by_cases hkeep : KeepsLiterals t kind (ofKind kind (classes F))
        · apply h.exists_of_mem_classes (hF.regular _ hs) hpieces.regular
          refine mem_classes_pieces.mpr (Or.inl ⟨kind, ?_⟩)
          rwa [widened_of_ne_empty (Finset.ne_empty_of_mem hmem), if_pos hkeep]
        · apply h.bare_of_primitive.exists_of_mem_classes (regular_bare _)
            hpieces.regular
          refine mem_classes_pieces.mpr (Or.inl ⟨kind, ?_⟩)
          rw [widened_of_ne_empty (Finset.ne_empty_of_mem hmem), if_neg hkeep]
          exact Finset.mem_singleton_self _
    | @object fs hnames _ =>
        have hbody := mem_bodiesOf.mpr hs
        apply (h.mergedFields_of hbody hnames hposition).exists_of_mem_classes
          (regular_mergedFields hF.bodies) hpieces.regular
        exact mem_classes_pieces.mpr (Or.inr (Or.inl ⟨List.ne_nil_of_mem hbody, rfl⟩))
  exact hvr.unite hpieces hr

theorem Conforms.position_of {contents : List Shape} (hreg : ∀ s ∈ contents, s.Regular)
    {s : Shape} (hs : s ∈ contents) (h : Conforms v s)
    (hmerged : ∀ r ∈ distinct contents, Conforms v r → Conforms v (merged t (distinct contents))) :
    Conforms v (position t contents) := by
  have hdistinct := regular_distinct hreg
  have hmem : s.identity ∈ classes (distinct contents) := by
    rw [classes_distinct]
    exact identity_mem_classes hs
  obtain ⟨r, hr, hvr⟩ := h.exists_of_mem_classes (hreg s hs) hdistinct hmem
  have hres := hmerged r hr hvr
  unfold position
  split <;> rename_i hd <;> rw [hd] at hr hres
  · cases hr
  · rw [← List.mem_singleton.mp hr]
    exact hvr
  · exact hres

/-- Merging loses no sample. -/
theorem Conforms.merged {shapes : List Shape} (hreg : ∀ s ∈ shapes, s.Regular) {s : Shape}
    (hs : s ∈ shapes) (h : Conforms v s) : Conforms v (merged t shapes) := by
  refine merging_induction (P := fun shapes => ∀ {v : Sample} {s : Shape}, s ∈ shapes →
    Conforms v s → Conforms v (Shape.merged t shapes)) ?_ hreg hs h
  intro shapes hreg ih v s hs h
  -- the sample conforms to a member, which is among the distinct ones up to its structure
  have hflat := (flat_flatten hreg).distinct
  obtain ⟨m, hm, hvm⟩ := h.exists_member
  have hmem : m.identity ∈ classes (distinct (flatten shapes)) := by
    rw [classes_distinct]
    exact identity_mem_classes (mem_flatten.mpr ⟨s, hs, hm⟩)
  obtain ⟨r, hr, hvr⟩ :=
    hvm.exists_of_mem_classes ((hreg s hs).of_mem_members hm).1 hflat.regular hmem
  by_cases hone : (distinct (flatten shapes)).length = 1
  · obtain ⟨p, hp⟩ := List.length_eq_one_iff.mp hone
    rw [hp] at hr
    rw [merged_of_single hp, ← List.mem_singleton.mp hr]
    exact hvr
  · rw [merged_of_several hreg hone]
    apply hvr.blend_of hflat hr
    intro name c u hc huc
    apply huc.position_of (regular_contentsNamed hflat.bodies name) hc
    exact fun q hq huq => ih name (List.ne_nil_of_mem hc) hq huq

theorem Conforms.blend {F : List Shape} (hF : Flat F) {s : Shape} (hs : s ∈ F)
    (h : Conforms v s) : Conforms v (blend t F) := by
  refine h.blend_of hF hs fun name c u hc huc => ?_
  have hcontents := regular_contentsNamed hF.bodies name
  exact huc.position_of hcontents hc fun r hr hur => hur.merged (regular_distinct hcontents) hr

end Merging

section Bounds

variable {t : Nat} {shapes : List Shape}

/-- Every sample of one of the shapes is a sample of the bound. -/
def Bounds (shapes : List Shape) (bound : Shape) : Prop :=
  ∀ s ∈ shapes, ∀ v, Conforms v s → Conforms v bound

theorem bounds_merged (hreg : ∀ s ∈ shapes, s.Regular) : Bounds shapes (Shape.merged t shapes) :=
  fun _ hs _ h => h.merged hreg hs

/-- Uniting loses no sample, also where the shapes are unions themselves. -/
theorem bounds_unite (hreg : ∀ s ∈ shapes, s.Regular) : Bounds shapes (Shape.unite shapes) := by
  intro s hs v h
  obtain ⟨m, hm, hvm⟩ := h.exists_member
  rw [← unite_flatten hreg]
  exact hvm.unite (flat_flatten hreg) (mem_flatten.mpr ⟨s, hs, hm⟩)

theorem bounds_mergedFields {bodies : List (List (Field Shape))}
    (hreg : ∀ fs ∈ bodies, (object fs).Regular) :
    Bounds (bodies.map object) (object (mergedFields t bodies)) := by
  intro s hs v h
  obtain ⟨fs, hfs, rfl⟩ := List.mem_map.mp hs
  refine h.mergedFields_of hfs (hreg fs hfs).names_nodup fun name c u hc huc => ?_
  have hcontents := regular_contentsNamed hreg name
  exact huc.position_of hcontents hc fun r hr hur => hur.merged (regular_distinct hcontents) hr

/-- Consolidating, uniting and merging objects succeed on regular shapes, whatever flags, literals
and unions they hold, and lose no sample. -/
theorem upper_bound (t : Nat) (hreg : ∀ s ∈ shapes, s.Regular) :
    (∃ u, consolidate t shapes = .ok u ∧ Bounds shapes u) ∧
    (∃ u, collect shapes = .ok u ∧ Bounds shapes u) ∧
    ((∀ s ∈ shapes, ∃ fs, s = object fs) →
      ∃ u, mergeObjects t shapes = .ok u ∧ Bounds shapes u) := by
  refine ⟨⟨_, consolidate_eq hreg, bounds_merged hreg⟩, ⟨_, collect_eq hreg, bounds_unite hreg⟩,
    fun hobjects => ?_⟩
  obtain ⟨bodies, rfl, hbodies⟩ := exists_bodies fun s hs => ⟨hreg s hs, hobjects s hs⟩
  exact ⟨_, mergeObjects_eq hbodies, bounds_mergedFields hbodies⟩

/-- A ticket with a number, or one that may be without. -/
def ticket : Shape :=
  union
    [object [⟨"id", primitive .number (some (.int 1)), false⟩],
      object [⟨"id", Shape.null, true⟩]]

theorem upper_bound_ticket :
    (∃ u, consolidate 1 [ticket, primitive .boolean (some (.bool true))] = .ok u ∧
      Conforms (record []) u) ∧
    (∃ u, collect [ticket, primitive .boolean (some (.bool true))] = .ok u ∧
      Conforms (record []) u) ∧
    (∃ u, mergeObjects 1 ticket.members = .ok u ∧ Conforms (record []) u) := by
  have hfirst : (object [⟨"id", primitive .number (some (.int 1)), false⟩]).Regular :=
    .object (by simp) (List.forall_mem_singleton.mpr
      (.primitive fun m hm => Option.some.inj hm ▸ rfl))
  have hsecond : (object [⟨"id", Shape.null, true⟩]).Regular :=
    .object (by simp) (List.forall_mem_singleton.mpr .null)
  have hmembers : ∀ m ∈ ticket.members, m.Regular := by simp [ticket, members, hfirst, hsecond]
  have hticket : ticket.Regular :=
    .union (List.cons_ne_nil _ _) (by simp [isUnion]) hmembers
  have hflag : (primitive .boolean (some (.bool true))).Regular :=
    .primitive fun m hm => Option.some.inj hm ▸ rfl
  have hrecord : Conforms (record []) (object [⟨"id", Shape.null, true⟩]) :=
    .record (by simp [settle, settleOn]) (by simp [settle, settleOn]) (by simp)
  have hmem : object [⟨"id", Shape.null, true⟩] ∈ ticket.members := by simp [ticket, members]
  have hunion : Conforms (record []) ticket := .union hmem hrecord
  obtain ⟨⟨u, hu, hbound⟩, ⟨w, hw, hbound'⟩, -⟩ := upper_bound 1
    (show ∀ s ∈ [ticket, primitive .boolean (some (.bool true))], s.Regular by
      simp [hticket, hflag])
  obtain ⟨x, hx, hbound''⟩ := (upper_bound 1 hmembers).2.2 (by simp [ticket, members])
  exact ⟨⟨u, hu, hbound _ List.mem_cons_self _ hunion⟩,
    ⟨w, hw, hbound' _ List.mem_cons_self _ hunion⟩, ⟨x, hx, hbound'' _ hmem _ hrecord⟩⟩

end Bounds

theorem conforms_offered {t : Nat} {v : Sample} (h : Conforms v (v.outline t)) :
    Conforms v (v.offered t) := by
  cases v with
  | scalar l => exact .literal (Or.inl rfl)
  | _ => exact h

theorem conforms_outline (t : Nat) (v : Sample) : Conforms v (v.outline t) := by
  induction v using nestedInduction with
  | null => rw [outline]; exact .null
  | scalar l =>
      rw [outline]
      split
      · exact .literal (Or.inl rfl)
      · exact .bare l
  | foreign => rw [outline]; exact .foreign
  | list items ih =>
      rw [outline]
      refine .list fun v hv => ?_
      -- an item keeps its literal until all items are in
      have hmem : v.offered t ∈ offers t items := by
        rw [offers_eq_map]
        exact List.mem_map_of_mem hv
      exact (conforms_offered (ih v hv)).blend (flat_offers t items) hmem
  | record fields ih =>
      rw [outline_record]
      have hnames := names_outlineFields (t := t) (settle fields)
      constructor
      · intro e he
        rw [hnames]
        exact List.mem_map_of_mem he
      · intro e he f hf hname
        obtain ⟨e', he', rfl⟩ := List.mem_map.mp hf
        rw [List.inj_on_of_nodup_map (nodup_keys_settle fields) he he' hname.symm]
        exact ih e' (mem_of_mem_settle he')
      · intro f hf _
        rw [← hnames]
        exact List.mem_map_of_mem hf

/-- A sample conforms to the shape that is inferred from it. -/
theorem conforms_of_shape_eq_ok {limits : Limits} {v : Sample} {s : Shape}
    (h : v.shape limits = .ok s) : Conforms v s :=
  eq_outline_of_shape_eq_ok h ▸ conforms_outline limits.literals v

/-- Objects of which one lacks a field, and a truth value beside them. -/
theorem conforms_of_shape_eq_ok_mixed :
    ∃ s, (list [record [("id", scalar (.int 1))], record [], scalar (.bool true)]).shape
        { literals := 1 } = .ok s ∧
      Conforms (list [record [("id", scalar (.int 1))], record [], scalar (.bool true)]) s :=
  have hshape : (list [record [("id", scalar (.int 1))], record [], scalar (.bool true)]).shape
      { literals := 1 } = .ok _ :=
    arrayShape_eq _ [record [("id", scalar (.int 1))], record [], scalar (.bool true)]
  ⟨_, hshape, conforms_of_shape_eq_ok hshape⟩

end Sample

end TypeSketch
