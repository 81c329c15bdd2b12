import TypeSketch.Declaration.Document
import TypeSketch.Proofs.Declaration.Graph
import TypeSketch.Proofs.Declaration.Order
import TypeSketch.Proofs.Sample.Canonical
import TypeSketch.Proofs.Sample.KeyOrder

/-!
# Documents of samples

Main statements:

* `linked_document`: the declarations of a sample are linked, and a document holds each of them
  once, in dependency order before those it refers to;
* `document_of_reordered`: the order of the keys in a sample never shows;
* `ofSample_eq_error_iff`: a sample has a document unless a measured node lies too deep, and how
  deep is accepted does not show in it.
-/

namespace TypeSketch.Emission

section Documents

variable {o : Options} {s : Shape} {rootName : String} {e : Emission}

/-- How a document is laid out: the root, and behind it every other declaration once. -/
structure LaidOut (rootName : String) (text : List Char) (r : Registry) (order : DeclarationOrder)
    (root : List Char) (others : List Declaration) : Prop where
  root : (∃ d ∈ r.declarations, d.name = rootName ∧ root = d.render) ∨
    rootName ∉ r.declarations.map (·.name) ∧ root = Declaration.line rootName.toList text
  perm : others.Perm (r.declarations.filter fun d => d.name ≠ rootName)
  /-- In dependency order each declaration stands before those it refers to. -/
  ordered : order = .dependency → others.Pairwise fun d e => d.name ∉ e.dependencies
  /-- In the order of discovery they stand as they were declared. -/
  discovered : order = .discovery → others = r.declarations.filter fun d => d.name ≠ rootName

theorem exists_laidOut {r : Registry} (rank : String → Nat)
    (hrank : ∀ d ∈ r.declarations, ∀ n ∈ d.dependencies, rank n < rank d.name) (rootName : String)
    (text : List Char) (order : DeclarationOrder) :
    ∃ root others, Document.render rootName text r order =
        Document.blocks (root :: others.map Declaration.render) ∧
      LaidOut rootName text r order root others := by
  refine ⟨_, _, rfl, ?_, (Declaration.perm_inOrder order r.declarations).filter _, ?_, ?_⟩
  · cases hd : r.declaration? rootName with
    | some d =>
        obtain ⟨hmem, hname⟩ := Registry.mem_of_declaration? hd
        exact .inl ⟨d, hmem, hname, rfl⟩
    | none =>
        refine .inr ⟨fun hmem => ?_, rfl⟩
        obtain ⟨d, hmem, hname⟩ := List.mem_map.mp hmem
        exact List.find?_eq_none.mp hd d hmem (beq_iff_eq.mpr hname)
  · rintro rfl
    exact (Declaration.pairwise_dependencyOrder hrank).filter _
  · rintro rfl
    rfl

/-- The name under which a document declares its root. -/
def documentName (o : Options) : String :=
  String.ofList (Name.rootName o.rootName.toList)

theorem ofShape_of_emit {text : List Char} {r : Registry}
    (hemit : emit o s (documentName o) = .ok (text, r)) :
    Document.ofShape o s = .ok (Document.render (documentName o) text r o.order) := by
  rw [documentName] at hemit
  rw [Document.ofShape, hemit]
  rfl

theorem ofSample_of_emit {v : Sample} {text : List Char} {r : Registry}
    (h : v.shape o.limits = .ok s) (hemit : emit o s (documentName o) = .ok (text, r)) :
    Document.ofSample o v = .ok (Document.render (documentName o) text r o.order) := by
  rw [Document.ofSample, h]
  exact ofShape_of_emit hemit

theorem exists_unequal {t : Nat} {ms : List Shape} (h : Shape.CanonicalUnion t ms) :
    ∃ m ∈ ms, ∃ n ∈ ms, m.same n = false := by
  match ms, h.several, h.unequal with
  | m :: n :: _, _, hunequal =>
      exact ⟨m, List.mem_cons_self, n, List.mem_cons_of_mem m List.mem_cons_self,
        List.rel_of_pairwise_cons hunequal List.mem_cons_self⟩

/-- Writing never fails on the shape of a sample. -/
theorem exists_run_outline (o : Options) (t : Nat) (v : Sample) (rootName : String) :
    ∃ e, Run o (v.outline t) rootName e :=
  exists_run o (Sample.regular_outline t v)
    (fun ms hms => exists_unequal ((Sample.canonical_outline t v).unions ms hms)) rootName

/-- A sample that does not lie too deep has a document. -/
theorem exists_ofSample_eq (o : Options) {v : Sample} (h : v.Fits o.limits 0) :
    ∃ text, Document.ofSample o v = .ok text := by
  have hshape := (Sample.yields_shape o.limits v).ok h
  obtain ⟨e, hrun⟩ := exists_run_outline o o.limits.literals v (documentName o)
  have hemit := emit_of_write (hrun.write_eq (Sample.regular_outline _ v))
  exact ⟨_, ofSample_of_emit hshape hemit⟩

/-- People with the same address, and one that has none. -/
def people : Sample :=
  .list [
    .record [("home", .record [("city", .scalar (.str "Bern")), ("lines", .list [])]),
      ("work", .record [("lines", .list []), ("city", .scalar (.str "Basel"))])],
    .record [("home", .null), ("work", .null)]]

end Documents

section KeyOrder

variable {o : Options}

theorem declares_congr {s r : Shape} (h : s.identity = r.identity) :
    declares o s = declares o r := by
  cases s with
  | object fs =>
      cases r with
      | object gs => rw [declares, declares, isInline_congr h]
      | _ => cases h
  | _ =>
      cases r with
      | object gs => cases h
      | _ => rfl

/-- Shapes that only differ in the order of fields are emitted alike. -/
theorem emit_congr_of_sorted {s r : Shape} (hs : s.Regular) (hr : r.Regular)
    (h : s.sorted = r.sorted) (rootName : String) : emit o s rootName = emit o r rootName := by
  have hidentity : s.identity = r.identity := by
    rw [← Shape.identity_sorted s, h, Shape.identity_sorted]
  simp only [emit, write, declares_congr hidentity, hs.isWhole, hr.isWhole, h]

/-- The order of keys in a sample never shows: either both samples lie too deep, or their documents
are the same, and so are the registries behind them. -/
theorem document_of_reordered (o : Options) {v w : Sample} (h : v.Reordered w) :
    (Document.ofSample o v = .error (.tooDeep o.limits.depth) ∧
      Document.ofSample o w = .error (.tooDeep o.limits.depth)) ∨
    ∃ s r rootText registry text, v.shape o.limits = .ok s ∧ w.shape o.limits = .ok r ∧
      emit o s (documentName o) = .ok (rootText, registry) ∧
      emit o r (documentName o) = .ok (rootText, registry) ∧
      Document.ofSample o v = .ok text ∧ Document.ofSample o w = .ok text := by
  have hv := Sample.yields_shape o.limits v
  have hw := Sample.yields_shape o.limits w
  by_cases hfits : Sample.Fits o.limits 0 v
  · right
    have hshape := hv.ok hfits
    have hshape' := hw.ok ((h.fits_iff o.limits 0).mp hfits)
    have hs := Sample.regular_outline o.limits.literals v
    have hr := Sample.regular_outline o.limits.literals w
    obtain ⟨e, hrun⟩ := exists_run_outline o o.limits.literals v (documentName o)
    have hemit := emit_of_write (hrun.write_eq hs)
    have hemit' := (emit_congr_of_sorted hs hr (h.sorted_outline _) _).symm.trans hemit
    exact ⟨_, _, _, _, _, hshape, hshape', hemit, hemit', ofSample_of_emit hshape hemit,
      ofSample_of_emit hshape' hemit'⟩
  · left
    have hfits' := mt (h.fits_iff o.limits 0).mpr hfits
    rw [Document.ofSample, Document.ofSample, hv.error hfits, hw.error hfits']
    exact ⟨rfl, rfl⟩

/-- What is known of a point. -/
def pointFields : List (String × Sample) :=
  [("x", .scalar (.int 1)), ("label", .scalar (.str "top"))]

/-- Two points, in one of which the keys are turned around. -/
theorem document_of_reordered_points :
    Sample.Reordered (.list [.record pointFields, .record []])
        (.list [.record pointFields.reverse, .record []]) ∧
      ∃ text, Document.ofSample {} (.list [.record pointFields, .record []]) = .ok text ∧
        Document.ofSample {} (.list [.record pointFields.reverse, .record []]) = .ok text := by
  have hreordered : Sample.Reordered (.list [.record pointFields, .record []])
      (.list [.record pointFields.reverse, .record []]) :=
    .item [] [.record []] (.keys (by decide) (List.reverse_perm pointFields).symm)
  have hfits : Sample.Fits {} 0 (.list [.record pointFields, .record []]) := by
    simp [pointFields, Sample.fits_list_iff, Sample.fits_record_iff, Sample.fits_scalar]
  refine ⟨hreordered, ?_⟩
  rcases document_of_reordered {} hreordered with ⟨herror, -⟩ | ⟨_, _, _, _, text, -, -, -, -, h⟩
  · -- neither of them is too deep
    obtain ⟨text, htext⟩ := exists_ofSample_eq {} hfits
    rw [htext] at herror
    cases herror
  · exact ⟨text, h⟩

end KeyOrder

section Depth

theorem membersOf_depth {o : Options} {m : Nat} {ms : List Shape}
    (h : ∀ s ∈ ms, ∀ suggested, typeOf { o with maxDepth := m } s suggested = typeOf o s suggested)
    (dropNull : Bool) (name : Nat → String) (i : Nat) :
    membersOf { o with maxDepth := m } dropNull ms name i = membersOf o dropNull ms name i := by
  induction ms generalizing i with
  | nil => rw [membersOf, membersOf]
  | cons s ms ih =>
      obtain ⟨hs, hms⟩ := List.forall_mem_cons.mp h
      rw [membersOf, membersOf, hs, ih hms, ih hms]

theorem fieldOf_depth {o : Options} {m : Nat} {f : Field Shape}
    (hcontent : ∀ suggested,
      typeOf { o with maxDepth := m } f.content suggested = typeOf o f.content suggested)
    (hmembers : ∀ s ∈ f.content.members, ∀ suggested,
      typeOf { o with maxDepth := m } s suggested = typeOf o s suggested) :
    fieldOf { o with maxDepth := m } f = fieldOf o f := by
  have hsuggested : suggestedName { o with maxDepth := m } = suggestedName o := rfl
  have htext : fieldText { o with maxDepth := m } = fieldText o := rfl
  obtain ⟨name, s, isOptional⟩ := f
  cases s with
  | union ms =>
      have htexts := @membersOf_depth o m ms hmembers
      simp only [fieldOf, hsuggested, htext, hcontent, htexts]
  | _ => simp only [fieldOf, hsuggested, htext, hcontent]

theorem fieldsOf_depth {o : Options} {m : Nat} {fs : List (Field Shape)}
    (h : ∀ f ∈ fs, fieldOf { o with maxDepth := m } f = fieldOf o f) :
    fieldsOf { o with maxDepth := m } fs = fieldsOf o fs := by
  induction fs with
  | nil => rw [fieldsOf, fieldsOf]
  | cons f fs ih =>
      obtain ⟨hf, hfs⟩ := List.forall_mem_cons.mp h
      rw [fieldsOf_cons, fieldsOf_cons, hf, ih hfs]

/-- What is written does not depend on the depth that is accepted. -/
theorem typeOf_depth (o : Options) (m : Nat) (s : Shape) :
    ∀ suggested, typeOf { o with maxDepth := m } s suggested = typeOf o s suggested := by
  have hinline : isInline { o with maxDepth := m } = isInline o := rfl
  have hextract : extract { o with maxDepth := m } = extract o := rfl
  induction s using writtenInduction with
  | null => intro suggested; rw [typeOf, typeOf]
  | primitive kind l => intro suggested; rw [typeOf, typeOf]; rfl
  | array s ih ihmembers =>
      intro suggested
      by_cases hunion : s.isUnion = true
      · obtain ⟨ms, rfl⟩ := Shape.exists_eq_union hunion
        have htexts := @membersOf_depth o m ms ihmembers
        rw [typeOf_array_union, typeOf_array_union, htexts]
      · have hplain := Bool.eq_false_iff.mpr hunion
        rw [typeOf_array hplain, typeOf_array hplain, ih]
  | object fs ih =>
      intro suggested
      have hfields := fieldsOf_depth fun f hf => fieldOf_depth (ih f hf).1 (ih f hf).2
      rw [typeOf, typeOf, hfields, hinline, hextract]
  | union ms ih =>
      intro suggested
      rw [typeOf_union, typeOf_union, membersOf_depth ih]
  | hole => intro suggested; rw [typeOf, typeOf]

theorem ofShape_depth (o : Options) (m : Nat) (s : Shape) :
    Document.ofShape { o with maxDepth := m } s = Document.ofShape o s := by
  have hdeclares : declares { o with maxDepth := m } s = declares o s := rfl
  simp only [Document.ofShape, emit, write, hdeclares, typeOf_depth]

theorem not_fits_iff {o : Options} {v : Sample} :
    ¬ v.Fits o.limits 0 ↔ ∃ n, o.maxDepth < n ∧ v.Measured n := by
  simp only [Sample.Fits, not_forall, not_le, Nat.zero_add, exists_prop, and_comm]
  rfl

/-- Making a document fails if and only if an array or the value of a field lies deeper in the
sample than is accepted, and there is no other way in which it fails.  A sample that has a document
has the same one where more is accepted. -/
theorem ofSample_eq_error_iff (o : Options) (v : Sample) :
    (∀ fault, Document.ofSample o v = .error fault ↔
      fault = .tooDeep o.maxDepth ∧ ∃ n, o.maxDepth < n ∧ v.Measured n) ∧
    ((∀ n, v.Measured n → n ≤ o.maxDepth) → ∃ text, Document.ofSample o v = .ok text) ∧
    ∀ m m' text, m ≤ m' → Document.ofSample { o with maxDepth := m } v = .ok text →
      Document.ofSample { o with maxDepth := m' } v = .ok text := by
  have hok : ∀ o : Options, v.Fits o.limits 0 → ∃ text, Document.ofSample o v = .ok text :=
    fun o => exists_ofSample_eq o
  have herror : ∀ o : Options, ¬ v.Fits o.limits 0 →
      Document.ofSample o v = .error (.tooDeep o.maxDepth) := by
    intro o hfits
    rw [Document.ofSample, (Sample.yields_shape o.limits v).error hfits]
    rfl
  refine ⟨fun fault => ⟨fun h => ?_, ?_⟩, fun h => ?_, fun m m' text hle h => ?_⟩
  · by_cases hfits : v.Fits o.limits 0
    · obtain ⟨text, htext⟩ := hok o hfits
      rw [htext] at h
      cases h
    · rw [herror o hfits] at h
      exact ⟨(Except.error.inj h).symm, not_fits_iff.mp hfits⟩
  · rintro ⟨rfl, hdeep⟩
    exact herror o (not_fits_iff.mpr hdeep)
  · apply hok o
    intro n hn
    rw [Nat.zero_add]
    exact h n hn
  · have hfits : v.Fits { o with maxDepth := m }.limits 0 := by
      by_contra hfits
      rw [herror { o with maxDepth := m } hfits] at h
      cases h
    have hfits' : v.Fits { o with maxDepth := m' }.limits 0 := fun n hn => (hfits n hn).trans hle
    -- both limits give one shape, and it is written in one way
    rw [Document.ofSample, (Sample.yields_shape _ v).ok hfits] at h
    rw [Document.ofSample, (Sample.yields_shape _ v).ok hfits', ← h]
    show Document.ofShape { o with maxDepth := m' } (v.outline o.literalThreshold) =
      Document.ofShape { o with maxDepth := m } (v.outline o.literalThreshold)
    rw [ofShape_depth o m, ofShape_depth o m']

/-- An object in an array, and an array in the object. -/
def tagged : Sample :=
  .list [.record [("tags", .list [])]]

/-- The object is not measured, but its value is. -/
theorem ofSample_eq_error_iff_tagged :
    Document.ofSample { maxDepth := 1 } tagged = .error (.tooDeep 1) ∧
      ∃ text, Document.ofSample { maxDepth := 2 } tagged = .ok text ∧
        Document.ofSample {} tagged = .ok text := by
  have hdeep : tagged.Measured 2 := .item List.mem_cons_self (.value List.mem_cons_self)
  have hmeasured : ∀ n, tagged.Measured n → n ≤ 2 := by
    have hfits : Sample.Fits ⟨0, 2⟩ 0 tagged := by
      simp [tagged, Sample.fits_list_iff, Sample.fits_record_iff]
    intro n hn
    have hle := hfits n hn
    rwa [Nat.zero_add] at hle
  obtain ⟨text, htext⟩ := (ofSample_eq_error_iff { maxDepth := 2 } tagged).2.1 hmeasured
  exact ⟨((ofSample_eq_error_iff { maxDepth := 1 } tagged).1 _).mpr ⟨rfl, 2, by decide, hdeep⟩,
    text, htext, (ofSample_eq_error_iff {} tagged).2.2 2 200 text (by decide) htext⟩

end Depth

end TypeSketch.Emission
