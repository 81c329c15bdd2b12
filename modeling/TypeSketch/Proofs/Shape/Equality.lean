import TypeSketch.Proofs.Shape.Identity

/-!
# Keys decide structural equality

`Alike s r` says what it means for two shapes to be structurally equal, without keys: the order of
fields and of members does not count, and neither does the repetition of members.  A union is never
like one of its members, also where it has only this one.  Main statements, for shapes without
holes whose literals are of their kind:

* `identity_eq_iff_alike`: shapes are alike exactly when their identities agree;
* `equal?_iff_alike`: the comparison of keys never fails and tells whether shapes are alike.
-/

namespace TypeSketch.Shape

/-- The least relation that holds of shapes of one form with related parts.  Each member of either
union is related to a member of the other one: `there` and `back` name it. -/
inductive Alike : Shape → Shape → Prop
  | null : Alike .null .null
  | bare (kind : Kind) : Alike (.primitive kind none) (.primitive kind none)
  | literal {kind : Kind} {l m : Literal} (h : l.Equal m) :
      Alike (.primitive kind (some l)) (.primitive kind (some m))
  | array {s r : Shape} (h : Alike s r) : Alike (.array s) (.array r)
  | object {fs gs : List (Field Shape)}
      (hnames : ∀ name, name ∈ fs.map (·.name) ↔ name ∈ gs.map (·.name))
      (hflags : ∀ f ∈ fs, ∀ g ∈ gs, f.name = g.name → f.isOptional = g.isOptional)
      (hcontents : ∀ f ∈ fs, ∀ g ∈ gs, f.name = g.name → Alike f.content g.content) :
      Alike (.object fs) (.object gs)
  | union {ms ns : List Shape} (there back : Shape → Shape)
      (hthere : ∀ m ∈ ms, there m ∈ ns) (hback : ∀ n ∈ ns, back n ∈ ms)
      (hleft : ∀ m ∈ ms, Alike m (there m)) (hright : ∀ n ∈ ns, Alike (back n) n) :
      Alike (.union ms) (.union ns)

section Rules

variable {ms ns : List Shape}

theorem alike_union (hleft : ∀ m ∈ ms, ∃ n ∈ ns, Alike m n)
    (hright : ∀ n ∈ ns, ∃ m ∈ ms, Alike m n) : Alike (.union ms) (.union ns) := by
  classical
  choose! there hthere using hleft
  choose! back hback using hright
  exact .union there back (fun m hm => (hthere m hm).1) (fun n hn => (hback n hn).1)
    (fun m hm => (hthere m hm).2) (fun n hn => (hback n hn).2)

/-- Unions are alike when every member of either is like some member of the other. -/
theorem alike_union_iff : Alike (.union ms) (.union ns) ↔
    (∀ m ∈ ms, ∃ n ∈ ns, Alike m n) ∧ ∀ n ∈ ns, ∃ m ∈ ms, Alike m n := by
  constructor
  · intro h
    cases h with
    | union there back hthere hback hleft hright =>
        exact ⟨fun m hm => ⟨_, hthere m hm, hleft m hm⟩, fun n hn => ⟨_, hback n hn, hright n hn⟩⟩
  · exact fun h => alike_union h.1 h.2

end Rules

section Objects

variable {fs gs : List (Field Shape)}

theorem WellTyped.names_nodup (h : (Shape.object fs).WellTyped) : (fs.map (·.name)).Nodup := by
  cases h with
  | object hnames _ => exact hnames

theorem WellTyped.content (h : (Shape.object fs).WellTyped) {f : Field Shape} (hf : f ∈ fs) :
    f.content.WellTyped := by
  cases h with
  | object _ hfs => exact hfs f hf

/-- Objects are the same when they have the same names, and equally optional fields of the same
content under each of them. -/
theorem identity_object_eq_iff_fields (hfs : (fs.map (·.name)).Nodup)
    (hgs : (gs.map (·.name)).Nodup) :
    (object fs).identity = (object gs).identity ↔
      (∀ name, name ∈ fs.map (·.name) ↔ name ∈ gs.map (·.name)) ∧
      ∀ f ∈ fs, ∀ g ∈ gs, f.name = g.name →
        f.isOptional = g.isOptional ∧ f.content.identity = g.content.identity := by
  rw [identity_object_eq_iff hfs hgs]
  constructor
  · intro h
    constructor
    · intro name
      have hnone : entry name fs = none ↔ entry name gs = none := by
        rw [← Option.map_eq_none_iff, h name, Option.map_eq_none_iff]
      rw [entry_eq_none_iff, entry_eq_none_iff] at hnone
      exact not_iff_not.mp hnone
    · intro f hf g hg hname
      have hfield := h f.name
      rw [(entry_eq_some_iff hfs).mpr ⟨hf, rfl⟩, (entry_eq_some_iff hgs).mpr ⟨hg, hname.symm⟩,
        Option.map_some, Option.map_some, Option.some_inj, Field.map, Field.map,
        Field.mk.injEq] at hfield
      exact ⟨hfield.2.2, hfield.2.1⟩
  · rintro ⟨hnames, hfields⟩ name
    cases hf : entry name fs with
    | none =>
        have hg : entry name gs = none := by
          rw [entry_eq_none_iff, ← hnames, ← entry_eq_none_iff, hf]
        rw [hg]
    | some f =>
        obtain ⟨hfmem, hfname⟩ := mem_of_entry_eq_some hf
        obtain ⟨g, hg, hgname⟩ : ∃ g ∈ gs, g.name = name :=
          List.mem_map.mp ((hnames name).mp (hfname ▸ List.mem_map_of_mem hfmem))
        have hname : f.name = g.name := hfname.trans hgname.symm
        obtain ⟨hflag, hcontent⟩ := hfields f hfmem g hg hname
        rw [(entry_eq_some_iff hgs).mpr ⟨hg, hgname⟩, Option.map_some, Option.map_some, Field.map,
          Field.map, hname, hflag, hcontent]

end Objects

section Identity

/-- What is alike has one identity. -/
theorem Alike.identity_eq {s r : Shape} (h : Alike s r) :
    s.WellTyped → r.WellTyped → s.identity = r.identity := by
  induction h with
  | null => exact fun _ _ => rfl
  | bare kind => exact fun _ _ => rfl
  | @literal kind l m hequal =>
      intro hs hr
      cases hs with
      | primitive hl =>
          cases hr with
          | primitive hm =>
              have hcanonical := (Literal.canonical_eq_iff (hl l rfl) (hm m rfl)).mpr hequal
              rw [identity_primitive, identity_primitive, Option.map_some, Option.map_some,
                hcanonical]
  | array _ ih =>
      intro hs hr
      cases hs with
      | array hs =>
          cases hr with
          | array hr => rw [identity_array, identity_array, ih hs hr]
  | object hnames hflags _ ih =>
      intro hs hr
      rw [identity_object_eq_iff_fields hs.names_nodup hr.names_nodup]
      refine ⟨hnames, fun f hf g hg hname => ⟨hflags f hf g hg hname, ?_⟩⟩
      exact ih f hf g hg hname (hs.content hf) (hr.content hg)
  | union there back hthere hback _ _ ihleft ihright =>
      intro hs hr
      rw [hs.identity_union_eq_iff hr]
      ext k
      rw [mem_classes, mem_classes]
      constructor
      · rintro ⟨m, hm, rfl⟩
        exact ⟨there m, hthere m hm, (ihleft m hm (hs.of_mem hm) (hr.of_mem (hthere m hm))).symm⟩
      · rintro ⟨n, hn, rfl⟩
        exact ⟨back n, hback n hn, ihright n hn (hs.of_mem (hback n hn)) (hr.of_mem hn)⟩

/-- Shapes of one identity are alike. -/
theorem alike_of_identity_eq {s : Shape} (hs : s.WellTyped) : ∀ {r : Shape}, r.WellTyped →
    s.identity = r.identity → Alike s r := by
  -- the identity shows the form of the other shape, and its parts are compared by induction
  induction hs with
  | null =>
      intro r hr h
      cases hr <;> cases h
      exact .null
  | @primitive kind l hl =>
      intro r hr h
      cases hr with
      | @primitive kind' m hm =>
          rw [identity_primitive, identity_primitive, Key.primitive.injEq] at h
          obtain ⟨rfl, h⟩ := h
          cases l with
          | none =>
              cases m with
              | none => exact .bare kind
              | some m => cases h
          | some l =>
              cases m with
              | none => cases h
              | some m =>
                  have hcanonical := Option.some.inj h
                  exact .literal ((Literal.canonical_eq_iff (hl l rfl) (hm m rfl)).mp hcanonical)
      | _ => cases h
  | array _ ih =>
      intro r hr h
      cases hr with
      | array hr => exact .array (ih hr (Key.array.inj h))
      | _ => cases h
  | object hnames _ ih =>
      intro r hr h
      cases hr with
      | object hnames' hgs =>
          obtain ⟨hsame, hfields⟩ := (identity_object_eq_iff_fields hnames hnames').mp h
          refine .object hsame (fun f hf g hg hname => (hfields f hf g hg hname).1) ?_
          exact fun f hf g hg hname => ih f hf (hgs g hg) (hfields f hf g hg hname).2
      | _ => cases h
  | union hms ih =>
      intro r hr h
      cases hr with
      | union hns =>
          have hclasses := ((WellTyped.union hms).identity_union_eq_iff (.union hns)).mp h
          apply alike_union
          · intro m hm
            obtain ⟨n, hn, hnm⟩ := mem_classes.mp (hclasses ▸ identity_mem_classes hm)
            exact ⟨n, hn, ih m hm (hns n hn) hnm.symm⟩
          · intro n hn
            obtain ⟨m, hm, hmn⟩ := mem_classes.mp (hclasses ▸ identity_mem_classes hn)
            exact ⟨m, hm, ih m hm (hns n hn) hmn⟩
      | _ => cases h

theorem identity_eq_iff_alike {s r : Shape} (hs : s.WellTyped) (hr : r.WellTyped) :
    s.identity = r.identity ↔ Alike s r :=
  ⟨alike_of_identity_eq hs hr, fun h => h.identity_eq hs hr⟩

end Identity

theorem equal?_eq_same {s r : Shape} (hs : s.isWhole = true) (hr : r.isWhole = true) :
    s.equal? r = .ok (s.same r) := by
  rw [equal?, hs, hr]
  rfl

/-- Shapes have equal keys exactly when they are alike.  Comparing them never fails, and its answer
tells whether they are. -/
theorem equal?_iff_alike {s r : Shape} (hs : s.WellTyped) (hr : r.WellTyped) :
    (s.key = r.key ↔ Alike s r) ∧ (s.equal? r = .ok true ↔ Alike s r) ∧
      (s.equal? r = .ok false ↔ ¬ Alike s r) := by
  have hidentity := identity_eq_iff_alike hs hr
  refine ⟨?_, ?_, ?_⟩
  · rw [← hs.identity_eq_key, ← hr.identity_eq_key]
    exact hidentity
  · rw [equal?_eq_same hs.isWhole hr.isWhole, Except.ok.injEq, same, decide_eq_true_iff]
    exact hidentity
  · rw [equal?_eq_same hs.isWhole hr.isWhole, Except.ok.injEq, same, decide_eq_false_iff_not]
    exact not_congr hidentity

/-- A reading is zero or an array of null. -/
def reading : Shape :=
  .object [⟨"it's", .union [.primitive .number (some (.int 0)), .array (.union [.null])], true⟩,
    ⟨"unit", .null, false⟩]

/-- The same reading in another order and with repeated members, where zero has a sign. -/
def signedReading : Shape :=
  .object [⟨"unit", .null, false⟩,
    ⟨"it's", .union [.array (.union [.null, .null]),
      .primitive .number (some (.float (.zero true))), .array (.union [.null])], true⟩]

theorem equal?_iff_alike_reading :
    reading.WellTyped ∧ signedReading.WellTyped ∧ reading.key = signedReading.key ∧
      reading.equal? signedReading = .ok true ∧ reading.equal? (.union [reading]) = .ok false := by
  have hnulls : ∀ ms : List Shape, (∀ m ∈ ms, m = .null) → (union ms).WellTyped :=
    fun ms h => .union fun m hm => h m hm ▸ .null
  have hnumber : ∀ l : Literal, l.kind = .number → (primitive .number (some l)).WellTyped :=
    fun l hl => .primitive fun m hm => Option.some.inj hm ▸ hl
  have hreading : reading.WellTyped := by
    refine .object (by decide) (List.forall_mem_cons.mpr ⟨.union ?_, by simp [WellTyped.null]⟩)
    simp [hnumber (.int 0) rfl, WellTyped.array (hnulls [.null] (by simp))]
  have hsigned : signedReading.WellTyped := by
    refine .object (by decide) ?_
    simp only [List.forall_mem_cons, List.not_mem_nil, false_implies, implies_true, and_true]
    refine ⟨.null, .union ?_⟩
    simp [hnumber (.float (.zero true)) rfl, WellTyped.array (hnulls [.null] (by simp)),
      WellTyped.array (hnulls [.null, .null] (by simp))]
  have hzero : (Literal.int 0).Equal (.float (.zero true)) :=
    .inr ⟨0, by rw [Literal.units?, Int.zero_mul], rfl⟩
  have halike : Alike reading signedReading := by
    have hnull : Alike (union [.null]) (union [.null, .null]) := by
      apply alike_union <;> simp [Alike.null]
    have hnull' : Alike (union [.null]) (union [.null]) := by
      apply alike_union <;> simp [Alike.null]
    refine .object (by simp [or_comm]) (by simp) ?_
    simp only [List.forall_mem_cons, List.not_mem_nil, false_implies, implies_true, and_true]
    refine ⟨⟨fun h => by simp at h, fun _ => ?_⟩, fun _ => .null, fun h => by simp at h⟩
    apply alike_union
    · simp [Alike.literal hzero, Alike.array hnull]
    · simp [Alike.literal hzero, Alike.array hnull, Alike.array hnull']
  have hsingle : (union [reading]).WellTyped := by
    refine .union fun m hm => ?_
    rw [List.mem_singleton.mp hm]
    exact hreading
  obtain ⟨hkey, htrue, -⟩ := equal?_iff_alike hreading hsigned
  refine ⟨hreading, hsigned, hkey.mpr halike, htrue.mpr halike, ?_⟩
  exact (equal?_iff_alike hreading hsingle).2.2.mpr fun h => by cases h

end TypeSketch.Shape
