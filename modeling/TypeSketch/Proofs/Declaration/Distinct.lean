import TypeSketch.Proofs.Declaration.Document
import TypeSketch.Proofs.Declaration.Legible

/-!
# No declaration twice

Objects of different structure are declared with different bodies, and those of one structure share
a declaration.  Main statement: `distinct_declarations`.
-/

namespace TypeSketch.Emission

open Name (Invented isNameChar)
open Shape (Within Regular)

section Runs

variable {o : Options} {s : Shape} {rootName : String} {e : Emission}

/-- What stands in an object of the shape is smaller than the shape. -/
theorem identity_ne_of_within {fs gs : List (Field Shape)} (hs : s.Regular)
    (hfs : Within (.object fs) s) {f : Field Shape} (hf : f ∈ fs)
    (hgs : Within (.object gs) f.content) : (Shape.object gs).identity ≠ s.identity := by
  have hfield := Shape.sizeOf_identity_le (hs.of_within (.trans (.content hf (.refl _)) hfs)) hgs
  have hobject := Shape.sizeOf_identity_content_lt hf
  have hshape := Shape.sizeOf_identity_le hs hfs
  intro heq
  rw [heq] at hfield
  omega

/-- The contents of an object in the shape can be read back from their texts. -/
theorem Run.legible_content (h : Run o s rootName e) (hs : s.Regular)
    (hunions : ∀ ms, Within (.union ms) s → ∃ m ∈ ms, ∃ n ∈ ms, m.same n = false)
    (hroot : ∀ c ∈ rootName.toList, isNameChar c = true) {fs : List (Field Shape)}
    (hfs : Within (.object fs) s) : ∀ f ∈ fs, Legible o e.registry.nameOf? f.content := by
  intro f hf
  have hwithin : Within f.content s := .trans (.content hf (.refl _)) hfs
  constructor
  case regular => exact hs.of_within hwithin
  case unequal =>
    intro ms hms
    obtain ⟨m, hm, n, hn, hne⟩ := hunions ms (hms.trans hwithin)
    exact ⟨m, hm, n, hn, of_decide_eq_false hne⟩
  case names =>
    intro gs hgs
    obtain ⟨hdeclared, hgswithin⟩ := mem_occurring.mp hgs
    obtain ⟨d, -, hname⟩ := h.exists_name hs hdeclared (hgswithin.trans hwithin)
    exact ⟨d.name, hname, h.invented hroot (identity_ne_of_within hs hfs hf hgswithin) hname⟩

/-- Declared objects with the same body are the same. -/
theorem Run.identity_eq_of_body_eq (h : Run o s rootName e) (hnull : o.nullAsOptional = false)
    (hs : s.Regular)
    (hunions : ∀ ms, Within (.union ms) s → ∃ m ∈ ms, ∃ n ∈ ms, m.same n = false)
    (hroot : ∀ c ∈ rootName.toList, isNameChar c = true) {fs gs : List (Field Shape)}
    (hfs : Within (.object fs) s) (hgs : Within (.object gs) s)
    (heq : body o e.registry.nameOf? fs = body o e.registry.nameOf? gs) :
    (Shape.object fs).identity = (Shape.object gs).identity :=
  Emission.identity_eq_of_body_eq hnull (fun _ _ _ => h.written.fit.sound.eq_of_named)
    (h.legible_content hs hunions hroot hfs) (h.legible_content hs hunions hroot hgs) heq

end Runs

/-- What is declared for two objects in a shape: two declarations if they differ, and one if they
are the same. -/
structure ToldApart (r : Registry) (fs gs : List (Field Shape)) (d d' : Declaration) : Prop where
  left : d ∈ r.declarations ∧ r.nameOf? (Shape.object fs).identity = some d.name
  right : d' ∈ r.declarations ∧ r.nameOf? (Shape.object gs).identity = some d'.name
  shared : (Shape.object fs).same (.object gs) = true → d = d'
  different : (Shape.object fs).same (.object gs) = false → d.body ≠ d'.body

/-- Where null is not written as optional, no two declarations for a sample have the same body:
different objects are always written differently, and objects that are the same share a
declaration. -/
theorem distinct_declarations (o : Options) (hnull : o.nullAsOptional = false) {v : Sample}
    {s : Shape} (hshape : v.shape o.limits = .ok s) {rootName : String}
    (hroot : Name.isIdentifier rootName.toList = true) :
    ∃ text r, emit o s rootName = .ok (text, r) ∧ (r.declarations.map (·.body)).Nodup ∧
      ∀ fs gs, isInline o fs = false → isInline o gs = false → Within (.object fs) s →
        Within (.object gs) s → ∃ d d', ToldApart r fs gs d d' := by
  obtain rfl := Sample.eq_outline_of_shape_eq_ok hshape
  have hs := Sample.regular_outline o.limits.literals v
  have hunions : ∀ ms, Within (.union ms) (v.outline o.limits.literals) →
      ∃ m ∈ ms, ∃ n ∈ ms, m.same n = false := fun ms hms =>
    exists_unequal ((Sample.canonical_outline o.limits.literals v).unions ms hms)
  have hword := Name.isNameChar_of_isIdentifier hroot
  obtain ⟨e, hrun⟩ := exists_run_outline o o.limits.literals v rootName
  have hbody : ∀ {d d' : Declaration} {fs gs : List (Field Shape)}, d ∈ e.registry.declarations →
      d' ∈ e.registry.declarations → isInline o fs = false → isInline o gs = false →
      Within (.object fs) (v.outline o.limits.literals) →
      Within (.object gs) (v.outline o.limits.literals) →
      e.registry.nameOf? (Shape.object fs).identity = some d.name →
      e.registry.nameOf? (Shape.object gs).identity = some d'.name → d.body = d'.body →
      (Shape.object fs).identity = (Shape.object gs).identity := by
    intro d d' fs gs hd hd' hinline hinline' hfs hgs hname hname' heq
    rw [hrun.body_eq hs hd hfs hinline hname, hrun.body_eq hs hd' hgs hinline' hname'] at heq
    exact hrun.identity_eq_of_body_eq hnull hs hunions hword hfs hgs heq
  -- declarations of one structure have one name, and no name is declared twice
  have hshared : ∀ {d d' : Declaration} {k : Key}, d ∈ e.registry.declarations →
      d' ∈ e.registry.declarations → e.registry.nameOf? k = some d.name →
      e.registry.nameOf? k = some d'.name → d = d' := by
    intro d d' k hd hd' hname hname'
    rw [hname, Option.some.injEq] at hname'
    exact List.inj_on_of_nodup_map hrun.links.nodup hd hd' hname'
  refine ⟨_, _, emit_of_write (hrun.write_eq hs), ?_, ?_⟩
  · apply List.Nodup.map_on _ hrun.links.nodup.of_map
    intro d hd d' hd' heq
    obtain ⟨fs, hinline, hfs, hname⟩ := hrun.owner hs hd
    obtain ⟨gs, hinline', hgs, hname'⟩ := hrun.owner hs hd'
    have hidentity := hbody hd hd' hinline hinline' hfs hgs hname hname' heq
    exact hshared hd hd' hname (hidentity ▸ hname')
  · intro fs gs hinline hinline' hfs hgs
    obtain ⟨d, hd, hname⟩ := hrun.exists_name hs hinline hfs
    obtain ⟨d', hd', hname'⟩ := hrun.exists_name hs hinline' hgs
    refine ⟨d, d', ⟨hd, hname⟩, ⟨hd', hname'⟩, fun hsame => ?_, fun hsame heq => ?_⟩
    · exact hshared hd hd' hname (of_decide_eq_true hsame ▸ hname')
    · exact of_decide_eq_false hsame (hbody hd hd' hinline hinline' hfs hgs hname hname' heq)

/-- A note with a text and without tags. -/
def note (text : Sample) : Sample :=
  .record [("text", text), ("tags", .list [])]

/-- Two notes, one of which has the word that stands for null in the language as its text. -/
def notes : Sample :=
  .record [("first", note (.scalar (.str "null"))), ("second", note .null)]

/-- The fields of a note whose text has the given shape. -/
def noteFields (text : Shape) : List (Field Shape) :=
  [⟨"text", text, false⟩, ⟨"tags", .array .unknown, false⟩]

theorem outline_note (text : Sample) :
    (note text).outline 3 = .object (noteFields (text.outline 3)) := by
  have hnames : (["text", "tags"] : List String).Nodup := by decide
  have hsettle : settle [("text", text), ("tags", Sample.list [])] = [("text", text), ("tags", .list [])] :=
    settle_eq_self hnames
  rw [note, Sample.outline_record, hsettle]
  rfl

theorem outline_notes : notes.outline 3 =
    .object [⟨"first", .object (noteFields (.primitive .string (some (.str "null")))), false⟩,
      ⟨"second", .object (noteFields .null), false⟩] := by
  rw [notes, Sample.outline_record, settle_eq_self (by decide), List.map_cons, List.map_singleton,
    Sample.outlineField, Sample.outlineField, outline_note, outline_note]
  rfl

/-- The text `null` and no text are not confused: the notes have bodies of their own. -/
theorem distinct_declarations_notes :
    ∃ s text r, notes.shape { literals := 3 } = .ok s ∧
      emit { literalThreshold := 3 } s "Notes" = .ok (text, r) ∧
      (r.declarations.map (·.body)).Nodup ∧
      ∃ d d', ToldApart r (noteFields (.primitive .string (some (.str "null")))) (noteFields .null)
        d d' := by
  have hfits : Sample.Fits { literals := 3 } 0 notes := by
    simp [notes, note, Sample.fits_list_iff, Sample.fits_record_iff, Sample.fits_scalar,
      Sample.fits_null]
  have hshape : notes.shape { literals := 3 } = .ok (notes.outline 3) :=
    (Sample.yields_shape { literals := 3 } notes).ok hfits
  have hroot : Name.isIdentifier "Notes".toList = true := by decide
  obtain ⟨text, r, hemit, hnodup, hapart⟩ :=
    distinct_declarations { literalThreshold := 3 } rfl hshape hroot
  refine ⟨_, text, r, hshape, hemit, hnodup, hapart _ _ rfl rfl ?_ ?_⟩
  · rw [outline_notes]
    exact .content List.mem_cons_self (.refl _)
  · rw [outline_notes]
    exact .content (List.mem_cons_of_mem _ List.mem_cons_self) (.refl _)

end TypeSketch.Emission
