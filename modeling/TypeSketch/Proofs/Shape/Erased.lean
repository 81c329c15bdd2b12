import TypeSketch.Proofs.Shape.Classes

/-!
# Shapes without their literals

`erase s` has every primitive of `s` bare, and its unions are rebuilt, so that members which only
differed in literals become one.  Main statements, for regular shapes:

* `identity_erase_congr`: shapes that are the same are the same without their literals;
* `identity_erase_unite`: literals may be dropped before or after shapes are united.
-/

namespace TypeSketch.Shape

mutual

/-- The shape without literals. -/
def erase : Shape → Shape
  | .null => .null
  | .primitive kind _ => .primitive kind none
  | .array s => .array s.erase
  | .object fs => .object (eraseFields fs)
  | .union ms => unite (eraseMembers ms)
  | .hole => .hole

def eraseFields : List (Field Shape) → List (Field Shape)
  | [] => []
  | ⟨n, s, o⟩ :: rest => ⟨n, s.erase, o⟩ :: eraseFields rest

def eraseMembers : List Shape → List Shape
  | [] => []
  | s :: rest => s.erase :: eraseMembers rest

end

theorem eraseFields_eq_map (fs : List (Field Shape)) : eraseFields fs = fs.map (Field.map erase) := by
  induction fs with
  | nil => rw [eraseFields]; rfl
  | cons f fs ih => rw [eraseFields, ih, List.map_cons]; rfl

theorem eraseMembers_eq_map (ms : List Shape) : eraseMembers ms = ms.map erase := by
  induction ms with
  | nil => rw [eraseMembers]; rfl
  | cons m ms ih => rw [eraseMembers, ih, List.map_cons]

theorem erase_object (fs : List (Field Shape)) :
    (object fs).erase = .object (fs.map (Field.map erase)) := by
  rw [erase, eraseFields_eq_map]

theorem erase_union (ms : List Shape) : (union ms).erase = unite (ms.map erase) := by
  rw [erase, eraseMembers_eq_map]

theorem isUnion_erase {s : Shape} (h : s.isUnion = false) : s.erase.isUnion = false := by
  cases s with
  | union ms => cases h
  | _ => rw [erase]; rfl

theorem regular_erase {s : Shape} (hs : s.Regular) : s.erase.Regular := by
  induction hs with
  | null => rw [erase]; exact .null
  | primitive _ => rw [erase]; exact regular_bare _
  | array _ ih => rw [erase]; exact .array ih
  | @object fs hnames _ ih =>
      rw [erase_object]
      apply Regular.object
      · rwa [names_map]
      · exact List.forall_mem_map.mpr ih
  | union _ hflat _ ih =>
      rw [erase_union]
      exact regular_unite (flat_map fun m hm => ⟨ih m hm, isUnion_erase (hflat m hm)⟩)

theorem flat_map_erase {P : List Shape} (hP : Flat P) : Flat (P.map erase) :=
  flat_map fun s hs => ⟨regular_erase (hP.regular s hs), isUnion_erase (hP.noUnion s hs)⟩

theorem classes_map_erase_subset {P Q : List Shape}
    (h : ∀ p ∈ P, ∀ q ∈ Q, p.identity = q.identity → p.erase.identity = q.erase.identity)
    (hsub : classes P ⊆ classes Q) : classes (P.map erase) ⊆ classes (Q.map erase) := by
  intro k hk
  obtain ⟨_, hmem, rfl⟩ := mem_classes.mp hk
  obtain ⟨p, hp, rfl⟩ := List.mem_map.mp hmem
  obtain ⟨q, hq, heq⟩ := mem_classes.mp (hsub (identity_mem_classes hp))
  exact mem_classes.mpr ⟨q.erase, List.mem_map_of_mem hq, (h p hp q hq heq.symm).symm⟩

theorem classes_map_erase_congr_of {P Q : List Shape}
    (h : ∀ p ∈ P, ∀ q ∈ Q, p.identity = q.identity → p.erase.identity = q.erase.identity)
    (hclasses : classes P = classes Q) : classes (P.map erase) = classes (Q.map erase) :=
  (classes_map_erase_subset h hclasses.subset).antisymm
    (classes_map_erase_subset (fun q hq p hp heq => (h p hp q hq heq.symm).symm) hclasses.superset)

/-- Shapes that are the same are the same without their literals. -/
theorem identity_erase_congr {s : Shape} (hs : s.Regular) : ∀ {r : Shape}, r.Regular →
    s.identity = r.identity → s.erase.identity = r.erase.identity := by
  induction hs with
  | null =>
      intro r _ heq
      cases r with
      | null => rfl
      | _ => cases heq
  | primitive _ =>
      intro r _ heq
      cases r with
      | primitive kind l =>
          simp only [identity_primitive, Key.primitive.injEq] at heq
          rw [erase, erase, heq.1]
      | _ => cases heq
  | array _ ih =>
      intro r hr heq
      cases hr with
      | array hr =>
          rw [erase, erase, identity_array, identity_array, ih hr (Key.array.inj heq)]
      | _ => cases heq
  | @object fs hnames _ ih =>
      intro r hr heq
      cases hr with
      | @object gs hgnames hgs =>
          have hmap : ∀ hs : List (Field Shape), (hs.map (·.name)).Nodup →
              ((hs.map (Field.map erase)).map (·.name)).Nodup := by
            intro hs h
            rwa [names_map]
          rw [erase_object, erase_object, identity_object_eq_iff (hmap fs hnames) (hmap gs hgnames)]
          intro name
          -- under each name there are contents that are the same, or there is nothing
          have hentry := (identity_object_eq_iff hnames hgnames).mp heq name
          rw [entry_map _ (Field.map_name erase), entry_map _ (Field.map_name erase)]
          cases hf : entry name fs with
          | none =>
              cases hg : entry name gs with
              | none => rfl
              | some g => rw [hf, hg] at hentry; cases hentry
          | some f =>
              cases hg : entry name gs with
              | none => rw [hf, hg] at hentry; cases hentry
              | some g =>
                  rw [hf, hg, Option.map_some, Option.map_some, Option.some.injEq] at hentry
                  obtain ⟨fname, content, isOptional⟩ := f
                  obtain ⟨gname, content', isOptional'⟩ := g
                  simp only [Field.map, Field.mk.injEq] at hentry
                  have hcontent := ih _ (mem_of_entry_eq_some hf).1
                    (hgs _ (mem_of_entry_eq_some hg).1) hentry.2.1
                  simp only [Option.map_some, Field.map, hentry.1, hentry.2.2, hcontent]
      | _ => cases heq
  | @union ms hne hflat hms ih =>
      intro r hr heq
      cases hr with
      | @union ns hne' hflat' hns =>
          have hclasses := (identity_union_eq_iff (.union hne hflat hms) (.union hne' hflat' hns)).mp heq
          rw [erase_union, erase_union]
          exact identity_unite_congr (flat_map_erase ⟨hms, hflat⟩) (flat_map_erase ⟨hns, hflat'⟩)
            (classes_map_erase_congr_of (fun m hm n hn => ih m hm (hns n hn)) hclasses)
      | _ => cases heq

theorem classes_map_erase_congr {P Q : List Shape} (hP : Flat P) (hQ : Flat Q)
    (h : classes P = classes Q) : classes (P.map erase) = classes (Q.map erase) :=
  classes_map_erase_congr_of
    (fun p hp q hq => identity_erase_congr (hP.regular p hp) (hQ.regular q hq)) h

/-- Literals may be dropped before or after shapes are united. -/
theorem identity_erase_unite {P : List Shape} (hP : Flat P) (hne : P ≠ []) :
    (unite P).erase.identity = (unite (P.map erase)).identity := by
  have hclasses : classes ((distinct P).map erase) = classes (P.map erase) :=
    classes_map_erase_congr hP.distinct hP (classes_distinct P)
  rcases length_distinct_cases P with hnil | ⟨s, hs⟩ | hseveral
  · exact absurd hnil hne
  · rw [unite_of_single hP hs]
    rw [hs, List.map_singleton] at hclasses
    exact (identity_unite_of_single (flat_map_erase hP) hclasses.symm).symm
  · rw [unite_of_several hP hseveral, erase_union]
    exact identity_unite_congr (flat_map_erase hP.distinct) (flat_map_erase hP) hclasses

end TypeSketch.Shape
