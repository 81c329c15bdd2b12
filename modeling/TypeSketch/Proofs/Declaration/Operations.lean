import Mathlib.Logic.Relation
import TypeSketch.Proofs.Declaration.Emission

/-!
# Operations of writing

Whatever shape is written, and whether or not the writing fails, it is composed of a few operations.
`Operations o asked w` says so of a step, where `asked` tells which objects may be declared and the
names that may be asked for them.  What each operation keeps, all writing keeps.  Main statement:
`operations_typeOf`.
-/

namespace TypeSketch.Emission

open Relation (ReflTransGen TransGen)
open Shape (Within)

variable {α β : Type} {o : Options}

/-- A step that is composed of the operations of writing. -/
inductive Operations (o : Options) (asked : List (Field Shape) → String → Prop) :
    {α : Type} → Emit α → Prop
  | pure {α : Type} (a : α) : Operations o asked (pure a : Emit α)
  | throw {α : Type} (fault : ShapeFault) : Operations o asked (throw fault : Emit α)
  | bind {α β : Type} {w : Emit α} {g : α → Emit β} (hw : Operations o asked w)
      (hg : ∀ a, Operations o asked (g a)) : Operations o asked (w >>= g)
  | named (k : Key) {w : Emit (List Char)} (hw : Operations o asked w) :
      Operations o asked (named k w)
  /-- An object is declared unless it has a name. -/
  | extract {fs : List (Field Shape)} {suggested : String} {w : Emit (List (List Char))}
      (hasked : asked fs suggested) (hw : Operations o asked w) :
      Operations o asked (Emission.named (Shape.object fs).identity
        (extract o (Shape.object fs).identity suggested (fs.map (·.name)) w))

namespace Operations

variable {asked asked' : List (Field Shape) → String → Prop} {w : Emit α}

theorem mono (h : Operations o asked w) (hsub : ∀ fs n, asked fs n → asked' fs n) :
    Operations o asked' w := by
  induction h with
  | pure a => exact .pure a
  | throw fault => exact .throw fault
  | bind _ _ ih ih' => exact .bind ih ih'
  | named k _ ih => exact .named k ih
  | extract hasked _ ih => exact .extract (hsub _ _ hasked) ih

theorem map (hw : Operations o asked w) (f : α → β) : Operations o asked (f <$> w) := by
  rw [map_eq_pure_bind]
  exact .bind hw fun _ => .pure _

theorem unionOf {w : Emit (List (List Char))} (hw : Operations o asked w) :
    Operations o asked (unionOf w) := by
  apply hw.bind
  intro texts
  cases texts with
  | nil => exact .throw _
  | cons t ts => exact .pure _

theorem unionArrayOf {w : Emit (List (List Char))} (hw : Operations o asked w) :
    Operations o asked (unionArrayOf w) := by
  apply hw.bind
  intro texts
  cases texts with
  | nil => exact .throw _
  | cons t ts =>
      dsimp only
      split
      · exact .pure _
      · exact .pure _

end Operations

section Invariants

theorem bind_error {w : Emit α} {e e' : Emission} {fault : ShapeFault}
    (h : w e = (.error fault, e')) (g : α → Emit β) : (w >>= g) e = (.error fault, e') := by
  show ExceptT.bindCont g (w e).1 (w e).2 = (.error fault, e')
  rw [h]
  rfl

/-- The name of an object whose fields were not all written stays taken. -/
theorem extract_error {w : Emit (List (List Char))} {e e' : Emission} {k : Key}
    {suggested : String} {fields : List String} {fault : ShapeFault}
    (h : w ⟨Writes.opened e.registry k suggested fields, []⟩ = (.error fault, e')) :
    extract o k suggested fields w e =
      (.error fault, ⟨e'.registry.update (e.registry.freeName suggested)
        fun d => { d with dependencies := e'.references }, e.references⟩) := by
  have hrun : w.run ⟨Writes.opened e.registry k suggested fields, []⟩ = (.error fault, e') := h
  rw [Writes.opened] at hrun
  rw [extract]
  simp only [hrun]

theorem run_cases (w : Emit α) (e : Emission) :
    (∃ fault e', w e = (.error fault, e')) ∨ ∃ a e', w e = (.ok a, e') := by
  obtain ⟨⟨result, e'⟩, hrun⟩ : ∃ outcome, w e = outcome := ⟨_, rfl⟩
  cases result with
  | error fault => exact .inl ⟨fault, e', hrun⟩
  | ok a => exact .inr ⟨a, e', hrun⟩

/-- What holds of registries when an object is about to be written, and when a declaration gets its
dependencies or its body, holds of them after all writing. -/
theorem Operations.invariant {asked : List (Field Shape) → String → Prop} {w : Emit α}
    (h : Operations o asked w) {P : Registry → Prop}
    (hopened : ∀ {r fs suggested}, asked fs suggested → P r →
      r.nameOf? (Shape.object fs).identity = none →
        P (Writes.opened r (Shape.object fs).identity suggested (fs.map (·.name))))
    (hupdate : ∀ {r name} {f : Declaration → Declaration},
      (∀ d, (f d).name = d.name ∧ (f d).fields = d.fields) → P r → P (r.update name f))
    {e : Emission} (he : P e.registry) : P (w e).2.registry := by
  induction h generalizing e with
  | pure a => exact he
  | throw fault => exact he
  | @bind _ _ w g _ _ ih ih' =>
      have hfirst := ih he
      rcases run_cases w e with ⟨fault, e', hrun⟩ | ⟨a, e', hrun⟩
      · rw [hrun] at hfirst
        rw [bind_error hrun]
        exact hfirst
      · rw [hrun] at hfirst
        rw [Writes.bind_ok hrun]
        exact ih' a hfirst
  | named k _ ih =>
      cases hknown : e.registry.nameOf? k with
      | some name =>
          rw [Writes.named_of_some hknown]
          exact he
      | none =>
          rw [Writes.named_of_none hknown]
          exact ih he
  | @extract fs suggested w hasked _ ih =>
      cases hknown : e.registry.nameOf? (Shape.object fs).identity with
      | some name =>
          rw [Writes.named_of_some hknown]
          exact he
      | none =>
          have hfilled := ih (e := ⟨_, []⟩) (hopened hasked he hknown)
          rw [Writes.named_of_none hknown]
          rcases run_cases w ⟨_, []⟩ with ⟨fault, e', hrun⟩ | ⟨parts, e', hrun⟩
          · rw [hrun] at hfilled
            rw [extract_error hrun]
            exact hupdate (fun _ => ⟨rfl, rfl⟩) hfilled
          · rw [hrun] at hfilled
            rw [Writes.extract_ok hrun]
            exact hupdate (fun _ => ⟨rfl, rfl⟩) (hupdate (fun _ => ⟨rfl, rfl⟩) hfilled)

/-- What has a name keeps it. -/
theorem Operations.keeps {asked : List (Field Shape) → String → Prop} {w : Emit α}
    (h : Operations o asked w) {e : Emission} {k : Key} {name : String}
    (hname : e.registry.nameOf? k = some name) : (w e).2.registry.nameOf? k = some name := by
  refine h.invariant (P := fun r => r.nameOf? k = some name) (fun _ hr hnone => ?_)
    (fun _ hr => hr) hname
  rw [Writes.nameOf?_opened, if_neg, hr]
  rintro rfl
  rw [hr] at hnone
  cases hnone

end Invariants

/-- When `s` is written as `suggested`, the object may be declared under the name, or under one
that is made from it. -/
inductive Asks (o : Options) : Shape → String → List (Field Shape) → String → Prop
  | self (gs : List (Field Shape)) (suggested : String) : Asks o (.object gs) suggested gs suggested
  | item {s : Shape} {suggested n : String} {gs : List (Field Shape)}
      (h : Asks o s (suggested ++ "Item") gs n) : Asks o (.array s) suggested gs n
  | member {m : Shape} {ms : List Shape} {suggested n : String} {gs : List (Field Shape)} (i : Nat)
      (hm : m ∈ ms) (h : Asks o m (suggested ++ "Union" ++ toString i) gs n) :
      Asks o (.union ms) suggested gs n
  | content {fs : List (Field Shape)} {f : Field Shape} {suggested n : String}
      {gs : List (Field Shape)} (hf : f ∈ fs) (h : Asks o f.content (suggestedName o f.name) gs n) :
      Asks o (.object fs) suggested gs n
  /-- The only member that is left of the union of a field takes the name of the field. -/
  | only {fs : List (Field Shape)} {f : Field Shape} {m : Shape} {suggested n : String}
      {gs : List (Field Shape)} (hf : f ∈ fs) (hm : m ∈ f.content.members)
      (h : Asks o m (suggestedName o f.name) gs n) : Asks o (.object fs) suggested gs n

/-- What is asked for while the fields of an object are written. -/
def AsksIn (o : Options) (fs gs : List (Field Shape)) (n : String) : Prop :=
  ∃ f ∈ fs, Asks o f.content (suggestedName o f.name) gs n ∨
    ∃ m ∈ f.content.members, Asks o m (suggestedName o f.name) gs n

theorem AsksIn.asks {fs gs : List (Field Shape)} {n : String} (h : AsksIn o fs gs n)
    (suggested : String) : Asks o (.object fs) suggested gs n := by
  obtain ⟨f, hf, h | ⟨m, hm, h⟩⟩ := h
  · exact .content hf h
  · exact .only hf hm h

section Shapes

/-- The members of a union ask for the names at their positions. -/
theorem operations_membersOf {ms : List Shape}
    (h : ∀ m ∈ ms, ∀ suggested, Operations o (Asks o m suggested) (typeOf o m suggested))
    (dropNull : Bool) (name : Nat → String) (i : Nat) :
    Operations o (fun gs n => ∃ m ∈ ms, ∃ j, Asks o m (name j) gs n)
      (membersOf o dropNull ms name i) := by
  induction ms generalizing i with
  | nil =>
      rw [membersOf]
      exact .pure _
  | cons m ms ih =>
      obtain ⟨hm, hms⟩ := List.forall_mem_cons.mp h
      have hrest : ∀ j, Operations o (fun gs n => ∃ r ∈ m :: ms, ∃ j, Asks o r (name j) gs n)
          (membersOf o dropNull ms name j) := by
        intro j
        refine (ih hms j).mono ?_
        rintro gs n ⟨r, hr, hasks⟩
        exact ⟨r, List.mem_cons_of_mem m hr, hasks⟩
      rw [membersOf]
      split
      · exact hrest i
      · exact ((hm (name i)).mono fun _ _ hasks => ⟨m, List.mem_cons_self, i, hasks⟩).bind fun _ =>
          (hrest (i + 1)).bind fun _ => .pure _

theorem operations_fieldOf {f : Field Shape}
    (hcontent : ∀ suggested,
      Operations o (Asks o f.content suggested) (typeOf o f.content suggested))
    (hmembers : ∀ m ∈ f.content.members, ∀ suggested,
      Operations o (Asks o m suggested) (typeOf o m suggested)) :
    Operations o (AsksIn o [f]) (fieldOf o f) := by
  have hplain : ∀ isOptional, Operations o (AsksIn o [f])
      (fieldText o f.name isOptional <$> typeOf o f.content (suggestedName o f.name)) := fun _ =>
    ((hcontent _).mono fun _ _ h => ⟨f, List.mem_singleton_self f, .inl h⟩).map _
  obtain ⟨name, s, isOptional⟩ := f
  cases s with
  | union ms =>
      rw [fieldOf]
      dsimp only
      split
      · have htexts := fun name => operations_membersOf hmembers true name 0
        apply Operations.map
        split
        · refine ((htexts _).mono ?_).map alternatives
          rintro gs n ⟨m, hm, _, h⟩
          exact ⟨_, List.mem_singleton_self _, .inr ⟨m, hm, h⟩⟩
        · refine ((htexts _).mono ?_).unionOf.named _
          rintro gs n ⟨m, hm, j, h⟩
          exact ⟨_, List.mem_singleton_self _, .inl (.member j hm h)⟩
      · exact hplain isOptional
  | _ => exact hplain isOptional

theorem operations_fieldsOf {fs : List (Field Shape)}
    (h : ∀ f ∈ fs,
      (∀ suggested, Operations o (Asks o f.content suggested) (typeOf o f.content suggested)) ∧
        ∀ m ∈ f.content.members, ∀ suggested,
          Operations o (Asks o m suggested) (typeOf o m suggested)) :
    Operations o (AsksIn o fs) (fieldsOf o fs) := by
  induction fs with
  | nil =>
      rw [fieldsOf]
      exact .pure _
  | cons f fs ih =>
      obtain ⟨⟨hcontent, hmembers⟩, hfs⟩ := List.forall_mem_cons.mp h
      have hfield : Operations o (AsksIn o (f :: fs)) (fieldOf o f) := by
        refine (operations_fieldOf hcontent hmembers).mono ?_
        rintro gs n ⟨g, hg, hasks⟩
        exact ⟨g, List.mem_singleton.mp hg ▸ List.mem_cons_self, hasks⟩
      have hrest : Operations o (AsksIn o (f :: fs)) (fieldsOf o fs) := by
        refine (ih hfs).mono ?_
        rintro gs n ⟨g, hg, hasks⟩
        exact ⟨g, List.mem_cons_of_mem f hg, hasks⟩
      rw [fieldsOf_cons]
      exact hfield.bind fun _ => hrest.bind fun _ => .pure _

/-- Writing is composed of its operations, for every shape. -/
theorem operations_typeOf (o : Options) (s : Shape) :
    ∀ suggested, Operations o (Asks o s suggested) (typeOf o s suggested) := by
  induction s using writtenInduction with
  | null =>
      intro suggested
      rw [typeOf]
      exact (Operations.pure _).named _
  | primitive kind l =>
      intro suggested
      rw [typeOf]
      exact (Operations.pure _).named _
  | array s ih ihmembers =>
      intro suggested
      by_cases hunion : s.isUnion = true
      · obtain ⟨ms, rfl⟩ := Shape.exists_eq_union hunion
        rw [typeOf_array_union]
        refine ((operations_membersOf ihmembers false _ 0).mono ?_).unionArrayOf.named _
        rintro gs n ⟨m, hm, j, h⟩
        exact .item (.member j hm h)
      · rw [typeOf_array (Bool.eq_false_iff.mpr hunion)]
        exact (((ih _).mono fun _ _ => .item).map arrayText).named _
  | object fs ih =>
      intro suggested
      have hfields : Operations o (Asks o (.object fs) suggested) (fieldsOf o fs) :=
        (operations_fieldsOf ih).mono fun _ _ h => h.asks suggested
      rw [typeOf]
      split
      · exact (hfields.map inlineText).named _
      · exact hfields.extract (.self fs suggested)
  | union ms ih =>
      intro suggested
      rw [typeOf_union]
      refine ((operations_membersOf ih false _ 0).mono ?_).unionOf.named _
      rintro gs n ⟨m, hm, j, h⟩
      exact .member j hm h
  | hole =>
      intro suggested
      rw [typeOf]
      exact .throw _

theorem operations_fields (o : Options) (fs : List (Field Shape)) :
    Operations o (AsksIn o fs) (fieldsOf o fs) :=
  operations_fieldsOf fun f _ => ⟨operations_typeOf o f.content, fun m _ => operations_typeOf o m⟩

end Shapes

section Asked

/-- The second name is the one that is asked for a part of what the first one is asked for. -/
inductive NextName (o : Options) : String → String → Prop
  | item (suggested : String) : NextName o suggested (suggested ++ "Item")
  | member (suggested : String) (i : Nat) :
      NextName o suggested (suggested ++ "Union" ++ toString i)
  | field (suggested name : String) : NextName o suggested (suggestedName o name)

variable {s : Shape} {suggested n : String} {gs : List (Field Shape)}

theorem Asks.within (h : Asks o s suggested gs n) : Within (.object gs) s := by
  induction h with
  | self gs suggested => exact .refl _
  | item _ ih => exact .item ih
  | member _ hm _ ih => exact .member hm ih
  | content hf _ ih => exact .content hf ih
  | @only fs f m _ _ _ hf hm _ ih =>
      refine .content hf ?_
      by_cases hunion : f.content.isUnion = true
      · obtain ⟨ms, hms⟩ := Shape.exists_eq_union hunion
        rw [hms] at hm ⊢
        exact .member hm ih
      · rw [Shape.members_of_isUnion_eq_false (Bool.eq_false_iff.mpr hunion)] at hm
        exact List.mem_singleton.mp hm ▸ ih

theorem path_of_next {p : Prop} {m l n : String} (hstep : NextName o m l)
    (h : (p ∧ n = l) ∨ TransGen (NextName o) l n) : TransGen (NextName o) m n := by
  rcases h with ⟨-, rfl⟩ | hpath
  · exact .single hstep
  · exact .head hstep hpath

/-- All names but that of the shape itself are made from other ones. -/
theorem Asks.self_or_path (h : Asks o s suggested gs n) :
    (s = .object gs ∧ n = suggested) ∨ TransGen (NextName o) suggested n := by
  induction h with
  | self gs suggested => exact .inl ⟨rfl, rfl⟩
  | item _ ih => exact .inr (path_of_next (.item _) ih)
  | member i _ _ ih => exact .inr (path_of_next (.member _ i) ih)
  | @content _ f _ _ _ _ _ ih => exact .inr (path_of_next (.field _ f.name) ih)
  | @only _ f _ _ _ _ _ _ _ ih => exact .inr (path_of_next (.field _ f.name) ih)

theorem Asks.path (h : Asks o s suggested gs n) : ReflTransGen (NextName o) suggested n := by
  rcases h.self_or_path with ⟨-, rfl⟩ | hpath
  · exact .refl
  · exact hpath.to_reflTransGen

end Asked

end TypeSketch.Emission
