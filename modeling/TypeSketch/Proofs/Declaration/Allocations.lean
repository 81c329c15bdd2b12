import TypeSketch.Proofs.Declaration.Links
import TypeSketch.Proofs.Declaration.Operations

/-!
# Allocations

An allocation gives a structure a free name and makes a declaration for it.  `Makes w e log` says
which allocations a step of writing makes, in order and also when it fails, and `Grown r log r'`
what allocations do to a registry.  Main statements: `Makes.grown`, and `allots_typeOf`, the names
that are asked for while a shape is written.
-/

namespace TypeSketch

/-- A name that was given to a structure. -/
structure Allocation where
  identity : Key
  /-- The name that was asked for. -/
  suggested : String
  name : String

namespace Allocation

/-- The name that a structure was given last. -/
def latest (log : List Allocation) (k : Key) : Option String :=
  ((log.filter fun a => a.identity = k).getLast?).map (·.name)

theorem latest_append (log log' : List Allocation) (k : Key) :
    latest (log ++ log') k = (latest log' k).or (latest log k) := by
  rw [latest, List.filter_append, List.getLast?_append, Option.map_or, latest, latest]

theorem latest_singleton (a : Allocation) (k : Key) :
    latest [a] k = if k = a.identity then some a.name else none := by
  by_cases h : k = a.identity
  · simp [latest, h]
  · simp [latest, h, Ne.symm h]

theorem mem_of_latest {log : List Allocation} {k : Key} {name : String}
    (h : latest log k = some name) : ∃ a ∈ log, a.identity = k ∧ a.name = name := by
  obtain ⟨a, ha, hname⟩ := Option.map_eq_some_iff.mp h
  have hmem := List.mem_filter.mp (List.mem_of_getLast? ha)
  exact ⟨a, hmem.1, of_decide_eq_true hmem.2, hname⟩

end Allocation

open Allocation (latest)

namespace Registry

/-- What is between a registry and a later one: the allocations of the log, and nothing else that
shows. -/
structure Grown (r : Registry) (log : List Allocation) (r' : Registry) : Prop where
  sound : r'.Sound
  named : ∀ k, r'.nameOf? k = (latest log k).or (r.nameOf? k)
  /-- What was declared stands unchanged in front of the new declarations. -/
  declarations : ∃ added, r'.declarations = r.declarations ++ added ∧
    added.map (·.name) = log.map (·.name)
  used : ∀ n ∈ r.used, n ∈ r'.used
  taken : ∀ a ∈ log, a.name ∈ r'.used
  fresh : ∀ a ∈ log, a.name ∉ r.used
  nodup : (log.map (·.name)).Nodup

namespace Grown

variable {r r' r'' : Registry} {log log' : List Allocation}

theorem refl (hr : r.Sound) : Grown r [] r where
  sound := hr
  named _ := rfl
  declarations := ⟨[], (List.append_nil _).symm, rfl⟩
  used _ := id
  taken _ ha := absurd ha List.not_mem_nil
  fresh _ ha := absurd ha List.not_mem_nil
  nodup := List.nodup_nil

theorem trans (h : Grown r log r') (h' : Grown r' log' r'') : Grown r (log ++ log') r'' where
  sound := h'.sound
  named := by
    intro k
    rw [h'.named, h.named, Allocation.latest_append, Option.or_assoc]
  declarations := by
    obtain ⟨added, hadded, hnames⟩ := h.declarations
    obtain ⟨added', hadded', hnames'⟩ := h'.declarations
    refine ⟨added ++ added', ?_, ?_⟩
    · rw [hadded', hadded, List.append_assoc]
    · rw [List.map_append, List.map_append, hnames, hnames']
  used n hn := h'.used n (h.used n hn)
  taken := by
    intro a ha
    rcases List.mem_append.mp ha with ha | ha
    · exact h'.used _ (h.taken a ha)
    · exact h'.taken a ha
  fresh := by
    intro a ha hused
    rcases List.mem_append.mp ha with ha | ha
    · exact h.fresh a ha hused
    · exact h'.fresh a ha (h.used _ hused)
  nodup := by
    rw [List.map_append, List.nodup_append]
    refine ⟨h.nodup, h'.nodup, ?_⟩
    rintro _ hn _ hn' rfl
    -- the names of the second log were not in use when those of the first one were given
    obtain ⟨a, ha, hname⟩ := List.mem_map.mp hn
    obtain ⟨b, hb, hname'⟩ := List.mem_map.mp hn'
    apply h'.fresh b hb
    rw [hname', ← hname]
    exact h.taken a ha

/-- A later change of a declaration that the first registry does not have. -/
theorem update (h : Grown r log r') (hr : r.Sound) {name : String} (hname : name ∉ r.used)
    {f : Declaration → Declaration} (hf : ∀ d, (f d).name = d.name) :
    Grown r log (r'.update name f) where
  sound := h.sound.update hf name
  named := h.named
  declarations := by
    obtain ⟨added, hadded, hnames⟩ := h.declarations
    have hne : ∀ d ∈ r.declarations, d.name ≠ name := fun d hd heq =>
      hname (heq ▸ Emission.mem_used_of_mem_declarations hr hd)
    refine ⟨added.map fun d => if d.name = name then f d else d, ?_, ?_⟩
    · rw [Registry.update, hadded, List.map_append, Emission.map_update_of_ne hne]
    · rw [List.map_map, ← hnames]
      exact List.map_congr_left fun d _ => name_updated hf name d
  used := h.used
  taken := h.taken
  fresh := h.fresh
  nodup := h.nodup

theorem reserve (hr : r.Sound) (name : String) : Grown r [] (r.reserve name) where
  sound := hr.reserve name
  named _ := by
    rw [Registry.reserve]
    split <;> rfl
  declarations := by
    refine ⟨[], ?_, rfl⟩
    rw [Registry.reserve, List.append_nil]
    split <;> rfl
  used := by
    intro n hn
    rw [Registry.reserve]
    split
    · exact hn
    · exact List.mem_cons_of_mem _ hn
  taken _ ha := absurd ha List.not_mem_nil
  fresh _ ha := absurd ha List.not_mem_nil
  nodup := List.nodup_nil

theorem declare (hr : r.Sound) (suggested : String) (k : Key) :
    Grown r [⟨k, suggested, r.freeName suggested⟩] (r.declare (r.freeName suggested) k) where
  sound := hr.declare (r.freeName_notMem suggested) k
  named := by
    intro l
    rw [nameOf?_declare, Allocation.latest_singleton]
    split
    · rfl
    · rfl
  declarations := ⟨[{ name := r.freeName suggested }], rfl, rfl⟩
  used _ hn := List.mem_cons_of_mem _ hn
  taken a ha := by
    rw [List.mem_singleton.mp ha]
    exact List.mem_cons_self
  fresh a ha := by
    rw [List.mem_singleton.mp ha]
    exact r.freeName_notMem suggested
  nodup := List.nodup_singleton _

end Grown

end Registry

namespace Emission

open Registry (Grown)
open Relation (TransGen)

variable {α β : Type} {o : Options}

/-- The allocations that a step makes from a state on. -/
inductive Makes : {α : Type} → Emit α → Emission → List Allocation → Prop
  /-- The registry is left as it is. -/
  | still {α : Type} {w : Emit α} {e : Emission} (h : (w e).2.registry = e.registry) : Makes w e []
  | bind {α β : Type} {w : Emit α} {g : α → Emit β} {e e' : Emission} {a : α}
      {log log' : List Allocation} (h : w e = (.ok a, e')) (hw : Makes w e log)
      (hg : Makes (g a) e' log') : Makes (w >>= g) e (log ++ log')
  /-- What stands behind a failure is not reached. -/
  | fail {α β : Type} {w : Emit α} {g : α → Emit β} {e e' : Emission} {fault : ShapeFault}
      {log : List Allocation} (h : w e = (.error fault, e')) (hw : Makes w e log) :
      Makes (w >>= g) e log
  /-- A structure that has no name is written. -/
  | named {k : Key} {w : Emit (List Char)} {e : Emission} {log : List Allocation}
      (h : e.registry.nameOf? k = none) (hw : Makes w e log) : Makes (named k w) e log
  /-- An object is given its name before its fields are written. -/
  | extract {o : Options} {k : Key} {suggested : String} {fields : List String}
      {w : Emit (List (List Char))} {e : Emission} {log : List Allocation}
      (hw : Makes w ⟨Writes.opened e.registry k suggested fields, []⟩ log) :
      Makes (extract o k suggested fields w) e
        (⟨k, suggested, e.registry.freeName suggested⟩ :: log)

section Runs

theorem grown_opened {r : Registry} (hr : r.Sound) (k : Key) (suggested : String)
    (fields : List String) :
    Grown r [⟨k, suggested, r.freeName suggested⟩] (Writes.opened r k suggested fields) :=
  (Grown.declare hr suggested k).update hr (r.freeName_notMem suggested)
    (Writes.name_fields fields)

/-- What allocations do, they do also where a step fails. -/
theorem Makes.grown {w : Emit α} {e : Emission} {log : List Allocation} (h : Makes w e log)
    (he : e.registry.Sound) : Grown e.registry log (w e).2.registry := by
  induction h with
  | still h =>
      rw [h]
      exact .refl he
  | bind h _ _ ih ih' =>
      have hfirst := ih he
      rw [h] at hfirst
      rw [Writes.bind_ok h]
      exact hfirst.trans (ih' hfirst.sound)
  | fail h _ ih =>
      have hfirst := ih he
      rw [h] at hfirst
      rw [bind_error h]
      exact hfirst
  | named h _ ih =>
      rw [Writes.named_of_none h]
      exact ih he
  | @extract o k suggested fields w e log _ ih =>
      have hopened := grown_opened he k suggested fields
      have hfree := e.registry.freeName_notMem suggested
      have hfilled := hopened.trans (ih hopened.sound)
      obtain ⟨⟨result, e'⟩, hrun⟩ :
          ∃ outcome, w ⟨Writes.opened e.registry k suggested fields, []⟩ = outcome := ⟨_, rfl⟩
      rw [hrun] at hfilled
      -- the dependencies are noted in any case, the body only when all fields are written
      have hnoted := hfilled.update he hfree (Writes.name_dependencies e'.references)
      cases result with
      | error fault =>
          rw [extract_error hrun]
          exact hnoted
      | ok parts =>
          rw [Writes.extract_ok hrun]
          exact hnoted.update he hfree (Writes.name_body parts)

end Runs

/-- A step that makes allocations of the given kind only, from wherever it starts. -/
def Allots (w : Emit α) (asked : Allocation → Prop) : Prop :=
  ∀ e, ∃ log, Makes w e log ∧ ∀ a ∈ log, asked a

theorem Allots.mono {w : Emit α} {asked asked' : Allocation → Prop} (h : Allots w asked)
    (hsub : ∀ a, asked a → asked' a) : Allots w asked' := by
  intro e
  obtain ⟨log, hmakes, hasked⟩ := h e
  exact ⟨log, hmakes, fun a ha => hsub a (hasked a ha)⟩

theorem Allots.still {w : Emit α} {asked : Allocation → Prop}
    (h : ∀ e, (w e).2.registry = e.registry) : Allots w asked :=
  fun e => ⟨[], .still (h e), fun _ ha => absurd ha List.not_mem_nil⟩

theorem Allots.bind {w : Emit α} {asked : Allocation → Prop} (hw : Allots w asked)
    {g : α → Emit β} (hg : ∀ a, Allots (g a) asked) : Allots (w >>= g) asked := by
  intro e
  obtain ⟨log, hmakes, hasked⟩ := hw e
  rcases run_cases w e with ⟨fault, e', hrun⟩ | ⟨a, e', hrun⟩
  · exact ⟨log, .fail hrun hmakes, hasked⟩
  · obtain ⟨log', hmakes', hasked'⟩ := hg a e'
    exact ⟨log ++ log', .bind hrun hmakes hmakes',
      fun b hb => (List.mem_append.mp hb).elim (hasked b) (hasked' b)⟩

theorem Allots.named {w : Emit (List Char)} {asked : Allocation → Prop} (hw : Allots w asked)
    (k : Key) : Allots (named k w) asked := by
  intro e
  cases hknown : e.registry.nameOf? k with
  | none =>
      obtain ⟨log, hmakes, hasked⟩ := hw e
      exact ⟨log, .named hknown hmakes, hasked⟩
  | some name =>
      refine ⟨[], .still ?_, fun _ ha => absurd ha List.not_mem_nil⟩
      rw [Writes.named_of_some hknown]

theorem Allots.extract {w : Emit (List (List Char))} {asked : Allocation → Prop}
    (hw : Allots w asked) {k : Key} {suggested : String}
    (hself : ∀ name, asked ⟨k, suggested, name⟩) (fields : List String) :
    Allots (extract o k suggested fields w) asked := by
  intro e
  obtain ⟨log, hmakes, hasked⟩ := hw ⟨Writes.opened e.registry k suggested fields, []⟩
  exact ⟨_, .extract hmakes, List.forall_mem_cons.mpr ⟨hself _, hasked⟩⟩

/-- Whatever is composed of the operations makes allocations for the objects that may be
declared. -/
theorem Operations.allots {w : Emit α} {asked : List (Field Shape) → String → Prop}
    (h : Operations o asked w) :
    Allots w fun a => ∃ fs, a.identity = (Shape.object fs).identity ∧ asked fs a.suggested := by
  induction h with
  | pure a => exact .still fun _ => rfl
  | throw fault => exact .still fun _ => rfl
  | bind _ _ ih ih' => exact ih.bind ih'
  | named k _ ih => exact ih.named k
  | @extract fs suggested w hasked _ ih => exact (ih.extract (fun _ => ⟨fs, rfl, hasked⟩) _).named _

/-- The allocations that may be made for a shape: its own, and those of its parts. -/
def AskedFor (o : Options) (s : Shape) (suggested : String) (a : Allocation) : Prop :=
  (a.identity = s.identity ∧ a.suggested = suggested) ∨
    TransGen (NextName o) suggested a.suggested

/-- Writing a shape asks for the suggested name at most for the shape itself. -/
theorem allots_typeOf (o : Options) (s : Shape) (suggested : String) :
    Allots (typeOf o s suggested) (AskedFor o s suggested) := by
  refine (operations_typeOf o s suggested).allots.mono ?_
  rintro a ⟨fs, hidentity, hasks⟩
  rcases hasks.self_or_path with ⟨rfl, hname⟩ | hpath
  · exact .inl ⟨hidentity, hname⟩
  · exact .inr hpath

end Emission

end TypeSketch
