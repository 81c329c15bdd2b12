import TypeSketch.Proofs.Declaration.Allocations

/-!
# Histories of a registry

A registry changes by calls that reserve a name, allocate a structure, look one up, or write a
shape, in any order and whether they fail or not.  `Logged r calls log` says which allocations the
calls make.  Main statement: `registry_history`.
-/

namespace TypeSketch

open Registry (Grown)

namespace Registry

variable {r : Registry} {suggested name : String} {s : Shape} {fault : ShapeFault}

theorem allocate_ok (h : (r.allocate suggested s).1 = .ok name) :
    name = r.freeName suggested ∧ (r.allocate suggested s).2 = r.declare name s.identity := by
  rw [allocate] at h ⊢
  split at h
  · rename_i hs
    cases h
    exact ⟨rfl, by rw [if_pos hs]⟩
  · cases h

/-- The name is taken all the same. -/
theorem allocate_error (h : (r.allocate suggested s).1 = .error fault) :
    (r.allocate suggested s).2 = r.reserve (r.freeName suggested) := by
  rw [allocate] at h ⊢
  split at h
  · cases h
  · rename_i hs
    rw [if_neg hs]

end Registry

/-- A call on a registry. -/
inductive RegistryCall
  | reserve (name : String)
  | allocate (suggested : String) (s : Shape)
  | lookup (s : Shape)
  | typeOf (o : Options) (s : Shape) (suggested : String)

namespace RegistryCall

/-- The registry after a call, which may have failed. -/
def after (r : Registry) : RegistryCall → Registry
  | .reserve name => r.reserve name
  | .allocate suggested s => (r.allocate suggested s).2
  | .lookup _ => r
  | .typeOf o s suggested => (Emission.write o r s suggested).2

/-- The registry after several calls. -/
def afterAll (r : Registry) (calls : List RegistryCall) : Registry :=
  calls.foldl after r

/-- The allocations that a call makes: one that gives a name makes its own, and one that writes a
shape those that the writing makes. -/
inductive Allocates (r : Registry) : RegistryCall → List Allocation → Prop
  | reserve (name : String) : Allocates r (.reserve name) []
  | lookup (s : Shape) : Allocates r (.lookup s) []
  | allocated {suggested name : String} {s : Shape} (h : (r.allocate suggested s).1 = .ok name) :
      Allocates r (.allocate suggested s) [⟨s.identity, suggested, name⟩]
  | refused {suggested : String} {s : Shape} {fault : ShapeFault}
      (h : (r.allocate suggested s).1 = .error fault) : Allocates r (.allocate suggested s) []
  | writes {o : Options} {s : Shape} {suggested : String} {log : List Allocation}
      (hs : s.isWhole = true) (h : Emission.Makes (Emission.typeOf o s.sorted suggested) ⟨r, []⟩ log) :
      Allocates r (.typeOf o s suggested) log
  /-- A shape with a hole is not written at all. -/
  | unwritten {o : Options} {s : Shape} {suggested : String} (hs : s.isWhole = false) :
      Allocates r (.typeOf o s suggested) []

/-- The allocations that several calls make one after the other. -/
inductive Logged : Registry → List RegistryCall → List Allocation → Prop
  | nil (r : Registry) : Logged r [] []
  | cons {r : Registry} {call : RegistryCall} {calls : List RegistryCall}
      {log log' : List Allocation} (hcall : Allocates r call log)
      (hcalls : Logged (after r call) calls log') : Logged r (call :: calls) (log ++ log')

section Step

variable (r : Registry) (call : RegistryCall)

theorem exists_allocates : ∃ log, Allocates r call log := by
  cases call with
  | reserve name => exact ⟨[], .reserve name⟩
  | lookup s => exact ⟨[], .lookup s⟩
  | allocate suggested s =>
      cases h : (r.allocate suggested s).1 with
      | ok name => exact ⟨_, .allocated h⟩
      | error fault => exact ⟨[], .refused h⟩
  | typeOf o s suggested =>
      cases hs : s.isWhole with
      | true =>
          obtain ⟨log, hmakes, -⟩ := Emission.allots_typeOf o s.sorted suggested ⟨r, []⟩
          exact ⟨log, .writes hs hmakes⟩
      | false => exact ⟨[], .unwritten hs⟩

variable {r call}

/-- What one call does to a sound registry. -/
theorem Allocates.grown {log : List Allocation} (h : Allocates r call log) (hr : r.Sound) :
    Grown r log (after r call) := by
  cases h with
  | reserve name => exact .reserve hr name
  | lookup s => exact .refl hr
  | @allocated suggested name s h =>
      obtain ⟨rfl, hdeclared⟩ := Registry.allocate_ok h
      rw [after, hdeclared]
      exact .declare hr suggested s.identity
  | refused h =>
      rw [after, Registry.allocate_error h]
      exact .reserve hr _
  | writes hs h =>
      rw [after, Emission.write, if_pos hs]
      exact h.grown hr
  | unwritten hs =>
      rw [after, Emission.write, hs]
      exact .refl hr

end Step

section Runs

variable {r : Registry} {calls earlier later : List RegistryCall} {log : List Allocation}

theorem afterAll_append (r : Registry) (earlier later : List RegistryCall) :
    afterAll r (earlier ++ later) = afterAll (afterAll r earlier) later :=
  List.foldl_append

theorem exists_logged (r : Registry) (calls : List RegistryCall) : ∃ log, Logged r calls log := by
  induction calls generalizing r with
  | nil => exact ⟨[], .nil r⟩
  | cons call calls ih =>
      obtain ⟨log, hcall⟩ := exists_allocates r call
      obtain ⟨log', hcalls⟩ := ih (after r call)
      exact ⟨log ++ log', .cons hcall hcalls⟩

/-- What several calls do to a sound registry. -/
theorem Logged.grown (h : Logged r calls log) (hr : r.Sound) : Grown r log (afterAll r calls) := by
  induction h with
  | nil r => exact .refl hr
  | cons hcall _ ih =>
      have hfirst := hcall.grown hr
      exact hfirst.trans (ih hfirst.sound)

/-- The log of the calls is that of the first ones, and then that of the others. -/
theorem Logged.split (h : Logged r (earlier ++ later) log) : ∃ log₁ log₂, log = log₁ ++ log₂ ∧
    Logged r earlier log₁ ∧ Logged (afterAll r earlier) later log₂ := by
  induction earlier generalizing r log with
  | nil => exact ⟨[], log, rfl, .nil r, h⟩
  | cons call earlier ih =>
      cases h with
      | @cons _ _ _ log log' hcall hcalls =>
          obtain ⟨log₁, log₂, rfl, hearlier, hlater⟩ := ih hcalls
          exact ⟨log ++ log₁, log₂, (List.append_assoc ..).symm, .cons hcall hearlier, hlater⟩

end Runs

end RegistryCall

open RegistryCall (afterAll Logged)

/-- What a registry holds after the allocations of a log. -/
structure Registry.Records (r : Registry) (log : List Allocation) : Prop where
  /-- Each declaration is found under its own name. -/
  stored : ∀ d ∈ r.declarations, r.declaration? d.name = some d
  /-- The declarations are those of the log, in its order. -/
  allocated : r.declarations.map (·.name) = log.map (·.name)
  nodup : (r.declarations.map (·.name)).Nodup
  used : ∀ d ∈ r.declarations, d.name ∈ r.used
  declared : ∀ k name, r.nameOf? k = some name → name ∈ r.declarations.map (·.name)
  injective : ∀ k l name, r.nameOf? k = some name → r.nameOf? l = some name → k = l
  /-- A shape is found under the name that its structure was given last. -/
  found : ∀ s : Shape, s.isWhole = true → r.lookup s = .ok (Allocation.latest log s.identity)

/-- What a registry keeps while the allocations of a log are made. -/
structure Registry.Keeps (r : Registry) (log : List Allocation) (r' : Registry) : Prop where
  used : ∀ n ∈ r.used, n ∈ r'.used
  declarations : r.declarations <+: r'.declarations
  /-- No name is given that was in use. -/
  fresh : ∀ a ∈ log, a.name ∉ r.used

namespace Registry.Grown

variable {r r' : Registry} {log : List Allocation}

theorem keeps (h : Grown r log r') : r.Keeps log r' where
  used := h.used
  declarations := by
    obtain ⟨added, hadded, -⟩ := h.declarations
    exact ⟨added, hadded.symm⟩
  fresh := h.fresh

/-- What has grown from nothing holds what was allocated. -/
theorem records (h : Grown {} log r) : r.Records log := by
  have hnames : r.declarations.map (·.name) = log.map (·.name) := by
    obtain ⟨added, hadded, hadded'⟩ := h.declarations
    rw [hadded]
    exact hadded'
  have hnodup : (r.declarations.map (·.name)).Nodup := hnames ▸ h.nodup
  constructor
  case stored =>
    exact fun d hd => declaration?_of_mem hnodup hd
  case allocated => exact hnames
  case nodup => exact hnodup
  case used => exact fun d hd => Emission.mem_used_of_mem_declarations h.sound hd
  case declared =>
    intro k name hname
    obtain ⟨d, hd⟩ := h.sound.declared_of_named hname
    exact List.mem_map.mpr ⟨d, mem_of_declaration? hd⟩
  case injective => exact fun k l name => h.sound.eq_of_named
  case found =>
    intro s hs
    rw [lookup, if_pos hs, h.named]
    exact congrArg Except.ok Option.or_none

end Registry.Grown

/-- After any calls on a fresh registry, and between any two of them: what is declared is what was
allocated, each structure has the name it was given last, and nothing that was there is ever
changed or given again. -/
theorem registry_history (calls : List RegistryCall) :
    (∃ log, Logged {} calls log) ∧
    (∀ log, Logged {} calls log → (afterAll {} calls).Records log ∧
      ∀ earlier later, calls = earlier ++ later → ∃ log₁ log₂, log = log₁ ++ log₂ ∧
        Logged {} earlier log₁ ∧ (afterAll {} earlier).Keeps log₂ (afterAll {} calls)) ∧
    ∀ suggested s name, ((afterAll {} calls).allocate suggested s).1 = .ok name →
      ∀ earlier, earlier <+: calls → name ∉ (afterAll {} earlier).used := by
  have hsplit : ∀ log, Logged {} calls log → ∀ earlier later, calls = earlier ++ later →
      ∃ log₁ log₂, log = log₁ ++ log₂ ∧ Logged {} earlier log₁ ∧
        (afterAll {} earlier).Keeps log₂ (afterAll {} calls) := by
    rintro log hlog earlier later rfl
    obtain ⟨log₁, log₂, hlogs, hearlier, hlater⟩ := hlog.split
    have hgrown := hlater.grown (hearlier.grown .empty).sound
    refine ⟨log₁, log₂, hlogs, hearlier, ?_⟩
    rw [RegistryCall.afterAll_append]
    exact hgrown.keeps
  obtain ⟨log, hlog⟩ := RegistryCall.exists_logged {} calls
  refine ⟨⟨log, hlog⟩, fun log hlog => ⟨(hlog.grown .empty).records, hsplit log hlog⟩, ?_⟩
  rintro suggested s name h earlier ⟨later, rfl⟩ hused
  -- the name is free in the end, and so it was free before
  obtain ⟨_, _, -, -, hkeeps⟩ := hsplit log hlog earlier later rfl
  apply Registry.freeName_notMem (afterAll {} (earlier ++ later)) suggested
  rw [← (Registry.allocate_ok h).1]
  exact hkeeps.used name hused

/-- An object whose only value is an array of nothing. -/
def emptyItem : Shape :=
  .object [⟨"rows", .array (.union []), false⟩]

/-- A name that is kept free, an object that cannot be written, the same object again, and a shape
with a hole. -/
def interruptedCalls : List RegistryCall :=
  [.reserve "Row", .typeOf {} emptyItem "Table", .allocate "Row" emptyItem, .allocate "Row" .hole]

/-- The object was declared before its value could not be written, and gets another name later. -/
theorem registry_history_interrupted :
    Logged {} interruptedCalls
        [⟨emptyItem.identity, "Table", "Table"⟩, ⟨emptyItem.identity, "Row", "Row2"⟩] ∧
      (afterAll {} interruptedCalls).lookup emptyItem = .ok (some "Row2") ∧
      (afterAll {} interruptedCalls).declarations.map (·.name) = ["Table", "Row2"] := by
  have hsorted : emptyItem.sorted = emptyItem := by
    simp [emptyItem, Shape.sorted, Shape.sortedFields, Shape.sortedMembers, sortFields]
  have htype : Emission.typeOf {} emptyItem.sorted "Table" =
      Emission.named emptyItem.identity
        (Emission.extract {} emptyItem.identity "Table" ["rows"]
          (Emission.fieldsOf {} [⟨"rows", .array (.union []), false⟩])) := by
    rw [hsorted]
    rfl
  have hfree : (Registry.reserve {} "Row").freeName "Table" = "Table" :=
    Name.unique_of_notMem (by decide)
  have htaken : Name.unique "Row" ["Table", "Row"] = "Row2" := by decide +kernel
  -- the object is in the registry when the empty union is met
  have hwrites : Emission.Makes (Emission.typeOf {} emptyItem.sorted "Table")
      ⟨Registry.reserve {} "Row", []⟩
      [⟨emptyItem.identity, "Table", (Registry.reserve {} "Row").freeName "Table"⟩] := by
    rw [htype]
    exact .named rfl (.extract (.still rfl))
  rw [hfree] at hwrites
  have hused : (RegistryCall.after (Registry.reserve {} "Row") (.typeOf {} emptyItem "Table")).used =
      ["Table", "Row"] := by
    rw [RegistryCall.after, Emission.write, htype]
    with_unfolding_all rfl
  have hlog : Logged {} interruptedCalls ([] ++ ([⟨emptyItem.identity, "Table", "Table"⟩] ++
      ([⟨emptyItem.identity, "Row", "Row2"⟩] ++ ([] ++ [])))) := by
    refine .cons (.reserve _) (.cons (.writes rfl hwrites)
      (.cons (.allocated ?_) (.cons (.refused rfl) (.nil _))))
    show Except.ok (Name.unique "Row" (RegistryCall.after (Registry.reserve {} "Row") _).used) =
      .ok "Row2"
    rw [hused, htaken]
  have hrecords := ((registry_history interruptedCalls).2.1 _ hlog).1
  refine ⟨hlog, ?_, hrecords.allocated⟩
  rw [hrecords.found emptyItem rfl]
  simp [Allocation.latest]

end TypeSketch
