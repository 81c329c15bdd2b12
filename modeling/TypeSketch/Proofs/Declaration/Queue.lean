import Mathlib.Data.List.Nodup
import TypeSketch.Declaration.Order
import TypeSketch.Proofs.Entries

/-!
# Turns come in order

A queue counts the referrers that have not gone, and never looks for them again.  `Tallied ts` says
that the counts are right, and `Splits q ts` that the queue holds these turns.  Main statement:
`dependencyOrder_eq`, at each step the first declaration goes that no waiting one refers to.
-/

namespace TypeSketch.Declaration

/-- Whether no declaration that waits refers to this one, itself apart. -/
def isReady (waiting : List Declaration) (d : Declaration) : Bool :=
  waiting.all fun e => e.name == d.name || !e.dependencies.contains d.name

/-- The order in which each time the first declaration goes that no waiting one refers to. -/
def readyOrder (waiting : List Declaration) : List Declaration :=
  match _h : waiting.find? (isReady waiting) with
  | none => waiting
  | some d => d :: readyOrder (waiting.erase d)
termination_by waiting.length
decreasing_by
  have hmem := List.mem_of_find?_eq_some _h
  have := List.length_erase_of_mem hmem
  have := List.length_pos_of_mem hmem
  omega

theorem readyOrder_of_none {waiting : List Declaration}
    (h : waiting.find? (isReady waiting) = none) : readyOrder waiting = waiting := by
  rw [readyOrder]
  split
  · rfl
  · rename_i hd
    rw [h] at hd
    cases hd

theorem readyOrder_of_some {waiting : List Declaration} {d : Declaration}
    (h : waiting.find? (isReady waiting) = some d) :
    readyOrder waiting = d :: readyOrder (waiting.erase d) := by
  rw [readyOrder]
  split
  · rename_i hd
    rw [h] at hd
    cases hd
  · rename_i e he
    rw [h] at he
    cases he
    rfl

/-- How many declarations refer to another one of this name. -/
def referrersOf (name : String) (ds : List Declaration) : Nat :=
  ds.countP fun d => name ∈ d.targets

section Referrers

variable {ds : List Declaration} {d : Declaration} {name : String}

theorem mem_targets : name ∈ d.targets ↔ name ∈ d.dependencies ∧ name ≠ d.name := by
  simp [targets]

theorem nodup_targets (d : Declaration) : d.targets.Nodup :=
  (nodup_distinctOn_id d.dependencies).filter _

theorem isReady_iff :
    isReady ds d = true ↔ ∀ e ∈ ds, e.name = d.name ∨ d.name ∉ e.dependencies := by
  rw [isReady, List.all_eq_true]
  simp

/-- A declaration is ready when the count of its referrers is zero. -/
theorem isReady_iff_referrersOf : isReady ds d = true ↔ referrersOf d.name ds = 0 := by
  simp only [isReady_iff, referrersOf, List.countP_eq_zero, decide_eq_true_eq, mem_targets, not_and,
    not_not]
  constructor
  · exact fun h e he hdep => ((h e he).resolve_right fun hfree => hfree hdep).symm
  · intro h e he
    by_cases hdep : d.name ∈ e.dependencies
    · exact .inl (h e he hdep).symm
    · exact .inr hdep

theorem referrersOf_append (name : String) (xs ys : List Declaration) :
    referrersOf name (xs ++ ys) = referrersOf name xs + referrersOf name ys :=
  List.countP_append

theorem referrersOf_cons (name : String) (d : Declaration) (ds : List Declaration) :
    referrersOf name (d :: ds) = referrersOf name ds + if name ∈ d.targets then 1 else 0 := by
  rw [referrersOf, List.countP_cons, referrersOf]
  simp only [decide_eq_true_eq]

end Referrers

section Counting

variable {f : Nat → Nat} {name : String}

@[simp]
theorem declaration_recount (t : Turn) : (t.recount f name).declaration = t.declaration := by
  rw [Turn.recount]
  split <;> rfl

@[simp]
theorem place_recount (t : Turn) : (t.recount f name).place = t.place := by
  rw [Turn.recount]
  split <;> rfl

theorem recount_of_ne {t : Turn} (h : t.declaration.name ≠ name) : t.recount f name = t :=
  if_neg h

/-- Counting for several different names counts once for each of them. -/
theorem foldl_recount {names : List String} (hnames : names.Nodup) (ts : List Turn) :
    names.foldl (fun ts name => ts.map (.recount f name)) ts =
      ts.map fun t =>
        if t.declaration.name ∈ names then { t with referrers := f t.referrers } else t := by
  induction names generalizing ts with
  | nil => simp
  | cons name names ih =>
      obtain ⟨hname, hnames⟩ := List.nodup_cons.mp hnames
      rw [List.foldl_cons, ih hnames, List.map_map]
      refine List.map_congr_left fun t _ => ?_
      rw [Function.comp_apply, declaration_recount]
      by_cases ht : t.declaration.name = name
      · rw [if_neg (ht ▸ hname), if_pos (ht ▸ List.mem_cons_self), Turn.recount, if_pos ht]
      · simp only [recount_of_ne ht, List.mem_cons, ht, false_or]

theorem foldl_targets (es : List Declaration) (ts : List Turn) :
    es.foldl (fun ts d => d.targets.foldl (fun ts name => ts.map (.recount (· + 1) name)) ts) ts =
      ts.map fun t =>
        { t with referrers := t.referrers + referrersOf t.declaration.name es } := by
  induction es generalizing ts with
  | nil => simp [referrersOf]
  | cons d es ih =>
      rw [List.foldl_cons, ih, foldl_recount (nodup_targets d), List.map_map]
      refine List.map_congr_left fun t _ => ?_
      rw [Function.comp_apply, referrersOf_cons]
      by_cases ht : t.declaration.name ∈ d.targets
      · rw [if_pos ht, if_pos ht, Nat.add_assoc, Nat.add_comm 1]
      · rw [if_neg ht, if_neg ht, Nat.add_zero]

theorem turns_eq (ds : List Declaration) :
    turns ds = ds.zipIdx.map fun p =>
      { declaration := p.1, place := p.2, referrers := referrersOf p.1.name ds } := by
  rw [turns, foldl_targets, List.map_map]
  simp only [Function.comp_def, Nat.zero_add]

theorem map_declaration_turns (ds : List Declaration) :
    (turns ds).map (·.declaration) = ds := by
  rw [turns_eq, List.map_map]
  exact List.zipIdx_map_fst 0 ds

end Counting

/-- The turns stand in place, and the referrers of each are counted among them. -/
structure Tallied (ts : List Turn) : Prop where
  places : ts.Pairwise fun t u => t.place < u.place
  counted : ∀ t ∈ ts, t.referrers = referrersOf t.declaration.name (ts.map (·.declaration))

theorem tallied_turns (ds : List Declaration) : Tallied (turns ds) where
  places := by
    have hplaces : (turns ds).map (·.place) = List.range' 0 ds.length := by
      rw [turns_eq, List.map_map]
      exact List.zipIdx_map_snd 0 ds
    have hlt : ((turns ds).map (·.place)).Pairwise (· < ·) := hplaces ▸ List.pairwise_lt_range'
    exact List.pairwise_map.mp hlt
  counted := by
    intro t ht
    rw [map_declaration_turns]
    rw [turns_eq] at ht
    obtain ⟨p, -, rfl⟩ := List.mem_map.mp ht
    rfl

/-- The turns of a queue, those that are ready and those that are held. -/
structure Splits (q : Queue) (ts : List Turn) : Prop where
  ready : q.ready = ts.filter (·.referrers = 0)
  held : q.held = ts.filter (·.referrers ≠ 0)

section Queues

variable {q : Queue} {ts us : List Turn} {name : String}

/-- What stands in place is not moved. -/
theorem inPlace_eq_self (h : ts.Pairwise fun t u => t.place < u.place) : inPlace ts = ts :=
  List.mergeSort_of_pairwise (h.imp fun hlt => decide_eq_true (Nat.le_of_lt hlt))

/-- Sorting puts turns in place, in whatever order they are given. -/
theorem inPlace_eq_of_perm (h : ts.Pairwise fun t u => t.place < u.place) (hperm : us.Perm ts) :
    inPlace us = ts := by
  have hnodup : (ts.map (·.place)).Nodup :=
    (List.pairwise_map.mpr h).imp fun hlt => Nat.ne_of_lt hlt
  have hsort : inPlace us = inPlace ts := by
    apply mergeSort_eq_of_perm
    · exact fun a b c hab hbc => decide_eq_true
        (Nat.le_trans (of_decide_eq_true hab) (of_decide_eq_true hbc))
    · exact fun a b => by simpa using Nat.le_total a.place b.place
    · exact hperm
    · exact fun t ht u hu htu hut => List.inj_on_of_nodup_map hnodup (hperm.mem_iff.mp ht) hu
        (Nat.le_antisymm (of_decide_eq_true htu) (of_decide_eq_true hut))
  exact hsort.trans (inPlace_eq_self h)

theorem splits_ofTurns (h : Tallied ts) : Splits (.ofTurns ts) ts where
  ready := inPlace_eq_self (h.places.filter _)
  held := rfl

theorem referrers_recount_le (t : Turn) :
    (t.recount (· - 1) name).referrers ≤ t.referrers := by
  rw [Turn.recount]
  split
  · exact Nat.sub_le _ _
  · exact Nat.le_refl _

/-- When a referrer goes, those of this name are counted down, and are ready at zero. -/
theorem Splits.release (h : Splits q ts) (hplaces : ts.Pairwise fun t u => t.place < u.place)
    (hheld : ∀ t ∈ ts, t.declaration.name = name → t.referrers ≠ 0) :
    Splits (q.release name) (ts.map (.recount (· - 1) name)) where
  ready := by
    have hready : (ts.filter (·.referrers = 0)).map (.recount (· - 1) name) =
        ts.filter (·.referrers = 0) := by
      conv => rhs; rw [← List.map_id (ts.filter _)]
      refine List.map_congr_left fun t ht => recount_of_ne fun hname => ?_
      obtain ⟨hmem, hzero⟩ := List.mem_filter.mp ht
      exact hheld t hmem hname (of_decide_eq_true hzero)
    have hperm := ((List.filter_append_perm (·.referrers = 0) ts).map
      (Turn.recount (· - 1) name)).filter (·.referrers = 0)
    rw [List.map_append, List.filter_append, hready, List.filter_filter] at hperm
    rw [Queue.release, h.ready, h.held]
    apply inPlace_eq_of_perm
    · exact (List.pairwise_map.mpr (by simpa using hplaces)).filter _
    · simpa using hperm
  held := by
    have hheld : (q.release name).held =
        ((ts.filter (·.referrers ≠ 0)).map (.recount (· - 1) name)).filter (·.referrers ≠ 0) := by
      rw [← h.held]
      rfl
    rw [hheld, List.filter_map, List.filter_map, List.filter_filter]
    congr 1
    refine List.filter_congr fun t _ => ?_
    -- a count that is not zero after a step was not zero before
    have hle : (t.recount (· - 1) name).referrers ≤ t.referrers := referrers_recount_le t
    simp only [Function.comp_apply, ← Bool.decide_and, decide_eq_decide]
    omega

/-- When several referrers go, which have different names. -/
theorem Splits.releases {names : List String} (hnames : names.Nodup) (h : Splits q ts)
    (hplaces : ts.Pairwise fun t u => t.place < u.place)
    (hheld : ∀ t ∈ ts, t.declaration.name ∈ names → t.referrers ≠ 0) :
    Splits (names.foldl Queue.release q)
      (names.foldl (fun ts name => ts.map (.recount (· - 1) name)) ts) := by
  induction names generalizing q ts with
  | nil => exact h
  | cons name names ih =>
      obtain ⟨hname, hnames⟩ := List.nodup_cons.mp hnames
      have hstep := h.release hplaces fun t ht heq => hheld t ht (List.mem_cons.mpr (.inl heq))
      refine ih hnames hstep (List.pairwise_map.mpr (by simpa using hplaces)) ?_
      intro u hu hmem
      obtain ⟨t, ht, rfl⟩ := List.mem_map.mp hu
      rw [declaration_recount] at hmem
      -- the counts under the other names are left as they are
      have hne : t.declaration.name ≠ name := ne_of_mem_of_not_mem hmem hname
      rw [recount_of_ne hne]
      exact hheld t ht (List.mem_cons_of_mem name hmem)

end Queues

section Steps

variable {q : Queue} {before after : List Turn} {t : Turn}

/-- The other turns when one has gone: those it refers to have a referrer less. -/
def afterTurn (t : Turn) (others : List Turn) : List Turn :=
  t.declaration.targets.foldl (fun ts name => ts.map (.recount (· - 1) name)) others

theorem afterTurn_eq (t : Turn) (others : List Turn) : afterTurn t others = others.map fun u =>
    if u.declaration.name ∈ t.declaration.targets then { u with referrers := u.referrers - 1 }
    else u :=
  foldl_recount (nodup_targets t.declaration) others

theorem map_declaration_afterTurn (t : Turn) (others : List Turn) :
    (afterTurn t others).map (·.declaration) = others.map (·.declaration) := by
  rw [afterTurn_eq, List.map_map]
  refine List.map_congr_left fun u _ => ?_
  rw [Function.comp_apply]
  split <;> rfl

theorem referrersOf_split (name : String) :
    referrersOf name ((before ++ t :: after).map (·.declaration)) =
      referrersOf name ((before ++ after).map (·.declaration)) +
        if name ∈ t.declaration.targets then 1 else 0 := by
  rw [List.map_append, List.map_cons, referrersOf_append, referrersOf_cons, List.map_append,
    referrersOf_append, Nat.add_assoc]

/-- Those that the declaration refers to are counted one more while it has not gone. -/
theorem Tallied.counted_split (h : Tallied (before ++ t :: after)) {u : Turn}
    (hu : u ∈ before ++ after) : u.referrers =
      referrersOf u.declaration.name ((before ++ after).map (·.declaration)) +
        if u.declaration.name ∈ t.declaration.targets then 1 else 0 := by
  rw [← referrersOf_split]
  apply h.counted
  rcases List.mem_append.mp hu with hu | hu
  · exact List.mem_append_left _ hu
  · exact List.mem_append_right _ (List.mem_cons_of_mem t hu)

theorem Tallied.places_split (h : Tallied (before ++ t :: after)) :
    (before ++ after).Pairwise fun t u => t.place < u.place :=
  h.places.sublist ((List.Sublist.refl before).append (List.sublist_cons_self t after))

/-- The counts stay right when a declaration goes. -/
theorem Tallied.afterTurn (h : Tallied (before ++ t :: after)) :
    Tallied (afterTurn t (before ++ after)) where
  places := by
    rw [afterTurn_eq]
    refine List.pairwise_map.mpr (h.places_split.imp fun hlt => ?_)
    split <;> split <;> exact hlt
  counted := by
    intro u hu
    rw [map_declaration_afterTurn]
    rw [afterTurn_eq] at hu
    obtain ⟨v, hv, rfl⟩ := List.mem_map.mp hu
    have hcount := h.counted_split hv
    by_cases htarget : v.declaration.name ∈ t.declaration.targets
    · rw [if_pos htarget] at hcount ⊢
      exact Nat.sub_eq_of_eq_add hcount
    · rw [if_neg htarget] at hcount ⊢
      exact hcount

end Steps

section Draining

variable {q : Queue} {ts before after : List Turn} {t : Turn}

/-- Whose turn it is can be told from the counts. -/
theorem Tallied.isReady_iff (h : Tallied ts) (ht : t ∈ ts) :
    isReady (ts.map (·.declaration)) t.declaration = true ↔ t.referrers = 0 := by
  rw [isReady_iff_referrersOf, h.counted t ht]

theorem Tallied.find?_eq_none (h : Tallied ts) (hheld : ∀ t ∈ ts, t.referrers ≠ 0) :
    (ts.map (·.declaration)).find? (isReady (ts.map (·.declaration))) = none := by
  rw [List.find?_eq_none]
  intro d hd hready
  obtain ⟨t, ht, rfl⟩ := List.mem_map.mp hd
  exact hheld t ht ((h.isReady_iff ht).mp hready)

/-- The first turn with no referrers left is that of the first declaration that is ready. -/
theorem Tallied.readyOrder_split (h : Tallied (before ++ t :: after))
    (hbefore : ∀ u ∈ before, u.referrers ≠ 0) (hzero : t.referrers = 0) :
    readyOrder ((before ++ t :: after).map (·.declaration)) =
      t.declaration :: readyOrder ((before ++ after).map (·.declaration)) := by
  have hready := (h.isReady_iff (List.mem_append_right _ List.mem_cons_self)).mpr hzero
  have hheld : ∀ d ∈ before.map (·.declaration),
      isReady ((before ++ t :: after).map (·.declaration)) d = false := by
    intro d hd
    obtain ⟨u, hu, rfl⟩ := List.mem_map.mp hd
    exact Bool.eq_false_iff.mpr
      (mt (h.isReady_iff (List.mem_append_left _ hu)).mp (hbefore u hu))
  have hfind : ((before ++ t :: after).map (·.declaration)).find?
      (isReady ((before ++ t :: after).map (·.declaration))) = some t.declaration :=
    List.find?_eq_some_iff_append.mpr ⟨hready, _, _, List.map_append,
      fun d hd => by rw [hheld d hd, Bool.not_false]⟩
  have hfirst : t.declaration ∉ before.map (·.declaration) := fun hmem =>
    Bool.noConfusion ((hheld _ hmem).symm.trans hready)
  rw [readyOrder_of_some hfind, List.map_append, List.map_cons, List.erase_append_right _ hfirst,
    List.erase_cons_head, List.map_append]

/-- What is left in the queue when the first one whose turn it is has been taken out. -/
theorem Splits.rest {ready : List Turn} (hq : Splits q (before ++ t :: after))
    (hbefore : ∀ u ∈ before, u.referrers ≠ 0) (hzero : t.referrers = 0)
    (hafter : after.filter (·.referrers = 0) = ready) :
    Splits { q with ready } (before ++ after) where
  ready := by
    have hnone : before.filter (·.referrers = 0) = [] :=
      List.filter_eq_nil_iff.mpr fun u hu hu0 => hbefore u hu (of_decide_eq_true hu0)
    rw [List.filter_append, hnone, List.nil_append, hafter]
  held := by
    have hleft : (t :: after).filter (·.referrers ≠ 0) = after.filter (·.referrers ≠ 0) :=
      List.filter_cons_of_neg fun hne => of_decide_eq_true hne hzero
    rw [hq.held, List.filter_append, hleft, ← List.filter_append]

/-- A queue whose counts are right lets the first declaration go that no waiting one refers to. -/
theorem drain_eq (h : Tallied ts) (hq : Splits q ts) :
    q.drain = readyOrder (ts.map (·.declaration)) := by
  fun_induction Queue.drain q generalizing ts with
  | case1 q hnil =>
      -- everything is held back
      have hheld : ∀ t ∈ ts, t.referrers ≠ 0 := fun t ht =>
        of_decide_eq_false
          (Bool.eq_false_iff.mpr (List.filter_eq_nil_iff.mp (hq.ready.symm.trans hnil) t ht))
      have hall : q.held = ts :=
        hq.held.trans (List.filter_eq_self.mpr fun t ht => decide_eq_true (hheld t ht))
      rw [hall, readyOrder_of_none (h.find?_eq_none hheld)]
  | case2 q t ready hcons ih =>
      obtain ⟨before, after, rfl, hunready, hzero, hafter⟩ :=
        List.filter_eq_cons_iff.mp (hq.ready.symm.trans hcons)
      have hbefore : ∀ u ∈ before, u.referrers ≠ 0 := fun u hu hu0 =>
        hunready u hu (decide_eq_true hu0)
      have hcounted : ∀ u ∈ before ++ after, u.declaration.name ∈ t.declaration.targets →
          u.referrers ≠ 0 := by
        intro u hu htarget
        rw [h.counted_split hu, if_pos htarget]
        exact Nat.succ_ne_zero _
      have hrest := (hq.rest hbefore (of_decide_eq_true hzero) hafter).releases
        (nodup_targets t.declaration) h.places_split hcounted
      rw [ih h.afterTurn hrest, map_declaration_afterTurn,
        h.readyOrder_split hbefore (of_decide_eq_true hzero)]

end Draining

/-- The declarations go in the order in which they become ready. -/
theorem dependencyOrder_eq (ds : List Declaration) : dependencyOrder ds = readyOrder ds := by
  have htallied := tallied_turns ds
  rw [dependencyOrder, drain_eq htallied (splits_ofTurns htallied), map_declaration_turns]

end TypeSketch.Declaration
