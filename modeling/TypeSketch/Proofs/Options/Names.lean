import TypeSketch.Proofs.Name.Singular
import TypeSketch.Proofs.Options.Settings

/-!
# Options by their names

A key may spell the name of an option with underscores, with dashes or with capitals, also with
some of each.  Of all keys of a mapping that spell one option the last counts.  Main statements:
`ofKey?_of_spells`, what spells a name is recognised, and `get?_of_ofEntries`, the recognised
mapping gives each option the value of its last key.
-/

namespace TypeSketch

section LastValues

variable {α κ κ' : Type} [DecidableEq κ] [DecidableEq κ'] {k : κ}

/-- The last value of a name. -/
def lastOf (k : κ) (entries : List (κ × α)) : Option α :=
  (entries.reverse.find? fun e => e.1 = k).map (·.2)

theorem lastOf_cons (k' : κ) (v : α) (rest : List (κ × α)) :
    lastOf k ((k', v) :: rest) = (lastOf k rest).or (if k' = k then some v else none) := by
  rw [lastOf, List.reverse_cons, List.find?_append, List.find?_singleton, lastOf, Option.map_or]
  by_cases h : k' = k <;> simp [h]

theorem lastOf_append (xs ys : List (κ × α)) :
    lastOf k (xs ++ ys) = (lastOf k ys).or (lastOf k xs) := by
  rw [lastOf, List.reverse_append, List.find?_append, Option.map_or]
  rfl

theorem lastOf_eq_none {entries : List (κ × α)} (h : k ∉ entries.map (·.1)) :
    lastOf k entries = none := by
  rw [lastOf, Option.map_eq_none_iff, List.find?_eq_none]
  intro e he hk
  exact h (List.mem_map.mpr ⟨e, List.mem_reverse.mp he, of_decide_eq_true hk⟩)

theorem lastOf_filter_ne {k' : κ} (h : k' ≠ k) : ∀ entries : List (κ × α),
    lastOf k (entries.filter fun e => e.1 ≠ k') = lastOf k entries
  | [] => rfl
  | (l, v) :: rest => by
      have ih := lastOf_filter_ne h rest
      rw [List.filter_cons, lastOf_cons]
      split
      · rw [lastOf_cons, ih]
      · -- only an entry of `k'` is left out, and `k` is not `k'`
        rename_i hleft
        have hl : l = k' := by simpa using hleft
        rw [ih, if_neg (hl ▸ h), Option.or_none]

/-- Where no name is repeated, the last value is the first. -/
theorem lastOf_eq_find? : ∀ {entries : List (κ × α)}, (entries.map (·.1)).Nodup →
    lastOf k entries = (entries.find? fun e => e.1 = k).map (·.2)
  | [], _ => rfl
  | (l, v) :: rest, h => by
      rw [List.map_cons, List.nodup_cons] at h
      rw [lastOf_cons, List.find?_cons]
      by_cases hl : l = k
      · rw [lastOf_eq_none (hl ▸ h.1)]
        simp [hl]
      · rw [lastOf_eq_find? h.2]
        simp [hl]

/-- Settling keeps the last values. -/
theorem lastOf_settle : ∀ entries : List (κ × α), lastOf k (settle entries) = lastOf k entries
  | [] => rfl
  | (l, v) :: rest => by
      have ih := lastOf_settle rest
      rw [settle_cons, lastOf_cons, lastOf_cons]
      by_cases hl : l = k
      · -- the first place holds the last value, and no other entry of the name is left
        have hnone : lastOf k ((settle rest).filter fun e => e.1 ≠ l) = none := by
          refine lastOf_eq_none fun hmem => ?_
          obtain ⟨e, he, hk⟩ := List.mem_map.mp hmem
          exact of_decide_eq_true (List.mem_filter.mp he).2 (hk.trans hl.symm)
        rw [hnone, if_pos hl, if_pos hl, hl, ← lastOf_eq_find? (nodup_keys_settle rest), ih]
        cases lastOf k rest <;> rfl
      · rw [lastOf_filter_ne hl, ih, if_neg hl, if_neg hl]

/-- Names may be changed if no other one becomes the same. -/
theorem lastOf_map {f : κ → κ'} {k' : κ'} : ∀ {entries : List (κ × α)},
    (∀ e ∈ entries, f e.1 = k' ↔ e.1 = k) →
      lastOf k' (entries.map fun e => (f e.1, e.2)) = lastOf k entries
  | [], _ => rfl
  | (l, v) :: rest, h => by
      have hname : f l = k' ↔ l = k := h (l, v) List.mem_cons_self
      rw [List.map_cons, lastOf_cons, lastOf_cons,
        lastOf_map fun e he => h e (List.mem_cons_of_mem _ he)]
      simp only [hname]

end LastValues

namespace OptionName

/-- Whether a key spells a name of small letters and underscores.  For an underscore it has an
underscore or a dash, or the capital of the letter behind it. -/
inductive Spells : (key name : List Char) → Prop
  | nil : Spells [] []
  | letter {c : Char} {key name : List Char} (h : c.isLower = true) (rest : Spells key name) :
      Spells (c :: key) (c :: name)
  | underscore {key name : List Char} (rest : Spells key name) : Spells ('_' :: key) ('_' :: name)
  | dash {key name : List Char} (rest : Spells key name) : Spells ('-' :: key) ('_' :: name)
  | capital {c : Char} {key name : List Char} (h : c.isUpper = true) (rest : Spells key name) :
      Spells (c :: key) ('_' :: c.toLower :: name)

/-- A key with an underscore in front of each capital and for each dash. -/
def broken (key : List Char) : List Char :=
  (key.flatMap fun c => if c.isUpper then ['_', c] else [c]).map fun c => if c = '-' then '_' else c

theorem broken_cons (c : Char) (key : List Char) :
    broken (c :: key) = broken [c] ++ broken key := by
  rw [broken, List.flatMap_cons, List.map_append]
  simp only [broken, List.flatMap_cons, List.flatMap_nil, List.append_nil]

theorem broken_of_isUpper {c : Char} (h : c.isUpper = true) : broken [c] = ['_', c] := by
  have hdash : c ≠ '-' := by
    rintro rfl
    cases h
  simp [broken, h, hdash]

theorem ne_dash_of_isLower {c : Char} (h : c.isLower = true) : c ≠ '-' := by
  rintro rfl
  cases h

theorem broken_of_isLower {c : Char} (h : c.isLower = true) : broken [c] = [c] := by
  simp [broken, Name.isUpper_eq_false_of_isLower h, ne_dash_of_isLower h]

/-- What spells a name becomes the name in lower case. -/
theorem toLowerAfter_broken {key name : List Char} (h : Spells key name) (before : List Char) :
    Text.toLowerAfter before (broken key) = name := by
  induction h generalizing before with
  | nil => rfl
  | @letter c key name hc _ ih =>
      obtain ⟨hsigma, hlower⟩ := Text.settled_of_isLower hc
      rw [broken_cons, broken_of_isLower hc, List.singleton_append, Text.toLowerAfter,
        if_neg hsigma, hlower, ih]
      rfl
  | @underscore key name _ ih =>
      rw [broken_cons]
      exact congrArg ('_' :: ·) (ih ('_' :: before))
  | @dash key name _ ih =>
      rw [broken_cons]
      exact congrArg ('_' :: ·) (ih ('_' :: before))
  | @capital c key name hc _ ih =>
      -- the underscore that the capital brings stands for the one in the name
      obtain ⟨hsigma, hlower⟩ := Text.lowerOf_of_isUpper hc
      rw [broken_cons, broken_of_isUpper hc]
      show '_' :: Text.toLowerAfter ('_' :: before) (c :: broken key) = _
      rw [Text.toLowerAfter, if_neg hsigma, hlower, ih]
      rfl

theorem snakeCase_of_spells {c : Char} {key name : List Char} (hc : c.isLower = true)
    (h : Spells key name) : snakeCase (c :: key) = c :: name := by
  have hkey := toLowerAfter_broken (.letter hc h) []
  rw [broken_cons, broken_of_isLower hc] at hkey
  show Text.toLowerAfter [] ((if c = '-' then '_' else c) :: broken key) = _
  rw [if_neg (ne_dash_of_isLower hc)]
  exact hkey

theorem head?_text (option : OptionName) : option.text.toList.head? ≠ some '_' := by
  cases option <;> decide

/-- A key is recognised by its spelling in small letters. -/
theorem ofKey?_eq_some_iff {key : List Char} {option : OptionName} :
    ofKey? key = some option ↔ snakeCase key = option.text.toList := by
  constructor
  · intro h
    have hfound := List.find?_some h
    exact (of_decide_eq_true hfound).symm
  · intro h
    rw [ofKey?, h]
    cases option <;> decide

/-- What spells the name of an option is recognised. -/
theorem ofKey?_of_spells {key : List Char} {option : OptionName}
    (h : Spells key option.text.toList) : ofKey? key = some option := by
  rw [ofKey?_eq_some_iff]
  have hhead := head?_text option
  generalize option.text.toList = name at h hhead ⊢
  -- no underscore is put in front of the first character, and no name starts with one
  cases h with
  | nil => rfl
  | letter hc h => exact snakeCase_of_spells hc h
  | underscore => exact absurd rfl hhead
  | dash => exact absurd rfl hhead
  | capital => exact absurd rfl hhead

example : ofKey? "singularOverrides".toList = some .singularOverrides := by decide

theorem ofKey?_text (option : OptionName) : ofKey? option.text.toList = some option := by
  cases option <;> decide

end OptionName

namespace Changes

variable {entries : List (MapKey × Setting)} {changes : Changes} {option : OptionName}

/-- Entries with the options that their keys spell. -/
def named (entries : List (MapKey × Setting)) : List (Option OptionName × Setting) :=
  entries.map fun e => (OptionName.ofKey? e.1.text, e.2)

/-- The last value for an option in a mapping, in any spelling. -/
def lastFor (option : OptionName) (entries : List (MapKey × Setting)) : Option Setting :=
  lastOf (some option) (named entries)

theorem ofEntries_cons_of_some {e : MapKey × Setting}
    (h : OptionName.ofKey? e.1.text = some option) :
    ofEntries (e :: entries) = (ofEntries entries).map ((option, e.2) :: ·) := by
  rw [ofEntries, List.mapM_cons, h]
  rfl

theorem ofEntries_cons_of_none {e : MapKey × Setting} (h : OptionName.ofKey? e.1.text = none) :
    ofEntries (e :: entries) = .error (.unknownOption e.1.text) := by
  rw [ofEntries, List.mapM_cons, h]
  rfl

/-- A mapping is recognised if each of its keys is. -/
theorem ofEntries_eq_ok_iff :
    ofEntries entries = .ok changes ↔ named entries = changes.map fun c => (some c.1, c.2) := by
  induction entries generalizing changes with
  | nil =>
      constructor
      · intro h
        cases h
        rfl
      · intro h
        rw [List.map_eq_nil_iff.mp h.symm]
        rfl
  | cons e rest ih =>
      have hnamed : named (e :: rest) = (OptionName.ofKey? e.1.text, e.2) :: named rest := rfl
      rw [hnamed]
      cases hkey : OptionName.ofKey? e.1.text with
      | none =>
          rw [ofEntries_cons_of_none hkey]
          refine ⟨nofun, fun h => ?_⟩
          cases changes <;> cases h
      | some option =>
          rw [ofEntries_cons_of_some hkey]
          constructor
          · intro h
            cases hrest : ofEntries rest with
            | error fault =>
                rw [hrest] at h
                cases h
            | ok cs =>
                rw [hrest] at h
                obtain rfl := Except.ok.inj h
                rw [ih.mp hrest]
                rfl
          · intro h
            cases changes with
            | nil => cases h
            | cons c cs =>
                obtain ⟨he, hrest⟩ := List.cons.inj h
                obtain ⟨hoption, hvalue⟩ := Prod.mk.inj he
                rw [ih.mpr hrest, Option.some.inj hoption, hvalue]
                rfl

theorem exists_ofEntries (h : ∀ e ∈ entries, OptionName.ofKey? e.1.text ≠ none) :
    ∃ changes, ofEntries entries = .ok changes := by
  induction entries with
  | nil => exact ⟨[], rfl⟩
  | cons e rest ih =>
      obtain ⟨cs, hcs⟩ := ih fun d hd => h d (List.mem_cons_of_mem e hd)
      obtain ⟨option, hkey⟩ := Option.ne_none_iff_exists'.mp (h e List.mem_cons_self)
      exact ⟨(option, e.2) :: cs, by rw [ofEntries_cons_of_some hkey, hcs]; rfl⟩

/-- The recognised mapping gives each option the last value that the mapping has for it. -/
theorem get?_of_ofEntries (h : ofEntries entries = .ok changes) (option : OptionName) :
    changes.get? option = lastFor option entries := by
  rw [lastFor, ofEntries_eq_ok_iff.mp h, lastOf_map fun c _ => Option.some_inj]
  rfl

end Changes

namespace Options

variable {o o' : Options} {entries : List (MapKey × Setting)}

/-- A mapping is put over sound options if all of its keys are known and what comes of it is sound.
The last value of each option counts. -/
theorem replace_eq_ok_iff (h : o.Sound) :
    o.replace entries = .ok o' ↔ (∀ e ∈ entries, OptionName.ofKey? e.1.text ≠ none) ∧ o'.Sound ∧
      o.PutOver (Changes.lastFor · entries) o' := by
  constructor
  · intro hreplace
    obtain ⟨changes, hchanges, hchange⟩ := bind_eq_ok hreplace
    rw [change_eq_ok_iff h, funext (Changes.get?_of_ofEntries hchanges)] at hchange
    refine ⟨fun e he hkey => ?_, hchange⟩
    have hnamed : (OptionName.ofKey? e.1.text, e.2) ∈ Changes.named entries :=
      List.mem_map_of_mem he
    rw [Changes.ofEntries_eq_ok_iff.mp hchanges, hkey] at hnamed
    obtain ⟨c, -, hc⟩ := List.mem_map.mp hnamed
    cases hc
  · rintro ⟨hkeys, hafter⟩
    obtain ⟨changes, hchanges⟩ := Changes.exists_ofEntries hkeys
    rw [← funext (Changes.get?_of_ofEntries hchanges)] at hafter
    rw [replace, hchanges]
    exact (change_eq_ok_iff h).mpr hafter

/-- Two mappings put over sound options come to what one mapping does that has the last value of
each option. -/
theorem replace_replace {o₁ o₂ : Options} {entries₁ entries₂ : List (MapKey × Setting)}
    (h : o.Sound) (hkeys : ∀ e ∈ entries, OptionName.ofKey? e.1.text ≠ none)
    (hlast : ∀ option, Changes.lastFor option entries =
      (Changes.lastFor option entries₂).or (Changes.lastFor option entries₁))
    (h₁ : o.replace entries₁ = .ok o₁) (h₂ : o₁.replace entries₂ = .ok o₂) :
    o.replace entries = .ok o₂ := by
  obtain ⟨changes₁, hchanges₁, hchange₁⟩ := bind_eq_ok h₁
  obtain ⟨changes₂, hchanges₂, hchange₂⟩ := bind_eq_ok h₂
  obtain ⟨changes, hchanges⟩ := Changes.exists_ofEntries hkeys
  rw [replace, hchanges]
  refine change_change h (fun option => ?_) hchange₁ hchange₂
  rw [Changes.get?_of_ofEntries hchanges, Changes.get?_of_ofEntries hchanges₁,
    Changes.get?_of_ofEntries hchanges₂]
  exact hlast option

end Options

end TypeSketch
