import TypeSketch.Keywords
import TypeSketch.Proofs.Entries
import TypeSketch.Proofs.Text.Case

/-!
# What options are set to

`setting` writes the value of each option the way a mapping holds it.  A value that is read is the
one that is written again, but for overrides, whose names are put in lower case.  Main statements:
`change_eq_build`, sound options are changed as if all of them were read anew and checked;
`change_eq_ok_iff`, a change sets the options that it names and no other; and `change_change`, two
changes are one.
-/

namespace TypeSketch

theorem bind_eq_ok {ε α β : Type} {x : Except ε α} {f : α → Except ε β} {b : β}
    (h : x >>= f = .ok b) : ∃ a, x = .ok a ∧ f a = .ok b := by
  cases x with
  | error e => cases h
  | ok a => exact ⟨a, rfl, h⟩

namespace Name

/-- Overrides whose names are different and in lower case. -/
structure Lowered (overrides : List (String × String)) : Prop where
  lower : ∀ p ∈ overrides, Text.toLower p.1.toList = p.1.toList
  nodup : (overrides.map (·.1)).Nodup

theorem lowered_lowerOverrides (overrides : List (String × String)) :
    Lowered (lowerOverrides overrides) := by
  refine ⟨fun p hp => ?_, nodup_keys_settle _⟩
  obtain ⟨q, -, rfl⟩ := List.mem_map.mp (mem_of_mem_settle hp)
  rw [String.toList_ofList, Text.toLower_toLower]

theorem lowerOverrides_eq_self {overrides : List (String × String)} (h : Lowered overrides) :
    lowerOverrides overrides = overrides := by
  have hmap : overrides.map (fun p => (String.ofList (Text.toLower p.1.toList), p.2)) =
      overrides := by
    rw [List.map_congr_left (g := id) fun p hp => ?_, List.map_id]
    rw [h.lower p hp, String.ofList_toList, id]
  rw [lowerOverrides, hmap, settle_eq_self h.nodup]

end Name

namespace Setting

variable {v : Setting} {option : OptionName}

/-- Pairs of strings as a mapping. -/
def ofPairs (pairs : List (String × String)) : Setting :=
  .map (pairs.map fun p => (.literal (.str p.1), .scalar (.str p.2)))

theorem ofPairs_injective : Function.Injective ofPairs := by
  intro ps qs h
  have hmap : (ps.map fun p => ((.literal (.str p.1) : MapKey), Setting.scalar (.str p.2))) =
      qs.map fun p => (.literal (.str p.1), .scalar (.str p.2)) := Setting.map.inj h
  refine (List.map_inj_right ?_).mp hmap
  rintro ⟨a, b⟩ ⟨c, d⟩ hpair
  obtain ⟨hkey, hvalue⟩ := Prod.mk.inj hpair
  cases hkey
  cases hvalue
  rfl

section Reads

theorem toRootName_eq_ok_iff {name : String} :
    v.toRootName = .ok name ↔ v = .scalar (.str name) ∧ name.toList.all Text.isBlank = false := by
  constructor
  · intro h
    unfold toRootName at h
    split at h
    · split at h
      · cases h
      · cases h
        exact ⟨rfl, Bool.eq_false_iff.mpr ‹_›⟩
    · cases h
  · rintro ⟨rfl, hname⟩
    exact if_neg (Bool.eq_false_iff.mp hname)

theorem toFlag_eq_ok_iff {b : Bool} : v.toFlag option = .ok b ↔ v = .scalar (.bool b) := by
  constructor
  · intro h
    unfold toFlag at h
    split at h <;> cases h
    rfl
  · rintro rfl
    rfl

theorem toCount_eq_ok_iff {least n : Nat} :
    v.toCount option least = .ok n ↔ v = .scalar (.int n) ∧ least ≤ n := by
  constructor
  · intro h
    unfold toCount at h
    split at h
    · split at h
      · cases h
      · rename_i k hk
        cases h
        have hcount : (k.toNat : Int) = k := Int.toNat_of_nonneg (by omega)
        exact ⟨by rw [hcount], by omega⟩
    · cases h
  · rintro ⟨rfl, hle⟩
    have hnot : ¬ (n : Int) < least := by omega
    simp only [toCount, if_neg hnot, Int.toNat_natCast]

theorem toQuote_eq_ok_iff {q : QuoteStyle} : v.toQuote = .ok q ↔ v = .scalar (.str q.name) := by
  constructor
  · intro h
    unfold toQuote at h
    split at h
    · split at h
      · rename_i name _ q' hfind
        obtain rfl := Except.ok.inj h
        have hname : q'.name = name := by simpa using List.find?_some hfind
        rw [hname]
      · cases h
    · cases h
  · rintro rfl
    cases q <;> rfl

theorem toOrder_eq_ok_iff {o : DeclarationOrder} :
    v.toOrder = .ok o ↔ v = .scalar (.str o.name) := by
  constructor
  · intro h
    unfold toOrder at h
    split at h
    · split at h
      · rename_i name _ o' hfind
        obtain rfl := Except.ok.inj h
        have hname : o'.name = name := by simpa using List.find?_some hfind
        rw [hname]
      · cases h
    · cases h
  · rintro rfl
    cases o <;> rfl

/-- A pair of strings, if an entry is one. -/
def toPair? : MapKey × Setting → Except ConfigFault (String × String)
  | (.literal (.str plural), .scalar (.str singular)) => .ok (plural, singular)
  | _ => .error .badOverrides

theorem toPair?_eq_ok_iff {e : MapKey × Setting} {p : String × String} :
    toPair? e = .ok p ↔ e = (.literal (.str p.1), .scalar (.str p.2)) := by
  constructor
  · intro h
    unfold toPair? at h
    split at h <;> cases h
    rfl
  · rintro rfl
    rfl

theorem mapM_toPair?_eq_ok_iff {entries : List (MapKey × Setting)}
    {pairs : List (String × String)} :
    entries.mapM toPair? = .ok pairs ↔
      entries = pairs.map fun p => (.literal (.str p.1), .scalar (.str p.2)) := by
  induction entries generalizing pairs with
  | nil =>
      constructor
      · intro h
        cases h
        rfl
      · intro h
        rw [List.map_eq_nil_iff.mp h.symm]
        rfl
  | cons e entries ih =>
      rw [List.mapM_cons]
      constructor
      · intro h
        obtain ⟨p, hp, h⟩ := bind_eq_ok h
        obtain ⟨ps, hps, h⟩ := bind_eq_ok h
        obtain rfl := Except.ok.inj h
        rw [toPair?_eq_ok_iff.mp hp, ih.mp hps, List.map_cons]
      · intro h
        cases pairs with
        | nil => cases h
        | cons p ps =>
            obtain ⟨he, hentries⟩ := List.cons.inj h
            rw [toPair?_eq_ok_iff.mpr he, ih.mpr hentries]
            rfl

theorem toOverrides_eq_ok_iff {overrides : List (String × String)} :
    v.toOverrides = .ok overrides ↔
      ∃ pairs, v = ofPairs pairs ∧ overrides = Name.lowerOverrides pairs := by
  constructor
  · intro h
    cases v with
    | map entries =>
        obtain ⟨pairs, hpairs, h⟩ := bind_eq_ok (x := entries.mapM toPair?) h
        obtain rfl := Except.ok.inj h
        exact ⟨pairs, congrArg Setting.map (mapM_toPair?_eq_ok_iff.mp hpairs), rfl⟩
    | null => cases h
    | scalar => cases h
    | list => cases h
    | other => cases h
  · rintro ⟨pairs, rfl, rfl⟩
    have hpairs : (pairs.map fun p => (.literal (.str p.1), .scalar (.str p.2))).mapM toPair? =
        .ok pairs :=
      mapM_toPair?_eq_ok_iff.mpr rfl
    exact congrArg (fun read => read >>= fun pairs => .ok (Name.lowerOverrides pairs)) hpairs

end Reads

end Setting

namespace Options

/-- The value of each option as a mapping holds it. -/
def setting (o : Options) : OptionName → Setting
  | .rootName => .scalar (.str o.rootName)
  | .singularize => .scalar (.bool o.singularize)
  | .literalThreshold => .scalar (.int o.literalThreshold)
  | .nullAsOptional => .scalar (.bool o.nullAsOptional)
  | .indent => .scalar (.int o.indent)
  | .quote => .scalar (.str o.quote.name)
  | .extractObjects => .scalar (.bool o.extractObjects)
  | .maxDepth => .scalar (.int o.maxDepth)
  | .declarationOrder => .scalar (.str o.order.name)
  | .singularOverrides => .ofPairs o.overrides

/-- Whether an option that is set to `given` holds `held`: the same, but for overrides, whose names
are put in lower case. -/
def Sets : OptionName → (given held : Setting) → Prop
  | .singularOverrides, given, held =>
      ∃ pairs, given = .ofPairs pairs ∧ held = .ofPairs (Name.lowerOverrides pairs)
  | _, given, held => held = given

/-- Whether `after` holds what the given settings say, and for all other options what `before`
holds. -/
def PutOver (before : Options) (given : OptionName → Option Setting) (after : Options) : Prop :=
  ∀ option, match given option with
    | some v => Sets option v (after.setting option)
    | none => after.setting option = before.setting option

theorem PutOver.trans {o₁ o₂ o₃ : Options} {given₁ given₂ : OptionName → Option Setting}
    (h₁ : PutOver o₁ given₁ o₂) (h₂ : PutOver o₂ given₂ o₃) :
    PutOver o₁ (fun option => (given₂ option).or (given₁ option)) o₃ := by
  intro option
  have hfirst := h₁ option
  have hsecond := h₂ option
  dsimp only
  cases hgiven : given₂ option with
  | some v =>
      rw [hgiven] at hsecond
      exact hsecond
  | none =>
      -- the second step leaves the option as the first one does
      rw [hgiven] at hsecond
      rw [Option.none_or, hsecond]
      exact hfirst

/-- What options are checked for, beyond the types of their values. -/
structure Sound (o : Options) : Prop where
  rootName : o.rootName.toList.all Text.isBlank = false
  maxDepth : 1 ≤ o.maxDepth
  overrides : Name.Lowered o.overrides

theorem sound_default : ({} : Options).Sound :=
  ⟨by decide, by decide, ⟨by simp, List.nodup_nil⟩⟩

section Assembling

/-- Options of values that are read one by one; the first fault is reported. -/
def assemble (rootName : Except ConfigFault String)
    (singularize nullAsOptional extractObjects : Except ConfigFault Bool)
    (literalThreshold indent maxDepth : Except ConfigFault Nat)
    (quote : Except ConfigFault QuoteStyle) (order : Except ConfigFault DeclarationOrder)
    (overrides : Except ConfigFault (List (String × String))) : Except ConfigFault Options := do
  pure { rootName := ← rootName
         singularize := ← singularize
         nullAsOptional := ← nullAsOptional
         extractObjects := ← extractObjects
         literalThreshold := ← literalThreshold
         indent := ← indent
         maxDepth := ← maxDepth
         quote := ← quote
         order := ← order
         overrides := ← overrides }

theorem assemble_eq_ok_iff {rootName : Except ConfigFault String}
    {singularize nullAsOptional extractObjects : Except ConfigFault Bool}
    {literalThreshold indent maxDepth : Except ConfigFault Nat}
    {quote : Except ConfigFault QuoteStyle} {order : Except ConfigFault DeclarationOrder}
    {overrides : Except ConfigFault (List (String × String))} {o : Options} :
    assemble rootName singularize nullAsOptional extractObjects literalThreshold indent maxDepth
        quote order overrides = .ok o ↔
      rootName = .ok o.rootName ∧ singularize = .ok o.singularize ∧
        nullAsOptional = .ok o.nullAsOptional ∧ extractObjects = .ok o.extractObjects ∧
        literalThreshold = .ok o.literalThreshold ∧ indent = .ok o.indent ∧
        maxDepth = .ok o.maxDepth ∧ quote = .ok o.quote ∧ order = .ok o.order ∧
        overrides = .ok o.overrides := by
  constructor
  · intro h
    obtain ⟨_, hrootName, h⟩ := bind_eq_ok h
    obtain ⟨_, hsingularize, h⟩ := bind_eq_ok h
    obtain ⟨_, hnullAsOptional, h⟩ := bind_eq_ok h
    obtain ⟨_, hextractObjects, h⟩ := bind_eq_ok h
    obtain ⟨_, hliteralThreshold, h⟩ := bind_eq_ok h
    obtain ⟨_, hindent, h⟩ := bind_eq_ok h
    obtain ⟨_, hmaxDepth, h⟩ := bind_eq_ok h
    obtain ⟨_, hquote, h⟩ := bind_eq_ok h
    obtain ⟨_, horder, h⟩ := bind_eq_ok h
    obtain ⟨_, hoverrides, h⟩ := bind_eq_ok h
    obtain rfl := Except.ok.inj h
    exact ⟨hrootName, hsingularize, hnullAsOptional, hextractObjects, hliteralThreshold, hindent,
      hmaxDepth, hquote, horder, hoverrides⟩
  · rintro ⟨rfl, rfl, rfl, rfl, rfl, rfl, rfl, rfl, rfl, rfl⟩
    rfl

end Assembling

section Building

/-- Options of a setting for each option, all of which are checked. -/
def build (value : OptionName → Setting) : Except ConfigFault Options :=
  assemble (value .rootName).toRootName ((value .singularize).toFlag .singularize)
    ((value .nullAsOptional).toFlag .nullAsOptional)
    ((value .extractObjects).toFlag .extractObjects)
    ((value .literalThreshold).toCount .literalThreshold 0) ((value .indent).toCount .indent 0)
    ((value .maxDepth).toCount .maxDepth 1) (value .quote).toQuote
    (value .declarationOrder).toOrder (value .singularOverrides).toOverrides

/-- Options are built from the settings that they show if they are sound. -/
theorem build_eq_ok_iff {value : OptionName → Setting} {o : Options} :
    build value = .ok o ↔ o.Sound ∧ ∀ option, Sets option (value option) (o.setting option) := by
  simp only [build, assemble_eq_ok_iff, Setting.toRootName_eq_ok_iff, Setting.toFlag_eq_ok_iff,
    Setting.toCount_eq_ok_iff, Setting.toQuote_eq_ok_iff, Setting.toOrder_eq_ok_iff,
    Setting.toOverrides_eq_ok_iff, Nat.zero_le, and_true]
  constructor
  · rintro ⟨⟨hrootName, hblank⟩, hsingularize, hnullAsOptional, hextractObjects,
      hliteralThreshold, hindent, ⟨hmaxDepth, hleast⟩, hquote, horder, pairs, hpairs, hoverrides⟩
    refine ⟨⟨hblank, hleast, hoverrides ▸ Name.lowered_lowerOverrides pairs⟩, fun option => ?_⟩
    cases option
    case singularOverrides => exact ⟨pairs, hpairs, congrArg Setting.ofPairs hoverrides⟩
    all_goals exact Eq.symm ‹_›
  · rintro ⟨hsound, hsets⟩
    obtain ⟨pairs, hpairs, hoverrides⟩ := hsets .singularOverrides
    exact ⟨⟨(hsets .rootName).symm, hsound.rootName⟩, (hsets .singularize).symm,
      (hsets .nullAsOptional).symm, (hsets .extractObjects).symm, (hsets .literalThreshold).symm,
      (hsets .indent).symm, ⟨(hsets .maxDepth).symm, hsound.maxDepth⟩, (hsets .quote).symm,
      (hsets .declarationOrder).symm, pairs, hpairs, Setting.ofPairs_injective hoverrides⟩

/-- Set to what it holds, an option of sound options holds the same. -/
theorem sets_setting_iff {o : Options} {option : OptionName} (h : o.Sound)
    {held : Setting} :
    Sets option (o.setting option) held ↔ held = o.setting option := by
  cases option
  case singularOverrides =>
    constructor
    · rintro ⟨pairs, hpairs, rfl⟩
      rw [← Setting.ofPairs_injective hpairs, Name.lowerOverrides_eq_self h.overrides]
      rfl
    · rintro rfl
      exact ⟨o.overrides, rfl, by rw [setting, Name.lowerOverrides_eq_self h.overrides]⟩
  all_goals rfl

/-- Sound options are the ones that their own settings build. -/
theorem sound_iff {o : Options} : o.Sound ↔ build o.setting = .ok o :=
  ⟨fun h => build_eq_ok_iff.mpr ⟨h, fun _ => (sets_setting_iff h).mpr rfl⟩,
    fun h => (build_eq_ok_iff.mp h).1⟩

end Building

section Changing

variable {o o' : Options} {changes : Changes} {option : OptionName}

/-- A value is picked as it would be read from the setting in force. -/
theorem pick_eq {α : Type} {current : α} {read : Setting → Except ConfigFault α} {v : Setting}
    (h : read v = .ok current) :
    pick changes option current read = read ((changes.get? option).getD v) := by
  rw [pick]
  cases changes.get? option with
  | none => exact h.symm
  | some _ => rfl

/-- Sound options are changed as if they were built anew, each option from its setting in force. -/
theorem change_eq_build (h : o.Sound) :
    o.change changes = build fun option => (changes.get? option).getD (o.setting option) := by
  obtain ⟨hrootName, hsingularize, hnullAsOptional, hextractObjects, hliteralThreshold, hindent,
    hmaxDepth, hquote, horder, hoverrides⟩ := assemble_eq_ok_iff.mp (sound_iff.mp h)
  -- what is read from the own setting of an option is its current value
  rw [build, ← pick_eq hrootName, ← pick_eq hsingularize, ← pick_eq hnullAsOptional,
    ← pick_eq hextractObjects, ← pick_eq hliteralThreshold, ← pick_eq hindent,
    ← pick_eq hmaxDepth, ← pick_eq hquote, ← pick_eq horder, ← pick_eq hoverrides]
  rfl

/-- A change of sound options succeeds when it comes to sound options. -/
theorem change_eq_ok_iff (h : o.Sound) :
    o.change changes = .ok o' ↔ o'.Sound ∧ o.PutOver changes.get? o' := by
  rw [change_eq_build h, build_eq_ok_iff]
  refine and_congr_right fun _ => forall_congr' fun option => ?_
  cases changes.get? option with
  | none => exact sets_setting_iff h
  | some given => rfl

/-- Two changes come to what one change comes to that sets the last value of each option. -/
theorem change_change {o₁ o₂ : Options} {changes₁ changes₂ : Changes} (h : o.Sound)
    (hget : ∀ option, changes.get? option = (changes₂.get? option).or (changes₁.get? option))
    (h₁ : o.change changes₁ = .ok o₁) (h₂ : o₁.change changes₂ = .ok o₂) :
    o.change changes = .ok o₂ := by
  obtain ⟨hsound₁, hover₁⟩ := (change_eq_ok_iff h).mp h₁
  obtain ⟨hsound₂, hover₂⟩ := (change_eq_ok_iff hsound₁).mp h₂
  rw [change_eq_ok_iff h, funext hget]
  exact ⟨hsound₂, hover₁.trans hover₂⟩

end Changing

end Options

end TypeSketch
