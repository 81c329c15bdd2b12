import TypeSketch.Proofs.Options.Names
import TypeSketch.Proofs.Source

/-!
# Steps to options

A step puts settings over the options that it starts from, and a step that fails leaves the current
options alone.  Main statements: `step_eq_ok_iff`, what a step comes to; `sound_run`, options stay
sound, whatever steps succeed and fail; and `replaceBy_replaceBy`, changes by name that are made one
after the other are made at once.
-/

namespace TypeSketch

namespace Keywords

variable {keywords : Keywords} {parameter : String}

theorem passed_of_notMem (h : parameter ∉ keywords.map (·.1)) :
    keywords.passed parameter = .ok keywords :=
  if_neg h

theorem passed_of_mem (h : parameter ∈ keywords.map (·.1)) :
    keywords.passed parameter = .error (.clash parameter) :=
  if_pos h

/-- Whether each keyword is the name of an option as it is, in small letters with underscores. -/
def Named (keywords : Keywords) : Prop :=
  ∀ k ∈ keywords, ∃ option : OptionName, k.1 = option.text

theorem Named.append {xs ys : Keywords} (hx : xs.Named) (hy : ys.Named) : Named (xs ++ ys) :=
  fun k hk => (List.mem_append.mp hk).elim (hx k) (hy k)

theorem Named.settled (h : keywords.Named) : Named (settle keywords) :=
  fun k hk => h k (mem_of_mem_settle hk)

theorem Named.self_notMem (h : keywords.Named) : "self" ∉ keywords.map (·.1) := by
  intro hself
  obtain ⟨k, hk, hname⟩ := List.mem_map.mp hself
  obtain ⟨option, hoption⟩ := h k hk
  have hnot : option.text ≠ "self" := by cases option <;> decide
  exact hnot (hoption.symm.trans hname)

theorem Named.ofKey?_ne_none (h : keywords.Named) :
    ∀ e ∈ keywords.entries, OptionName.ofKey? e.1.text ≠ none := by
  intro e he
  obtain ⟨k, hk, rfl⟩ := List.mem_map.mp he
  obtain ⟨option, hoption⟩ := h k hk
  show OptionName.ofKey? k.1.toList ≠ none
  rw [hoption, OptionName.ofKey?_text]
  exact Option.some_ne_none option

theorem Named.lastFor_entries (h : keywords.Named) (option : OptionName) :
    Changes.lastFor option keywords.entries = lastOf option.text keywords := by
  have hnamed : Changes.named keywords.entries =
      keywords.map fun k => (OptionName.ofKey? k.1.toList, k.2) := List.map_map
  rw [Changes.lastFor, hnamed]
  refine lastOf_map (f := fun name : String => OptionName.ofKey? name.toList) fun k hk => ?_
  obtain ⟨other, hother⟩ := h k hk
  rw [hother, OptionName.ofKey?_text, Option.some_inj]
  exact ⟨congrArg _, fun htext => Option.some.inj <| by
    rw [← OptionName.ofKey?_text other, htext, OptionName.ofKey?_text]⟩

end Keywords

namespace OptionsStep

/-- Whether a call gets a keyword with the name of a parameter, so that it is refused. -/
def Clashes : OptionsStep → Prop
  | .ofSetting _ => False
  | .replace changes => "self" ∈ changes.map (·.1)
  | .resolve base overrides => "options" ∈ overrides.map (·.1) ∨
      "self" ∈ overrides.map (·.1) ∧ ∀ type, base ≠ .other type

/-- The options that a step puts its settings over, where `o` are the current ones. -/
def base (o : Options) : OptionsStep → Except ConfigFault Options
  | .ofSetting (.map _) => .ok {}
  | .ofSetting _ => .error .notAMapping
  | .replace _ => .ok o
  | .resolve .absent _ => .ok {}
  | .resolve .current _ => .ok o
  | .resolve (.other type) _ => .error (.notOptions type)

/-- The settings of a step. -/
def entries : OptionsStep → List (MapKey × Setting)
  | .ofSetting (.map entries) => entries
  | .ofSetting _ => []
  | .replace changes => changes.entries
  | .resolve _ overrides => overrides.entries

end OptionsStep

namespace Options

variable {o o' : Options} {s : OptionsStep} {keywords : Keywords}

section Calls

theorem replaceBy_of_mem (h : "self" ∈ keywords.map (·.1)) :
    o.replaceBy keywords = .error (.clash "self") := by
  rw [replaceBy, Keywords.passed_of_mem h]
  rfl

theorem replaceBy_of_notMem (h : "self" ∉ keywords.map (·.1)) :
    o.replaceBy keywords = (o.replace keywords.entries).mapError .config := by
  rw [replaceBy, Keywords.passed_of_notMem h]
  rfl

theorem replaceBy_eq_ok_iff : o.replaceBy keywords = .ok o' ↔
    "self" ∉ keywords.map (·.1) ∧ o.replace keywords.entries = .ok o' := by
  by_cases hself : "self" ∈ keywords.map (·.1)
  · rw [replaceBy_of_mem hself]
    exact ⟨nofun, fun h => absurd hself h.1⟩
  · rw [replaceBy_of_notMem hself, Source.mapError_eq_ok_iff]
    exact (and_iff_right hself).symm

theorem replace_nil : o.replace [] = .ok o := rfl

section Resolving

variable (o) (h : "options" ∉ keywords.map (·.1))
include h

theorem resolve_absent : o.resolve .absent keywords = ({} : Options).replaceBy keywords := by
  rw [resolve, Keywords.passed_of_notMem h]
  cases keywords <;> rfl

theorem resolve_current : o.resolve .current keywords = o.replaceBy keywords := by
  rw [resolve, Keywords.passed_of_notMem h]
  cases keywords <;> rfl

theorem resolve_other (type : String) :
    o.resolve (.other type) keywords = .error (.config (.notOptions type)) := by
  rw [resolve, Keywords.passed_of_notMem h]
  rfl

end Resolving

/-- A call with a keyword for one of its parameters is refused. -/
theorem step_of_clashes (h : s.Clashes) : ∃ parameter, o.step s = .error (.clash parameter) := by
  cases s with
  | ofSetting data => cases h
  | replace changes => exact ⟨"self", replaceBy_of_mem h⟩
  | resolve base overrides =>
      by_cases hoptions : "options" ∈ overrides.map (·.1)
      · refine ⟨"options", ?_⟩
        rw [step, resolve, Keywords.passed_of_mem hoptions]
        rfl
      · obtain ⟨hself, hbase⟩ := h.resolve_left hoptions
        refine ⟨"self", ?_⟩
        cases base with
        | absent => exact (resolve_absent o hoptions).trans (replaceBy_of_mem hself)
        | current => exact (resolve_current o hoptions).trans (replaceBy_of_mem hself)
        | other type => exact absurd rfl (hbase type)

/-- Any other step puts its settings over its base. -/
theorem step_of_not_clashes (h : ¬ s.Clashes) :
    o.step s = (do (← s.base o).replace s.entries).mapError .config := by
  cases s with
  | ofSetting data => cases data <;> rfl
  | replace changes => exact replaceBy_of_notMem h
  | resolve base overrides =>
      have hoptions : "options" ∉ overrides.map (·.1) := fun hmem => h (.inl hmem)
      -- a base that is no options is reported before the keywords are passed on
      have hself : (∀ type, base ≠ .other type) → "self" ∉ overrides.map (·.1) :=
        fun hbase hmem => h (.inr ⟨hmem, hbase⟩)
      cases base with
      | absent => exact (resolve_absent o hoptions).trans (replaceBy_of_notMem (hself nofun))
      | current => exact (resolve_current o hoptions).trans (replaceBy_of_notMem (hself nofun))
      | other type => exact resolve_other o hoptions type

theorem clashes_of_step_eq_clash {parameter : String}
    (h : o.step s = .error (.clash parameter)) : s.Clashes := by
  by_contra hclash
  rw [step_of_not_clashes hclash] at h
  cases hafter : (do (← s.base o).replace s.entries) with
  | ok next =>
      rw [hafter] at h
      cases h
  | error fault =>
      rw [hafter] at h
      cases h

end Calls

section Runs

theorem sound_base {start : Options} (h : o.Sound) (hbase : s.base o = .ok start) :
    start.Sound := by
  cases s with
  | ofSetting data =>
      cases data <;> cases hbase
      exact sound_default
  | replace changes =>
      cases hbase
      exact h
  | resolve base overrides =>
      cases base <;> cases hbase
      · exact sound_default
      · exact h

/-- A step that succeeds has put its settings over its base. -/
theorem step_eq_ok_iff : o.step s = .ok o' ↔
    ¬ s.Clashes ∧ ∃ start, s.base o = .ok start ∧ start.replace s.entries = .ok o' := by
  by_cases hclash : s.Clashes
  · obtain ⟨parameter, hstep⟩ := step_of_clashes hclash
    rw [hstep]
    exact ⟨nofun, fun h => absurd hclash h.1⟩
  · rw [step_of_not_clashes hclash, Source.mapError_eq_ok_iff]
    constructor
    · exact fun h => ⟨hclash, bind_eq_ok h⟩
    · rintro ⟨-, start, hstart, hreplace⟩
      rw [hstart]
      exact hreplace

theorem advance_of_step_eq_ok (h : o.step s = .ok o') : o.advance s = o' := by
  rw [advance, h]

theorem advance_of_step_eq_error {fault : CallFault} (h : o.step s = .error fault) :
    o.advance s = o := by
  rw [advance, h]

theorem sound_step (h : o.Sound) (hstep : o.step s = .ok o') : o'.Sound := by
  obtain ⟨-, start, hstart, hreplace⟩ := step_eq_ok_iff.mp hstep
  exact ((replace_eq_ok_iff (sound_base h hstart)).mp hreplace).2.1

theorem sound_advance (h : o.Sound) (s : OptionsStep) : (o.advance s).Sound := by
  cases hstep : o.step s with
  | ok next =>
      rw [advance_of_step_eq_ok hstep]
      exact sound_step h hstep
  | error fault =>
      rw [advance_of_step_eq_error hstep]
      exact h

/-- Options stay sound, whatever steps succeed and fail. -/
theorem sound_run (h : o.Sound) (steps : List OptionsStep) : (o.run steps).Sound := by
  induction steps generalizing o with
  | nil => exact h
  | cons s steps ih => exact ih (sound_advance h s)

end Runs

section Mappings

/-- Changes by name that are made one after the other come to what the second ones make that are
put over the first ones. -/
theorem replaceBy_replaceBy {o₁ o₂ : Options} {changes₁ changes₂ : Keywords} (h : o.Sound)
    (hnamed₁ : changes₁.Named) (hnamed₂ : changes₂.Named) (h₁ : o.replaceBy changes₁ = .ok o₁)
    (h₂ : o₁.replaceBy changes₂ = .ok o₂) :
    o.replaceBy (settle (changes₁ ++ changes₂)) = .ok o₂ := by
  have hnamed := (hnamed₁.append hnamed₂).settled
  have hreplace₁ := (replaceBy_eq_ok_iff.mp h₁).2
  have hreplace₂ := (replaceBy_eq_ok_iff.mp h₂).2
  refine replaceBy_eq_ok_iff.mpr ⟨hnamed.self_notMem, ?_⟩
  refine replace_replace h hnamed.ofKey?_ne_none (fun option => ?_) hreplace₁ hreplace₂
  rw [hnamed.lastFor_entries, lastOf_settle, lastOf_append, hnamed₁.lastFor_entries,
    hnamed₂.lastFor_entries]

end Mappings

end Options

end TypeSketch
