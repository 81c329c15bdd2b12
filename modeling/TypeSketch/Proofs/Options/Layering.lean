import TypeSketch.Command.Run
import TypeSketch.Proofs.Options.Steps

/-!
# Layers of options

On a command line, options come from flags, over those of a file, over the defaults.  Main
statement: `layering`, what steps and layers make of options.
-/

namespace TypeSketch

namespace Config

/-- The mapping that sets the options in the data of a file, if it has one; without a value nothing
is set. -/
def mapping? : Setting → Option (List (MapKey × Setting))
  | .null => some []
  | .map entries =>
      match (Setting.get? sectionKey (.map entries)).getD (.map entries) with
      | .null => some []
      | .map entries => some entries
      | _ => none
  | _ => none

/-- The options of the data are the defaults with its mapping put over them. -/
theorem ofData_eq_ok {name : String} {data : Setting} {o : Options}
    (h : ofData name data = .ok o) :
    ∃ entries, mapping? data = some entries ∧ ({} : Options).replace entries = .ok o := by
  cases data with
  | null => exact ⟨[], rfl, Options.replace_nil.trans h⟩
  | map entries =>
      rw [ofData] at h
      rw [mapping?]
      cases hget : Setting.get? sectionKey (.map entries) with
      | none =>
          rw [hget] at h
          exact ⟨entries, rfl, h⟩
      | some s =>
          rw [hget] at h
          cases s with
          | null => exact ⟨[], rfl, Options.replace_nil.trans h⟩
          | map inner => exact ⟨inner, rfl, h⟩
          | scalar => cases h
          | list => cases h
          | other => cases h
  | scalar => cases h
  | list => cases h
  | other => cases h

/-- The mapping that sets the options in a file. -/
def entries? (load : Loader) (text : List Char) : Option (List (MapKey × Setting)) :=
  (load (Text.unifyBreaks text)).toOption.bind mapping?

/-- The options of a file are the defaults with its mapping put over them. -/
theorem ofText_eq_ok {load : Loader} {name : String} {text : List Char} {o : Options}
    (h : ofText load name text = .ok o) :
    ∃ entries, entries? load text = some entries ∧ ({} : Options).replace entries = .ok o := by
  unfold ofText at h
  unfold entries?
  split at h
  · cases h
  · cases h
  · rename_i data hdata
    rw [hdata]
    exact ofData_eq_ok (Source.mapError_eq_ok_iff.mp h)

end Config

namespace Request

section Files

variable {load : Loader} {w : Workspace} {r : Request} {o : Options}

/-- The mapping that sets the options in the configuration file; a missing file sets nothing. -/
def fileEntries (load : Loader) (w : Workspace) (r : Request) : List (MapKey × Setting) :=
  match w.entry? r.configPath with
  | some (.file octets) => ((Text.Utf8.decode octets).toOption.bind (Config.entries? load)).getD []
  | _ => []

theorem replace_fileEntries (h : r.fileOptions load w = .ok o) :
    ({} : Options).replace (r.fileEntries load w) = .ok o := by
  unfold fileOptions at h
  unfold fileEntries
  split at h
  · rename_i hentry
    rw [hentry]
    dsimp only
    split at h
    · cases h
    · obtain rfl := Except.ok.inj h
      exact Options.replace_nil
  · cases h
  · rename_i octets hentry
    rw [hentry]
    dsimp only
    split at h
    · cases h
    · rename_i text hdecode
      obtain ⟨entries, hentries, hreplace⟩ :=
        Config.ofText_eq_ok (Source.mapError_eq_ok_iff.mp h)
      rw [hdecode]
      show ({} : Options).replace ((Config.entries? load text).getD []) = _
      rw [hentries]
      exact hreplace

/-- The options of a request are those of the flags, over those of the file, over the defaults. -/
theorem putOver_options (h : r.options load w = .ok o) :
    o.Sound ∧ ({} : Options).PutOver
      (fun option =>
        (r.changes.get? option).or (Changes.lastFor option (r.fileEntries load w))) o := by
  obtain ⟨fileOptions, hfile, hflags⟩ := bind_eq_ok h
  obtain ⟨-, hsound, hlower⟩ :=
    (Options.replace_eq_ok_iff Options.sound_default).mp (replace_fileEntries hfile)
  obtain ⟨hafter, hupper⟩ :=
    (Options.change_eq_ok_iff hsound).mp (Source.mapError_eq_ok_iff.mp hflags)
  exact ⟨hafter, hlower.trans hupper⟩

end Files

section Flags

variable {r r' : Request} {flag : Flag} {value : String} {draft draft' : Draft}

/-- What a flag with this value changes in a request that has no changes yet. -/
def changesOf (flag : Flag) (value : String) : Changes :=
  match ({ command := .generate } : Request).set flag value with
  | .ok r => r.changes
  | .error _ => []

/-- A flag adds its changes to those in front of it. -/
theorem map_changes_set : (r.set flag value).map (·.changes) =
    (({ command := .generate } : Request).set flag value).map fun fresh =>
      r.changes ++ fresh.changes := by
  -- by the kind of flag: one option, a number or a choice that is read first, or no option
  cases flag
  case rootName | noSingularize | nullAsOptional | inlineObjects => rfl
  case literalThreshold | indent | maxDepth =>
    simp only [set]
    cases toInteger _ value <;> rfl
  case quote | order =>
    simp only [set]
    cases toChoice _ _ value <;> rfl
  case sampleSize =>
    simp only [set]
    cases toSize _ value with
    | error => rfl
    | ok => exact congrArg Except.ok (List.append_nil _).symm
  case config | lenient | stream | output | help | version | verbose | plain =>
    exact congrArg Except.ok (List.append_nil _).symm

theorem changes_set (h : r.set flag value = .ok r') :
    r'.changes = r.changes ++ changesOf flag value := by
  have hmap : (r.set flag value).map (·.changes) = _ := map_changes_set
  rw [h] at hmap
  unfold changesOf
  cases hfresh : ({ command := .generate } : Request).set flag value with
  | error =>
      rw [hfresh] at hmap
      cases hmap
  | ok fresh =>
      rw [hfresh] at hmap
      exact Except.ok.inj hmap

/-- What a step of a command line changes. -/
def changesOfStep : Step → Changes
  | .set flag value => changesOf flag (value.getD "")
  | _ => []

theorem changes_take {step : Step} (h : draft.take step = .ok draft') :
    draft'.request.changes = draft.request.changes ++ changesOfStep step := by
  unfold Draft.take at h
  split at h
  · cases h
  · split at h
    · rename_i hset
      cases h
      exact changes_set hset
    · cases h
  · cases h
    exact (List.append_nil _).symm
  · cases h
    exact (List.append_nil _).symm
  · cases h

theorem changes_foldlM_take {steps : List Step} (h : steps.foldlM Draft.take draft = .ok draft') :
    draft'.request.changes = draft.request.changes ++ steps.flatMap changesOfStep := by
  induction steps generalizing draft with
  | nil =>
      cases h
      exact (List.append_nil _).symm
  | cons step steps ih =>
      obtain ⟨next, hnext, hrest⟩ := bind_eq_ok h
      rw [ih hrest, changes_take hnext, List.append_assoc, List.flatMap_cons]

/-- The changes of a request are those of its flags, one after the other. -/
theorem changes_read {command : Command} {arguments : List String} {steps : List Step}
    (hsteps : Step.all command.flags false arguments = .ok steps)
    (h : read command arguments = .ok draft) :
    draft.request.changes = steps.flatMap changesOfStep := by
  unfold read at h
  rw [hsteps] at h
  obtain ⟨_, hread, h⟩ := bind_eq_ok h
  obtain rfl := Except.ok.inj hread
  obtain ⟨final, hfinal, h⟩ := bind_eq_ok h
  split at h
  · cases h
  · obtain rfl := Except.ok.inj h
    exact changes_foldlM_take hfinal

end Flags

end Request

namespace Options

/-- Changes by name. -/
def userChanges : Keywords :=
  [("root_name", .scalar (.str "user")), ("indent", .scalar (.int 4))]

/-- Changes by name, one of them to an option that `userChanges` sets as well. -/
def dataChanges : Keywords :=
  [("indent", .scalar (.int 0)), ("singular_overrides", .ofPairs [("Data", "datum")])]

def userOptions : Options := { rootName := "user", indent := 4 }

def dataOptions : Options := { rootName := "user", indent := 0, overrides := [("data", "datum")] }

/-- The text of a configuration file. -/
def configText : String := "indent: 4\nquote: double\n"

/-- A workspace with a configuration file. -/
def configured : Workspace :=
  { entries := [(Path.ofText ".jsonshape.yml", .file configText.toUTF8.toList)] }

/-- A library that reads one text. -/
def loadConfigured : Loader := fun text =>
  if text = configText.toList then
    .ok (.map [(.literal (.str "indent"), .scalar (.int 4)),
      (.literal (.str "quote"), .scalar (.str "double"))])
  else .error .malformed

theorem named_userChanges : userChanges.Named := by
  intro k hk
  simp only [userChanges, List.mem_cons, List.not_mem_nil, or_false] at hk
  rcases hk with rfl | rfl
  · exact ⟨.rootName, rfl⟩
  · exact ⟨.indent, rfl⟩

theorem named_dataChanges : dataChanges.Named := by
  intro k hk
  simp only [dataChanges, List.mem_cons, List.not_mem_nil, or_false] at hk
  rcases hk with rfl | rfl
  · exact ⟨.indent, rfl⟩
  · exact ⟨.singularOverrides, rfl⟩

end Options

end TypeSketch
