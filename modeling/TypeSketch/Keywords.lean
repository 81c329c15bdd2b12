import TypeSketch.Options

/-!
# Options by keyword

Options are also changed by calls that take their settings by keyword.  Such a call is refused when
a keyword has the name of a parameter of its own; nothing is said of the settings then.  Each step
gives options in one of these ways, and one that fails leaves the current options as they were.
-/

namespace TypeSketch

/-- Settings by keyword. -/
abbrev Keywords := List (String × Setting)

/-- Why a call gives no options. -/
inductive CallFault
  /-- A keyword has the name of a parameter. -/
  | clash (parameter : String)
  | config (fault : ConfigFault)

namespace Keywords

/-- The keywords as the entries of a mapping. -/
def entries (keywords : Keywords) : List (MapKey × Setting) :=
  keywords.map fun k => (.literal (.str k.1), k.2)

/-- The keywords of a call with the given parameter. -/
def passed (keywords : Keywords) (parameter : String) : Except CallFault Keywords :=
  if parameter ∈ keywords.map (·.1) then .error (.clash parameter) else .ok keywords

end Keywords

/-- What options are resolved from. -/
inductive OptionsBase
  | absent
  | current
  /-- What are no options, with the name of its type. -/
  | other (type : String)

/-- A way to come to options. -/
inductive OptionsStep
  | ofSetting (data : Setting)
  | replace (changes : Keywords)
  | resolve (base : OptionsBase) (overrides : Keywords)

namespace Options

/-- The options with settings by keyword put over them. -/
def replaceBy (o : Options) (changes : Keywords) : Except CallFault Options := do
  let changes ← changes.passed "self"
  (o.replace changes.entries).mapError .config

/-- The options that `base` stands for, where `o` are the current ones, with settings by keyword put
over them, if there are any. -/
def resolve (o : Options) (base : OptionsBase) (overrides : Keywords) : Except CallFault Options := do
  let overrides ← overrides.passed "options"
  let start ←
    match base with
    | .absent => .ok {}
    | .current => .ok o
    | .other type => .error (.config (.notOptions type))
  if overrides.isEmpty then .ok start else start.replaceBy overrides

/-- The options that a step comes to. -/
def step (o : Options) : OptionsStep → Except CallFault Options
  | .ofSetting data => (ofSetting data).mapError .config
  | .replace changes => o.replaceBy changes
  | .resolve base overrides => o.resolve base overrides

/-- The current options after a step. -/
def advance (o : Options) (s : OptionsStep) : Options :=
  match o.step s with
  | .ok next => next
  | .error _ => o

/-- The current options after some steps. -/
def run (o : Options) (steps : List OptionsStep) : Options :=
  steps.foldl advance o

end Options

end TypeSketch
