import TypeSketch.Command.Argument

/-!
# Requests

What a command line asks for: a help page, the version, or a command with its inputs and settings.
The arguments of a command are read before anything else that is said about the line as a whole,
such as arguments that nothing accounts for.
-/

namespace TypeSketch

structure Request where
  command : Command
  files : List String := []
  /-- The configuration file that is asked for. -/
  config : Option String := none
  lenient : Bool := false
  stream : Bool := false
  sampleSize : Option Int := none
  /-- The options that flags set; of a flag that comes again the last counts. -/
  changes : Changes := []
  output : Option String := none
  /-- Whether the document is printed without colours. -/
  plain : Bool := false

/-- What a command line comes to. -/
inductive Invocation
  | help (command : Option Command)
  | version
  | refused (command : Option Command) (fault : UsageFault)
  | request (request : Request)

namespace Request

/-- The request with an option set. -/
def change (r : Request) (option : OptionName) (value : Literal) : Request :=
  { r with changes := r.changes ++ [(option, .scalar value)] }

/-- The integer that the value of a flag spells. -/
def toInteger (flag : Flag) (value : String) : Except UsageFault Int :=
  match Text.readInt value.toList with
  | some n => .ok n
  | none => .error (.notAnInteger flag value)

/-- The size that the value of a flag spells. -/
def toSize (flag : Flag) (value : String) : Except UsageFault Int :=
  match Text.readInt value.toList with
  | some n => if n < 0 then .error (.negativeSize flag n) else .ok n
  | none => .error (.notASize flag value)

/-- The value of a flag, if it is one of the choices. -/
def toChoice (flag : Flag) (choices : List String) (value : String) : Except UsageFault String :=
  if value ∈ choices then .ok value else .error (.unknownChoice flag.title value choices)

/-- The request with a flag put into effect. -/
def set (r : Request) (flag : Flag) (value : String) : Except UsageFault Request :=
  match flag with
  | .config => .ok { r with config := some value }
  | .lenient => .ok { r with lenient := true }
  | .stream => .ok { r with stream := true }
  | .sampleSize => (toSize flag value).map fun n => { r with sampleSize := some n }
  | .rootName => .ok (r.change .rootName (.str value))
  | .noSingularize => .ok (r.change .singularize (.bool false))
  | .literalThreshold => (toInteger flag value).map fun n => r.change .literalThreshold (.int n)
  | .nullAsOptional => .ok (r.change .nullAsOptional (.bool true))
  | .indent => (toInteger flag value).map fun n => r.change .indent (.int n)
  | .quote =>
      (toChoice flag (QuoteStyle.all.map (·.name)) value).map fun v => r.change .quote (.str v)
  | .inlineObjects => .ok (r.change .extractObjects (.bool false))
  | .order =>
      (toChoice flag (DeclarationOrder.all.map (·.name)) value).map fun v =>
        r.change .declarationOrder (.str v)
  | .maxDepth => (toInteger flag value).map fun n => r.change .maxDepth (.int n)
  | .output => .ok { r with output := some value }
  | .plain => .ok { r with plain := true }
  | .help | .version | .verbose => .ok r

/-- A request with the arguments that nothing accounts for. -/
structure Draft where
  request : Request
  extras : List String := []

/-- The draft after a step; a help flag and a fault end the reading. -/
def Draft.take (d : Draft) : Step → Except Invocation Draft
  | .set .help _ => .error (.help (some d.request.command))
  | .set flag value =>
      match d.request.set flag (value.getD "") with
      | .ok r => .ok { d with request := r }
      | .error fault => .error (.refused (some d.request.command) fault)
  | .operands texts => .ok { d with request := { d.request with files := texts.erase "--" } }
  | .extra text => .ok { d with extras := d.extras ++ [text] }
  | .fault fault => .error (.refused (some d.request.command) fault)

/-- Reads the arguments of a command. -/
def read (command : Command) (arguments : List String) : Except Invocation Draft := do
  let refuse := Invocation.refused (some command)
  let steps ← (Step.all command.flags false arguments).mapError refuse
  let draft ← steps.foldlM Draft.take { request := { command } }
  if draft.request.files = [] then .error (refuse .missingFiles) else .ok draft

end Request

namespace Invocation

/-- What is known of a command line in front of a command, and of the command itself. -/
structure Progress where
  wantsVersion : Bool := false
  extras : List String := []
  draft : Option Request.Draft := none

def Progress.take (p : Progress) : Step → Except Invocation Progress
  | .set .help _ => .error (.help none)
  | .set .version _ => .ok { p with wantsVersion := true }
  | .set _ _ => .ok p
  | .operands [] => .ok p
  | .operands (name :: arguments) =>
      match Command.ofName? name with
      | some command => do
          let draft ← Request.read command arguments
          .ok { p with draft := some draft }
      | none =>
          .error (.refused none (.unknownChoice "command" name (Command.all.map (·.name))))
  | .extra text => .ok { p with extras := p.extras ++ [text] }
  | .fault fault => .error (.refused none fault)

/-- What a command line comes to once it is read. -/
def Progress.finish (p : Progress) : Invocation :=
  let extras := p.extras ++ (p.draft.map (·.extras)).getD []
  if extras ≠ [] then .refused none (.unrecognized extras)
  else if p.wantsVersion then .version
  else
    match p.draft with
    | none => .help none
    | some d =>
        if d.request.lenient && d.request.stream then .refused none .lenientStream
        else .request d.request

/-- What a command line comes to. -/
def ofArguments (arguments : List String) : Invocation :=
  let progress := do
    let steps ← (Step.all Command.programFlags true arguments).mapError (Invocation.refused none)
    steps.foldlM Progress.take {}
  match progress with
  | .ok p => p.finish
  | .error ending => ending

end Invocation

end TypeSketch
