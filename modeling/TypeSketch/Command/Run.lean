import TypeSketch.Command.Request
import TypeSketch.Config
import TypeSketch.Declaration.Summary
import TypeSketch.Source

/-!
# Running a request

A request reads its options first, then its inputs, and then infers and prints.  Options come from
the defaults, a configuration file and the flags, each put over the one before.  A run is a function
of what it can read and of the libraries it uses; the file it writes is part of its result.  Log
lines and the progress of sampling are not.
-/

namespace TypeSketch

/-- What a run uses of other people's code. -/
structure Libraries where
  stream : Streamer
  load : Loader
  /-- The markup of a text that is to be shown as it is. -/
  escape : List Char → List Char
  /-- The console of the results. -/
  output : Console
  /-- The console of what else there is to say. -/
  errors : Console

/-- Why a run has no result. -/
inductive Failure
  | config (fault : ConfigFault)
  | read (fault : ReadFault)
  | shape (fault : ShapeFault)
  | noConfigFile (path : Path)
  /-- A configuration file that is no text. -/
  | configNotText (fault : Text.Utf8.Fault)
  /-- A fault of the library that reads configuration files. -/
  | loader (message : String)
  /-- A directory where a file is to be read or written. -/
  | directory (path : Path)
  /-- A file to be written where there is no directory. -/
  | noDirectory (path : Path)
  /-- A file to be written below what is no directory. -/
  | notADirectory (path : Path)

namespace Failure

def quoted (path : Path) : String := String.ofList (Text.shown path.text.toList)

def ofFile : FileFault → Failure
  | .config fault => .config fault
  | .loader message => .loader message

def message : Failure → String
  | .config fault => fault.message
  | .read fault => fault.message
  | .shape fault => fault.message
  | .noConfigFile path => "Config file not found: " ++ path.text
  | .configNotText fault => "not UTF-8 text (" ++ fault.message ++ ")"
  | .loader message => message
  | .directory path => directoryMessage path.text
  | .noDirectory path => "[Errno 2] No such file or directory: " ++ quoted path
  | .notADirectory path => "[Errno 20] Not a directory: " ++ quoted path

end Failure

/-- What a run comes to. -/
structure Outcome where
  exitCode : Nat := 0
  output : List Char := []
  errors : List Char := []
  /-- The file that is written, with its text. -/
  written : Option (Path × List Char) := none

namespace Outcome

/-- A line of markup in a style. -/
def styled (style text : List Char) : List Char :=
  '[' :: (style ++ [']'] ++ text ++ ['[', '/'] ++ style ++ [']'])

/-- The outcome of a failure, which shows its message as it is. -/
def ofFailure (lib : Libraries) (f : Failure) : Outcome :=
  { exitCode := 1
    errors := lib.errors.markup (styled "bold red".toList
      ("Error: ".toList ++ lib.escape f.message.toList)) }

end Outcome

namespace Request

def configPath (r : Request) : Path :=
  Path.ofText (r.config.getD Command.defaultConfig)

/-- The options of the configuration file; the file may be missing unless it is asked for. -/
def fileOptions (load : Loader) (w : Workspace) (r : Request) : Except Failure Options :=
  match w.entry? r.configPath with
  | none => if r.config.isSome then .error (.noConfigFile r.configPath) else .ok {}
  | some .directory => .error (.directory r.configPath)
  | some (.file octets) =>
      match Text.Utf8.decode octets with
      | .error fault => .error (.configNotText fault)
      | .ok text => (Config.ofText load r.configPath.text text).mapError .ofFile

/-- The options: the defaults, under the configuration file, under the flags. -/
def options (load : Loader) (w : Workspace) (r : Request) : Except Failure Options := do
  let o ← r.fileOptions load w
  (o.change r.changes).mapError .config

/-- The value of the inputs, or the array of their items. -/
def value (stream : Streamer) (w : Workspace) (r : Request) : Except Failure Json := do
  let sources ← (Source.findAll w r.files).mapError .read
  if r.stream then
    ((Feed.join (sources.map (Source.feed stream))).sample r.sampleSize).map .array
      |>.mapError .read
  else (Source.readAll r.lenient sources).mapError .read

/-- Whether a file can be written at a path. -/
def checkWritable (w : Workspace) (path : Path) : Except Failure Unit :=
  match w.entry? path, w.entry? path.parent with
  | some .directory, _ => .error (.directory path)
  | _, some .directory => .ok ()
  | _, none => .error (.noDirectory path)
  | _, some (.file _) => .error (.notADirectory path)

/-- The outcome of a document. -/
def deliver (lib : Libraries) (w : Workspace) (r : Request) (document : List Char) :
    Except Failure Outcome :=
  match r.output with
  | none =>
      let isPlain := r.plain || !lib.output.isTerminal
      .ok { output := (if isPlain then lib.output.plain else lib.output.highlighted) document }
  | some target => do
      let path := Path.ofText target
      checkWritable w path
      .ok { errors := lib.errors.markup (Outcome.styled "bold green".toList
              ("Wrote type declarations to ".toList ++ path.text.toList))
            written := some (path, document ++ ['\n']) }

/-- Runs a request. -/
def run (lib : Libraries) (w : Workspace) (r : Request) : Except Failure Outcome := do
  let o ← r.options lib.load w
  let v ← r.value lib.stream w
  match r.command with
  | .generate =>
      let document ← (Document.ofSample o (.ofJson v)).mapError .shape
      r.deliver lib w document
  | .schema =>
      let rows ← (Summary.ofSample o (.ofJson v)).mapError .shape
      .ok { output := lib.output.table (Summary.table rows) }

/-- The paths that a run may look at. -/
def paths (r : Request) : List Path :=
  let files := (r.files.filter (· ≠ "-")).map Path.ofText
  let targets := (r.output.map fun t => [Path.ofText t, (Path.ofText t).parent]).getD []
  r.configPath :: files ++ targets

end Request

namespace Invocation

/-- What a command line comes to in a workspace. -/
def run (lib : Libraries) (w : Workspace) : Invocation → Except Failure Outcome
  | .help command => .ok { output := (Usage.page command).toList }
  | .version =>
      let line := Command.programName ++ " version " ++ Command.version
      .ok { output := lib.output.markup line.toList }
  | .refused command fault =>
      .ok { exitCode := 2, errors := (Usage.complaint command fault).toList }
  | .request r => r.run lib w

/-- The paths that a run may look at. -/
def paths : Invocation → List Path
  | .request r => r.paths
  | _ => []

/-- Whether a run may read the standard input. -/
def readsInput : Invocation → Bool
  | .request r => r.files.contains "-"
  | _ => false

end Invocation

end TypeSketch
