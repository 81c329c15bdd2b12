import TypeSketch.Options

/-!
# Commands and flags

The commands of the program and the flags that they take, each with its spellings, the name of its
value and the line that explains it.
-/

namespace TypeSketch.Command

def programName : String := "jsonshape"

def version : String := "0.1.0"

def defaultConfig : String := ".jsonshape.yml"

end TypeSketch.Command

namespace TypeSketch

inductive Command
  | generate
  | schema
deriving DecidableEq

/-- The flags of the program and of its commands. -/
inductive Flag
  | help
  | version
  | verbose
  | config
  | lenient
  | stream
  | sampleSize
  | rootName
  | noSingularize
  | literalThreshold
  | nullAsOptional
  | indent
  | quote
  | inlineObjects
  | order
  | maxDepth
  | output
  | plain
deriving DecidableEq

namespace Flag

/-- The spellings of a flag, short ones first. -/
def spellings : Flag → List String
  | .help => ["-h", "--help"]
  | .version => ["--version"]
  | .verbose => ["-v", "--verbose"]
  | .config => ["--config"]
  | .lenient => ["--lenient"]
  | .stream => ["--stream"]
  | .sampleSize => ["--sample-size"]
  | .rootName => ["-r", "--root-name"]
  | .noSingularize => ["--no-singularize"]
  | .literalThreshold => ["--literal-threshold"]
  | .nullAsOptional => ["--null-as-optional"]
  | .indent => ["--indent"]
  | .quote => ["--quote"]
  | .inlineObjects => ["--inline-objects"]
  | .order => ["--order"]
  | .maxDepth => ["--max-depth"]
  | .output => ["-o", "--output"]
  | .plain => ["--plain"]

/-- Choices as they stand for a value. -/
def oneOf (names : List String) : String :=
  "\x7b" ++ ",".intercalate names ++ "\x7d"

/-- What stands for the value of a flag that takes one. -/
def valueName? : Flag → Option String
  | .config => some "CONFIG"
  | .sampleSize => some "SAMPLE_SIZE"
  | .rootName => some "ROOT_NAME"
  | .literalThreshold => some "LITERAL_THRESHOLD"
  | .indent => some "INDENT"
  | .quote => some (oneOf (QuoteStyle.all.map (·.name)))
  | .order => some (oneOf (DeclarationOrder.all.map (·.name)))
  | .maxDepth => some "MAX_DEPTH"
  | .output => some "OUTPUT"
  | _ => none

def takesValue (f : Flag) : Bool := f.valueName?.isSome

/-- The flag in messages about it. -/
def title (f : Flag) : String := "/".intercalate f.spellings

/-- The flag in the line of all flags. -/
def brief (f : Flag) : String :=
  let spelling := f.spellings.headD ""
  match f.valueName? with
  | some value => "[" ++ spelling ++ " " ++ value ++ "]"
  | none => "[" ++ spelling ++ "]"

/-- The flag in the list of flags, with its value behind each spelling. -/
def entry (f : Flag) : String :=
  match f.valueName? with
  | some value => ", ".intercalate (f.spellings.map fun s => s ++ " " ++ value)
  | none => ", ".intercalate f.spellings

def explanation : Flag → String
  | .help => "show this help message and exit"
  | .version => "Show version and exit"
  | .verbose => "Show debug logging"
  | .config => "YAML options file (default: " ++ Command.defaultConfig ++ " if present)"
  | .lenient =>
      "Accept JavaScript-like input (comments, trailing commas, bare keys, `const x = ...`); " ++
        "cannot be combined with --stream"
  | .stream =>
      "Stream the items of each file's top-level array instead of loading whole documents"
  | .sampleSize => "With --stream, read at most this many items"
  | .rootName => "Name of the root type (default: rootType)"
  | .noSingularize => "Do not derive singular type names from plural field names"
  | .literalThreshold => "Emit literal unions for up to N distinct values (0 disables)"
  | .nullAsOptional => "Render `T | null` fields as optional `T`"
  | .indent => "Indentation width of declaration bodies"
  | .quote => "Quote style for strings and keys"
  | .inlineObjects =>
      "Inline small objects (up to two primitive fields) instead of naming them"
  | .order => "Order of the declarations after the root"
  | .maxDepth => "Maximum nesting depth of the input"
  | .output => "Write declarations to this file"
  | .plain => "Print without syntax highlighting"

end Flag

namespace Command

def all : List Command := [.generate, .schema]

def name : Command → String
  | .generate => "generate"
  | .schema => "schema"

def ofName? (name : String) : Option Command :=
  all.find? (·.name == name)

def explanation : Command → String
  | .generate => "Print type declarations for JSON data"
  | .schema => "Summarize the inferred declarations as a table"

/-- The flags of reading and of the options, which all commands share. -/
def sharedFlags : List Flag :=
  [.help, .config, .lenient, .stream, .sampleSize, .rootName, .noSingularize, .literalThreshold,
   .nullAsOptional, .indent, .quote, .inlineObjects, .order, .maxDepth]

def flags : Command → List Flag
  | .generate => sharedFlags ++ [.output, .plain]
  | .schema => sharedFlags

/-- The flags in front of a command. -/
def programFlags : List Flag := [.help, .version, .verbose]

end Command

end TypeSketch
