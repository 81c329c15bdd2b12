import TypeSketch.Command.Flag

/-!
# Usage

The help pages, and what is said of arguments that make no sense.
-/

namespace TypeSketch

/-- What can be wrong with the arguments. -/
inductive UsageFault
  | ambiguous (argument : String) (spellings : List String)
  | missingValue (flag : Flag)
  | needlessValue (flag : Flag) (value : String)
  | notAnInteger (flag : Flag) (value : String)
  | notASize (flag : Flag) (value : String)
  | negativeSize (flag : Flag) (value : Int)
  | unknownChoice (subject : String) (value : String) (choices : List String)
  | missingFiles
  | unrecognized (arguments : List String)
  | lenientStream

namespace UsageFault

def quoted (s : String) : String := String.ofList (Text.shown s.toList)

/-- What is said about the argument of a flag or a place. -/
def about (subject text : String) : String := "argument " ++ subject ++ ": " ++ text

def message : UsageFault → String
  | .ambiguous argument spellings =>
      "ambiguous option: " ++ argument ++ " could match " ++ ", ".intercalate spellings
  | .missingValue flag => about flag.title "expected one argument"
  | .needlessValue flag value =>
      about flag.title ("ignored explicit argument " ++ quoted value)
  | .notAnInteger flag value => about flag.title ("invalid int value: " ++ quoted value)
  | .notASize flag value => about flag.title ("invalid integer: " ++ quoted value)
  | .negativeSize flag value => about flag.title ("must be >= 0, got " ++ toString value)
  | .unknownChoice subject value choices =>
      about subject ("invalid choice: " ++ quoted value ++ " (choose from " ++
        ", ".intercalate (choices.map quoted) ++ ")")
  | .missingFiles => "the following arguments are required: files"
  | .unrecognized arguments => "unrecognized arguments: " ++ " ".intercalate arguments
  | .lenientStream =>
      "--lenient cannot be combined with --stream: streamed items are read as strict JSON"

end UsageFault

namespace Usage

/-- The program with its command, as it is called. -/
def callName : Option Command → String
  | none => Command.programName
  | some c => Command.programName ++ " " ++ c.name

def commandChoice : String := Flag.oneOf (Command.all.map (·.name))

def flagsOf : Option Command → List Flag
  | none => Command.programFlags
  | some c => c.flags

/-- The line that shows how the program or a command is called. -/
def line (command : Option Command) : String :=
  let operands := if command.isNone then commandChoice ++ " ..." else "files [files ...]"
  "usage: " ++ " ".intercalate
    (callName command :: (flagsOf command).map (·.brief) ++ [operands]) ++ "\n"

/-- Spaces. -/
def blank (size : Nat) : String := String.ofList (List.replicate size ' ')

/-- A line of a list: its explanation starts in a column of its own, on the next line if the entry
leaves no room for it. -/
def listLine (margin column : Nat) (entry explanation : String) : String :=
  if entry.length + margin + 2 ≤ column then
    blank margin ++ entry ++ blank (column - margin - entry.length) ++ explanation ++ "\n"
  else blank margin ++ entry ++ "\n" ++ blank column ++ explanation ++ "\n"

/-- The column of the explanations: behind the longest entry, but no further right than this. -/
def widestColumn : Nat := 24

def columnFor (entries : List String) : Nat :=
  min widestColumn (entries.foldl (fun size entry => max size (entry.length + 4)) 0)

def listLines (margin column : Nat) (flags : List Flag) : String :=
  String.join (flags.map fun f => listLine margin column f.entry f.explanation)

/-- The help page of the program or of a command. -/
def page (command : Option Command) : String :=
  let entries := (flagsOf command).map (·.entry)
  let column := columnFor (commandChoice :: entries)
  let optionList := "\noptions:\n" ++ listLines 2 column (flagsOf command)
  match command with
  | none =>
      line command ++
        "\njsonshape - Infer TypeScript type declarations from JSON data\n" ++
        "\npositional arguments:\n" ++
        listLine 2 column commandChoice "Available commands" ++
        String.join (Command.all.map fun c => listLine 4 column c.name c.explanation) ++
        optionList
  | some _ =>
      line command ++
        "\npositional arguments:\n" ++
        listLine 2 column "files" "JSON files to read ('-' for stdin)" ++
        optionList

/-- The text about a fault. -/
def complaint (command : Option Command) (fault : UsageFault) : String :=
  line command ++ callName command ++ ": error: " ++ fault.message ++ "\n"

end Usage

end TypeSketch
