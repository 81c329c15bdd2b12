import TypeSketch.Lenient.Parser
import TypeSketch.Path
import TypeSketch.Text.Utf8

/-!
# Sources

The inputs of a run: files, and the standard input under the name `-`.  One input is read as its
own value, several as the array of their values.  Inputs can also be streamed one after the other;
`sample` collects items up to a limit and has to see one more item to know that it is reached.

The items of one input are told by a library, which is a parameter here.
-/

namespace TypeSketch

/-- Why one input cannot be read. -/
inductive InputFault
  | notText (fault : Text.Utf8.Fault)
  | notJson (error : Json.SyntaxError)
  | notLiteral (error : Json.SyntaxError)
  | notStreamable
  | directory

def InputFault.message : InputFault → String
  | .notText fault => s!"not UTF-8 text ({fault.message})"
  | .notJson e => s!"{e.cause.message} at line {e.line} column {e.column}"
  | .notLiteral e =>
      s!"not valid JSON or JavaScript literal ({e.cause.message} at line {e.line})"
  | .notStreamable => "cannot stream items"
  | .directory => "Is a directory"

/-- Why the inputs of a run cannot be read. -/
inductive ReadFault
  | input (name : String) (fault : InputFault)
  | noInputs
  | fileNotFound (path : Path)
  | negativeSize (size : Int)
  /-- A directory where a file is to be opened. -/
  | directory (path : String)

def directoryMessage (path : String) : String :=
  let shown := String.ofList (Text.shown path.toList)
  s!"[Errno 21] Is a directory: {shown}"

def ReadFault.message : ReadFault → String
  | .input name fault => s!"{name}: {fault.message}"
  | .noInputs => "<input>: no input files given"
  | .fileNotFound path => s!"File not found: {path.text}"
  | .negativeSize size => s!"sample_size must be >= 0, got {size}"
  | .directory path => directoryMessage path

/-- An input with its name and its contents. -/
structure Source where
  name : String
  contents : Entry

/-- What the streaming library makes of some octets: items, and whether they end without a fault. -/
structure Streamed where
  items : List Json
  isSound : Bool

/-- A library that streams the items of a document. -/
abbrev Streamer := List UInt8 → Streamed

/-- What an input streams: its items, and the fault that ends them. -/
structure Feed where
  items : List Json
  fault : Option ReadFault

/-- What inputs give when they are asked for one more item. -/
inductive Reading
  | item (v : Json)
  | fault (fault : ReadFault)

namespace Source

/-- The input that an argument names. -/
def find (w : Workspace) (argument : String) : Except ReadFault Source :=
  if argument = "-" then .ok ⟨"<stdin>", .file w.input⟩
  else
    let path := Path.ofText argument
    match w.entry? path with
    | some contents => .ok ⟨path.text, contents⟩
    | none => .error (.fileNotFound path)

/-- All inputs; the first one that is missing is reported. -/
def findAll (w : Workspace) (arguments : List String) : Except ReadFault (List Source) :=
  if arguments = [] then .error .noInputs else arguments.mapM (find w)

/-- The value of a text. -/
def parse (lenient : Bool) (text : List Char) : Except InputFault Json :=
  if lenient then (Lenient.parse text).mapError .notLiteral
  else (Json.parse text).mapError .notJson

/-- The value of an input. -/
def read (lenient : Bool) (s : Source) : Except ReadFault Json :=
  match s.contents with
  | .directory => .error (.input s.name .directory)
  | .file octets =>
      match Text.Utf8.decode (Text.Utf8.dropMark octets) with
      | .error fault => .error (.input s.name (.notText fault))
      | .ok text => (parse lenient text).mapError (.input s.name)

/-- The value of all inputs. -/
def readAll (lenient : Bool) (sources : List Source) : Except ReadFault Json := do
  match ← sources.mapM (read lenient) with
  | [v] => .ok v
  | vs => .ok (.array vs)

def feed (stream : Streamer) (s : Source) : Feed :=
  match s.contents with
  | .directory => ⟨[], some (.directory s.name)⟩
  | .file octets =>
      let streamed := stream octets
      ⟨streamed.items, if streamed.isSound then none else some (.input s.name .notStreamable)⟩

end Source

namespace Feed

/-- Feeds one after the other, up to the first fault. -/
def join : List Feed → Feed
  | [] => ⟨[], none⟩
  | f :: rest =>
      match f.fault with
      | some fault => ⟨f.items, some fault⟩
      | none => ⟨f.items ++ (join rest).items, (join rest).fault⟩

/-- What a feed gives in turn: its items, and then its fault. -/
def readings (f : Feed) : List Reading :=
  f.items.map .item ++ f.fault.toList.map .fault

/-- Takes up to `size` items behind those in `taken`, or all of them.  Whether there are enough is
only looked at when one more has come. -/
def collect (size : Option Nat) (taken : List Json) : List Reading → Except ReadFault (List Json)
  | [] => .ok taken
  | .fault fault :: _ => .error fault
  | .item v :: rest =>
      if size.any (· ≤ taken.length) then .ok taken else collect size (taken ++ [v]) rest

/-- The first `size` items, or all of them. -/
def sample (size : Option Int) (f : Feed) : Except ReadFault (List Json) :=
  match size with
  | none => collect none [] f.readings
  | some n =>
      if n < 0 then .error (.negativeSize n) else collect (some n.toNat) [] f.readings

end Feed

end TypeSketch
