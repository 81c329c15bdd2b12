import TypeSketch.Entries
import TypeSketch.Json.Scan

/-!
# Parsing JSON

Values are built by a machine that takes one token at a time and keeps the containers that are
still open.  A field name that comes again replaces the value of the first.  `parse` runs the
machine over a whole text and says where it goes wrong.
-/

namespace TypeSketch.Json

/-- An open container that waits for a value: its contents so far come last first. -/
inductive Frame
  | array (items : List Json)
  | object (fields : List (String × Json)) (name : String)

/-- What the machine waits for; the open containers come innermost first. -/
inductive State
  /-- A value. -/
  | value (opened : List Frame)
  /-- The first element of an array, or its end. -/
  | firstElement (opened : List Frame)
  /-- The first name of an object, or its end. -/
  | firstName (opened : List Frame)
  /-- A name. -/
  | nextName (fields : List (String × Json)) (opened : List Frame)
  /-- The colon behind a name. -/
  | colon (fields : List (String × Json)) (name : String) (opened : List Frame)
  /-- A comma or the end of an array. -/
  | afterElement (items : List Json) (opened : List Frame)
  /-- A comma or the end of an object. -/
  | afterField (fields : List (String × Json)) (opened : List Frame)
  /-- Nothing: the value is complete. -/
  | finished (value : Json)

namespace State

/-- The state after a value is complete. -/
def put (v : Json) : List Frame → State
  | [] => .finished v
  | .array items :: opened => .afterElement (v :: items) opened
  | .object fields name :: opened => .afterField ((name, v) :: fields) opened

def closeArray (items : List Json) (opened : List Frame) : State :=
  put (.array items.reverse) opened

def closeObject (fields : List (String × Json)) (opened : List Frame) : State :=
  put (.object (settle fields.reverse)) opened

/-- The state after the first token of a value. -/
def begin? (opened : List Frame) : Token → Option State
  | .openArray => some (.firstElement opened)
  | .openObject => some (.firstName opened)
  | .null => some (put .null opened)
  | .scalar l => some (put (.scalar l) opened)
  | _ => none

/-- The state after a token, if the token may stand there. -/
def step? : State → Token → Option State
  | .value opened, t => begin? opened t
  | .firstElement opened, .closeArray => some (closeArray [] opened)
  | .firstElement opened, t => begin? (.array [] :: opened) t
  | .firstName opened, .closeObject => some (closeObject [] opened)
  | .firstName opened, .scalar (.str name) => some (.colon [] name opened)
  | .nextName fields opened, .scalar (.str name) => some (.colon fields name opened)
  | .colon fields name opened, .colon => some (.value (.object fields name :: opened))
  | .afterElement items opened, .comma => some (.value (.array items :: opened))
  | .afterElement items opened, .closeArray => some (closeArray items opened)
  | .afterField fields opened, .comma => some (.nextName fields opened)
  | .afterField fields opened, .closeObject => some (closeObject fields opened)
  | _, _ => none

/-- The fault of a text that does not go on as the state demands. -/
def expecting : State → SyntaxFault
  | .value _ | .firstElement _ => .expectingValue
  | .firstName _ | .nextName _ _ => .expectingName
  | .colon _ _ _ => .expectingColon
  | .afterElement _ _ | .afterField _ _ => .expectingComma
  | .finished _ => .extraData

/-- Whether a string may stand here, so that a fault inside it is met. -/
def acceptsString : State → Bool
  | .value _ | .firstElement _ | .firstName _ | .nextName _ _ => true
  | _ => false

/-- The state after a symbol at the given place. -/
def advance (state : State) (place : List Char) : Symbol → Except Fault State
  | .token t =>
      match state.step? t with
      | some next => .ok next
      | none => .error ⟨state.expecting, place⟩
  | .brokenString fault =>
      .error (if state.acceptsString then fault else ⟨state.expecting, place⟩)
  | .other => .error ⟨state.expecting, place⟩

/-- The value that a list of symbols spells. -/
def run (state : State) : List (List Char × Symbol) → Except Fault Json
  | [] =>
      match state with
      | .finished v => .ok v
      | _ => .error ⟨state.expecting, []⟩
  | (place, symbol) :: rest =>
      match state.advance place symbol with
      | .ok next => run next rest
      | .error fault => .error fault

end State

/-- A fault with its place in the text: characters from the start, and line and column from 1. -/
structure SyntaxError where
  cause : SyntaxFault
  position : Nat
  line : Nat
  column : Nat
deriving DecidableEq

def Fault.locate (text : List Char) (fault : Fault) : SyntaxError :=
  let before := text.take (text.length - fault.place.length)
  { cause := fault.cause
    position := before.length
    line := before.count '\n' + 1
    column := (before.reverse.takeWhile (· ≠ '\n')).length + 1 }

def SyntaxError.message (e : SyntaxError) : String :=
  s!"{e.cause.message}: line {e.line} column {e.column} (char {e.position})"

/-- The value that the text spells.  A byte order mark is refused. -/
def parse (text : List Char) : Except SyntaxError Json :=
  if text.head? = some '\uFEFF' then
    .error (Fault.locate text ⟨.byteOrderMark, text⟩)
  else
    match (State.value []).run (symbols text) with
    | .ok v => .ok v
    | .error fault => .error (fault.locate text)

end TypeSketch.Json
