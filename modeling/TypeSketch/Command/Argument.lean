import TypeSketch.Command.Usage
import TypeSketch.Name.Identifier
import TypeSketch.Text.Integer

/-!
# Arguments

Arguments are first told apart, each on its own: flags, operands, and the two dashes behind which
all is operand.  Then `steps` reads them from left to right.  A long flag may be cut as long as it
stays unique; its value stands behind an equals sign or is the next argument.  Short flags may share
a dash.  Operands that stand together are taken together, once.
-/

namespace TypeSketch

/-- A value that stands in the same argument as its flag. -/
structure Attached where
  text : List Char
  /-- Whether an equals sign stands in front of it. -/
  byEquals : Bool

/-- A flag as it is found in an argument. -/
structure FoundFlag where
  flag : Flag
  /-- Whether it is spelled with one dash. -/
  isShort : Bool
  attached : Option Attached

inductive Argument
  | operand (text : String)
  | separator
  /-- What looks like a flag, and the flag that it is. -/
  | flag (text : String) (found : Option FoundFlag)

namespace Argument

def text : Argument → String
  | .operand text => text
  | .separator => "--"
  | .flag text _ => text

def isFlag : Argument → Bool
  | .flag _ _ => true
  | _ => false

def isSeparator : Argument → Bool
  | .separator => true
  | _ => false

/-- The spellings of some flags, with the flag of each. -/
def spellingsOf (flags : List Flag) : List (String × Flag) :=
  flags.flatMap fun f => f.spellings.map fun s => (s, f)

def isShortSpelling (spelling : List Char) : Bool :=
  (spelling.drop 1).head? ≠ some '-'

/-- A negative number, with or without a point. -/
def isNegativeNumber (s : List Char) : Bool :=
  match Name.chomp s with
  | '-' :: body =>
      let isDigit (c : Char) : Bool := (Text.digit? c).isSome
      match body.dropWhile isDigit with
      | [] => body ≠ []
      | '.' :: decimals => decimals ≠ [] && decimals.all isDigit
      | _ => false
  | _ => false

/-- The text in front of the first equals sign, and the value behind it. -/
def splitEquals (s : List Char) : List Char × Option Attached :=
  match s.dropWhile (· ≠ '=') with
  | [] => (s, none)
  | _ :: value => (s.takeWhile (· ≠ '='), some ⟨value, true⟩)

/-- The flags that an argument may be a cut or lengthened form of, with their spellings. -/
def candidates (flags : List Flag) (argument : List Char) : List (String × FoundFlag) :=
  let known := spellingsOf flags
  if isShortSpelling argument then
    known.filterMap fun e =>
      if e.1.toList = argument.take 2 then
        some (e.1, ⟨e.2, true, some ⟨argument.drop 2, false⟩⟩)
      else if argument.isPrefixOf e.1.toList then some (e.1, ⟨e.2, true, none⟩)
      else none
  else
    let parts := splitEquals argument
    known.filterMap fun e =>
      if parts.1.isPrefixOf e.1.toList then
        some (e.1, ⟨e.2, isShortSpelling e.1.toList, parts.2⟩)
      else none

/-- The flag with exactly this spelling. -/
def spelled? (flags : List Flag) (spelling : List Char) (attached : Option Attached) :
    Option FoundFlag :=
  ((spellingsOf flags).find? fun e => e.1.toList = spelling).map fun e =>
    ⟨e.2, isShortSpelling spelling, attached⟩

/-- What an argument is. -/
def classify (flags : List Flag) (argument : String) : Except UsageFault Argument :=
  let chars := argument.toList
  let parts := splitEquals chars
  if chars.head? ≠ some '-' then .ok (.operand argument)
  else
    match spelled? flags chars none with
    | some found => .ok (.flag argument (some found))
    | none =>
        if chars = ['-'] then .ok (.operand argument)
        else
          match parts.2.bind fun attached => spelled? flags parts.1 (some attached) with
          | some found => .ok (.flag argument (some found))
          | none =>
              match candidates flags chars with
              | [(_, found)] => .ok (.flag argument (some found))
              | [] =>
                  if isNegativeNumber chars || chars.contains ' ' then .ok (.operand argument)
                  else .ok (.flag argument none)
              | several => .error (.ambiguous argument (several.map (·.1)))

def classifyAll (flags : List Flag) : List String → Except UsageFault (List Argument)
  | [] => .ok []
  | a :: rest =>
      if a = "--" then .ok (.separator :: rest.map .operand)
      else do
        let first ← classify flags a
        let others ← classifyAll flags rest
        .ok (first :: others)

end Argument

/-- What a group of arguments does. -/
inductive Step
  | set (flag : Flag) (value : Option String)
  /-- The operands, with the two dashes among them. -/
  | operands (texts : List String)
  /-- An argument that no flag or operand accounts for. -/
  | extra (text : String)
  | fault (fault : UsageFault)

namespace Step

/-- The flags of one argument, where `chars` stands attached to the first of them.  A flag that
still waits for a value comes beside the steps. -/
def cluster (flags : List Flag) (flag : Flag) (isShort byEquals : Bool) (chars : List Char) :
    Except UsageFault (List Step × Option Flag) :=
  if flag.takesValue then .ok ([.set flag (some (String.ofList chars))], none)
  else
    match chars with
    | [] => .error (.needlessValue flag "")
    | c :: more =>
        if !isShort || byEquals || c = '-' then .error (.needlessValue flag (String.ofList chars))
        else
          match Argument.spelled? flags ['-', c] none with
          | none => .ok ([.extra (String.ofList ('-' :: c :: more)), .set flag none], none)
          | some found =>
              match more with
              | [] => .ok ([.set flag none], some found.flag)
              | '=' :: value =>
                  (cluster flags found.flag true true value).map fun r =>
                    (.set flag none :: r.1, r.2)
              | d :: value =>
                  (cluster flags found.flag true false (d :: value)).map fun r =>
                    (.set flag none :: r.1, r.2)

/-- The steps of an argument with a flag, apart from a flag that waits for a value. -/
def ofFound (flags : List Flag) (found : FoundFlag) :
    Except UsageFault (List Step × Option Flag) :=
  match found.attached with
  | some a => cluster flags found.flag found.isShort a.byEquals a.text
  | none => .ok ([], some found.flag)

/-- The step of a flag whose value, if it takes one, is the next argument, and what follows. -/
def await (flag : Flag) (rest : List Argument) : Except UsageFault (Step × List Argument) :=
  if flag.takesValue then
    match rest with
    | .operand value :: after => .ok (.set flag (some value), after)
    | _ => .error (.missingValue flag)
  else .ok (.set flag none, rest)

theorem length_await_le {flag : Flag} {rest after : List Argument} {step : Step}
    (h : await flag rest = .ok (step, after)) : after.length ≤ rest.length := by
  unfold await at h
  split at h
  · split at h <;> cases h
    simp
  · cases h
    exact Nat.le_refl _

/-- The steps of a flag, and the arguments behind it and its value. -/
def ofFlag (flags : List Flag) (found : FoundFlag) (rest : List Argument) :
    Except UsageFault (List Step × List Argument) :=
  match ofFound flags found with
  | .error e => .error e
  | .ok (steps, none) => .ok (steps, rest)
  | .ok (steps, some waiting) => (await waiting rest).map fun r => (steps ++ [r.1], r.2)

theorem length_ofFlag_le {flags : List Flag} {found : FoundFlag} {rest after : List Argument}
    {steps : List Step} (h : ofFlag flags found rest = .ok (steps, after)) :
    after.length ≤ rest.length := by
  unfold ofFlag at h
  split at h
  · cases h
  · cases h
    exact Nat.le_refl _
  · next waiting _ =>
    cases hw : await waiting rest with
    | error e =>
      rw [hw] at h
      cases h
    | ok r =>
      rw [hw] at h
      cases h
      exact length_await_le hw

/-- The number of arguments that are operands here: none, or all up to the next flag, or, where
flags belong to the operands, all. -/
def operandCount (withFlags : Bool) (arguments : List Argument) : Nat :=
  let dashes := (arguments.takeWhile Argument.isSeparator).length
  match arguments.drop dashes with
  | .operand _ :: rest =>
      dashes + 1 + if withFlags then rest.length else (rest.takeWhile (!·.isFlag)).length
  | _ => 0

/-- The steps of some arguments.  `isOpen` tells whether operands may still be taken, and
`withFlags` whether all flags behind them belong to them. -/
def ofArguments (flags : List Flag) (withFlags isOpen : Bool) (arguments : List Argument) :
    List Step :=
  match arguments with
  | [] => []
  | .flag text none :: rest => .extra text :: ofArguments flags withFlags isOpen rest
  | .flag _ (some found) :: rest =>
      match _h : ofFlag flags found rest with
      | .ok (steps, after) => steps ++ ofArguments flags withFlags isOpen after
      | .error e => [.fault e]
  | first :: rest =>
      let count := if isOpen then operandCount withFlags (first :: rest) else 0
      if 0 < count then
        .operands (((first :: rest).take count).map Argument.text) ::
          ofArguments flags withFlags false ((first :: rest).drop count)
      else .extra first.text :: ofArguments flags withFlags isOpen rest
termination_by arguments.length
decreasing_by
  · simp
  · have := length_ofFlag_le _h
    simp
    omega
  · simp only [List.length_drop, List.length_cons]
    omega
  · simp

/-- The steps of a command line. -/
def all (flags : List Flag) (withFlags : Bool) (arguments : List String) :
    Except UsageFault (List Step) :=
  (Argument.classifyAll flags arguments).map (ofArguments flags withFlags true)

end Step

end TypeSketch
