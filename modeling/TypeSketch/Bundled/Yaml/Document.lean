import TypeSketch.Bundled.Yaml.Scalar
import TypeSketch.Bundled.Yaml.Token

/-!
# Documents of YAML

A stand-in for the library that reads YAML, to run the program with.  Statements about the program
are about any such library and not about this one.

`parse` reads the single document of a text as a setting.  Collections are closed one by one: the
pieces between the tokens that open and close one become its value.  A value that is left out is
null, a key must be a scalar, and of several values of a key the last counts.
-/

namespace TypeSketch.Bundled.Yaml

/-- What an open collection holds. -/
inductive Piece
  | mark (mark : Mark)
  | value (setting : Setting)

/-- The value at the start of some pieces, or null, and the pieces behind it. -/
def optionalValue : List Piece → Setting × List Piece
  | .value v :: rest => (v, rest)
  | rest => (.null, rest)

theorem length_optionalValue_le (pieces : List Piece) :
    (optionalValue pieces).2.length ≤ pieces.length := by
  unfold optionalValue
  split <;> simp

/-- The key and the value behind the mark of a key, and the pieces behind them. -/
def pair (pieces : List Piece) : (Setting × Setting) × List Piece :=
  let key := optionalValue pieces
  match key.2 with
  | .mark .value :: rest =>
      let value := optionalValue rest
      ((key.1, value.1), value.2)
  | rest => ((key.1, .null), rest)

theorem length_pair_le (pieces : List Piece) : (pair pieces).2.length ≤ pieces.length := by
  have h₁ := length_optionalValue_le pieces
  unfold pair
  dsimp only
  split
  next rest h =>
    have h₂ := length_optionalValue_le rest
    rw [h] at h₁
    simp at h₁ ⊢
    omega
  next => exact h₁

/-- A key of a mapping: only scalars may be keys. -/
def mapKey? : Setting → Option MapKey
  | .null => some .null
  | .scalar l => some (.literal l)
  | _ => none

/-- The values of a sequence told by indentation. -/
def items (pieces : List Piece) : Option (List Setting) :=
  match pieces with
  | [] => some []
  | .mark .entry :: rest =>
      (items (optionalValue rest).2).map fun later => (optionalValue rest).1 :: later
  | _ => none
termination_by pieces.length
decreasing_by
  have := length_optionalValue_le rest
  simp
  omega

/-- The entries of a mapping told by indentation. -/
def entries (pieces : List Piece) : Option (List (MapKey × Setting)) :=
  match pieces with
  | [] => some []
  | .mark .key :: rest => do
      let key ← mapKey? (pair rest).1.1
      let later ← entries (pair rest).2
      some ((key, (pair rest).1.2) :: later)
  | _ => none
termination_by pieces.length
decreasing_by
  have := length_pair_le rest
  simp
  omega

/-- The stretches of pieces between commas. -/
def splitCommas : List Piece → List (List Piece)
  | [] => [[]]
  | .mark .comma :: rest => [] :: splitCommas rest
  | piece :: rest =>
      match splitCommas rest with
      | [] => [[piece]]
      | first :: others => (piece :: first) :: others

/-- The members between brackets, where the last comma may have nothing behind it. -/
def members (pieces : List Piece) : List (List Piece) :=
  match (splitCommas pieces).reverse with
  | [] :: before => before.reverse
  | _ => splitCommas pieces

/-- A member with the mark of a key. -/
def flowPair? : List Piece → Option (MapKey × Setting)
  | .mark .key :: rest =>
      match pair rest with
      | ((key, value), []) => (mapKey? key).map fun k => (k, value)
      | _ => none
  | _ => none

/-- A member of a sequence in brackets: a pair is a mapping of one entry. -/
def flowItem? (pieces : List Piece) : Option Setting :=
  match pieces with
  | [.value v] => some v
  | _ => (flowPair? pieces).map fun e => .ofEntries [e]

/-- A member of a mapping in brackets: a value alone is a key. -/
def flowEntry? (pieces : List Piece) : Option (MapKey × Setting) :=
  match pieces with
  | [.value v] => (mapKey? v).map fun k => (k, .null)
  | _ => flowPair? pieces

/-- The value of a collection with the given contents. -/
def collect (collection : Collection) (pieces : List Piece) : Option Setting :=
  match collection with
  | .sequence => (items pieces).map .list
  | .mapping => (entries pieces).map .ofEntries
  | .flowSequence => ((members pieces).mapM flowItem?).map .list
  | .flowMapping => ((members pieces).mapM flowEntry?).map .ofEntries

/-- The pieces that tokens make up.  `opened` holds the collections that are open, innermost first,
with the pieces in front of them, and `pieces` those of the innermost one; both come last first. -/
def assemble (opened : List (Collection × List Piece)) (pieces : List Piece) :
    List Token → Option (List Piece)
  | [] => if opened.isEmpty then some pieces.reverse else none
  | token :: rest =>
      match token, opened with
      | .opening c, _ => assemble ((c, pieces) :: opened) [] rest
      | .closing c, (d, outer) :: others =>
          if c = d then
            match collect c pieces.reverse with
            | some v => assemble others (.value v :: outer) rest
            | none => none
          else none
      | .closing _, [] => none
      | .mark m, _ => assemble opened (.mark m :: pieces) rest
      | .plain text, _ =>
          match plainValue? text with
          | some v => assemble opened (.value v :: pieces) rest
          | none => none
      | .quoted text, _ =>
          assemble opened (.value (.scalar (.str (String.ofList text))) :: pieces) rest
      | .documentStart, _ => none
      | .documentEnd, _ => none

/-- The tokens between the marks of the single document. -/
def body? (tokens : List Token) : Option (List Token) :=
  let afterStart := if tokens.head? = some .documentStart then tokens.drop 1 else tokens
  let isInner (t : Token) : Bool := t ≠ .documentStart && t ≠ .documentEnd
  if tokens.head? = some .documentEnd then none
  else if (afterStart.dropWhile isInner).all (· = .documentEnd) then
    some (afterStart.takeWhile isInner)
  else none

/-- The setting that a text spells; a text without a value spells null. -/
def parse (text : List Char) : Option Setting := do
  if !text.all isAllowed then none
  let tokens ← tokens text
  let body ← body? tokens
  match ← assemble [] [] body with
  | [] => some .null
  | [.value v] => some v
  | _ => none

end TypeSketch.Bundled.Yaml
