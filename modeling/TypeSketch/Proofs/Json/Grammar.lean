import TypeSketch.Proofs.Json.Layout

/-!
# The grammar of documents

`Derives` is the grammar of JSON over tokens, and `IsDocument` says which texts are documents: tokens
that make up a value, written in any of their ways with white space between and around them.  The
words for numbers without digits belong to no document.  Main statement: `isDocument_iff`, the
documents are the texts that can be read and have no such word.

`State.Awaits` is what the machine of the parser waits for in terms of the grammar: the rest of the
innermost part, and then what completes the containers that are open.
-/

namespace TypeSketch.Json

/-- The parts of a document. -/
inductive Part
  | value
  /-- One value or more, with commas between them. -/
  | elements
  /-- One pair of a name and a value or more, with commas between them. -/
  | members

/-- What tokens make up. -/
inductive Derives : Part → List Token → Prop
  | null : Derives .value [.null]
  | scalar (l : Literal) : Derives .value [.scalar l]
  | emptyArray : Derives .value [.openArray, .closeArray]
  | array {toks : List Token} (h : Derives .elements toks) :
      Derives .value (.openArray :: (toks ++ [.closeArray]))
  | emptyObject : Derives .value [.openObject, .closeObject]
  | object {toks : List Token} (h : Derives .members toks) :
      Derives .value (.openObject :: (toks ++ [.closeObject]))
  | element {toks : List Token} (h : Derives .value toks) : Derives .elements toks
  | elements {toks rest : List Token} (h : Derives .value toks) (hrest : Derives .elements rest) :
      Derives .elements (toks ++ .comma :: rest)
  | member (name : String) {toks : List Token} (h : Derives .value toks) :
      Derives .members (.scalar (.str name) :: .colon :: toks)
  | members (name : String) {toks rest : List Token} (h : Derives .value toks)
      (hrest : Derives .members rest) :
      Derives .members (.scalar (.str name) :: .colon :: (toks ++ .comma :: rest))

/-- Whether a text is a document. -/
def IsDocument (text : List Char) : Prop :=
  ∃ toks ws, Derives .value toks ∧ List.Forall₂ TokenText toks ws ∧
    (∀ w ∈ ws, w ∉ numberWords.map (·.1)) ∧ Surrounded IsSpaces ws text

variable {part : Part} {toks rest : List Token} {opened : List Frame} {t : Token} {v : Json}
  {state next : State}

section Reading

/-- How the machine reads a part: a value is completed, and elements and members are added to the
container that they stand in. -/
def Part.Read : Part → List Token → Prop
  | .value, toks => ∃ v, ∀ opened, (State.value opened).steps? toks = some (.put v opened)
  | .elements, toks => ∃ more, ∀ items opened,
      (State.value (.array items :: opened)).steps? toks =
        some (.afterElement (more ++ items) opened)
  | .members, toks => ∃ more, ∀ fields opened,
      (State.nextName fields opened).steps? toks = some (.afterField (more ++ fields) opened)

/-- A part is not empty and does not start with the end of an array. -/
theorem Derives.exists_first (h : Derives part toks) :
    ∃ t rest, toks = t :: rest ∧ t ≠ .closeArray := by
  induction h with
  | element _ ih => exact ih
  | elements _ _ ih _ =>
      obtain ⟨t, rest, rfl, ht⟩ := ih
      exact ⟨t, _, rfl, ht⟩
  | _ => exact ⟨_, _, rfl, nofun⟩

/-- The elements of an array are read as any value behind a comma. -/
theorem steps_firstElement (h : Derives .elements toks) :
    (State.firstElement opened).steps? (toks ++ rest) =
      (State.value (.array [] :: opened)).steps? (toks ++ rest) := by
  obtain ⟨t, tail, rfl, ht⟩ := h.exists_first
  have hstep : (State.firstElement opened).step? t =
      (State.value (.array [] :: opened)).step? t := by
    cases t with
    | closeArray => exact absurd rfl ht
    | _ => rfl
  rw [List.cons_append, State.steps?, State.steps?, hstep]

/-- The members of an object are read as any name behind a comma. -/
theorem steps_firstName (h : Derives .members toks) :
    (State.firstName opened).steps? (toks ++ rest) =
      (State.nextName [] opened).steps? (toks ++ rest) := by
  cases h <;> rfl

/-- What a value is read as in front of other tokens. -/
theorem steps_value_append {ys : List Token}
    (h : (State.value opened).steps? toks = some (.put v opened)) :
    (State.value opened).steps? (toks ++ ys) = (State.put v opened).steps? ys := by
  rw [State.steps?_append, h]
  rfl

theorem steps_member (name : String) (fields : List (String × Json)) (opened : List Frame)
    (toks : List Token) :
    (State.nextName fields opened).steps? (.scalar (.str name) :: .colon :: toks) =
      (State.value (.object fields name :: opened)).steps? toks := rfl

theorem Derives.read (h : Derives part toks) : part.Read toks := by
  induction h with
  | null => exact ⟨.null, fun _ => rfl⟩
  | scalar l => exact ⟨.scalar l, fun _ => rfl⟩
  | emptyArray => exact ⟨.array [], fun _ => rfl⟩
  | @array toks h ih =>
      obtain ⟨more, hmore⟩ := ih
      refine ⟨.array (more ++ []).reverse, fun opened => ?_⟩
      show (State.firstElement opened).steps? (toks ++ [.closeArray]) = _
      rw [steps_firstElement h, State.steps?_append, hmore]
      rfl
  | emptyObject => exact ⟨.object (settle []), fun _ => rfl⟩
  | @object toks h ih =>
      obtain ⟨more, hmore⟩ := ih
      refine ⟨.object (settle (more ++ []).reverse), fun opened => ?_⟩
      show (State.firstName opened).steps? (toks ++ [.closeObject]) = _
      rw [steps_firstName h, State.steps?_append, hmore]
      rfl
  | element _ ih =>
      obtain ⟨v, hv⟩ := ih
      exact ⟨[v], fun items opened => hv _⟩
  | elements _ _ ih ihrest =>
      obtain ⟨v, hv⟩ := ih
      obtain ⟨more, hmore⟩ := ihrest
      refine ⟨more ++ [v], fun items opened => ?_⟩
      rw [steps_value_append (hv _), List.append_assoc]
      exact hmore (v :: items) opened
  | member name _ ih =>
      obtain ⟨v, hv⟩ := ih
      refine ⟨[(name, v)], fun fields opened => ?_⟩
      rw [steps_member]
      exact hv _
  | members name _ _ ih ihrest =>
      obtain ⟨v, hv⟩ := ih
      obtain ⟨more, hmore⟩ := ihrest
      refine ⟨more ++ [(name, v)], fun fields opened => ?_⟩
      rw [steps_member, steps_value_append (hv _), List.append_assoc]
      exact hmore ((name, v) :: fields) opened

end Reading

section Waiting

/-- What stands behind a value in open containers: each of them ends there, or goes on behind a comma
and then ends. -/
def Behind : List Frame → List Token → Prop
  | [], toks => toks = []
  | .array _ :: opened, toks => ∃ rest, Behind opened rest ∧
      (toks = .closeArray :: rest ∨
        ∃ more, Derives .elements more ∧ toks = .comma :: (more ++ .closeArray :: rest))
  | .object _ _ :: opened, toks => ∃ rest, Behind opened rest ∧
      (toks = .closeObject :: rest ∨
        ∃ more, Derives .members more ∧ toks = .comma :: (more ++ .closeObject :: rest))

namespace State

/-- What a state waits for. -/
def Awaits : State → List Token → Prop
  | .value opened, toks => ∃ xs rest, Derives .value xs ∧ Behind opened rest ∧ toks = xs ++ rest
  | .firstElement opened, toks => ∃ rest, Behind opened rest ∧
      (toks = .closeArray :: rest ∨
        ∃ xs, Derives .elements xs ∧ toks = xs ++ .closeArray :: rest)
  | .firstName opened, toks => ∃ rest, Behind opened rest ∧
      (toks = .closeObject :: rest ∨
        ∃ xs, Derives .members xs ∧ toks = xs ++ .closeObject :: rest)
  | .nextName _ opened, toks => ∃ xs rest, Derives .members xs ∧ Behind opened rest ∧
      toks = xs ++ .closeObject :: rest
  | .colon fields name opened, toks => ∃ xs rest, Derives .value xs ∧
      Behind (.object fields name :: opened) rest ∧ toks = .colon :: (xs ++ rest)
  | .afterElement items opened, toks => Behind (.array items :: opened) toks
  | .afterField fields opened, toks => Behind (.object fields "" :: opened) toks
  | .finished _, toks => toks = []

theorem awaits_put_iff : (put v opened).Awaits toks ↔ Behind opened toks := by
  rcases opened with _ | ⟨_ | _, opened⟩ <;> exact Iff.rfl

/-- A value and what stands behind it in an array are elements up to the end of the array. -/
theorem exists_elements {items : List Json} {xs ys : List Token} (hx : Derives .value xs)
    (hy : Behind (.array items :: opened) ys) :
    ∃ zs rest, Derives .elements zs ∧ Behind opened rest ∧ xs ++ ys = zs ++ .closeArray :: rest := by
  obtain ⟨rest, hrest, rfl | ⟨more, hmore, rfl⟩⟩ := hy
  · exact ⟨xs, rest, .element hx, hrest, rfl⟩
  · exact ⟨_, rest, .elements hx hmore, hrest, by simp⟩

/-- A name, its value and what stands behind them in an object are members up to the end of the
object. -/
theorem exists_members {fields : List (String × Json)} {name other : String} {xs ys : List Token}
    (hx : Derives .value xs) (hy : Behind (.object fields other :: opened) ys) :
    ∃ zs rest, Derives .members zs ∧ Behind opened rest ∧
      .scalar (.str name) :: .colon :: (xs ++ ys) = zs ++ .closeObject :: rest := by
  obtain ⟨rest, hrest, rfl | ⟨more, hmore, rfl⟩⟩ := hy
  · exact ⟨_, rest, .member name hx, hrest, rfl⟩
  · exact ⟨_, rest, .members name hx hmore, hrest, by simp⟩

theorem awaits_of_begin (h : begin? opened t = some next) (hnext : next.Awaits toks) :
    (value opened).Awaits (t :: toks) := by
  cases t with
  | openArray =>
      cases h
      obtain ⟨rest, hrest, rfl | ⟨xs, hxs, rfl⟩⟩ := hnext
      · exact ⟨_, rest, .emptyArray, hrest, rfl⟩
      · exact ⟨_, rest, .array hxs, hrest, by simp⟩
  | openObject =>
      cases h
      obtain ⟨rest, hrest, rfl | ⟨xs, hxs, rfl⟩⟩ := hnext
      · exact ⟨_, rest, .emptyObject, hrest, rfl⟩
      · exact ⟨_, rest, .object hxs, hrest, by simp⟩
  | null =>
      cases h
      exact ⟨_, toks, .null, awaits_put_iff.mp hnext, rfl⟩
  | scalar l =>
      cases h
      exact ⟨_, toks, .scalar l, awaits_put_iff.mp hnext, rfl⟩
  | _ => cases h

/-- A name is followed by the rest of the members. -/
theorem exists_members_of_colon {fields : List (String × Json)} {name : String}
    (h : (colon fields name opened).Awaits toks) :
    ∃ xs rest, Derives .members xs ∧ Behind opened rest ∧
      .scalar (.str name) :: toks = xs ++ .closeObject :: rest := by
  obtain ⟨xs, ys, hx, hy, rfl⟩ := h
  exact exists_members hx hy

/-- A step takes the first of the tokens that are waited for. -/
theorem awaits_of_step (h : state.step? t = some next) (hnext : next.Awaits toks) :
    state.Awaits (t :: toks) := by
  unfold step? at h
  split at h
  case h_1 => exact awaits_of_begin h hnext
  case h_2 =>
    cases h
    exact ⟨toks, awaits_put_iff.mp hnext, .inl rfl⟩
  case h_3 =>
    obtain ⟨xs, ys, hx, hy, heq⟩ := awaits_of_begin h hnext
    obtain ⟨zs, rest, hz, hrest, hzs⟩ := exists_elements hx hy
    exact ⟨rest, hrest, .inr ⟨zs, hz, heq.trans hzs⟩⟩
  case h_4 =>
    cases h
    exact ⟨toks, awaits_put_iff.mp hnext, .inl rfl⟩
  case h_5 =>
    cases h
    obtain ⟨xs, rest, hx, hrest, heq⟩ := exists_members_of_colon hnext
    exact ⟨rest, hrest, .inr ⟨xs, hx, heq⟩⟩
  case h_6 =>
    cases h
    exact exists_members_of_colon hnext
  case h_7 =>
    cases h
    obtain ⟨xs, rest, hx, hrest, rfl⟩ := hnext
    exact ⟨xs, rest, hx, hrest, rfl⟩
  case h_8 =>
    cases h
    obtain ⟨xs, ys, hx, hy, rfl⟩ := hnext
    obtain ⟨zs, rest, hz, hrest, heq⟩ := exists_elements hx hy
    exact ⟨rest, hrest, .inr ⟨zs, hz, congrArg _ heq⟩⟩
  case h_9 =>
    cases h
    exact ⟨toks, awaits_put_iff.mp hnext, .inl rfl⟩
  case h_10 =>
    cases h
    obtain ⟨xs, rest, hx, hrest, rfl⟩ := hnext
    exact ⟨rest, hrest, .inr ⟨xs, hx, rfl⟩⟩
  case h_11 =>
    cases h
    exact ⟨toks, awaits_put_iff.mp hnext, .inl rfl⟩
  case h_12 => cases h

/-- Tokens that lead to the end of a document are waited for. -/
theorem awaits_of_steps (h : state.steps? toks = some (.finished v)) : state.Awaits toks := by
  induction toks generalizing state with
  | nil =>
      cases h
      rfl
  | cons t toks ih =>
      obtain ⟨next, hstep, hrest⟩ := Option.bind_eq_some_iff.mp h
      exact awaits_of_step hstep (ih hrest)

end State

/-- The tokens of a value are those that the machine reads to the end. -/
theorem derives_value_iff :
    Derives .value toks ↔ ∃ v, (State.value []).steps? toks = some (.finished v) := by
  constructor
  · intro h
    obtain ⟨v, hv⟩ := h.read
    exact ⟨v, hv []⟩
  · rintro ⟨v, hv⟩
    obtain ⟨xs, rest, hx, rfl, rfl⟩ := State.awaits_of_steps hv
    rwa [List.append_nil]

end Waiting

section Texts

variable {w g tail : List Char} {ws : List (List Char)}

/-- Whether one of the words for numbers without digits is among the tokens of a text. -/
def hasNumberWord (text : List Char) : Bool :=
  (tokenTexts text).any fun w => decide (w ∈ numberWords.map (·.1))

theorem hasNumberWord_eq_false_iff {text : List Char} : hasNumberWord text = false ↔
    ∀ w ∈ tokenTexts text, w ∉ numberWords.map (·.1) := by
  simp only [hasNumberWord, List.any_eq_false, decide_eq_true_eq]

/-- The text of a token is cut out behind white space. -/
theorem tokenTexts_of_tokenText (h : TokenText t w) (hg : IsSpaces g)
    (htail : t.isNumber = true → StopsNumber tail) :
    tokenTexts (g ++ (w ++ tail)) = w :: tokenTexts tail := by
  obtain ⟨c, back, rfl, hdrop, hread⟩ := h.read_behind hg htail
  exact tokenTexts_of_dropWhile hdrop hread rfl

/-- The texts of tokens with white space between them are cut out one by one. -/
theorem tokenTexts_of_spaced {b : List Char} (hw : List.Forall₂ TokenText toks ws)
    (hchain : toks.IsChain Follows) (hb : Spaced IsSpaces ws b) (hg : IsSpaces g)
    (htail : IsSpaces tail) : tokenTexts (g ++ (b ++ tail)) = ws := by
  have hend : StopsNumber tail := by simpa using htail.stopsNumber_append stopsNumber_nil
  induction hb generalizing toks g with
  | last w =>
      obtain ⟨t, _, ht, hnil, rfl⟩ := List.forall₂_cons_right_iff.mp hw
      cases hnil
      rw [tokenTexts_of_tokenText ht hg fun _ => hend, tokenTexts_of_isSpaces htail]
  | next hg' hs ih =>
      obtain ⟨t, ts, ht, hts, rfl⟩ := List.forall₂_cons_right_iff.mp hw
      rw [List.append_assoc, List.append_assoc, tokenTexts_of_tokenText ht hg
        (stopsNumber_behind hts hchain hs hg'), ih hts hchain.of_cons hg']

/-- The documents are the texts that can be read and have no word for a number. -/
theorem isDocument_iff {text : List Char} :
    IsDocument text ↔ (∃ v, parse text = .ok v) ∧ hasNumberWord text = false := by
  rw [hasNumberWord_eq_false_iff]
  constructor
  · rintro ⟨toks, ws, hvalue, hw, hwords, hs⟩
    obtain ⟨v, hv⟩ := derives_value_iff.mp hvalue
    refine ⟨⟨v, parse_of_surrounded hw hv hs⟩, ?_⟩
    obtain ⟨g, b, g', hg, hb, hg', rfl⟩ := hs
    rwa [tokenTexts_of_spaced hw (State.isChain_of_steps hv) hb hg hg']
  · rintro ⟨⟨v, hv⟩, hwords⟩
    obtain ⟨toks, hsteps, hw, hs⟩ := surrounded_of_parse hv
    exact ⟨toks, _, derives_value_iff.mpr ⟨v, hsteps⟩, hw, hwords, hs⟩

end Texts

end TypeSketch.Json
