import Mathlib.Data.List.Chain
import Mathlib.Data.List.Forall2
import Mathlib.Data.List.TakeWhile
import TypeSketch.Json.Parser
import TypeSketch.Proofs.Json.Scan

/-!
# The layout of a text

A text is read in two steps: its tokens are cut out, and the machine takes them one by one.  Main
statements: `parse_of_surrounded`, a text is read by its tokens alone, however much white space is
between and around them, and `surrounded_of_parse`, every text that can be read is laid out so.
-/

namespace TypeSketch.Json

section Steps

/-- The state after some tokens. -/
def State.steps? : State → List Token → Option State
  | state, [] => some state
  | state, t :: rest => (state.step? t).bind fun next => next.steps? rest

namespace State

theorem steps?_append (state : State) (xs ys : List Token) :
    state.steps? (xs ++ ys) = (state.steps? xs).bind fun next => next.steps? ys := by
  induction xs generalizing state with
  | nil => rfl
  | cons t xs ih =>
      simp only [List.cons_append, steps?]
      cases state.step? t with
      | none => rfl
      | some next => exact ih next

/-- A text is read by its tokens, wherever they stand. -/
theorem run_eq_ok_iff {state : State} {symbols : List (List Char × Symbol)} {v : Json} :
    state.run symbols = .ok v ↔ ∃ toks : List Token, symbols.map (·.2) = toks.map .token ∧
      state.steps? toks = some (.finished v) := by
  induction symbols generalizing state with
  | nil =>
      constructor
      · intro h
        cases state <;> cases h
        exact ⟨[], rfl, rfl⟩
      · rintro ⟨toks, htoks, h⟩
        obtain rfl : toks = [] := by simpa using htoks.symm
        cases h
        rfl
  | cons x symbols ih =>
      obtain ⟨place, symbol⟩ := x
      rw [run]
      constructor
      · intro h
        split at h
        next next hadvance =>
          obtain ⟨toks, htoks, hsteps⟩ := ih.mp h
          cases symbol with
          | token t =>
              rw [advance] at hadvance
              split at hadvance
              next hstep =>
                cases hadvance
                exact ⟨t :: toks, by simp [htoks], by simp [steps?, hstep, hsteps]⟩
              next => cases hadvance
          | brokenString fault => cases hadvance
          | other => cases hadvance
        next => cases h
      · rintro ⟨toks, htoks, hsteps⟩
        cases toks with
        | nil => cases htoks
        | cons t toks =>
            obtain ⟨rfl, hrest⟩ := List.cons.inj htoks
            rw [steps?] at hsteps
            obtain ⟨next, hstep, hsteps⟩ := Option.bind_eq_some_iff.mp hsteps
            simp only [advance, hstep]
            exact ih.mpr ⟨toks, hrest, hsteps⟩

end State

end Steps

section Neighbours

/-- A token that is a value by itself. -/
def Token.isAtom : Token → Bool
  | .null | .scalar _ => true
  | _ => false

def Token.closes : Token → Bool
  | .closeArray | .closeObject => true
  | _ => false

/-- What is known of two tokens in a row: no two values touch, nothing is closed behind a comma,
and a colon stands behind a name. -/
structure Follows (a b : Token) : Prop where
  atom : a.isAtom = true → b.isAtom = false
  comma : a = .comma → b.closes = false
  colon : b = .colon → ∃ name, a = .scalar (.str name)

theorem Follows.not_atom {a b : Token} (h : Follows a b) (hb : b.isAtom = true) :
    a.isAtom = false := by
  rw [Bool.eq_false_iff]
  intro ha
  rw [h.atom ha] at hb
  cases hb

namespace State

theorem put_step_of_isAtom {v : Json} {opened : List Frame} {t : Token} (ht : t.isAtom = true) :
    (put v opened).step? t = none := by
  rcases opened with _ | ⟨_ | _, opened⟩ <;> cases t <;> first | rfl | cases ht

theorem begin_of_isAtom {opened : List Frame} {t : Token} {next : State} (ht : t.isAtom = true)
    (h : begin? opened t = some next) : ∃ v, next = put v opened := by
  cases t with
  | null => exact ⟨.null, (Option.some.inj h).symm⟩
  | scalar l => exact ⟨.scalar l, (Option.some.inj h).symm⟩
  | _ => cases ht

/-- Behind a value by itself the value is complete, or it was a name. -/
theorem step_of_isAtom {state next : State} {t : Token} (ht : t.isAtom = true)
    (h : state.step? t = some next) : (∃ v opened, next = put v opened) ∨
      ∃ fields name opened, next = .colon fields name opened ∧ t = .scalar (.str name) := by
  unfold step? at h
  split at h
  case h_1 =>
    obtain ⟨v, rfl⟩ := begin_of_isAtom ht h
    exact .inl ⟨v, _, rfl⟩
  case h_3 =>
    obtain ⟨v, rfl⟩ := begin_of_isAtom ht h
    exact .inl ⟨v, _, rfl⟩
  case h_5 => exact .inr ⟨_, _, _, (Option.some.inj h).symm, rfl⟩
  case h_6 => exact .inr ⟨_, _, _, (Option.some.inj h).symm, rfl⟩
  all_goals first
    | cases ht
    | cases h

/-- Behind a comma there is an element or a name. -/
theorem step_comma {state next : State} (h : state.step? .comma = some next) :
    (∃ opened, next = .value opened) ∨ ∃ fields opened, next = .nextName fields opened := by
  cases state <;> simp [step?, begin?] at h
  · exact .inl ⟨_, h.symm⟩
  · exact .inr ⟨_, _, h.symm⟩

/-- A text does not end with a comma. -/
theorem getLast?_ne_comma {state : State} {toks : List Token} {v : Json}
    (h : state.steps? toks = some (.finished v)) : toks.getLast? ≠ some .comma := by
  intro hlast
  obtain ⟨front, rfl⟩ := List.getLast?_eq_some_iff.mp hlast
  rw [steps?_append] at h
  obtain ⟨before, -, h⟩ := Option.bind_eq_some_iff.mp h
  obtain ⟨next, hstep, hnext⟩ := Option.bind_eq_some_iff.mp h
  rcases step_comma hstep with ⟨opened, rfl⟩ | ⟨fields, opened, rfl⟩ <;> cases hnext

theorem step_colon {state next : State} (h : state.step? .colon = some next) :
    ∃ fields name opened, state = .colon fields name opened := by
  cases state <;> simp [step?, begin?] at h
  exact ⟨_, _, _, rfl⟩

theorem put_ne_colon {v : Json} {opened : List Frame} {fields name opened'} :
    put v opened ≠ .colon fields name opened' := by
  rcases opened with _ | ⟨_ | _, opened⟩ <;> simp [put]

/-- Only a name leads to the state in front of a colon. -/
theorem exists_name_of_step {state : State} {t : Token} {fields name opened}
    (h : state.step? t = some (.colon fields name opened)) : ∃ name, t = .scalar (.str name) := by
  unfold step? at h
  split at h
  all_goals first
    | exact ⟨_, rfl⟩
    | cases h
    | (unfold begin? at h
       split at h <;> first | cases h | exact absurd (Option.some.inj h) put_ne_colon)
    | exact absurd (Option.some.inj h) put_ne_colon

theorem follows_of_steps {state next last : State} {a b : Token}
    (ha : state.step? a = some next) (hb : next.step? b = some last) : Follows a b := by
  refine ⟨fun hatom => ?_, ?_, ?_⟩
  · rw [Bool.eq_false_iff]
    intro hb'
    rcases step_of_isAtom hatom ha with ⟨v, opened, rfl⟩ | ⟨fields, name, opened, rfl, -⟩
    · rw [put_step_of_isAtom hb'] at hb
      cases hb
    · cases b <;> simp [Token.isAtom, step?] at hb' hb
  · rintro rfl
    rcases step_comma ha with ⟨opened, rfl⟩ | ⟨fields, opened, rfl⟩ <;>
      cases b <;> first | rfl | cases hb
  · rintro rfl
    obtain ⟨fields, name, opened, rfl⟩ := step_colon hb
    exact exists_name_of_step ha

/-- Tokens that are read are no odd neighbours. -/
theorem isChain_of_steps {state last : State} {toks : List Token}
    (h : state.steps? toks = some last) : toks.IsChain Follows := by
  induction toks generalizing state with
  | nil => exact .nil
  | cons a toks ih =>
      obtain ⟨next, ha, h⟩ := Option.bind_eq_some_iff.mp h
      cases toks with
      | nil => exact .singleton a
      | cons b toks =>
          have hrest := ih h
          obtain ⟨_, hb, -⟩ := Option.bind_eq_some_iff.mp h
          exact .cons_cons (follows_of_steps ha hb) hrest

end State

end Neighbours

section Layout

/-- Texts in a row, with a gap between each two. -/
inductive Spaced (gap : List Char → Prop) : List (List Char) → List Char → Prop
  | last (w : List Char) : Spaced gap [w] w
  | next {w g s : List Char} {ws : List (List Char)} (hg : gap g) (h : Spaced gap ws s) :
      Spaced gap (w :: ws) (w ++ (g ++ s))

/-- Texts in a row, with gaps around them as well. -/
def Surrounded (gap : List Char → Prop) (ws : List (List Char)) (s : List Char) : Prop :=
  ∃ g b g', gap g ∧ Spaced gap ws b ∧ gap g' ∧ s = g ++ (b ++ g')

/-- White space or nothing. -/
def IsSpaces (g : List Char) : Prop := ∀ c ∈ g, isSpace c = true

theorem isSpaces_nil : IsSpaces [] := by
  rintro c ⟨⟩

theorem IsSpaces.cons {c : Char} {g : List Char} (hc : isSpace c = true) (h : IsSpaces g) :
    IsSpaces (c :: g) :=
  List.forall_mem_cons.mpr ⟨hc, h⟩

theorem IsSpaces.append {g g' : List Char} (h : IsSpaces g) (h' : IsSpaces g') :
    IsSpaces (g ++ g') := by
  intro c hc
  exact (List.mem_append.mp hc).elim (h c) (h' c)

theorem isSpaces_takeWhile (s : List Char) : IsSpaces (s.takeWhile isSpace) :=
  List.all_eq_true.mp List.all_takeWhile

theorem Spaced.ne_nil {gap : List Char → Prop} {ws : List (List Char)} {s : List Char}
    (h : Spaced gap ws s) : ws ≠ [] := by
  cases h <;> exact List.cons_ne_nil _ _

/-- The first text stands at the front. -/
theorem Spaced.exists_append {gap : List Char → Prop} {w s : List Char} {ws : List (List Char)}
    (h : Spaced gap (w :: ws) s) : ∃ rest, s = w ++ rest := by
  cases h with
  | last => exact ⟨[], (List.append_nil w).symm⟩
  | next => exact ⟨_, rfl⟩

/-- One more text at the end. -/
theorem Spaced.concat {gap : List Char → Prop} {ws : List (List Char)} {s g : List Char}
    (h : Spaced gap ws s) (hg : gap g) (w : List Char) :
    Spaced gap (ws ++ [w]) (s ++ (g ++ w)) := by
  induction h with
  | last u => exact .next hg (.last w)
  | next hg' _ ih =>
      simp only [List.cons_append, List.append_assoc]
      exact .next hg' ih

theorem Spaced.mono {gap gap' : List Char → Prop} (hgap : ∀ g, gap g → gap' g)
    {ws : List (List Char)} {s : List Char} (h : Spaced gap ws s) : Spaced gap' ws s := by
  induction h with
  | last w => exact .last w
  | next hg _ ih => exact .next (hgap _ hg) ih

/-- The texts of the tokens of a text, as they are cut out of it. -/
def tokenTexts (s : List Char) : List (List Char) :=
  match _h : s.dropWhile isSpace with
  | [] => []
  | c :: rest =>
      let after := (symbolAt c rest).2
      (c :: rest).take ((c :: rest).length - after.length) :: tokenTexts after
termination_by s.length
decreasing_by
  have h₁ := length_symbolAt_le c rest
  have h₂ := (List.dropWhile_sublist (l := s) isSpace).length_le
  rw [_h] at h₂
  simp at h₂
  omega

theorem dropWhile_isSpace_eq_nil {s : List Char} : s.dropWhile isSpace = [] ↔ IsSpaces s :=
  List.dropWhile_eq_nil_iff

theorem dropWhile_isSpace_append {g s : List Char} (h : IsSpaces g) :
    (g ++ s).dropWhile isSpace = s.dropWhile isSpace := by
  rw [List.dropWhile_append, dropWhile_isSpace_eq_nil.mpr h]
  rfl

theorem symbols_of_isSpaces {s : List Char} (h : IsSpaces s) : symbols s = [] := by
  rw [symbols]
  split
  next => rfl
  next heq =>
    rw [dropWhile_isSpace_eq_nil.mpr h] at heq
    cases heq

theorem symbols_of_dropWhile {s rest : List Char} {c : Char}
    (h : s.dropWhile isSpace = c :: rest) :
    symbols s = (c :: rest, (symbolAt c rest).1) :: symbols (symbolAt c rest).2 := by
  rw [symbols]
  split
  next heq =>
    rw [h] at heq
    cases heq
  next heq =>
    rw [h] at heq
    cases heq
    rfl

theorem tokenTexts_of_isSpaces {s : List Char} (h : IsSpaces s) : tokenTexts s = [] := by
  rw [tokenTexts]
  split
  next => rfl
  next heq =>
    rw [dropWhile_isSpace_eq_nil.mpr h] at heq
    cases heq

theorem tokenTexts_of_dropWhile {s w rest after : List Char} {c : Char} {symbol : Symbol}
    (h : s.dropWhile isSpace = c :: rest) (hsymbol : symbolAt c rest = (symbol, after))
    (hw : c :: rest = w ++ after) : tokenTexts s = w :: tokenTexts after := by
  rw [tokenTexts]
  split
  next heq =>
    rw [h] at heq
    cases heq
  next heq =>
    rw [h] at heq
    cases heq
    dsimp only
    rw [hsymbol, hw, List.length_append, Nat.add_sub_cancel, List.take_left]

end Layout

section Reading

variable {t : Token} {toks : List Token} {w g rest : List Char} {ws : List (List Char)}

theorem isSpace_of_mem_firsts {c : Char} (h : c ∈ firsts) : isSpace c = false := by
  revert c
  decide

/-- White space is passed over up to a token, which is read there. -/
theorem TokenText.read_behind (h : TokenText t w) (hg : IsSpaces g)
    (hrest : t.isNumber = true → StopsNumber rest) :
    ∃ c tail, w = c :: tail ∧ (g ++ (w ++ rest)).dropWhile isSpace = c :: (tail ++ rest) ∧
      symbolAt c (tail ++ rest) = (.token t, rest) := by
  obtain ⟨c, tail, rfl, hread⟩ := h.read hrest
  obtain ⟨_, _, hfirst, hc⟩ := h.first
  cases hfirst
  refine ⟨c, tail, rfl, ?_, hread⟩
  rw [dropWhile_isSpace_append hg, List.cons_append, List.dropWhile_cons,
    isSpace_of_mem_firsts hc]
  rfl

/-- A token is read behind white space, and reading goes on behind it. -/
theorem symbols_of_tokenText (h : TokenText t w) (hg : IsSpaces g)
    (hrest : t.isNumber = true → StopsNumber rest) :
    (symbols (g ++ (w ++ rest))).map (·.2) = .token t :: (symbols rest).map (·.2) := by
  obtain ⟨c, tail, rfl, hdrop, hread⟩ := h.read_behind hg hrest
  rw [symbols_of_dropWhile hdrop, hread]
  rfl

theorem isAtom_of_isNumber (h : t.isNumber = true) : t.isAtom = true := by
  cases t <;> first | rfl | cases h

/-- What is no value by itself is a mark. -/
theorem TokenText.exists_mark (h : TokenText t w) (ht : t.isAtom = false) :
    ∃ c, mark? c = some t ∧ w = [c] := by
  cases h with
  | mark h => exact ⟨_, h, rfl⟩
  | word h =>
      have hall : ∀ x ∈ plainWords ++ numberWords, x.2.isAtom = true := by decide
      rw [hall _ h] at ht
      cases ht
  | number => cases ht
  | string => cases ht

/-- White space and marks do not continue a number. -/
theorem stopsNumber_cons {c : Char} (h : c ∈ spaces ++ marks) (s : List Char) :
    StopsNumber (c :: s) := by
  rintro _ ⟨⟩
  revert c
  decide

theorem IsSpaces.stopsNumber_append {s : List Char} (hg : IsSpaces g) (hs : StopsNumber s) :
    StopsNumber (g ++ s) := by
  cases g with
  | nil => exact hs
  | cons c g =>
      have hc := mem_spaces_of_isSpace (hg c List.mem_cons_self)
      exact stopsNumber_cons (List.mem_append_left _ hc) _

/-- A number is not continued by the token behind it. -/
theorem stopsNumber_of_spaced {gap : List Char → Prop} {s : List Char}
    (h : List.Forall₂ TokenText (t :: toks) ws) (ht : t.isAtom = false) (hs : Spaced gap ws s) :
    StopsNumber (s ++ rest) := by
  obtain ⟨w, us, hw, -, rfl⟩ := List.forall₂_cons_left_iff.mp h
  obtain ⟨c, hc, rfl⟩ := hw.exists_mark ht
  obtain ⟨_, rfl⟩ := hs.exists_append
  exact stopsNumber_cons (List.mem_append_right _ (mem_marks_of_mark? hc)) _

/-- What stands behind a number does not continue it. -/
theorem stopsNumber_behind {s : List Char} (hw : List.Forall₂ TokenText toks ws)
    (hchain : (t :: toks).IsChain Follows) (hs : Spaced IsSpaces ws s) (hg : IsSpaces g)
    (hnumber : t.isNumber = true) : StopsNumber (g ++ (s ++ rest)) := by
  apply hg.stopsNumber_append
  cases toks with
  | nil =>
      cases hw
      exact absurd rfl hs.ne_nil
  | cons t' toks =>
      have hfollows := (List.isChain_cons_cons.mp hchain).1
      exact stopsNumber_of_spaced hw (hfollows.atom (isAtom_of_isNumber hnumber)) hs

/-- Texts of tokens with white space between them are read one by one. -/
theorem symbols_of_spaced {b : List Char} (hw : List.Forall₂ TokenText toks ws)
    (hchain : toks.IsChain Follows) (hb : Spaced IsSpaces ws b) (hg : IsSpaces g)
    (hrest : StopsNumber rest) :
    (symbols (g ++ (b ++ rest))).map (·.2) = toks.map .token ++ (symbols rest).map (·.2) := by
  induction hb generalizing toks g with
  | last w =>
      obtain ⟨t, _, ht, hnil, rfl⟩ := List.forall₂_cons_right_iff.mp hw
      cases hnil
      exact symbols_of_tokenText ht hg fun _ => hrest
  | @next w g' s ws hg' hs ih =>
      obtain ⟨t, ts, ht, hts, rfl⟩ := List.forall₂_cons_right_iff.mp hw
      rw [List.append_assoc, List.append_assoc, symbols_of_tokenText ht hg,
        ih hts hchain.of_cons hg']
      · rfl
      · exact stopsNumber_behind hts hchain hs hg'

theorem exists_tokenText_of_mem (hw : List.Forall₂ TokenText toks ws) :
    ∀ w ∈ ws, ∃ t, TokenText t w := by
  induction hw with
  | nil => rintro w ⟨⟩
  | cons ht _ ih => exact List.forall_mem_cons.mpr ⟨⟨_, ht⟩, ih⟩

/-- Tokens with gaps between them start and end with tokens. -/
theorem Spaced.ends {gap : List Char → Prop} {s : List Char} (h : Spaced gap ws s)
    (hw : ∀ w ∈ ws, ∃ t, TokenText t w) :
    (∃ c back, s = c :: back ∧ c ∈ firsts) ∧ ∃ front d, s = front ++ [d] ∧ d ∈ lasts := by
  induction h with
  | last w =>
      obtain ⟨t, ht⟩ := hw w List.mem_cons_self
      exact ⟨ht.first, ht.last⟩
  | @next w g s ws hg h ih =>
      obtain ⟨t, ht⟩ := hw w List.mem_cons_self
      obtain ⟨c, back, rfl, hc⟩ := ht.first
      obtain ⟨-, front, d, rfl, hd⟩ := ih fun u hu => hw u (List.mem_cons_of_mem _ hu)
      exact ⟨⟨c, _, rfl, hc⟩, _, d, by simp only [← List.append_assoc]; rfl, hd⟩

theorem stopsNumber_nil : StopsNumber [] := by
  rintro c ⟨⟩

/-- White space and a token do not start with a byte order mark. -/
theorem head_ne_byteOrderMark {c : Char} {s : List Char} (hg : IsSpaces g) (hc : c ∈ firsts) :
    (g ++ c :: s).head? ≠ some '\uFEFF' := by
  cases g with
  | nil =>
      rw [List.nil_append, List.head?_cons]
      rintro ⟨⟩
      revert hc
      decide
  | cons d g =>
      rw [List.cons_append, List.head?_cons]
      rintro ⟨⟩
      have hd := hg _ List.mem_cons_self
      revert hd
      decide

/-- What a text is read as is told by its symbols. -/
theorem parse_eq_ok_iff {s : List Char} {v : Json} :
    parse s = .ok v ↔ s.head? ≠ some '\uFEFF' ∧ ∃ toks : List Token,
      (symbols s).map (·.2) = toks.map .token ∧
        (State.value []).steps? toks = some (.finished v) := by
  rw [← State.run_eq_ok_iff, parse]
  by_cases hmark : s.head? = some '\uFEFF'
  · simp [hmark]
  · rw [if_neg hmark]
    cases (State.value []).run (symbols s) <;> simp [hmark]

/-- A text is read by its tokens alone. -/
theorem parse_of_surrounded {s : List Char} {v : Json} (hw : List.Forall₂ TokenText toks ws)
    (hv : (State.value []).steps? toks = some (.finished v)) (hs : Surrounded IsSpaces ws s) :
    parse s = .ok v := by
  obtain ⟨g, b, g', hg, hb, hg', rfl⟩ := hs
  have hsymbols := symbols_of_spaced hw (State.isChain_of_steps hv) hb hg
    (by simpa using hg'.stopsNumber_append stopsNumber_nil)
  rw [symbols_of_isSpaces hg', List.map_nil, List.append_nil] at hsymbols
  have hhead : (g ++ (b ++ g')).head? ≠ some '\uFEFF' := by
    cases hb with
    | last w =>
        obtain ⟨t, _, ht, -, -⟩ := List.forall₂_cons_right_iff.mp hw
        obtain ⟨c, tail, rfl, hc⟩ := ht.first
        exact head_ne_byteOrderMark hg hc
    | next =>
        obtain ⟨t, _, ht, -, -⟩ := List.forall₂_cons_right_iff.mp hw
        obtain ⟨c, tail, rfl, hc⟩ := ht.first
        exact head_ne_byteOrderMark hg hc
  exact parse_eq_ok_iff.mpr ⟨hhead, toks, hsymbols, hv⟩

/-- Only what the tokens are read as is read. -/
theorem steps_of_parse {s : List Char} {v : Json} (h : (symbols s).map (·.2) = toks.map .token)
    (hs : parse s = .ok v) : (State.value []).steps? toks = some (.finished v) := by
  obtain ⟨-, toks', htoks', hsteps⟩ := parse_eq_ok_iff.mp hs
  rw [h] at htoks'
  rwa [List.map_injective_iff.mpr (fun _ _ => Symbol.token.inj) htoks']

/-- What is cut out of a text is the tokens and their texts. -/
theorem surrounded_of_symbols {s : List Char} (hne : toks ≠ [])
    (h : (symbols s).map (·.2) = toks.map .token) :
    List.Forall₂ TokenText toks (tokenTexts s) ∧ Surrounded IsSpaces (tokenTexts s) s := by
  induction toks generalizing s with
  | nil => exact absurd rfl hne
  | cons t toks ih =>
      cases hdrop : s.dropWhile isSpace with
      | nil =>
          rw [symbols_of_isSpaces (dropWhile_isSpace_eq_nil.mp hdrop)] at h
          cases h
      | cons c rest =>
          obtain ⟨symbol, after, hread⟩ : ∃ symbol after, symbolAt c rest = (symbol, after) :=
            ⟨_, _, rfl⟩
          rw [symbols_of_dropWhile hdrop, hread] at h
          simp only [List.map_cons, List.cons.injEq] at h
          obtain ⟨rfl, hrest⟩ := h
          obtain ⟨w, hw, heq⟩ := exists_tokenText hread
          have hs : s = s.takeWhile isSpace ++ (w ++ after) := by
            rw [← heq, ← hdrop, List.takeWhile_append_dropWhile]
          rw [tokenTexts_of_dropWhile hdrop hread heq]
          cases toks with
          | nil =>
              have hspaces : IsSpaces after := by
                rw [← dropWhile_isSpace_eq_nil]
                cases hd : after.dropWhile isSpace with
                | nil => rfl
                | cons d r =>
                    rw [symbols_of_dropWhile hd] at hrest
                    cases hrest
              rw [tokenTexts_of_isSpaces hspaces]
              exact ⟨.cons hw .nil, _, w, after, isSpaces_takeWhile s, .last w, hspaces, hs⟩
          | cons t' toks =>
              obtain ⟨hws, g, b, g', hg, hb, hg', hafter⟩ := ih (List.cons_ne_nil t' toks) hrest
              refine ⟨.cons hw hws, _, w ++ (g ++ b), g', isSpaces_takeWhile s, .next hg hb, hg',
                ?_⟩
              rw [hafter] at hs
              simpa using hs

/-- Every text that can be read is made of texts of its tokens with white space between them. -/
theorem surrounded_of_parse {s : List Char} {v : Json} (h : parse s = .ok v) :
    ∃ toks, (State.value []).steps? toks = some (.finished v) ∧
      List.Forall₂ TokenText toks (tokenTexts s) ∧ Surrounded IsSpaces (tokenTexts s) s := by
  obtain ⟨-, toks, hsymbols, hsteps⟩ := parse_eq_ok_iff.mp h
  have hne : toks ≠ [] := by
    rintro rfl
    cases hsteps
  obtain ⟨hws, hs⟩ := surrounded_of_symbols hne hsymbols
  exact ⟨toks, hsteps, hws, hs⟩

/-- A text that starts with neither white space nor a token is not read. -/
theorem parse_ne_ok_of_first {c : Char} (hspace : isSpace c = false) (hfirst : c ∉ firsts)
    (s : List Char) (v : Json) : parse (c :: s) ≠ .ok v := by
  intro h
  obtain ⟨toks, -, hw, g, b, g', hg, hb, -, heq⟩ := surrounded_of_parse h
  obtain ⟨⟨e, back, rfl, he⟩, -⟩ := hb.ends (exists_tokenText_of_mem hw)
  cases g with
  | nil =>
      obtain ⟨rfl, -⟩ := List.cons.inj heq
      exact hfirst he
  | cons d g =>
      obtain ⟨rfl, -⟩ := List.cons.inj heq
      have hd := hg c List.mem_cons_self
      rw [hspace] at hd
      cases hd

/-- A text that ends in neither white space nor a token is not read. -/
theorem parse_ne_ok_of_last {d : Char} (hspace : isSpace d = false) (hlast : d ∉ lasts)
    (front : List Char) (v : Json) : parse (front ++ [d]) ≠ .ok v := by
  intro h
  obtain ⟨toks, -, hw, g, b, g', -, hb, hg', heq⟩ := surrounded_of_parse h
  obtain ⟨-, front', e, rfl, he⟩ := hb.ends (exists_tokenText_of_mem hw)
  have hends := congrArg List.getLast? heq
  rw [List.getLast?_concat, ← List.append_assoc, List.getLast?_append] at hends
  rcases List.eq_nil_or_concat g' with rfl | ⟨g', c, rfl⟩
  · rw [← List.append_assoc] at hends
    simp at hends
    exact hlast (hends ▸ he)
  · simp at hends
    have hd := hg' c (by simp)
    rw [← hends, hspace] at hd
    cases hd

end Reading

end TypeSketch.Json
