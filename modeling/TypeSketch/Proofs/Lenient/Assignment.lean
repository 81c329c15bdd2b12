import TypeSketch.Proofs.Lenient.Selection
import TypeSketch.Proofs.Lenient.Spelling

/-!
# Assignments

A literal behind `const x =`, with comments in it, is read as its value.  The semicolon at its end
is taken away last: if a comment in the literal has a semicolon at the end of a line, that one goes
instead, and the text is not read.  Main statement: `parse_assignment`.
-/

namespace TypeSketch.Lenient

open Json (IsSpaces Spaced Token TokenText)

section Texts

/-- The words in front of a name that is declared. -/
def declarators : List (List Char) := ["const".toList, "let".toList, "var".toList]

def exportText (exported : Bool) : List Char := if exported then "export ".toList else []

/-- A literal that is assigned to a name. -/
def assignment (exported : Bool) (declarator name literal : List Char)
    (asConst semicolon : Bool) : List Char :=
  exportText exported ++ (declarator ++ ' ' :: (name ++ ' ' :: '=' :: ' ' ::
    (literal ++ (constText asConst ++ endText semicolon))))

/-- Arrays and objects. -/
def IsContainer : Json → Prop
  | .array _ | .object _ => True
  | _ => False

/-- The semicolon behind the literal is not the first that ends a line, and `as const` does not
take it away. -/
def KeepsSemicolon (literal : List Char) (asConst semicolon : Bool) : Prop :=
  asConst = false ∧ semicolon = true ∧ HasEndedLine literal

end Texts

section Selecting

variable {exported asConst semicolon : Bool} {declarator name literal back front : List Char}
  {c d : Char}

/-- What is left of `as const` and the semicolon at first. -/
def leftText (asConst semicolon : Bool) : List Char := if asConst then [] else endText semicolon

theorem dropExport_exportText {s : List Char} (hc : c ∈ ['c', 'l', 'v']) :
    dropExport (exportText exported ++ c :: s) = c :: s := by
  have hblank : Text.isBlank c = false ∧ c ≠ 'e' := by
    revert c
    decide
  cases exported with
  | false => simp [dropExport, exportText, hblank.2.symm]
  | true =>
      have hskip := skipBlanks_cons hblank.1 s
      have hspace : Text.isBlank ' ' = true := rfl
      simp [dropExport, exportText, hspace, hskip]

theorem exists_declarator (h : declarator ∈ declarators) :
    ∃ c rest, declarator = c :: rest ∧ c ∈ ['c', 'l', 'v'] ∧ '=' ∉ declarator := by
  simp only [declarators, List.mem_cons, List.not_mem_nil, or_false] at h
  rcases h with rfl | rfl | rfl <;> exact ⟨_, _, rfl, by decide, by decide⟩

theorem notMem_of_isWord (h : Name.isWord name = true) : '=' ∉ name := by
  cases name with
  | nil => cases h
  | cons c name =>
      simp only [Name.isWord, Bool.and_eq_true, List.all_eq_true] at h
      intro hmem
      rcases List.mem_cons.mp hmem with rfl | hmem
      · have hstart := h.1
        revert hstart
        decide
      · have hpart := h.2 _ hmem
        revert hpart
        decide

/-- Only what is in front of the literal and behind it is known of its text. -/
theorem value_assignment (hd : d ∈ Json.lasts) (hdeclarator : declarator ∈ declarators)
    (hname : Name.isWord name = true) :
    dropAsConst (dropAssignment (dropExport
        (assignment exported declarator name (front ++ [d]) asConst semicolon))) =
      ' ' :: (front ++ [d] ++ leftText asConst semicolon) := by
  obtain ⟨c, rest, rfl, hc, hequals⟩ := exists_declarator hdeclarator
  have hfront : '=' ∉ c :: rest ++ ' ' :: (name ++ [' ']) := by
    have hmem := notMem_of_isWord hname
    simp only [List.mem_cons, not_or] at hequals
    simp [hequals, hmem]
  have hassignment := dropAssignment_append hfront
    (' ' :: (front ++ [d] ++ (constText asConst ++ endText semicolon)))
  simp only [assignment, List.cons_append, List.append_assoc, List.nil_append] at hassignment ⊢
  rw [dropExport_exportText hc, hassignment]
  cases asConst with
  | true =>
      have hconst := dropAsConst_constText (' ' :: front) (isBlank_of_mem_lasts hd) semicolon
      simpa [leftText] using hconst
  | false =>
      have hend := dropAsConst_endText (' ' :: front) hd semicolon
      simpa [leftText, constText] using hend

theorem exists_end (hd : d ∈ Json.lasts) (front : List Char) (asConst semicolon : Bool) :
    ∃ before e, Text.isBlank e = false ∧
      front ++ [d] ++ (constText asConst ++ endText semicolon) = before ++ [e] := by
  cases semicolon with
  | true => exact ⟨front ++ [d] ++ constText asConst, ';', rfl, by simp [endText]⟩
  | false =>
      cases asConst with
      | true => exact ⟨front ++ [d] ++ " as cons".toList, 't', rfl, by simp [constText, endText]⟩
      | false => exact ⟨front, d, isBlank_of_mem_lasts hd, by simp [constText, endText]⟩

/-- An assignment has no blanks around it and starts with a letter. -/
theorem strip_assignment (hd : d ∈ Json.lasts) (hdeclarator : declarator ∈ declarators) :
    ∃ c s, c ∈ ['e', 'c', 'l', 'v'] ∧ Text.strip (c :: s) = c :: s ∧
      assignment exported declarator name (front ++ [d]) asConst semicolon = c :: s := by
  obtain ⟨c, s, hc, hfirst⟩ : ∃ c s, c ∈ ['e', 'c', 'l', 'v'] ∧
      assignment exported declarator name (front ++ [d]) asConst semicolon = c :: s := by
    cases exported with
    | true => exact ⟨'e', _, by decide, rfl⟩
    | false =>
        obtain ⟨c, rest, rfl, hc, -⟩ := exists_declarator hdeclarator
        exact ⟨c, _, List.mem_cons_of_mem 'e' hc, rfl⟩
  obtain ⟨before, e, he, hend⟩ := exists_end hd front asConst semicolon
  have hlast : assignment exported declarator name (front ++ [d]) asConst semicolon =
      exportText exported ++ (declarator ++ ' ' :: (name ++ ' ' :: '=' :: ' ' :: before)) ++
        [e] := by
    rw [assignment, hend]
    simp
  refine ⟨c, s, hc, ?_, hfirst⟩
  have hblank : ∀ c ∈ ['e', 'c', 'l', 'v'], Text.isBlank c = false := by decide
  exact strip_ends rfl (hfirst ▸ hlast) (hblank c hc) he

/-- From an assignment the literal is selected, without the semicolon that ends a line first. -/
theorem select_assignment_eq (hd : d ∈ Json.lasts) (hdeclarator : declarator ∈ declarators)
    (hname : Name.isWord name = true) :
    select (assignment exported declarator name (front ++ [d]) asConst semicolon) =
      wrapMember (dropParentheses (Text.strip
        ([' '] ++ (dropSemicolon (front ++ [d] ++ leftText asConst semicolon) ++ [])))) := by
  obtain ⟨c, s, hc, hstrip, hs⟩ : ∃ c s, c ∈ ['e', 'c', 'l', 'v'] ∧
      Text.strip (c :: s) = c :: s ∧
        assignment exported declarator name (front ++ [d]) asConst semicolon = c :: s :=
    strip_assignment hd hdeclarator
  have hwrapped : ∀ c ∈ ['e', 'c', 'l', 'v'], c ∈ wrapped := by decide
  rw [hs, select_of_wrapped (hwrapped c hc) hstrip, ← hs, value_assignment hd hdeclarator hname,
    List.append_nil]
  rfl

/-- A literal is selected as it is, or cut at a semicolon that is not the last. -/
theorem select_assignment (hc : c = '[' ∨ c = '\x7b') (hback : literal = c :: back)
    (hfront : literal = front ++ [d]) (hd : d ∈ Json.lasts)
    (hdeclarator : declarator ∈ declarators) (hname : Name.isWord name = true) :
    (¬HasEndedLine literal ∧
        select (assignment exported declarator name literal asConst semicolon) = literal) ∨
      ∃ x, Cut literal x ∧ select (assignment exported declarator name literal asConst semicolon) =
        x ++ leftText asConst semicolon := by
  have hne := ne_semicolon_of_mem_lasts hd
  have hblank := isBlank_of_mem_lasts hd
  have hbracket : Text.isBlank c = false ∧ c ≠ ';' := by rcases hc with rfl | rfl <;> decide
  have hselect : select (assignment exported declarator name literal asConst semicolon) =
      wrapMember (dropParentheses (Text.strip
        ([' '] ++ (dropSemicolon (literal ++ leftText asConst semicolon) ++ [])))) := by
    rw [hfront]
    exact select_assignment_eq hd hdeclarator hname
  have hspace : ∀ c ∈ [' '], Text.isBlank c = true := by simp [Text.isBlank]
  rcases dropSemicolon_cases front hblank hne with ⟨hnot, hkeep⟩ | ⟨x, hcut, hdrop⟩
  · refine .inl ⟨hfront ▸ hnot, ?_⟩
    have hleft : dropSemicolon (leftText asConst semicolon) = [] := by
      cases asConst <;> cases semicolon <;> rfl
    rw [hselect, hfront, hkeep, hleft, List.append_nil, ← hfront,
      strip_of_blanks hspace (by simp) hback hfront hbracket.1 hblank, hback,
      wrapMember_of_bracket hc]
  · obtain ⟨x', hx'⟩ := hcut.last hblank
    rw [← hfront] at hcut
    refine .inr ⟨x, hcut, ?_⟩
    obtain ⟨back', hx⟩ := (hback ▸ hcut).head hbracket.2
    obtain ⟨before, e, he, hend⟩ : ∃ before e, Text.isBlank e = false ∧
        x ++ leftText asConst semicolon = before ++ [e] := by
      rw [hx']
      cases asConst with
      | true => exact ⟨x', d, hblank, by simp [leftText]⟩
      | false => simpa [leftText, constText] using exists_end hd x' false semicolon
    have hopen : x ++ leftText asConst semicolon = c :: (back' ++ leftText asConst semicolon) := by
      rw [hx, List.cons_append]
    rw [hselect, hfront, hdrop, strip_of_blanks hspace (by simp) hopen hend hbracket.1 he, hopen,
      wrapMember_of_bracket hc]

end Selecting

section Reading

variable {exported asConst semicolon : Bool} {declarator name literal x : List Char}
  {toks : List Token} {ws : List (List Char)} {v : Json}

/-- The tokens of an array or an object start with a bracket. -/
theorem exists_open_of_steps (h : (Json.State.value []).steps? toks = some (.finished v))
    (hv : IsContainer v) : ∃ t ts, toks = t :: ts ∧ (t = .openArray ∨ t = .openObject) := by
  cases toks with
  | nil => cases h
  | cons t ts =>
      refine ⟨t, ts, rfl, ?_⟩
      obtain ⟨next, hstep, hrest⟩ := Option.bind_eq_some_iff.mp h
      cases t with
      | openArray => exact .inl rfl
      | openObject => exact .inr rfl
      | null | scalar l =>
          -- the value would be complete
          cases hstep
          cases ts with
          | nil =>
              cases hrest
              cases hv
          | cons => cases hrest
      | _ => cases hstep

theorem Spread.exists_ends (hs : Spread ws literal) (hw : List.Forall₂ TokenText toks ws)
    (hsteps : (Json.State.value []).steps? toks = some (.finished v)) (hv : IsContainer v) :
    (∃ c back, (c = '[' ∨ c = '\x7b') ∧ literal = c :: back) ∧
      ∃ front d, literal = front ++ [d] ∧ d ∈ Json.lasts := by
  obtain ⟨ws', hws, hs⟩ := hs
  have hmem := hws.tokenTexts (Json.exists_tokenText_of_mem hw)
  refine ⟨?_, (hs.ends hmem).2⟩
  obtain ⟨t, ts, rfl, ht⟩ := exists_open_of_steps hsteps hv
  obtain ⟨w, us, hfirst, -, rfl⟩ := List.forall₂_cons_left_iff.mp hw
  obtain ⟨c, hc, rfl⟩ := hfirst.exists_mark (by rcases ht with rfl | rfl <;> rfl)
  have hopen : c = '[' ∨ c = '\x7b' := by
    rcases ht with rfl | rfl
    · exact .inl (Json.mark?_injective hc rfl)
    · exact .inr (Json.mark?_injective hc rfl)
  obtain ⟨us', rfl⟩ := hws.head_eq (by rcases hopen with rfl | rfl <;> decide)
  obtain ⟨back, rfl⟩ := hs.exists_append
  exact ⟨c, back, hopen, rfl⟩

theorem Spread.cut (hs : Spread ws literal) (hw : List.Forall₂ TokenText toks ws)
    (hcut : Cut literal x) : Spread ws x := by
  obtain ⟨ws', hws, hs⟩ := hs
  exact ⟨ws', hws, spaced_cut (hws.tokenTexts (Json.exists_tokenText_of_mem hw)) hs hcut⟩

/-- No assignment is JSON by itself. -/
theorem assignment_ne_json (hdeclarator : declarator ∈ declarators) {d : Char} {front : List Char}
    (hd : d ∈ Json.lasts) (u : Json) :
    Json.parse (assignment exported declarator name (front ++ [d]) asConst semicolon) ≠ .ok u := by
  obtain ⟨c, s, hc, -, hs⟩ := strip_assignment hd hdeclarator
  have hall : ∀ c ∈ ['e', 'c', 'l', 'v'], Json.isSpace c = false ∧ c ∉ Json.firsts := by decide
  obtain ⟨hspace, hfirst⟩ := hall c hc
  rw [hs]
  exact Json.parse_ne_ok_of_first hspace hfirst s u

theorem append_semicolon_ne_json (front : List Char) (u : Json) :
    Json.parse (front ++ [';']) ≠ .ok u :=
  Json.parse_ne_ok_of_last rfl (by decide) front u

/-- With a semicolon behind it, a value is not read in any spelling. -/
theorem clean_semicolon_ne (hs : Spread ws x) (hw : List.Forall₂ TokenText toks ws)
    (hsteps : (Json.State.value []).steps? toks = some (.finished v)) (u : Json) :
    Json.parse (clean (x ++ [';'])) ≠ .ok u ∧
      Json.parse (respell (clean (x ++ [';']))) ≠ .ok u := by
  have hmem := Json.exists_tokenText_of_mem hw
  obtain ⟨g, b, hg, hb, hcleaned⟩ := hs.exists_spaced hw hsteps
  obtain ⟨⟨c, back, hfirst, hc⟩, -⟩ := hb.ends hmem
  have hsemicolon : dropTrailingCommas .code (dropComments (.text .code) [';']) = [';'] := by decide
  have hclean : clean (x ++ [';']) = b ++ [';'] := by
    have hblanks : ∀ c ∈ g, Text.isBlank c = true := fun c hc => isBlank_of_isSpace (hg c hc)
    have hopen : b ++ [';'] = c :: (back ++ [';']) := by rw [hfirst, List.cons_append]
    have hstrip := strip_of_blanks hblanks (List.forall_mem_nil _) hopen rfl
      (isBlank_of_mem_firsts hc) rfl
    rw [List.append_nil] at hstrip
    rw [clean, hcleaned, hsemicolon, hstrip]
  obtain ⟨out, hout⟩ := (closed_of_spaced hmem hb).exists_respellAfter none
  rw [hclean, respell, hout]
  exact ⟨append_semicolon_ne_json b u, append_semicolon_ne_json out u⟩

/-- An array or object that is assigned to a name is read as its value, whatever its comments say,
unless the semicolon behind it is kept; then the text is not read. -/
theorem parse_assignment {t : List Char} (ht : Json.parse t = .ok v) (hv : IsContainer v)
    (hliteral : Spread (Json.tokenTexts t) literal) (hdeclarator : declarator ∈ declarators)
    (hname : Name.isWord name = true) (exported asConst semicolon : Bool) :
    (¬KeepsSemicolon literal asConst semicolon →
        parse (assignment exported declarator name literal asConst semicolon) = .ok v) ∧
      (KeepsSemicolon literal asConst semicolon →
        ∃ e, parse (assignment exported declarator name literal asConst semicolon) = .error e) := by
  obtain ⟨toks, hsteps, hw, -⟩ := Json.surrounded_of_parse ht
  obtain ⟨⟨c, back, hc, hback⟩, front, d, hfront, hd⟩ := hliteral.exists_ends hw hsteps hv
  have hjson : ∀ u, Json.parse
      (assignment exported declarator name literal asConst semicolon) ≠ .ok u := by
    rw [hfront]
    exact assignment_ne_json hdeclarator hd
  have hread : ∀ x, Spread (Json.tokenTexts t) x →
      select (assignment exported declarator name literal asConst semicolon) = x →
      parse (assignment exported declarator name literal asConst semicolon) = .ok v := by
    intro x hx hselect
    exact parse_of_clean hjson (hselect ▸ parse_clean hw hsteps hx.decorated)
  rcases select_assignment hc hback hfront hd hdeclarator hname with
    ⟨hnot, hselect⟩ | ⟨x, hcut, hselect⟩
  · exact ⟨fun _ => hread literal hliteral hselect, fun h => absurd h.2.2 hnot⟩
  · -- the semicolon came from a comment, and without it the literal is one of the same value
    have hx := hliteral.cut hw hcut
    refine ⟨fun hkeeps => hread x hx ?_, ?_⟩
    · have hleft : leftText asConst semicolon = [] := by
        cases asConst with
        | true => rfl
        | false =>
            cases semicolon with
            | false => rfl
            | true => exact absurd ⟨rfl, rfl, hcut.hasEndedLine⟩ hkeeps
      rw [hselect, hleft, List.append_nil]
    · rintro ⟨rfl, rfl, -⟩
      have hnot := clean_semicolon_ne hx hw hsteps
      have hselect : select (assignment exported declarator name literal false true) =
          x ++ [';'] := hselect
      exact exists_parse_error hjson (fun u => hselect ▸ (hnot u).1) fun u => hselect ▸ (hnot u).2

theorem spread_ended_line : Spread (Json.tokenTexts "[1, 2]".toList) "[1, // a;\n2]".toList := by
  have htexts : Json.tokenTexts "[1, 2]".toList = [['['], ['1'], [','], ['2'], [']']] := by
    decide +kernel
  have hline : Gap " // a;\n".toList :=
    .space rfl (@Gap.line " a;".toList [] '\n' (by decide) rfl .nil)
  have hspaced := Spaced.next (w := ['[']) Gap.nil (.next (w := ['1']) Gap.nil
    (.next (w := [',']) hline (.next (w := ['2']) Gap.nil (.last [']']))))
  rw [htexts]
  exact ⟨_, .keep _ (.keep _ (.keep _ (.keep _ (.keep _ .nil)))), hspaced⟩

/-- With `as const` the comment does no harm, and without it the text is not read. -/
theorem parse_assignment_const :
    parse "export const x = [1, // a;\n2] as const;".toList =
        .ok (.array [.scalar (.int 1), .scalar (.int 2)]) ∧
      ∃ e, parse "let x = [1, // a;\n2];".toList = .error e := by
  have ht : Json.parse "[1, 2]".toList = .ok (.array [.scalar (.int 1), .scalar (.int 2)]) :=
    Json.parse_eq_ok_iff.mpr ⟨by decide, [.openArray, .scalar (.int 1), .comma, .scalar (.int 2),
      .closeArray], by decide +kernel, rfl⟩
  have hended : HasEndedLine "[1, // a;\n2]".toList :=
    ⟨"[1, // a".toList, [], "2]".toList, rfl, nofun⟩
  have hconst : "const".toList ∈ declarators := by decide
  have hlet : "let".toList ∈ declarators := by decide
  have hname : Name.isWord "x".toList = true := by decide
  exact ⟨(parse_assignment ht trivial spread_ended_line hconst hname true true true).1 nofun,
    (parse_assignment ht trivial spread_ended_line hlet hname false false true).2
      ⟨rfl, rfl, hended⟩⟩

/-- A comment in the literal changes what is taken away around it. -/
theorem assignment_with_ended_line :
    Spread (Json.tokenTexts "[1, 2]".toList) "[1, // a;\n2]".toList ∧
      ∀ v, parse (assignment false "const".toList "x".toList "[1, // a;\n2]".toList false true) ≠
        .ok v := by
  refine ⟨spread_ended_line, fun v => ?_⟩
  have htext : assignment false "const".toList "x".toList "[1, // a;\n2]".toList false true =
      "const x = [1, // a;\n2];".toList := rfl
  have hclean : clean (select "const x = [1, // a;\n2];".toList) = "[1, \n2]".toList ++ [';'] := by
    decide
  have hplain : ∀ c ∈ "[1, \n2]".toList ++ [';'], isQuote c = false ∧ Name.isStart c = false := by
    decide
  have hrespell : respell ("[1, \n2]".toList ++ [';']) = "[1, \n2]".toList ++ [';'] := by
    rw [respell, ← List.append_nil (_ ++ [';']), respellAfter_plain hplain, respellAfter]
  obtain ⟨e, he⟩ := exists_parse_error (s := "const x = [1, // a;\n2];".toList)
    (Json.parse_ne_ok_of_first rfl (by decide) _)
    (by rw [hclean]; exact append_semicolon_ne_json _)
    (by rw [hclean, hrespell]; exact append_semicolon_ne_json _)
  rw [htext, he]
  intro h
  cases h

end Reading

end TypeSketch.Lenient
