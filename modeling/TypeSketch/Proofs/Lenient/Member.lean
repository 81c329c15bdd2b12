import TypeSketch.Proofs.Json.Printer
import TypeSketch.Proofs.Lenient.Selection

/-!
# Single members

A name, a colon and a value are read as an object with one member.  What stands in front of an
equals sign is taken for the name of a variable, even within a string, so the printed text must be
without one.  Main statement: `parse_member`.
-/

namespace TypeSketch.Lenient

open Json (HasDistinctNames IsSpaces Spaced Token TokenText fieldTokens printTokens printed tokens
  writeChar)

section Names

variable {ascii : Bool} {c : Char} {w rest : List Char}

/-- A member of an object, as it is printed. -/
def member (ascii : Bool) (k : String) (v : Json) : List Char :=
  printed ascii (.scalar (.str k)) ++ ':' :: ' ' :: printed ascii v

theorem member_eq (ascii : Bool) (k : String) (v : Json) :
    member ascii k v = printTokens ascii (fieldTokens [(k, v)]) := by
  simp [member, printed, printTokens, tokens, fieldTokens, Token.text, Token.gap]

theorem isQuote_of_mem_hexText {width n : Nat} (h : c ∈ Text.hexText width n) :
    isQuote c = false := by
  obtain ⟨d, hd⟩ := Text.exists_hexDigit_of_mem_hexText h
  rw [Bool.eq_false_iff]
  intro hquote
  simp only [isQuote, Bool.or_eq_true, decide_eq_true_eq] at hquote
  rcases hquote with rfl | rfl <;> cases hd

/-- No escape makes a quote. -/
theorem isQuote_of_mem_jsonChar (hc : isQuote c = false) :
    ∀ d ∈ Text.jsonChar c, isQuote d = false := by
  intro d hd
  unfold Text.jsonChar at hd
  have hname : ∀ e ∈ ['\\', 'n', 'r', 't', 'b', 'f', 'u'], isQuote e = false := by decide
  repeat' split at hd
  all_goals simp only [List.mem_cons, List.not_mem_nil, or_false] at hd
  · rcases hd with rfl | rfl
    · rfl
    · exact hc
  · rcases hd with rfl | rfl <;> rfl
  · rcases hd with rfl | rfl <;> rfl
  · rcases hd with rfl | rfl <;> rfl
  · rcases hd with rfl | rfl <;> rfl
  · rcases hd with rfl | rfl <;> rfl
  · rcases hd with rfl | rfl | hd
    · rfl
    · rfl
    · exact isQuote_of_mem_hexText hd
  · rw [hd]
    exact hc

theorem isQuote_of_mem_writeChar (hc : isQuote c = false) :
    ∀ d ∈ writeChar ascii c, isQuote d = false := by
  cases ascii with
  | false => exact isQuote_of_mem_jsonChar hc
  | true =>
      intro d hd
      simp only [writeChar, if_true, Json.asciiChar] at hd
      split at hd
      next => exact isQuote_of_mem_jsonChar hc d hd
      next =>
        split at hd
        next =>
          rcases List.mem_cons.mp hd with rfl | hd
          · rfl
          rcases List.mem_cons.mp hd with rfl | hd
          · rfl
          exact isQuote_of_mem_hexText hd
        next =>
          simp only [List.mem_cons, List.mem_append] at hd
          rcases hd with rfl | rfl | hd | rfl | rfl | hd
          · rfl
          · rfl
          · exact isQuote_of_mem_hexText hd
          · rfl
          · rfl
          · exact isQuote_of_mem_hexText hd

theorem writeChar_ne_nil (ascii : Bool) (c : Char) : writeChar ascii c ≠ [] := by
  have hjson : Text.jsonChar c ≠ [] := by
    unfold Text.jsonChar
    repeat' split
    all_goals exact List.cons_ne_nil _ _
  cases ascii with
  | false => exact hjson
  | true =>
      simp only [writeChar, if_true, Json.asciiChar]
      repeat' split
      · exact hjson
      · exact List.cons_ne_nil _ _
      · exact List.cons_ne_nil _ _

/-- A quoted name without quotes in it, a colon and something behind it. -/
theorem isMember_append (hw : ∀ c ∈ w, isQuote c = false) (hne : w ≠ []) {g : List Char}
    (hg : IsSpaces g) (hrest : rest ≠ []) :
    isMember ('"' :: (w ++ '"' :: (g ++ ':' :: rest))) = true := by
  obtain ⟨c, w, rfl⟩ := List.exists_cons_of_ne_nil hne
  obtain ⟨d, rest, rfl⟩ := List.exists_cons_of_ne_nil hrest
  have hplain : ∀ e ∈ c :: w, (!isQuote e) = true := fun e he => by rw [hw e he, Bool.not_false]
  have hdrop : (c :: w ++ '"' :: (g ++ ':' :: d :: rest)).dropWhile (fun e => !isQuote e) =
      '"' :: (g ++ ':' :: d :: rest) := (span_append hplain (by simp [isQuote])).2
  have hname : dropName ('"' :: (c :: w ++ '"' :: (g ++ ':' :: d :: rest))) =
      some (g ++ ':' :: d :: rest) := by
    have hc := hw c List.mem_cons_self
    simp only [dropName]
    rw [if_pos (show isQuote '"' = true from rfl), hdrop]
    simp [hc]
  have hskip : Text.skipBlanks (g ++ ':' :: d :: rest) = ':' :: d :: rest := by
    rw [skipBlanks_append fun c hc => isBlank_of_isSpace (hg c hc), skipBlanks_cons rfl]
  rw [isMember, hname, Option.map_some, hskip]
  rfl

end Names

section Selecting

variable {ascii : Bool} {k : String} {v : Json} {b g : List Char}

theorem newline_notMem_printTokens (ascii : Bool) (toks : List Token) :
    '\n' ∉ printTokens ascii toks := by
  intro hmem
  obtain ⟨t, -, ht⟩ := List.mem_flatMap.mp hmem
  rcases List.mem_append.mp ht with ht | ht
  · exact newline_notMem_tokenText (Json.tokenText_text ascii t) ht
  · cases t <;> simp [Token.gap] at ht

/-- The printed name is recognised, and what follows it is the rest of the member. -/
theorem isMember_of_spaced (hk : k ≠ "") (hquotes : ∀ c ∈ k.toList, isQuote c = false)
    (hb : Spaced IsSpaces ((fieldTokens [(k, v)]).map (Token.text ascii)) b) :
    isMember b = true := by
  have hname : ∀ c ∈ k.toList.flatMap (writeChar ascii), isQuote c = false := by
    intro c hc
    obtain ⟨d, hd, hc⟩ := List.mem_flatMap.mp hc
    exact isQuote_of_mem_writeChar (hquotes d hd) c hc
  have hne : k.toList.flatMap (writeChar ascii) ≠ [] := by
    obtain ⟨c, rest, hlist⟩ := List.exists_cons_of_ne_nil (show k.toList ≠ [] by simpa using hk)
    rw [hlist, List.flatMap_cons]
    exact List.append_ne_nil_of_left_ne_nil (writeChar_ne_nil ascii c) _
  have hall := Json.exists_tokenText_of_mem (Json.forall₂_text ascii (tokens v))
  obtain ⟨t, ts, ht, -⟩ := Json.State.exists_tokens_eq_cons v
  simp only [fieldTokens, ht, List.map_cons] at hb hall
  cases hb with
  | @next _ g₁ _ _ hg₁ hb =>
      cases hb with
      | @next _ g₂ s _ hg₂ hs =>
          have hrest : g₂ ++ s ≠ [] := by
            obtain ⟨⟨c, back, rfl, -⟩, -⟩ := hs.ends hall
            simp
          simpa [Token.text] using isMember_append hname hne hg₁ hrest

theorem select_of_member {front : List Char} {c d : Char} {back : List Char} (hc : c = '"')
    (hback : b = c :: back) (hfront : b = front ++ [d]) (hd : d ∈ Json.lasts) (hnewline : '\n' ∉ b)
    (hequals : '=' ∉ b) (hmember : isMember b = true) (hg : IsSpaces g) :
    select (b ++ g) = ['\x7b', ' '] ++ b ++ [' ', '\x7d'] := by
  subst hc
  have hblank := isBlank_of_mem_lasts hd
  have hne := ne_semicolon_of_mem_lasts hd
  have hstrip : Text.strip (b ++ g) = '"' :: back := by
    rw [← List.nil_append (b ++ g), strip_of_blanks (List.forall_mem_nil _)
      (fun x hx => isBlank_of_isSpace (hg x hx)) hback hfront rfl hblank, hback]
  have hexport : dropExport b = b := by simp [hback, dropExport]
  have hconst : dropAsConst b = b := by
    have hend := dropAsConst_endText front hd false
    rwa [endText, if_neg (by decide), List.append_nil, ← hfront] at hend
  have hsemicolon : dropSemicolon b = b := by
    rcases dropSemicolon_cases front hblank hne with ⟨-, hkeep⟩ | ⟨x, hcut, -⟩
    · have hkept := hkeep []
      rwa [dropSemicolon, List.append_nil, ← hfront] at hkept
    · obtain ⟨a, bl, r, heq, -, -⟩ := hcut
      rw [← hfront] at heq
      exact absurd (by simp [heq]) hnewline
  have hparentheses : dropParentheses b = b := by simp [hback, dropParentheses]
  rw [select_of_wrapped (by decide) hstrip, ← hback, hexport, dropAssignment_of_notMem hequals,
    hconst, hsemicolon, strip_ends hback hfront rfl hblank, hparentheses, wrapMember,
    if_pos hmember]

theorem HasDistinctNames.member (hv : v.HasDistinctNames) (k : String) :
    HasDistinctNames (.object [(k, v)]) :=
  .object (by simp) (by simpa using hv)

theorem steps?_member (hv : v.HasDistinctNames) (k : String) :
    (Json.State.value []).steps? (.openObject :: (fieldTokens [(k, v)] ++ [.closeObject])) =
      some (.finished (.object [(k, v)])) :=
  Json.State.steps?_tokens (HasDistinctNames.member hv k)

/-- A member is no JSON by itself: nothing may follow its name. -/
theorem member_ne_json (hv : v.HasDistinctNames)
    (hb : Spaced IsSpaces ((fieldTokens [(k, v)]).map (Token.text ascii)) b) (hg : IsSpaces g)
    (u : Json) : Json.parse (b ++ g) ≠ .ok u := by
  intro h
  have hchain := (Json.State.isChain_of_steps (steps?_member hv k)).of_cons.left_of_append
  have hstop : Json.StopsNumber g := by
    rw [← List.append_nil g]
    exact hg.stopsNumber_append Json.stopsNumber_nil
  have hsymbols := Json.symbols_of_spaced (Json.forall₂_text ascii _) hchain hb Json.isSpaces_nil
    hstop
  rw [Json.symbols_of_isSpaces hg, List.map_nil, List.append_nil, List.nil_append] at hsymbols
  cases Json.steps_of_parse hsymbols h

/-- A printed member without an equals sign in it is read as an object with this member alone. -/
theorem parse_member (hk : k ≠ "") (hquotes : ∀ c ∈ k.toList, isQuote c = false)
    (hv : v.HasDistinctNames) (hequals : '=' ∉ member ascii k v) :
    parse (member ascii k v) = .ok (.object [(k, v)]) := by
  obtain ⟨b, g, hb, hg, htext⟩ := Json.exists_spaced_printTokens ascii
    (show fieldTokens [(k, v)] ≠ [] from List.cons_ne_nil _ _)
  have hnewline := newline_notMem_printTokens ascii (fieldTokens [(k, v)])
  rw [htext, List.mem_append, not_or] at hnewline
  rw [member_eq, htext] at hequals ⊢
  rw [List.mem_append, not_or] at hequals
  obtain ⟨-, front, d, hfront, hd⟩ :=
    hb.ends (Json.exists_tokenText_of_mem (Json.forall₂_text ascii _))
  obtain ⟨back, hback⟩ := hb.exists_append
  have hselect : select (b ++ g) = ['\x7b', ' '] ++ b ++ [' ', '\x7d'] :=
    select_of_member rfl hback hfront hd hnewline.1 hequals.1 (isMember_of_spaced hk hquotes hb) hg
  -- the braces make the member an object
  have hspace : IsSpaces [' '] := .cons rfl Json.isSpaces_nil
  have hspaced : Spaced IsSpaces
      ((Token.openObject :: (fieldTokens [(k, v)] ++ [.closeObject])).map (Token.text ascii))
      (['\x7b', ' '] ++ b ++ [' ', '\x7d']) := by
    have hconcat := Spaced.next (w := ['\x7b']) hspace (hb.concat hspace ['\x7d'])
    simpa [Token.text] using hconcat
  have hspread : Spread _ _ := ⟨_, withCommas_self _, hspaced.mono fun _ => gap_of_isSpaces⟩
  refine parse_of_clean (member_ne_json hv hb hg) ?_
  rw [hselect]
  exact parse_clean (Json.forall₂_text ascii _) (steps?_member hv k) hspread.decorated

/-- What else is taken away around a value is not looked for in its strings. -/
theorem parse_member_semicolon :
    parse "\"a b\": [\"(1) as const;\", null]".toList =
      .ok (.object [("a b", .array [.scalar (.str "(1) as const;"), .null])]) := by
  have hv : HasDistinctNames (.array [.scalar (.str "(1) as const;"), .null]) := by
    refine .array fun v hv => ?_
    simp only [List.mem_cons, List.not_mem_nil, or_false] at hv
    rcases hv with rfl | rfl
    · exact .scalar _
    · exact .null
  have htext : member true "a b" (.array [.scalar (.str "(1) as const;"), .null]) =
      "\"a b\": [\"(1) as const;\", null]".toList := rfl
  have hequals : '=' ∉ member true "a b" (.array [.scalar (.str "(1) as const;"), .null]) := by
    rw [htext]
    decide
  have hk : "a b" ≠ "" := by decide
  have hquotes : ∀ c ∈ "a b".toList, isQuote c = false := by decide
  have hparse := parse_member hk hquotes hv hequals
  rw [htext] at hparse
  exact hparse

/-- With an equals sign in a string the member is cut there, and nothing is left to read. -/
theorem member_with_equals_sign :
    (∀ c ∈ "a".toList, isQuote c = false) ∧ HasDistinctNames (.scalar (.str "x=y")) ∧
      ∀ v, parse (member true "a" (.scalar (.str "x=y"))) ≠ .ok v := by
  refine ⟨by decide, .scalar _, fun v => ?_⟩
  have htext : member true "a" (.scalar (.str "x=y")) = "\"a\": \"x=y\"".toList := rfl
  have hclean : clean (select "\"a\": \"x=y\"".toList) = "y\"".toList := rfl
  have hrespell : respell "y\"".toList = "y\"\"".toList := by decide +kernel
  have hjson : ∀ u, Json.parse "\"a\": \"x=y\"".toList ≠ .ok u := by
    intro u h
    have hsymbols : (Json.symbols "\"a\": \"x=y\"".toList).map (·.2) =
        [.scalar (.str "a"), .colon, .scalar (.str "x=y")].map .token := by decide +kernel
    cases Json.steps_of_parse hsymbols h
  have hletter : ∀ back u, Json.parse ('y' :: back) ≠ .ok u :=
    Json.parse_ne_ok_of_first rfl (by decide)
  obtain ⟨e, he⟩ := exists_parse_error hjson (by rw [hclean]; exact hletter _)
    (by rw [hclean, hrespell]; exact hletter _)
  rw [htext, he]
  intro h
  cases h

end Selecting

end TypeSketch.Lenient
