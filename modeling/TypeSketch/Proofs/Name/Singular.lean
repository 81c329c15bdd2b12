import Mathlib
import TypeSketch.Name.Singular

/-!
# The last word

What stands in front of the last word of a name has no part in its singular.  Main statement:
`singularize_last_word`, for a last word in small letters behind an underscore, with a capital, or
in capitals, behind any text on the same line.
-/

namespace TypeSketch.Name

variable {overrides : List (String × String)} {before last : List Char}

section Words

/-- The three forms of a last word. -/
theorem isLastWord_iff {s : List Char} : isLastWord s = true ↔
    (∃ c rest, s = c :: rest ∧ c.isUpper = true ∧ rest ≠ [] ∧ ∀ d ∈ rest, d.isLower = true) ∨
      (s ≠ [] ∧ ∀ c ∈ s, c.isUpper = true) ∨
      (s ≠ [] ∧ ∀ c ∈ s, c.isDigit = true ∨ c.isLower = true) := by
  cases s with
  | nil => simp [isLastWord]
  | cons c rest => simp [isLastWord, and_assoc]

theorem isAlphanum_of_isLastWord {s : List Char} (h : isLastWord s = true) :
    ∀ c ∈ s, c.isAlphanum = true := by
  have hupper : ∀ {c : Char}, c.isUpper = true → c.isAlphanum = true := fun h => by
    simp [Char.isAlphanum, Char.isAlpha, h]
  have hlower : ∀ {c : Char}, c.isLower = true → c.isAlphanum = true := fun h => by
    simp [Char.isAlphanum, Char.isAlpha, h]
  have hdigit : ∀ {c : Char}, c.isDigit = true → c.isAlphanum = true := fun h => by
    simp [Char.isAlphanum, h]
  rcases isLastWord_iff.mp h with ⟨c, rest, rfl, hc, -, hrest⟩ | ⟨-, hs⟩ | ⟨-, hs⟩
  · exact List.forall_mem_cons.mpr ⟨hupper hc, fun d hd => hlower (hrest d hd)⟩
  · exact fun c hc => hupper (hs c hc)
  · exact fun c hc => (hs c hc).elim hdigit hlower

theorem isUpper_eq_false_of_isLower {c : Char} (h : c.isLower = true) : c.isUpper = false := by
  refine Bool.eq_false_iff.mpr fun hupper => ?_
  simp only [Char.isUpper, Char.isLower, decide_eq_true_eq, Bool.and_eq_true] at h hupper
  exact absurd (UInt32.le_trans h.1 hupper.2) (by decide)

theorem isUpper_eq_false_of_isDigit {c : Char} (h : c.isDigit = true) : c.isUpper = false := by
  refine Bool.eq_false_iff.mpr fun hupper => ?_
  simp only [Char.isUpper, Char.isDigit, decide_eq_true_eq, Bool.and_eq_true] at h hupper
  exact absurd (UInt32.le_trans hupper.1 h.2) (by decide)

/-- Where a capital is not the first character of a last word, all characters are capitals. -/
theorem isUpper_of_isLastWord {c d : Char} {s : List Char} (h : isLastWord (c :: s) = true)
    (hd : d ∈ s) (hupper : d.isUpper = true) : ∀ e ∈ c :: s, e.isUpper = true := by
  have hcontra : d.isUpper = false → ∀ e ∈ c :: s, e.isUpper = true := fun hfalse =>
    absurd hupper (Bool.eq_false_iff.mp hfalse)
  rcases isLastWord_iff.mp h with ⟨_, rest, heq, -, -, hlower⟩ | ⟨-, hs⟩ | ⟨-, hs⟩
  · obtain ⟨rfl, rfl⟩ := List.cons.inj heq
    exact hcontra (isUpper_eq_false_of_isLower (hlower d hd))
  · exact hs
  · refine hcontra ?_
    exact (hs d (List.mem_cons_of_mem c hd)).elim isUpper_eq_false_of_isDigit
      isUpper_eq_false_of_isLower

end Words

section Splitting

/-- A text is split in front of a last word if nothing longer at its end is one. -/
theorem splitLastWord_append (hlast : isLastWord last = true)
    (hlongest : ∀ c rest, c :: rest <:+ before → isLastWord (c :: (rest ++ last)) = false) :
    splitLastWord (before ++ last) = some (before, last) := by
  induction before with
  | nil =>
      cases last with
      | nil => cases hlast
      | cons c rest => rw [List.nil_append, splitLastWord, if_pos hlast]
  | cons c rest ih =>
      have hlonger : isLastWord (c :: (rest ++ last)) = false :=
        hlongest c rest List.suffix_rfl
      have hsplit := ih fun d tail hsuffix =>
        hlongest d tail (hsuffix.trans (List.suffix_cons c rest))
      rw [List.cons_append, splitLastWord, hlonger, if_neg Bool.false_ne_true, hsplit]
      rfl

/-- On one line, the last word is put into the singular by itself. -/
theorem singularize_of_splitLastWord (hline : '\n' ∉ before ++ last) (hlength : 2 ≤ last.length)
    (hsplit : splitLastWord (before ++ last) = some (before, last)) :
    singularize overrides (before ++ last) = before ++ singularWord overrides last := by
  have hchomp : chomp (before ++ last) = before ++ last :=
    if_neg fun h => hline (List.mem_of_getLast? h)
  have hcontains : (before ++ last).contains '\n' = false := by
    simpa using hline
  simp only [singularize, hchomp, hcontains, hsplit, Bool.false_eq_true, if_false]
  exact if_neg (Nat.not_lt.mpr hlength)

/-- What stands in front of a last word has no part in its singular. -/
theorem singularize_append (hline : '\n' ∉ before) (hlast : isLastWord last = true)
    (hlength : 2 ≤ last.length)
    (hlongest : ∀ c rest, c :: rest <:+ before → isLastWord (c :: (rest ++ last)) = false) :
    singularize overrides (before ++ last) = before ++ singularize overrides last := by
  have hword : '\n' ∉ last := fun h =>
    absurd (isAlphanum_of_isLastWord hlast _ h) (by decide)
  have hlines : '\n' ∉ before ++ last := fun h =>
    (List.mem_append.mp h).elim hline hword
  have halone : splitLastWord ([] ++ last) = some ([], last) :=
    splitLastWord_append hlast fun c rest h => by simp at h
  have hsingular : singularize overrides last = singularWord overrides last :=
    singularize_of_splitLastWord hword hlength halone
  rw [singularize_of_splitLastWord hlines hlength (splitLastWord_append hlast hlongest), hsingular]

end Splitting

/-- The singular of the last word of a name, with what stands in front of it unchanged: small
letters behind an underscore, a capital and small letters, or capitals behind anything but a
capital. -/
theorem singularize_last_word (overrides : List (String × String)) (before : List Char)
    (hline : '\n' ∉ before) :
    (∀ last : List Char, 2 ≤ last.length → (∀ c ∈ last, c.isLower = true) →
      singularize overrides (before ++ '_' :: last) =
        before ++ '_' :: singularize overrides last) ∧
    (∀ (c : Char) (rest : List Char), c.isUpper = true → rest ≠ [] →
      (∀ d ∈ rest, d.isLower = true) →
      singularize overrides (before ++ c :: rest) = before ++ singularize overrides (c :: rest)) ∧
    (∀ last : List Char, 2 ≤ last.length → (∀ c ∈ last, c.isUpper = true) →
      (∀ c, before.getLast? = some c → c.isUpper = false) →
      singularize overrides (before ++ last) = before ++ singularize overrides last) := by
  refine ⟨fun last hlength hlower => ?small, fun c rest hc hne hrest => ?capital,
    fun last hlength hupper hfront => ?capitals⟩
  case small =>
    have hlast : isLastWord last = true := isLastWord_iff.mpr
      (.inr (.inr ⟨List.ne_nil_of_length_pos (Nat.lt_of_lt_of_le Nat.two_pos hlength),
        fun c hc => .inr (hlower c hc)⟩))
    have hlines : '\n' ∉ before ++ ['_'] := fun h =>
      (List.mem_append.mp h).elim hline (by decide)
    -- the underscore belongs to every longer text
    have hlongest : ∀ c rest, c :: rest <:+ before ++ ['_'] →
        isLastWord (c :: (rest ++ last)) = false := by
      intro c rest hsuffix
      have hunderscore : '_' ∈ c :: rest := by
        have hfinal : (c :: rest).getLast (List.cons_ne_nil c rest) = '_' :=
          (hsuffix.getLast _).trans List.getLast_concat
        exact hfinal ▸ List.getLast_mem _
      refine Bool.eq_false_iff.mpr fun h => ?_
      have hmem : '_' ∈ c :: (rest ++ last) := List.mem_append_left last hunderscore
      exact absurd (isAlphanum_of_isLastWord h _ hmem) (by decide)
    have happend : singularize overrides (before ++ ['_'] ++ last) =
        before ++ ['_'] ++ singularize overrides last :=
      singularize_append hlines hlast hlength hlongest
    rwa [List.append_assoc, List.append_assoc] at happend
  case capital =>
    have hlast : isLastWord (c :: rest) = true :=
      isLastWord_iff.mpr (.inl ⟨c, rest, rfl, hc, hne, hrest⟩)
    obtain ⟨d, hd⟩ := List.exists_mem_of_ne_nil rest hne
    refine singularize_append hline hlast ?_ fun e front _ => Bool.eq_false_iff.mpr fun h => ?_
    · exact Nat.succ_le_succ (List.length_pos_of_mem hd)
    · -- the capital is not the first character any more, and small letters follow it
      have hall := isUpper_of_isLastWord h (List.mem_append_right front List.mem_cons_self) hc
      have hupper : d.isUpper = true :=
        hall d (List.mem_cons_of_mem e (List.mem_append_right front (List.mem_cons_of_mem c hd)))
      exact Bool.noConfusion (hupper.symm.trans (isUpper_eq_false_of_isLower (hrest d hd)))
  case capitals =>
    have hne : last ≠ [] := List.ne_nil_of_length_pos (Nat.lt_of_lt_of_le Nat.two_pos hlength)
    have hlast : isLastWord last = true := isLastWord_iff.mpr (.inr (.inl ⟨hne, hupper⟩))
    obtain ⟨d, hd⟩ := List.exists_mem_of_ne_nil last hne
    refine singularize_append hline hlast hlength fun e front hsuffix =>
      Bool.eq_false_iff.mpr fun h => ?_
    -- the character in front of the capitals would have to be one of them
    have hall := isUpper_of_isLastWord h (List.mem_append_right front hd) (hupper d hd)
    have hnonempty : e :: front ≠ [] := List.cons_ne_nil e front
    have hcapital : ((e :: front).getLast hnonempty).isUpper = true :=
      hall _ (List.mem_append_left last (List.getLast_mem hnonempty))
    have hfinal : before.getLast? = some ((e :: front).getLast hnonempty) := by
      obtain ⟨start, rfl⟩ := hsuffix
      rw [List.getLast?_append, List.getLast?_eq_some_getLast hnonempty, Option.some_or]
    exact Bool.noConfusion (hcapital.symm.trans (hfront _ hfinal))

theorem singularize_last_word_mixed :
    singularize [] ("order".toList ++ '_' :: "items".toList) =
        "order".toList ++ '_' :: "item".toList ∧
      singularize [("people", "soul")] ("größe 1.".toList ++ 'P' :: "eople".toList) =
        "größe 1.".toList ++ 'S' :: "oul".toList ∧
      singularize [] ("ORDER_".toList ++ "INDICES".toList) = "ORDER_".toList ++ "INDEX".toList := by
  have hitems : ∀ c ∈ "items".toList, c.isLower = true := List.all_eq_true.mp rfl
  have heople : ∀ c ∈ "eople".toList, c.isLower = true := List.all_eq_true.mp rfl
  have hindices : ∀ c ∈ "INDICES".toList, c.isUpper = true := List.all_eq_true.mp rfl
  have hfront : ∀ c, "ORDER_".toList.getLast? = some c → c.isUpper = false := by
    rintro c ⟨⟩
    rfl
  refine ⟨?_, ?_, ?_⟩
  · rw [(singularize_last_word [] "order".toList (by decide)).1 "items".toList (by decide) hitems]
    decide +kernel
  · rw [(singularize_last_word [("people", "soul")] "größe 1.".toList (by decide)).2.1 'P'
      "eople".toList (by decide) (by decide) heople]
    decide +kernel
  · rw [(singularize_last_word [] "ORDER_".toList (by decide)).2.2 "INDICES".toList (by decide)
      hindices hfront]
    decide +kernel

end TypeSketch.Name
