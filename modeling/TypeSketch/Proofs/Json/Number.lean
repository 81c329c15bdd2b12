import TypeSketch.Json.Number
import TypeSketch.Proofs.Binary64.Decimal
import TypeSketch.Proofs.Text.Digits

/-!
# Numbers read back

Printing stands beside reading here: the text of a numeral is read as that numeral, whatever
follows it, as long as that does not continue the number.  The texts of integers and of finite
floats are texts of numerals, so they read back as the literals they were written for.
-/

namespace TypeSketch.Json

open Text (natOfDigits StopsDigits)

/-- What follows a written number does not continue it. -/
def StopsNumber (rest : List Char) : Prop :=
  ∀ c ∈ rest.head?, c.isDigit = false ∧ c ≠ '.' ∧ c ≠ 'e' ∧ c ≠ 'E'

theorem StopsNumber.stopsDigits {rest : List Char} (h : StopsNumber rest) : StopsDigits rest :=
  fun c hc => (h c hc).1

/-- Digits that can stand before the point. -/
def IsWhole (digits : List Char) : Prop :=
  digits = ['0'] ∨
    digits ≠ [] ∧ digits.head? ≠ some '0' ∧ ∀ c ∈ digits, c.isDigit = true

theorem IsWhole.exists_digit {digits : List Char} (h : IsWhole digits) :
    ∃ c rest, digits = c :: rest ∧ c.isDigit = true := by
  rcases h with rfl | ⟨hne, -, hd⟩
  · exact ⟨'0', [], rfl, rfl⟩
  · obtain ⟨c, rest, rfl⟩ := List.exists_cons_of_ne_nil hne
    exact ⟨c, rest, rfl, hd c List.mem_cons_self⟩

theorem isWhole_toDigits (n : Nat) : IsWhole (Nat.toDigits 10 n) := by
  rcases Nat.eq_zero_or_pos n with rfl | hn
  · exact Or.inl rfl
  · exact Or.inr ⟨Nat.toDigits_ne_nil, Text.head?_toDigits_ne_zero hn,
      fun _ => Text.isDigit_of_mem_toDigits⟩

def fractionText : Option (List Char) → List Char
  | none => []
  | some digits => '.' :: digits

def exponentText : Option Int → List Char
  | none => []
  | some e => 'e' :: Binary64.exponentText e

theorem scanWhole_append {digits rest : List Char} (h : IsWhole digits) (hr : StopsDigits rest) :
    scanWhole (digits ++ rest) = some (digits, rest) := by
  rcases h with rfl | ⟨hne, hzero, hd⟩
  · rfl
  · obtain ⟨c, ds, rfl⟩ := List.exists_cons_of_ne_nil hne
    have hc : c ≠ '0' := fun h => hzero (congrArg some h)
    have hspan := Text.spanDigits_append hd hr
    rw [List.cons_append] at hspan
    rw [List.cons_append, scanWhole, if_neg hc, if_pos (hd c List.mem_cons_self), hspan]

theorem scanFraction_append {fraction : Option (List Char)} {rest : List Char}
    (h : ∀ ds ∈ fraction, ds ≠ [] ∧ ∀ c ∈ ds, c.isDigit = true)
    (hr : ∀ c ∈ rest.head?, c.isDigit = false ∧ c ≠ '.') :
    scanFraction (fractionText fraction ++ rest) = fraction.map (·, rest) := by
  cases fraction with
  | none =>
      cases rest with
      | nil => rfl
      | cons c rest =>
          have hc := (hr c rfl).2
          simp only [fractionText, List.nil_append, scanFraction, Option.map_none]
          split
          next heq => exact absurd (List.cons.inj heq).1 hc
          next => rfl
  | some ds =>
      obtain ⟨hne, hd⟩ := h ds rfl
      have hspan := Text.spanDigits_append hd fun c hc => (hr c hc).1
      simp only [fractionText, List.cons_append, scanFraction, hspan, Option.map_some]
      rw [if_neg hne]

/-- The texts of an exponent: a mark, perhaps a sign, and digits. -/
inductive ExponentText : Option Int → List Char → Prop
  | none : ExponentText none []
  | some {mark : Char} {sign digits : List Char} (hmark : mark = 'e' ∨ mark = 'E')
      (hsign : sign = [] ∨ sign = ['+'] ∨ sign = ['-']) (hne : digits ≠ [])
      (hdigits : ∀ c ∈ digits, c.isDigit = true) :
      ExponentText
        (some (if sign = ['-'] then -(natOfDigits digits : Int) else natOfDigits digits))
        (mark :: (sign ++ digits))

theorem exponentText_isText (exponent : Option Int) :
    ExponentText exponent (exponentText exponent) := by
  cases exponent with
  | none => exact .none
  | some e =>
      have hdigits : ∀ c ∈ (Binary64.exponentText e).tail, c.isDigit = true := by
        intro c hc
        rcases List.mem_append.mp hc with hc | hc
        · exact Text.isDigit_of_mem_zeros hc
        · exact Text.isDigit_of_mem_toDigits hc
      have hne : (Binary64.exponentText e).tail ≠ [] := by
        simp [Binary64.exponentText]
      have hvalue : natOfDigits (Binary64.exponentText e).tail = e.natAbs := by
        simp only [Binary64.exponentText, List.tail_cons]
        rw [Text.natOfDigits_zeros_append, Text.natOfDigits_toDigits]
      have hsign : [if e < 0 then '-' else '+'] = [] ∨ [if e < 0 then '-' else '+'] = ['+'] ∨
          [if e < 0 then '-' else '+'] = ['-'] := by
        by_cases he : e < 0 <;> simp [he]
      have h := ExponentText.some (Or.inl rfl) hsign hne hdigits
      have hsize : (if [if e < 0 then '-' else '+'] = ['-'] then -(e.natAbs : Int) else e.natAbs) =
          e := by
        by_cases he : e < 0
        · rw [if_pos he, if_pos rfl]
          omega
        · rw [if_neg he, if_neg (by decide)]
          omega
      rw [hvalue, hsize] at h
      exact h

theorem scanSign_append {sign digits : List Char} (hsign : sign = [] ∨ sign = ['+'] ∨ sign = ['-'])
    (hne : digits ≠ []) (hdigits : ∀ c ∈ digits, c.isDigit = true) (rest : List Char) :
    scanSign (sign ++ (digits ++ rest)) = (decide (sign = ['-']), digits ++ rest) := by
  rcases hsign with rfl | rfl | rfl
  · obtain ⟨c, ds, rfl⟩ := List.exists_cons_of_ne_nil hne
    have hc := hdigits c List.mem_cons_self
    -- a digit is no sign
    rw [List.nil_append, List.cons_append, scanSign]
    · simp
    all_goals
      rintro _ ⟨⟩
      cases hc
  · simp [scanSign]
  · simp [scanSign]

theorem ExponentText.scan {exponent : Option Int} {text rest : List Char}
    (h : ExponentText exponent text) (hr : StopsNumber rest) :
    scanExponent (text ++ rest) = exponent.map (·, rest) := by
  cases h with
  | none =>
      cases rest with
      | nil => rfl
      | cons c rest =>
          obtain ⟨-, -, he, hE⟩ := hr c rfl
          have hc : ¬(c = 'e' ∨ c = 'E') := fun h => h.elim he hE
          simp only [List.nil_append, scanExponent, if_neg hc, Option.map_none]
  | @some mark sign digits hmark hsign hne hdigits =>
      have hspan := Text.spanDigits_append hdigits hr.stopsDigits
      simp only [List.cons_append, List.append_assoc, scanExponent, if_pos hmark,
        scanSign_append hsign hne hdigits, hspan, if_neg hne, decide_eq_true_eq, Option.map_some]

/-- Neither an exponent nor what follows the numeral continues a run of digits. -/
theorem ExponentText.head {exponent : Option Int} {text rest : List Char}
    (h : ExponentText exponent text) (hr : StopsNumber rest) :
    ∀ c ∈ (text ++ rest).head?, c.isDigit = false ∧ c ≠ '.' := by
  intro c hc
  cases h with
  | none => exact ⟨(hr c hc).1, (hr c hc).2.1⟩
  | some hmark =>
      cases hc
      rcases hmark with rfl | rfl <;> exact ⟨rfl, by decide⟩

namespace Numeral

/-- The text of a numeral. -/
def text (n : Numeral) : List Char :=
  Binary64.signText n.negative ++
    (n.whole ++ (fractionText n.fraction ++ exponentText n.exponent))

structure WellFormed (n : Numeral) : Prop where
  whole : IsWhole n.whole
  fraction : ∀ ds ∈ n.fraction, ds ≠ [] ∧ ∀ c ∈ ds, c.isDigit = true

/-- What stands behind the sign of a numeral, with what follows it, starts with a digit. -/
theorem WellFormed.head_unsigned {n : Numeral} (h : n.WellFormed) (rest : List Char) :
    ∃ c tail, n.whole ++ rest = c :: tail ∧ c ≠ '-' := by
  obtain ⟨c, ds, hds, hc⟩ := h.whole.exists_digit
  refine ⟨c, ds ++ rest, by rw [hds, List.cons_append], ?_⟩
  rintro rfl
  simp [Char.isDigit] at hc

/-- The text of a numeral with the given text of its exponent. -/
def textWith (n : Numeral) (exponent : List Char) : List Char :=
  Binary64.signText n.negative ++ (n.whole ++ (fractionText n.fraction ++ exponent))

theorem sign_text {n : Numeral} (h : n.WellFormed) (exponent rest : List Char) :
    ((n.textWith exponent ++ rest).head? == some '-') = n.negative := by
  obtain ⟨c, tail, hcons, hminus⟩ :=
    h.head_unsigned (fractionText n.fraction ++ (exponent ++ rest))
  cases hneg : n.negative with
  | true => simp [textWith, hneg, Binary64.signText]
  | false =>
      simp only [textWith, hneg, Binary64.signText, List.append_assoc]
      simp [hcons, hminus]

theorem unsigned_text (n : Numeral) (exponent rest : List Char) :
    (if n.negative = true then (n.textWith exponent ++ rest).drop 1
      else n.textWith exponent ++ rest) =
      n.whole ++ (fractionText n.fraction ++ (exponent ++ rest)) := by
  cases hneg : n.negative <;> simp [textWith, hneg, Binary64.signText]

end Numeral

/-- The texts of a numeral differ in how its exponent is written. -/
def NumeralText (n : Numeral) (text : List Char) : Prop :=
  n.WellFormed ∧ ∃ exponent, ExponentText n.exponent exponent ∧ text = n.textWith exponent

/-- Reading a text of a numeral gives the numeral and leaves what follows. -/
theorem NumeralText.scan {n : Numeral} {text : List Char} (h : NumeralText n text)
    {rest : List Char} (hr : StopsNumber rest) : scanNumeral (text ++ rest) = some (n, rest) := by
  obtain ⟨hn, exponent, hexponent, rfl⟩ := h
  have hafter := hexponent.head hr
  have hstop : StopsDigits (fractionText n.fraction ++ (exponent ++ rest)) := by
    intro c hc
    cases hx : n.fraction with
    | none =>
        rw [hx] at hc
        exact (hafter c hc).1
    | some ds =>
        rw [hx] at hc
        cases hc
        rfl
  have hwhole := scanWhole_append hn.whole hstop
  have hfrac := scanFraction_append hn.fraction hafter
  have hexp := hexponent.scan hr
  rw [scanNumeral]
  dsimp only
  rw [Numeral.sign_text hn, Numeral.unsigned_text, hwhole]
  dsimp only
  rw [hfrac]
  -- reading goes on behind the fraction and behind the exponent, whether they are there or not
  have hrest : ((n.fraction.map (·, exponent ++ rest)).map (·.2)).getD
      (fractionText n.fraction ++ (exponent ++ rest)) = exponent ++ rest := by
    cases n.fraction <;> rfl
  have hend : ((n.exponent.map (·, rest)).map (·.2)).getD (exponent ++ rest) = rest := by
    cases he : n.exponent with
    | some e => rfl
    | none =>
        rw [he] at hexponent
        cases hexponent
        rfl
  have hpart : ∀ {α : Type} (x : Option α) (r : List Char), (x.map (·, r)).map (·.1) = x := by
    intro α x r
    cases x <;> rfl
  rw [hrest, hexp, hend, hpart, hpart]

theorem numeralText_text {n : Numeral} (h : n.WellFormed) : NumeralText n n.text :=
  ⟨h, _, exponentText_isText n.exponent, rfl⟩

/-- A literal is written as a numeral that stands for it. -/
def WrittenAs (l : Literal) (n : Numeral) : Prop :=
  n.WellFormed ∧ n.text = l.text ∧ n.literal = l

theorem exists_numeral_int (i : Int) : ∃ n, WrittenAs (.int i) n := by
  refine ⟨⟨decide (i < 0), Nat.toDigits 10 i.natAbs, none, none⟩,
    ⟨isWhole_toDigits _, by simp⟩, ?_, ?_⟩
  · cases i with
    | ofNat m => simp [Numeral.text, Literal.text, Binary64.signText, fractionText, exponentText,
        Int.repr]
    | negSucc m => simp [Numeral.text, Literal.text, Binary64.signText, fractionText,
        exponentText, Int.repr, Int.negSucc_lt_zero]
  · simp only [Numeral.literal, Text.natOfDigits_toDigits, Literal.int.injEq]
    by_cases hi : i < 0
    · rw [decide_eq_true hi, if_pos rfl]
      omega
    · rw [decide_eq_false hi, if_neg Bool.false_ne_true]
      omega

theorem exists_zeros_behind (c : Char) (s : List Char) :
    ∃ k, s = (s.reverse.dropWhile (· = c)).reverse ++ List.replicate k c := by
  refine ⟨(s.reverse.takeWhile (· = c)).length, ?_⟩
  have hall : ∀ d ∈ s.reverse.takeWhile (· = c), d = c := by
    intro d hd
    simpa using List.all_eq_true.mp List.all_takeWhile d hd
  have hsplit := congrArg List.reverse
    (List.takeWhile_append_dropWhile (p := fun d => decide (d = c)) (l := s.reverse))
  rw [List.reverse_append, List.reverse_reverse, List.eq_replicate_of_mem hall,
    List.reverse_replicate] at hsplit
  exact hsplit.symm

/-- Digits of a decimal that lack only zeros at their end. -/
structure Significant (d : Binary64.Decimal) (digits : List Char) (zeros : Nat) : Prop where
  eq : Nat.toDigits 10 d.digits = digits ++ List.replicate zeros '0'
  ne_nil : digits ≠ []
  head_ne_zero : digits.head? ≠ some '0'

theorem exists_significant {d : Binary64.Decimal} (hd : 0 < d.digits) :
    ∃ zeros, Significant d (Binary64.significant d) zeros := by
  obtain ⟨k, hk⟩ := exists_zeros_behind '0' (Nat.toDigits 10 d.digits)
  change Nat.toDigits 10 d.digits = Binary64.significant d ++ _ at hk
  have hhead := Text.head?_toDigits_ne_zero hd
  have hne : Binary64.significant d ≠ [] := by
    intro h
    rw [h, List.nil_append] at hk
    cases k with
    | zero => exact Nat.toDigits_ne_nil hk
    | succ k =>
        rw [hk] at hhead
        exact hhead rfl
  refine ⟨k, hk, hne, ?_⟩
  obtain ⟨c, ds, hcons⟩ := List.exists_cons_of_ne_nil hne
  rw [hk, hcons] at hhead
  rw [hcons]
  exact hhead

namespace Significant

variable {d : Binary64.Decimal} {digits : List Char} {zeros : Nat}

theorem isDigit (h : Significant d digits zeros) {c : Char} (hc : c ∈ digits) :
    c.isDigit = true := by
  apply Text.isDigit_of_mem_toDigits
  rw [h.eq]
  exact List.mem_append_left _ hc

theorem digitCount (h : Significant d digits zeros) :
    Binary64.digitCount d.digits = digits.length + zeros := by
  rw [Binary64.digitCount, h.eq, List.length_append, List.length_replicate]

/-- The decimal in terms of its significant digits, with some zeros behind them. -/
theorem ofDecimal (h : Significant d digits zeros) (negative : Bool) (j : Nat) {exponent : Int}
    (he : exponent = d.exponent + zeros - j) :
    Binary64.ofDecimal negative (natOfDigits digits * 10 ^ j) exponent =
      .ofDecimal negative d.digits d.exponent := by
  have hsize : natOfDigits digits * 10 ^ zeros = d.digits := by
    rw [← Text.natOfDigits_append_zeros, ← h.eq, Text.natOfDigits_toDigits]
  have hzeros := Binary64.ofDecimal_mul_pow negative (natOfDigits digits) (d.exponent + zeros)
    zeros
  rw [hsize, Int.add_sub_cancel] at hzeros
  rw [he, Binary64.ofDecimal_mul_pow, hzeros]

/-- The same without zeros behind the digits. -/
theorem ofDecimal_self (h : Significant d digits zeros) (negative : Bool) {exponent : Int}
    (he : exponent = d.exponent + zeros) :
    Binary64.ofDecimal negative (natOfDigits digits) exponent =
      .ofDecimal negative d.digits d.exponent := by
  have he' : exponent = d.exponent + zeros - (0 : Nat) := by simpa using he
  have hself := h.ofDecimal negative 0 he'
  rwa [Nat.pow_zero, Nat.mul_one] at hself

end Significant

/-- Behind a sign, the text is that of a numeral, and reading the numeral rounds the decimal. -/
def Spells (d : Binary64.Decimal) (negative : Bool) (unsigned : List Char) : Prop :=
  ∃ n : Numeral, n.WellFormed ∧ n.text = Binary64.signText negative ++ unsigned ∧
    n.literal = .float (.ofDecimal negative d.digits d.exponent)

section Spelling

variable {d : Binary64.Decimal} {digits : List Char} {zeros : Nat} {e : Int}

/-- All significant digits stand behind the point. -/
theorem Significant.spells_fraction (h : Significant d digits zeros) (negative : Bool)
    (he : (digits.length + zeros : Int) + d.exponent - 1 = e) (hneg : e < 0) :
    Spells d negative ('0' :: '.' :: (List.replicate (-e - 1).toNat '0' ++ digits)) := by
  refine ⟨⟨negative, ['0'], some (List.replicate (-e - 1).toNat '0' ++ digits), none⟩,
    ⟨Or.inl rfl, ?_⟩, ?_, ?_⟩
  · rintro ds ⟨⟩
    refine ⟨List.append_ne_nil_of_right_ne_nil _ h.ne_nil, ?_⟩
    intro c hc
    rcases List.mem_append.mp hc with hc | hc
    · exact Text.isDigit_of_mem_zeros hc
    · exact h.isDigit hc
  · simp [Numeral.text, fractionText, exponentText]
  · simp only [Numeral.literal, Option.getD_some, Option.getD_none, Literal.float.injEq]
    rw [Text.natOfDigits_append, Text.natOfDigits_zeros_append, List.length_append,
      List.length_replicate, show natOfDigits ['0'] = 0 from rfl, Nat.zero_mul, Nat.zero_add]
    exact h.ofDecimal_self negative (by omega)

/-- All significant digits stand before the point, with zeros up to it. -/
theorem Significant.spells_whole (h : Significant d digits zeros) (negative : Bool)
    (he : (digits.length + zeros : Int) + d.exponent - 1 = e) (hpos : 0 ≤ e)
    (hshort : digits.length ≤ e.toNat + 1) :
    Spells d negative
      (digits ++ List.replicate (e.toNat + 1 - digits.length) '0' ++ ['.', '0']) := by
  refine ⟨⟨negative, digits ++ List.replicate (e.toNat + 1 - digits.length) '0', some ['0'],
    none⟩, ⟨Or.inr ⟨List.append_ne_nil_of_left_ne_nil h.ne_nil _, ?_, ?_⟩, ?_⟩, ?_, ?_⟩
  · obtain ⟨c, ds, rfl⟩ := List.exists_cons_of_ne_nil h.ne_nil
    exact h.head_ne_zero
  · intro c hc
    rcases List.mem_append.mp hc with hc | hc
    · exact h.isDigit hc
    · exact Text.isDigit_of_mem_zeros hc
  · rintro ds ⟨⟩
    exact ⟨List.cons_ne_nil _ _, by simp [Char.isDigit]⟩
  · simp [Numeral.text, fractionText, exponentText]
  · simp only [Numeral.literal, Option.getD_some, Option.getD_none, Literal.float.injEq]
    rw [List.append_assoc, ← List.replicate_succ', Text.natOfDigits_append_zeros]
    apply h.ofDecimal
    simp only [List.length_singleton]
    omega

/-- The point stands among the significant digits. -/
theorem Significant.spells_split (h : Significant d digits zeros) (negative : Bool)
    (he : (digits.length + zeros : Int) + d.exponent - 1 = e) (hpos : 0 ≤ e)
    (hlong : e.toNat + 1 < digits.length) :
    Spells d negative (digits.take (e.toNat + 1) ++ '.' :: digits.drop (e.toNat + 1)) := by
  refine ⟨⟨negative, digits.take (e.toNat + 1), some (digits.drop (e.toNat + 1)), none⟩,
    ⟨Or.inr ⟨?_, ?_, ?_⟩, ?_⟩, ?_, ?_⟩
  · intro hnil
    have := congrArg List.length hnil
    rw [List.length_take, List.length_nil] at this
    omega
  · obtain ⟨c, ds, rfl⟩ := List.exists_cons_of_ne_nil h.ne_nil
    exact h.head_ne_zero
  · exact fun c hc => h.isDigit (List.mem_of_mem_take hc)
  · rintro ds ⟨⟩
    refine ⟨?_, fun c hc => h.isDigit (List.mem_of_mem_drop hc)⟩
    intro hnil
    have := congrArg List.length hnil
    rw [List.length_drop, List.length_nil] at this
    omega
  · simp [Numeral.text, fractionText, exponentText]
  · simp only [Numeral.literal, Option.getD_some, Option.getD_none, Literal.float.injEq]
    rw [List.take_append_drop, List.length_drop]
    exact h.ofDecimal_self negative (by omega)

/-- The leading digit stands alone before the point, and an exponent behind. -/
theorem Significant.spells_scientific {c : Char} (fraction : Option (List Char))
    (h : Significant d (c :: fraction.getD []) zeros) (hne : ∀ ds ∈ fraction, ds ≠ [])
    (negative : Bool) (he : ((fraction.getD []).length + 1 + zeros : Int) + d.exponent - 1 = e) :
    Spells d negative (c :: (fractionText fraction ++ exponentText (some e))) := by
  have hc : IsWhole [c] := by
    refine Or.inr ⟨List.cons_ne_nil _ _, h.head_ne_zero, ?_⟩
    intro b hb
    rw [List.mem_singleton.mp hb]
    exact h.isDigit List.mem_cons_self
  refine ⟨⟨negative, [c], fraction, some e⟩, ⟨hc, ?_⟩, rfl, ?_⟩
  · rintro ds ⟨⟩
    exact ⟨hne ds rfl, fun a ha => h.isDigit (List.mem_cons_of_mem c ha)⟩
  · have hliteral : Numeral.literal ⟨negative, [c], fraction, some e⟩ =
        .float (.ofDecimal negative (natOfDigits (c :: fraction.getD []))
          (e - (fraction.getD []).length)) := by
      cases fraction <;> rfl
    rw [hliteral, h.ofDecimal_self negative (by omega)]

theorem spells_decimalText (hd : 0 < d.digits) (negative : Bool) :
    Spells d negative (Binary64.decimalText d) := by
  obtain ⟨zeros, h⟩ := exists_significant hd
  have he : ((Binary64.significant d).length + zeros : Int) + d.exponent - 1 =
      Binary64.digitCount d.digits + d.exponent - 1 := by
    rw [h.digitCount]
    rfl
  simp only [Binary64.decimalText]
  generalize (Binary64.digitCount d.digits : Int) + d.exponent - 1 = e at he ⊢
  generalize Binary64.significant d = digits at h he ⊢
  -- the form depends on where the point stands: in front of the digits, behind or among them, or
  -- so far off that there is an exponent
  by_cases hsmall : -4 ≤ e ∧ e < 0
  · rw [if_pos hsmall]
    exact h.spells_fraction negative he hsmall.2
  rw [if_neg hsmall]
  by_cases hmiddle : 0 ≤ e ∧ e < 16
  · rw [if_pos hmiddle]
    by_cases hshort : digits.length ≤ e.toNat + 1
    · rw [if_pos hshort]
      exact h.spells_whole negative he hmiddle.1 hshort
    · rw [if_neg hshort]
      exact h.spells_split negative he hmiddle.1 (by omega)
  · rw [if_neg hmiddle]
    obtain ⟨c, ds, rfl⟩ := List.exists_cons_of_ne_nil h.ne_nil
    rw [List.length_cons] at he
    cases ds with
    | nil => exact Significant.spells_scientific none h (by simp) negative (by simpa using he)
    | cons b ds =>
        exact Significant.spells_scientific (some (b :: ds)) h (by simp) negative (by simpa using he)

end Spelling

/-- A float without digits is one of the words for an infinite number and for none. -/
theorem exists_numeral_float {x : Binary64} :
    (∃ n, WrittenAs (.float x) n) ∨ x = .nan ∨ ∃ negative, x = .infinite negative := by
  cases x with
  | nan => exact Or.inr (Or.inl rfl)
  | infinite negative => exact Or.inr (Or.inr ⟨negative, rfl⟩)
  | finite negative units hfits =>
      left
      rcases Nat.eq_zero_or_pos units with rfl | hpos
      · refine ⟨⟨negative, ['0'], some ['0'], none⟩, ⟨Or.inl rfl, ?_⟩, rfl, ?_⟩
        · rintro ds ⟨⟩
          exact ⟨List.cons_ne_nil _ _, by simp [Char.isDigit]⟩
        · rfl
      · have hback := Binary64.readsBack_shortest hpos hfits
        have hdigits := Binary64.digits_pos_of_readsBack hpos hfits hback
        obtain ⟨n, hn, htext, hliteral⟩ := spells_decimalText hdigits negative
        refine ⟨n, hn, ?_, ?_⟩
        · rw [htext, Literal.text, Binary64.text, if_neg (Nat.ne_of_gt hpos)]
        · rw [hliteral, Binary64.ofDecimal_of_readsBack hpos hfits hback]

/-- A number is written as a numeral or with one of the words. -/
theorem writtenAs_or_word {l : Literal} (hl : l.kind = .number) : (∃ n, WrittenAs l n) ∨
    ∃ x, l = .float x ∧ (x = .nan ∨ ∃ negative, x = .infinite negative) := by
  cases l with
  | bool b => cases hl
  | str s => cases hl
  | int i => exact Or.inl (exists_numeral_int i)
  | float x => exact exists_numeral_float.imp_right fun hx => ⟨x, rfl, hx⟩

theorem scanNumeral_word {x : Binary64} (hx : x = .nan ∨ ∃ negative, x = .infinite negative)
    (rest : List Char) : scanNumeral ((Literal.float x).text ++ rest) = none := by
  rcases hx with rfl | ⟨negative, rfl⟩
  · rfl
  · cases negative <;> rfl

/-- The texts of different numbers are told apart, whatever follows them. -/
theorem number_text_append_inj {l m : Literal} (hl : l.kind = .number) (hm : m.kind = .number)
    {r s : List Char} (hr : StopsNumber r) (hs : StopsNumber s)
    (h : l.text ++ r = m.text ++ s) : l = m ∧ r = s := by
  have hscan : ∀ {l : Literal} {n : Numeral} {r : List Char}, WrittenAs l n → StopsNumber r →
      scanNumeral (l.text ++ r) = some (n, r) := by
    intro l n r hn hr
    rw [← hn.2.1]
    exact (numeralText_text hn.1).scan hr
  rcases writtenAs_or_word hl with ⟨n, hn⟩ | ⟨x, rfl, hx⟩ <;>
    rcases writtenAs_or_word hm with ⟨k, hk⟩ | ⟨y, rfl, hy⟩
  · -- both are read as numerals, from one text
    have hsame := hscan hn hr
    rw [h, hscan hk hs] at hsame
    cases hsame
    exact ⟨hn.2.2.symm.trans hk.2.2, rfl⟩
  · -- a word is not read as a numeral
    have hsame := hscan hn hr
    rw [h, scanNumeral_word hy] at hsame
    cases hsame
  · have hsame := hscan hk hs
    rw [← h, scanNumeral_word hx] at hsame
    cases hsame
  · -- the three words differ in one of their first two characters
    rcases hx with rfl | ⟨a, rfl⟩ <;> rcases hy with rfl | ⟨b, rfl⟩
    · exact ⟨rfl, List.append_cancel_left h⟩
    · cases b <;> simp [Literal.text, Binary64.text, Binary64.signText] at h
    · cases a <;> simp [Literal.text, Binary64.text, Binary64.signText] at h
    · cases a <;> cases b <;>
        simp [Literal.text, Binary64.text, Binary64.signText] at h ⊢ <;> exact h

end TypeSketch.Json
