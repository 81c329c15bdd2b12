import Mathlib.Algebra.Group.Nat.Defs
import TypeSketch.Text.Digits
import TypeSketch.Text.Quoted

/-!
# Runs of digits

A number written in decimal or in hexadecimal digits is read back, also with zeros in front of its
digits or behind them, and whatever follows.
-/

namespace TypeSketch.Text

/-- A statement about every character of a text is decided along the text, and not by going through
all characters. -/
instance decidableForallMemChars (p : Char → Prop) [DecidablePred p] (cs : List Char) :
    Decidable (∀ c ∈ cs, p c) :=
  List.decidableBAll p cs

theorem natOfDigits_eq_ofDigitChars (digits : List Char) :
    natOfDigits digits = Nat.ofDigitChars 10 digits 0 := rfl

theorem natOfDigits_toDigits (n : Nat) : natOfDigits (Nat.toDigits 10 n) = n := by
  rw [natOfDigits_eq_ofDigitChars, Nat.ofDigitChars_ten_toDigits]

theorem natOfDigits_append (xs ys : List Char) :
    natOfDigits (xs ++ ys) = natOfDigits xs * 10 ^ ys.length + natOfDigits ys := by
  simp only [natOfDigits_eq_ofDigitChars]
  rw [Nat.ofDigitChars_append, Nat.ofDigitChars_eq_ofDigitChars_zero, Nat.mul_comm]

theorem natOfDigits_zeros (k : Nat) : natOfDigits (List.replicate k '0') = 0 := by
  rw [natOfDigits_eq_ofDigitChars, Nat.ofDigitChars_replicate_zero, Nat.mul_zero]

theorem natOfDigits_zeros_append (k : Nat) (digits : List Char) :
    natOfDigits (List.replicate k '0' ++ digits) = natOfDigits digits := by
  rw [natOfDigits_append, natOfDigits_zeros, Nat.zero_mul, Nat.zero_add]

theorem natOfDigits_append_zeros (digits : List Char) (k : Nat) :
    natOfDigits (digits ++ List.replicate k '0') = natOfDigits digits * 10 ^ k := by
  rw [natOfDigits_append, natOfDigits_zeros, List.length_replicate, Nat.add_zero]

theorem isDigit_of_mem_toDigits {n : Nat} {c : Char} (hc : c ∈ Nat.toDigits 10 n) :
    c.isDigit = true :=
  Nat.isDigit_of_mem_toDigits (by decide) (by decide) hc

theorem isDigit_of_mem_zeros {k : Nat} {c : Char} (hc : c ∈ List.replicate k '0') :
    c.isDigit = true := by
  rw [List.eq_of_mem_replicate hc]
  rfl

/-- The digits of a positive number do not start with a zero. -/
theorem head?_toDigits_ne_zero {n : Nat} (hn : 0 < n) :
    (Nat.toDigits 10 n).head? ≠ some '0' := by
  induction n using Nat.strongRecOn with
  | ind n ih =>
      by_cases hlt : n < 10
      · rw [Nat.toDigits_of_lt_base hlt, List.head?_cons]
        intro h
        have hc : n.digitChar.toNat = '0'.toNat := by rw [Option.some.inj h]
        rw [Nat.toNat_digitChar_of_lt_ten hlt] at hc
        simp at hc
        omega
      · have ih := ih (n / 10) (by omega) (by omega)
        rw [Nat.toDigits_of_base_le (by decide) (Nat.le_of_not_lt hlt)]
        cases hds : Nat.toDigits 10 (n / 10) with
        | nil => exact absurd hds Nat.toDigits_ne_nil
        | cons c cs =>
            rw [hds] at ih
            exact ih

/-- What follows a run of digits does not continue it. -/
def StopsDigits (rest : List Char) : Prop :=
  ∀ c ∈ rest.head?, c.isDigit = false

theorem spanDigits_append {digits rest : List Char} (hd : ∀ c ∈ digits, c.isDigit = true)
    (hr : StopsDigits rest) : spanDigits (digits ++ rest) = (digits, rest) := by
  induction digits with
  | nil =>
      cases rest with
      | nil => rfl
      | cons c rest =>
          have hc := hr c rfl
          simp [spanDigits, hc]
  | cons c digits ih =>
      have hc := hd c List.mem_cons_self
      have ih := ih fun d hd' => hd d (List.mem_cons_of_mem c hd')
      simp only [spanDigits, Prod.mk.injEq] at ih
      simp [spanDigits, hc, ih]

/-- The number that a run of hexadecimal digits stands for. -/
def natOfHexDigits (digits : List Char) : Nat :=
  digits.foldl (fun n c => 16 * n + (hexDigit? c).getD 0) 0

theorem natOfHexDigits_append (xs : List Char) (c : Char) :
    natOfHexDigits (xs ++ [c]) = 16 * natOfHexDigits xs + (hexDigit? c).getD 0 := by
  simp [natOfHexDigits]

theorem hexDigit?_digitChar : ∀ n < 16, hexDigit? n.digitChar = some n := by
  decide

theorem natOfHexDigits_toDigits (n : Nat) : natOfHexDigits (Nat.toDigits 16 n) = n := by
  induction n using Nat.strongRecOn with
  | ind n ih =>
      by_cases hlt : n < 16
      · rw [Nat.toDigits_of_lt_base hlt]
        simp [natOfHexDigits, hexDigit?_digitChar n hlt]
      · rw [Nat.toDigits_of_base_le (by decide) (Nat.le_of_not_lt hlt), natOfHexDigits_append,
          ih (n / 16) (by omega), hexDigit?_digitChar (n % 16) (by omega)]
        simp only [Option.getD_some]
        omega

theorem natOfHexDigits_hexText (width n : Nat) : natOfHexDigits (hexText width n) = n := by
  have hzeros : ∀ k, (List.replicate k '0').foldl
      (fun n c => 16 * n + (hexDigit? c).getD 0) 0 = 0 := by
    intro k
    induction k with
    | zero => rfl
    | succ k ih =>
        rw [List.replicate_succ, List.foldl_cons]
        exact ih
  rw [hexText, natOfHexDigits, List.foldl_append, hzeros]
  exact natOfHexDigits_toDigits n

theorem length_hexText {width n : Nat} (hw : 0 < width) (hn : n < 16 ^ width) :
    (hexText width n).length = width := by
  have hle : (Nat.toDigits 16 n).length ≤ width :=
    (Nat.length_toDigits_le_iff (by decide) hw).mpr hn
  rw [hexText, List.length_append, List.length_replicate]
  omega

theorem exists_hexDigit_of_mem_toDigits {n : Nat} {c : Char} (hc : c ∈ Nat.toDigits 16 n) :
    ∃ d, hexDigit? c = some d := by
  induction n using Nat.strongRecOn with
  | ind n ih =>
      by_cases hlt : n < 16
      · rw [Nat.toDigits_of_lt_base hlt, List.mem_singleton] at hc
        exact ⟨n, by rw [hc, hexDigit?_digitChar n hlt]⟩
      · rw [Nat.toDigits_of_base_le (by decide) (Nat.le_of_not_lt hlt), List.mem_append,
          List.mem_singleton] at hc
        rcases hc with hc | rfl
        · exact ih (n / 16) (by omega) hc
        · exact ⟨n % 16, hexDigit?_digitChar (n % 16) (by omega)⟩

theorem exists_hexDigit_of_mem_hexText {width n : Nat} {c : Char} (hc : c ∈ hexText width n) :
    ∃ d, hexDigit? c = some d := by
  rw [hexText, List.mem_append] at hc
  rcases hc with hc | hc
  · rw [List.eq_of_mem_replicate hc]
    exact ⟨0, rfl⟩
  · exact exists_hexDigit_of_mem_toDigits hc

theorem exists_hexDigit_of_hexQuad {a b c d : Char} {n : Nat} (h : hexQuad? a b c d = some n) :
    ∀ x ∈ [a, b, c, d], ∃ e, hexDigit? x = some e := by
  simp only [hexQuad?, bind, Option.bind_eq_some_iff] at h
  obtain ⟨_, ha, _, hb, _, hc, _, hd, -⟩ := h
  simp [ha, hb, hc, hd]

/-- Four digits are read back as a code. -/
theorem exists_hexQuad {n : Nat} (hn : n < 0x10000) :
    ∃ a b c d, hexText 4 n = [a, b, c, d] ∧ hexQuad? a b c d = some n := by
  obtain ⟨a, b, c, d, htext⟩ : ∃ a b c d, hexText 4 n = [a, b, c, d] := by
    have hlength : (hexText 4 n).length = 4 := length_hexText (by decide) (by simpa using hn)
    match hexText 4 n, hlength with
    | [a, b, c, d], _ => exact ⟨a, b, c, d, rfl⟩
  refine ⟨a, b, c, d, htext, ?_⟩
  have hdigit : ∀ x ∈ [a, b, c, d], ∃ e, hexDigit? x = some e := by
    intro x hx
    exact exists_hexDigit_of_mem_hexText (htext ▸ hx)
  obtain ⟨a', ha⟩ := hdigit a (by simp)
  obtain ⟨b', hb⟩ := hdigit b (by simp)
  obtain ⟨c', hc⟩ := hdigit c (by simp)
  obtain ⟨d', hd⟩ := hdigit d (by simp)
  have hvalue := natOfHexDigits_hexText 4 n
  rw [htext] at hvalue
  simp only [natOfHexDigits, List.foldl_cons, List.foldl_nil, ha, hb, hc, hd,
    Option.getD_some] at hvalue
  simp only [hexQuad?, ha, hb, hc, hd, bind, Option.bind_some, pure]
  congr 1
  omega

end TypeSketch.Text
