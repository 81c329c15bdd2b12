import Mathlib.Algebra.Group.Nat.Defs
import TypeSketch.Binary64.Shortest

/-!
# Decimals that read back

Zeros at the end of the digits of a decimal do not change the number nearest to it.  Main statement:
the shortest decimal of a number reads back as that number, whatever the sign.
-/

namespace TypeSketch.Binary64

theorem spacing_pos (units : Nat) : 0 < spacing units :=
  twoPower_pos _

theorem roundDiv_mul_right (num den : Nat) {c : Nat} (hc : 0 < c) :
    roundDiv (num * c) (den * c) = roundDiv num den := by
  have hlt : 2 * (num % den * c) < den * c ↔ 2 * (num % den) < den := by
    rw [← Nat.mul_assoc, Nat.mul_lt_mul_right hc]
  have heq : 2 * (num % den * c) = den * c ↔ 2 * (num % den) = den := by
    rw [← Nat.mul_assoc, Nat.mul_left_inj (Nat.ne_of_gt hc)]
  simp only [roundDiv, Nat.mul_div_mul_right _ _ hc, Nat.mul_mod_mul_right, hlt, heq]

theorem roundUnits_mul_right (num den : Nat) {c : Nat} (hc : 0 < c) :
    roundUnits (num * c) (den * c) = roundUnits num den := by
  simp only [roundUnits, Nat.mul_div_mul_right _ _ hc]
  rw [Nat.mul_right_comm den c, roundDiv_mul_right _ _ hc]

/-- A multiple that is a value itself is not rounded. -/
theorem roundUnits_mul_left_of_fits {units den : Nat} (hden : 0 < den) (hfits : Fits units) :
    roundUnits (units * den) den = units := by
  obtain ⟨k, hk⟩ := Nat.dvd_of_mod_eq_zero hfits.1
  have hstep := spacing_pos units
  have hnum : units * den = k * (den * spacing units) := by
    rw [Nat.mul_left_comm, ← Nat.mul_comm (spacing units), ← hk, Nat.mul_comm]
  have hpos : 0 < den * spacing units := Nat.mul_pos hden hstep
  have hround : roundDiv (units * den) (den * spacing units) = k := by
    rw [roundDiv, hnum, Nat.mul_mod_left, Nat.mul_div_cancel _ hpos]
    exact if_pos (Or.inl (by omega))
  rw [roundUnits, Nat.mul_div_cancel _ hden, hround, Nat.mul_comm, ← hk]

theorem digitCount_mul_ten {n : Nat} (hn : 0 < n) : digitCount (n * 10) = digitCount n + 1 := by
  have h := Nat.toDigits_append_toDigits (b := 10) (n := n) (d := 0) (by decide) hn (by decide)
  rw [Nat.add_zero, Nat.mul_comm] at h
  rw [digitCount, ← h, List.length_append, Nat.toDigits_zero]
  rfl

theorem digitCount_mul_pow {n : Nat} (hn : 0 < n) (k : Nat) :
    digitCount (n * 10 ^ k) = digitCount n + k := by
  induction k with
  | zero => rw [Nat.pow_zero, Nat.mul_one, Nat.add_zero]
  | succ k ih =>
      have hpos : 0 < n * 10 ^ k := Nat.mul_pos hn (Nat.pow_pos (by decide))
      rw [Nat.pow_succ, ← Nat.mul_assoc, digitCount_mul_ten hpos, ih, Nat.add_assoc]

theorem digitCount_le_iff {n k : Nat} (hk : 0 < k) : digitCount n ≤ k ↔ n < 10 ^ k :=
  Nat.length_toDigits_le_iff (by decide) hk

/-- Zeros at the end of the digits are made up for by the exponent. -/
theorem ofDecimal_mul_pow (negative : Bool) (digits : Nat) (exponent : Int) (k : Nat) :
    ofDecimal negative (digits * 10 ^ k) (exponent - k) = ofDecimal negative digits exponent := by
  by_cases hd : digits = 0
  · simp [ofDecimal, hd]
  have hpos : 0 < digits := Nat.pos_of_ne_zero hd
  have hten : ∀ n : Nat, 0 < 10 ^ n := fun n => Nat.pow_pos (by decide)
  have hd' : digits * 10 ^ k ≠ 0 := Nat.ne_of_gt (Nat.mul_pos hpos (hten k))
  have hmag : ((digitCount (digits * 10 ^ k) : Nat) : Int) + (exponent - k)
      = digitCount digits + exponent := by
    rw [digitCount_mul_pow hpos]
    omega
  have hround :
      (if 0 ≤ exponent - k then
        ofUnits negative (roundUnits (digits * 10 ^ k * 10 ^ (exponent - k).toNat * scale) 1)
      else
        ofUnits negative
          (roundUnits (digits * 10 ^ k * scale) (10 ^ (-(exponent - k)).toNat))) =
      if 0 ≤ exponent then
        ofUnits negative (roundUnits (digits * 10 ^ exponent.toNat * scale) 1)
      else ofUnits negative (roundUnits (digits * scale) (10 ^ (-exponent).toNat)) := by
    by_cases hbig : 0 ≤ exponent - k
    · have hexp : exponent.toNat = k + (exponent - k).toNat := by omega
      rw [if_pos hbig, if_pos (by omega), hexp, Nat.pow_add, Nat.mul_assoc digits]
    · rw [if_neg hbig]
      by_cases hexp : 0 ≤ exponent
      · -- the exponent crosses zero: the quotient is expanded by what is missing
        have hk : k = exponent.toNat + (-(exponent - k)).toNat := by omega
        rw [if_pos hexp]
        have hnum : digits * 10 ^ k * scale
            = digits * 10 ^ exponent.toNat * scale * 10 ^ (-(exponent - k)).toNat := by
          have hpow : 10 ^ k = 10 ^ exponent.toNat * 10 ^ (-(exponent - k)).toNat := by
            rw [← Nat.pow_add, ← hk]
          rw [hpow, ← Nat.mul_assoc, Nat.mul_right_comm]
        have h := roundUnits_mul_right (digits * 10 ^ exponent.toNat * scale) 1
          (hten (-(exponent - k)).toNat)
        rw [Nat.one_mul, ← hnum] at h
        rw [h]
      · have hden : (-(exponent - k)).toNat = (-exponent).toNat + k := by omega
        rw [if_neg hexp, hden, Nat.pow_add, Nat.mul_right_comm,
          roundUnits_mul_right _ _ (hten k)]
  simp only [ofDecimal, Nat.pow_eq, hd, hd', hmag, false_or]
  rw [hround]

/-- The decimal at the end of the search is the value itself. -/
theorem readsBack_exact {units : Nat} (hpos : 0 < units) (hfits : Fits units) :
    ReadsBack units ⟨units * Nat.pow 5 1074, -1074⟩ := by
  have hpow : ∀ b n, 0 < b → 0 < Nat.pow b n := fun b n hb => Nat.pow_pos hb
  have hten : ∀ n, units * Nat.pow 5 n * Nat.pow 2 n = units * Nat.pow 10 n := fun n => by
    rw [Nat.mul_assoc, Nat.pow_eq, Nat.pow_eq, Nat.pow_eq, ← Nat.mul_pow]
  -- the value is neither too small nor too large to be rounded at all
  have hlow : ¬ digitCount (units * Nat.pow 5 1074) ≤ 743 := by
    rw [digitCount_le_iff (by decide)]
    have h : 10 ^ 743 ≤ Nat.pow 5 1074 := by decide +kernel
    exact Nat.not_lt.mpr (Nat.le_trans h (Nat.le_mul_of_pos_left _ hpos))
  have hhigh : digitCount (units * Nat.pow 5 1074) ≤ 1384 := by
    rw [digitCount_le_iff (by decide)]
    have h : limit * Nat.pow 5 1074 ≤ 10 ^ 1384 := by decide +kernel
    exact Nat.lt_of_lt_of_le (Nat.mul_lt_mul_of_pos_right hfits.2 (hpow 5 1074 (by decide))) h
  have hne : units * Nat.pow 5 1074 ≠ 0 :=
    Nat.ne_of_gt (Nat.mul_pos hpos (hpow 5 1074 (by decide)))
  have hnum : units * Nat.pow 5 1074 * scale = units * Nat.pow 10 1074 := hten 1074
  have hden : (-(-1074 : Int)).toNat = 1074 := rfl
  rw [ReadsBack, ofDecimal]
  dsimp only
  rw [if_neg (by omega), if_neg (by omega), if_neg (by omega), hden, hnum,
    roundUnits_mul_left_of_fits (hpow 10 1074 (by decide)) hfits]

theorem readsBack_of_onGrid {units places : Nat} {d : Decimal}
    (h : onGrid units places = some d) : ReadsBack units d := by
  unfold onGrid at h
  extract_lets exponent num den below above at h
  by_cases hbelow : ReadsBack units below
  · rw [if_pos hbelow] at h
    split at h
    next habove => exact Option.some.inj h ▸ habove.1
    next => exact Option.some.inj h ▸ hbelow
  · rw [if_neg hbelow] at h
    split at h
    next habove => exact Option.some.inj h ▸ habove
    next => cases h

theorem readsBack_shortest {units : Nat} (hpos : 0 < units) (hfits : Fits units) :
    ReadsBack units (shortest units) := by
  rw [shortest]
  cases h : (List.range' 1 17).findSome? (onGrid units) with
  | none =>
      rw [Option.getD_none]
      exact readsBack_exact hpos hfits
  | some d =>
      obtain ⟨places, -, hgrid⟩ := List.exists_of_findSome?_eq_some h
      exact readsBack_of_onGrid hgrid

/-- What reads back as a positive number reads back as its opposite behind a minus sign. -/
theorem ofDecimal_of_readsBack {units : Nat} {d : Decimal} (hpos : 0 < units)
    (hfits : Fits units) (h : ReadsBack units d) (negative : Bool) :
    ofDecimal negative d.digits d.exponent = .finite negative units hfits := by
  have hunits : ∀ n, ofUnits false n = .finite false units hfits →
      ofUnits negative n = .finite negative units hfits := by
    intro n hn
    by_cases hf : Fits n
    · rw [ofUnits, dif_pos hf] at hn ⊢
      cases hn
      rfl
    · rw [ofUnits, dif_neg hf] at hn
      cases hn
  have hzero : zero false ≠ .finite false units hfits := by
    intro hz
    cases hz
    exact Nat.lt_irrefl 0 hpos
  rw [ReadsBack, show ofUnits false units = .finite false units hfits from dif_pos hfits] at h
  simp only [ofDecimal] at h ⊢
  by_cases hsmall : d.digits = 0 ∨ (digitCount d.digits : Int) + d.exponent < -330
  · rw [if_pos hsmall] at h
    exact absurd h hzero
  rw [if_neg hsmall] at h ⊢
  by_cases hlarge : 310 < (digitCount d.digits : Int) + d.exponent
  · rw [if_pos hlarge] at h
    cases h
  rw [if_neg hlarge] at h ⊢
  by_cases hexp : 0 ≤ d.exponent
  · rw [if_pos hexp] at h ⊢
    exact hunits _ h
  · rw [if_neg hexp] at h ⊢
    exact hunits _ h

theorem digits_pos_of_readsBack {units : Nat} {d : Decimal} (hpos : 0 < units)
    (hfits : Fits units) (h : ReadsBack units d) : 0 < d.digits := by
  apply Nat.pos_of_ne_zero
  intro hd
  rw [ReadsBack, hd, show ofUnits false units = .finite false units hfits from dif_pos hfits] at h
  simp only [ofDecimal, true_or, if_true] at h
  cases h
  exact Nat.lt_irrefl 0 hpos

end TypeSketch.Binary64
