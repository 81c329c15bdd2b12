import Mathlib
import TypeSketch.Text.Case

/-!
# Lower case of lower case

A text in lower case stays as it is when it is put in lower case again, wherever its characters
stand.  The reason is in the table: no row takes a character to where another row starts from.
Main statements: `toLower_toLower`, and `toLower_eq_self` for texts of settled characters.
-/

namespace TypeSketch.Text

/-- A character that lower case leaves alone, whatever stands around it. -/
def Settled (c : Char) : Prop := c ≠ 'Σ' ∧ lowerOf c = [c]

instance (c : Char) : Decidable (Settled c) := inferInstanceAs (Decidable (_ ∧ _))

section Rows

/-- Whether the code points of `r`, moved up and down, are none of those of `s`: they end before
them, start behind them, or fall between them. -/
def Stride.clear (r : Stride) (up down : Nat) (s : Stride) : Bool :=
  (r.last + up).blt (s.first + down) || (s.last + down).blt (r.first + up) ||
    (s.step == 2 && (r.step == 2 || r.first == r.last) &&
      (r.first + up + s.first + down) % 2 == 1)

theorem Stride.has_eq_true {s : Stride} {c : Char} :
    s.has c = true ↔
      s.first ≤ c.toNat ∧ c.toNat ≤ s.last ∧ (c.toNat - s.first) % s.step = 0 := by
  simp only [Stride.has, Bool.and_eq_true, decide_eq_true_eq, beq_iff_eq, and_assoc]

theorem Stride.has_eq_false_of_clear {r s : Stride} {up down : Nat} {c d : Char}
    (hclear : r.clear up down s = true) (hc : r.has c = true)
    (hd : d.toNat + down = c.toNat + up) : s.has d = false := by
  rw [Bool.eq_false_iff]
  intro hs
  obtain ⟨hfirst, hlast, hstep⟩ := Stride.has_eq_true.mp hc
  obtain ⟨hfirst', hlast', hstep'⟩ := Stride.has_eq_true.mp hs
  simp only [Stride.clear, Bool.or_eq_true, Bool.and_eq_true, Nat.blt_eq, beq_iff_eq] at hclear
  rcases hclear with (h | h) | ⟨⟨h2, hr⟩, hodd⟩
  · omega
  · omega
  · -- both rows take every second code point, and start at different ones
    rw [h2] at hstep'
    rcases hr with hr | hr
    · rw [hr] at hstep
      omega
    · omega

/-- No row leads into a row. -/
theorem toLowerRows_clear :
    (toLowerRows.all fun r => toLowerRows.all fun s =>
      r.1.clear r.2.toNat (-r.2).toNat s.1) = true := by
  decide +kernel

/-- No row leads to one of the characters that the table leaves out, and only the sign of the
kelvin becomes an ASCII character. -/
theorem toLowerRows_apart : ∀ r ∈ toLowerRows,
    (0x3A3 < r.1.first + r.2 ∨ r.1.last + r.2 < 0x3A3) ∧
      (0x130 < r.1.first + r.2 ∨ r.1.last + r.2 < 0x130) ∧
      (0x80 ≤ r.1.first + r.2 ∨ r.1.first = r.1.last ∧ r.1.first + r.2 = 0x6B) := by
  decide +kernel

end Rows

section Characters

theorem lowerOf_ascii {c : Char} (h : c.toNat < 0x80) : lowerOf c = [c.toLower] := by
  rw [lowerOf, if_pos h]

theorem settled_toLower_ofNat : ∀ n < 0x80, Settled (Char.ofNat n).toLower := by
  decide +kernel

theorem settled_toLower {c : Char} (h : c.toNat < 0x80) : Settled c.toLower := by
  have hc := settled_toLower_ofNat c.toNat h
  rwa [Char.ofNat_toNat] at hc

theorem settled_ofNat_of_isLower : ∀ n < 0x80, (Char.ofNat n).isLower = true →
    Settled (Char.ofNat n) := by
  decide +kernel

theorem settled_of_isLower {c : Char} (h : c.isLower = true) : Settled c := by
  have hascii : c.toNat < 0x80 := by
    simp only [Char.isLower, Bool.and_eq_true, decide_eq_true_eq] at h
    exact Nat.lt_of_le_of_lt (UInt32.le_iff_toNat_le.mp h.2) (by decide)
  have hc := settled_ofNat_of_isLower c.toNat hascii
  rw [Char.ofNat_toNat] at hc
  exact hc h

theorem lowerOf_of_isUpper {c : Char} (h : c.isUpper = true) :
    c ≠ 'Σ' ∧ lowerOf c = [c.toLower] := by
  simp only [Char.isUpper, decide_eq_true_eq] at h
  have hascii : c.toNat < 0x80 :=
    Nat.lt_of_le_of_lt (UInt32.le_iff_toNat_le.mp h.2) (by decide)
  constructor
  · rintro rfl
    exact absurd hascii (by decide)
  · exact lowerOf_ascii hascii

theorem toNat_ofNat_or (n : Nat) : (Char.ofNat n).toNat = n ∨ Char.ofNat n = '\x00' := by
  by_cases h : n.isValidChar
  · left
    rw [Char.ofNat, dif_pos h]
    rfl
  · right
    rw [Char.ofNat, dif_neg h]
    rfl

/-- Beyond ASCII a character that is in no row is settled. -/
theorem settled_of_no_row {c : Char} (hascii : 0x80 ≤ c.toNat) (hsigma : c.toNat ≠ 0x3A3)
    (hdotted : c.toNat ≠ 0x130) (hrows : ∀ r ∈ toLowerRows, r.1.has c = false) : Settled c := by
  constructor
  · rintro rfl
    exact hsigma rfl
  · have hfind : (toLowerRows.find? fun r => r.1.has c) = none := by
      rw [List.find?_eq_none]
      exact fun r hr => Bool.eq_false_iff.mp (hrows r hr)
    rw [lowerOf, if_neg (Nat.not_lt.mpr hascii), if_neg hdotted, shifted, hfind]

/-- What a row leads to is settled. -/
theorem settled_of_row {r : Stride × Int} (hr : r ∈ toLowerRows) {c : Char}
    (hc : r.1.has c = true) : Settled (Char.ofNat (c.toNat + r.2).toNat) := by
  obtain ⟨hfirst, hlast, -⟩ := Stride.has_eq_true.mp hc
  obtain ⟨hsigma, hdotted, hascii⟩ := toLowerRows_apart r hr
  generalize hd : Char.ofNat (c.toNat + r.2).toNat = d
  rcases toNat_ofNat_or (c.toNat + r.2).toNat with hcode | hnull
  · rw [hd] at hcode
    by_cases hsmall : d.toNat < 0x80
    · have hk : d = Char.ofNat 0x6B := by
        rw [← Char.ofNat_toNat d]
        congr 1
        omega
      rw [hk]
      decide
    · refine settled_of_no_row (Nat.not_lt.mp hsmall) (by omega) (by omega) fun s hs => ?_
      have hclear := List.all_eq_true.mp (List.all_eq_true.mp toLowerRows_clear r hr) s hs
      exact Stride.has_eq_false_of_clear hclear hc (by omega)
  · rw [← hd, hnull]
    decide

theorem settled_of_mem_lowerOf {c d : Char} (hc : c ≠ 'Σ') (hd : d ∈ lowerOf c) : Settled d := by
  rw [lowerOf] at hd
  split at hd
  · rename_i hascii
    rw [List.mem_singleton.mp hd]
    exact settled_toLower hascii
  · split at hd
    · simp only [List.mem_cons, List.not_mem_nil, or_false] at hd
      rcases hd with rfl | rfl <;> decide +kernel
    · rename_i hascii hdotted
      rw [List.mem_singleton.mp hd, shifted]
      split
      · rename_i r offset hfind
        have hhas := List.find?_some hfind
        exact settled_of_row (List.mem_of_find?_eq_some hfind) hhas
      · rename_i hfind
        rw [List.find?_eq_none] at hfind
        refine settled_of_no_row (Nat.not_lt.mp hascii) ?_ hdotted
          fun r hr => Bool.eq_false_iff.mpr (hfind r hr)
        rintro hsigma
        exact hc (Char.toNat_inj.mp hsigma)

end Characters

section Texts

theorem toLowerAfter_eq_self {s : List Char} (h : ∀ c ∈ s, Settled c) (before : List Char) :
    toLowerAfter before s = s := by
  induction s generalizing before with
  | nil => rfl
  | cons c rest ih =>
      obtain ⟨hsigma, hlower⟩ := h c List.mem_cons_self
      rw [toLowerAfter, ih fun d hd => h d (List.mem_cons_of_mem c hd), if_neg hsigma, hlower]
      rfl

/-- Settled characters stay as they are. -/
theorem toLower_eq_self {s : List Char} (h : ∀ c ∈ s, Settled c) : toLower s = s :=
  toLowerAfter_eq_self h []

/-- Lower case consists of settled characters, also where a sigma is lowered by its place. -/
theorem settled_of_mem_toLowerAfter {s before : List Char} {d : Char}
    (hd : d ∈ toLowerAfter before s) : Settled d := by
  induction s generalizing before with
  | nil => cases hd
  | cons c rest ih =>
      rw [toLowerAfter] at hd
      rcases List.mem_append.mp hd with hd | hd
      · split at hd
        · split at hd
          · rw [List.mem_singleton.mp hd]
            decide +kernel
          · rw [List.mem_singleton.mp hd]
            decide +kernel
        · rename_i hsigma
          exact settled_of_mem_lowerOf hsigma hd
      · exact ih hd

/-- Lower case is lower case already. -/
theorem toLower_toLower (s : List Char) : toLower (toLower s) = toLower s :=
  toLower_eq_self fun _ hd => settled_of_mem_toLowerAfter hd

end Texts

end TypeSketch.Text
