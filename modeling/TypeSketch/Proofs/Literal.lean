import TypeSketch.Literal

/-!
# Equality of literals

Main statement: literals of one kind have the same representative exactly when they are the same
or the same number.
-/

namespace TypeSketch.Literal

/-- A literal as keys hold it: it is of the kind, and a number without fraction is an integer. -/
def IsToken (kind : Kind) (l : Literal) : Prop :=
  l.kind = kind ∧ l.token kind = l

theorem IsToken.canonical {kind : Kind} {l : Literal} (h : l.IsToken kind) :
    l.canonical kind = l := by
  obtain ⟨rfl, htoken⟩ := h
  cases l with
  | bool b => cases b <;> rfl
  | int n => rfl
  | str s => rfl
  | float x =>
      cases hx : x.toInt? with
      | none => simp [Literal.canonical, Literal.toInt?, hx]
      | some n => simp [Literal.token, Literal.kind, hx] at htoken

theorem token_toInt? (kind : Kind) (l : Literal) : (l.token kind).toInt? = l.toInt? := by
  cases l with
  | bool b => rfl
  | int n => rfl
  | str s => rfl
  | float x =>
      cases kind <;> cases hx : x.toInt? <;> simp [Literal.token, Literal.toInt?, hx]

theorem canonical_token (kind : Kind) (l : Literal) :
    (l.token kind).canonical kind = l.canonical kind := by
  rw [Literal.canonical, Literal.canonical, Literal.token_toInt?]
  cases l with
  | bool b => rfl
  | int n => rfl
  | str s => rfl
  | float x =>
      cases kind <;> cases hx : x.toInt? <;> simp [Literal.token, Literal.toInt?, hx]

theorem isToken_token {kind : Kind} {l : Literal} (hkind : l.kind = kind) :
    (l.token kind).IsToken kind := by
  subst hkind
  cases l with
  | bool b => exact ⟨rfl, rfl⟩
  | int n => exact ⟨rfl, rfl⟩
  | str s => exact ⟨rfl, rfl⟩
  | float x =>
      cases hx : x.toInt? <;> simp [IsToken, Literal.token, Literal.kind, hx]

/-- A finite number as a multiple of the least positive value. -/
def units? : Literal → Option Int
  | .int n => some (n * Binary64.scale)
  | .float (.finite negative units _) => some (if negative then -(units : Int) else units)
  | _ => none

/-- Literals are equal when they are the same or the same number. -/
def Equal (l m : Literal) : Prop :=
  l = m ∨ ∃ n, l.units? = some n ∧ m.units? = some n

/-- A signed number of units is a multiple of `scale` when the number itself is one. -/
theorem signed_eq_mul_iff {scale : Nat} (hscale : 0 < scale) (negative : Bool) (units : Nat)
    (n : Int) :
    (if negative then -(units : Int) else units) = n * scale ↔
      units % scale = 0 ∧
        (if negative then -((units / scale : Nat) : Int) else (units / scale : Nat)) = n := by
  have hne : (scale : Int) ≠ 0 := by omega
  have hmul : ∀ q : Nat, (if negative then -(q : Int) else q) * scale =
      if negative then -((scale * q : Nat) : Int) else (scale * q : Nat) := by
    intro q
    cases negative with
    | false =>
        show (q : Int) * scale = ((scale * q : Nat) : Int)
        rw [Int.natCast_mul, Int.mul_comm]
    | true =>
        show -(q : Int) * scale = -((scale * q : Nat) : Int)
        rw [Int.natCast_mul, Int.neg_mul, Int.mul_comm]
  constructor
  · intro h
    have hdvd : (scale : Int) ∣ units := by
      cases negative with
      | false => exact ⟨n, by simpa [Int.mul_comm] using h⟩
      | true => exact ⟨-n, by simp at h; rw [Int.mul_neg, Int.mul_comm, ← h, Int.neg_neg]⟩
    obtain ⟨q, rfl⟩ := Int.natCast_dvd_natCast.mp hdvd
    rw [Nat.mul_mod_right, Nat.mul_div_cancel_left q hscale]
    refine ⟨rfl, Int.eq_of_mul_eq_mul_right hne ?_⟩
    rw [← h]
    exact hmul q
  · rintro ⟨hmod, rfl⟩
    obtain ⟨q, rfl⟩ := Nat.dvd_of_mod_eq_zero hmod
    rw [Nat.mul_div_cancel_left q hscale]
    exact (hmul q).symm

theorem scale_pos : 0 < Binary64.scale := by
  unfold Binary64.scale
  apply Binary64.twoPower_pos

/-- A number without fraction is a multiple of one. -/
theorem toInt?_eq_some_iff {l : Literal} (hkind : l.kind = .number) {n : Int} :
    l.toInt? = some n ↔ l.units? = some (n * Binary64.scale) := by
  have hscale := scale_pos
  cases l with
  | bool b => cases hkind
  | str s => cases hkind
  | int k =>
      have hne : (Binary64.scale : Int) ≠ 0 := by omega
      rw [toInt?, units?, Option.some_inj, Option.some_inj, Int.mul_eq_mul_right_iff hne]
  | float x =>
      cases x with
      | nan => exact ⟨fun h => (by cases h), fun h => (by cases h)⟩
      | infinite negative => exact ⟨fun h => (by cases h), fun h => (by cases h)⟩
      | finite negative units hfits =>
          rw [toInt?, units?, Binary64.toInt?, Option.some_inj, signed_eq_mul_iff hscale]
          by_cases hmod : units % Binary64.scale = 0
          · rw [if_pos hmod, Option.some_inj]
            exact ⟨fun h => ⟨hmod, h⟩, fun h => h.2⟩
          · rw [if_neg hmod]
            exact ⟨fun h => (by cases h), fun h => absurd h.1 hmod⟩

/-- A number with a fraction is determined by its value. -/
theorem eq_of_units?_eq {l m : Literal} {n : Int} (hl : l.units? = some n) (hm : m.units? = some n)
    (hlkind : l.kind = .number) (hmkind : m.kind = .number) (hfraction : l.toInt? = none) :
    l = m := by
  have hfraction' : m.toInt? = none := by
    cases h : m.toInt? with
    | none => rfl
    | some k =>
        rw [toInt?_eq_some_iff hmkind, hm, ← hl, ← toInt?_eq_some_iff hlkind, hfraction] at h
        cases h
  cases l with
  | bool b => cases hlkind
  | str s => cases hlkind
  | int k => cases hfraction
  | float x =>
      cases m with
      | bool b => cases hmkind
      | str s => cases hmkind
      | int k => cases hfraction'
      | float y =>
          cases x <;> cases y <;> simp only [units?, Option.some_inj, reduceCtorEq] at hl hm
          rename_i a u hu b w hw
          have hpos : u ≠ 0 := by
            rintro rfl
            simp [toInt?, Binary64.toInt?] at hfraction
          have heq : a = b ∧ u = w := by
            cases a <;> cases b <;> simp at hl hm <;> constructor <;> first | rfl | omega
          obtain ⟨rfl, rfl⟩ := heq
          rfl

theorem canonical_number (l : Literal) :
    l.canonical .number = (l.toInt?.map Literal.int).getD l := by
  rw [canonical]
  cases l.toInt? <;> rfl

/-- Literals of one kind have the same representative exactly when they are equal. -/
theorem canonical_eq_iff {kind : Kind} {l m : Literal} (hl : l.kind = kind) (hm : m.kind = kind) :
    l.canonical kind = m.canonical kind ↔ l.Equal m := by
  by_cases hkind : kind = .number
  · subst hkind
    rw [canonical_number, canonical_number]
    constructor
    · intro h
      cases hli : l.toInt? with
      | none =>
          cases hmi : m.toInt? with
          | none =>
              rw [hli, hmi] at h
              exact Or.inl h
          | some k =>
              rw [hli, hmi] at h
              have hint : l = .int k := h
              rw [hint] at hli
              cases hli
      | some n =>
          cases hmi : m.toInt? with
          | none =>
              rw [hli, hmi] at h
              have hint : .int n = m := h
              rw [← hint] at hmi
              cases hmi
          | some k =>
              rw [hli, hmi] at h
              cases h
              exact Or.inr ⟨_, (toInt?_eq_some_iff hl).mp hli, (toInt?_eq_some_iff hm).mp hmi⟩
    · rintro (rfl | ⟨n, hln, hmn⟩)
      · rfl
      · cases hli : l.toInt? with
        | none => rw [← eq_of_units?_eq hln hmn hl hm hli, hli]
        | some k =>
            have hmk : m.toInt? = some k := by
              rw [toInt?_eq_some_iff hm, hmn, ← hln, ← toInt?_eq_some_iff hl, hli]
            rw [hmk]
            rfl
  · have hplain : ∀ l : Literal, l.kind = kind → l.canonical kind = l ∧ l.units? = none := by
      intro l hl
      subst hl
      refine ⟨canonical_of_kind_ne_number hkind, ?_⟩
      cases l <;> first | rfl | exact absurd rfl hkind
    rw [(hplain l hl).1, (hplain m hm).1]
    constructor
    · exact Or.inl
    · rintro (rfl | ⟨n, hln, -⟩)
      · rfl
      · rw [(hplain l hl).2] at hln
        cases hln

end TypeSketch.Literal
