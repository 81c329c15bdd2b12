/-!
# The order of texts

Texts are ordered by the code points of their characters, and a text stands before its
extensions.
-/

namespace TypeSketch.Text

/-- Whether the first text does not stand behind the second. -/
def le : List Char → List Char → Bool
  | [], _ => true
  | _ :: _, [] => false
  | c :: s, d :: t => c.toNat < d.toNat || (c == d && le s t)

theorem le_total : ∀ s t : List Char, le s t || le t s
  | [], _ => by simp [le]
  | _ :: _, [] => by simp [le]
  | c :: s, d :: t => by
      have ih := le_total s t
      rcases Nat.lt_trichotomy c.toNat d.toNat with h | h | h
      · simp [le, h]
      · have hcd : c = d := Char.toNat_inj.mp h
        subst hcd
        simpa [le] using ih
      · simp [le, h]

theorem le_trans : ∀ s t u : List Char, le s t → le t u → le s u
  | [], _, _, _, _ => by simp [le]
  | _ :: _, [], _, h, _ => by simp [le] at h
  | _ :: _, _ :: _, [], _, h => by simp [le] at h
  | c :: s, d :: t, e :: u, h₁, h₂ => by
      simp only [le, Bool.or_eq_true, decide_eq_true_eq, Bool.and_eq_true, beq_iff_eq] at h₁ h₂ ⊢
      rcases h₁ with h₁ | ⟨rfl, h₁⟩
      · rcases h₂ with h₂ | ⟨rfl, -⟩
        · exact Or.inl (Nat.lt_trans h₁ h₂)
        · exact Or.inl h₁
      · rcases h₂ with h₂ | ⟨rfl, h₂⟩
        · exact Or.inl h₂
        · exact Or.inr ⟨rfl, le_trans s t u h₁ h₂⟩

theorem le_antisymm : ∀ {s t : List Char}, le s t → le t s → s = t
  | [], [], _, _ => rfl
  | [], _ :: _, _, h => by simp [le] at h
  | _ :: _, [], h, _ => by simp [le] at h
  | c :: s, d :: t, h₁, h₂ => by
      simp only [le, Bool.or_eq_true, decide_eq_true_eq, Bool.and_eq_true, beq_iff_eq] at h₁ h₂
      rcases h₁ with h₁ | ⟨rfl, h₁⟩
      · rcases h₂ with h₂ | ⟨rfl, -⟩
        · exact absurd h₁ (Nat.lt_asymm h₂)
        · exact absurd h₁ (Nat.lt_irrefl _)
      · rcases h₂ with h₂ | ⟨-, h₂⟩
        · exact absurd h₂ (Nat.lt_irrefl _)
        · rw [le_antisymm h₁ h₂]

/-- The texts in order. -/
def sort (texts : List (List Char)) : List (List Char) :=
  texts.mergeSort le

end TypeSketch.Text
