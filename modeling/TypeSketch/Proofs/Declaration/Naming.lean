import TypeSketch.Proofs.Declaration.Allocations
import TypeSketch.Proofs.Declaration.Graph

/-!
# Invented names

The names that are made up while a shape is written are words with a capital in them, which tells
them apart from all other words of the language.  Main statement: `Run.invented`, every declaration
but that of the root has such a name.
-/

namespace TypeSketch

namespace Name

/-- A character of a name.  A line feed may stand at the end of the root's name, and so in names
that are made from it. -/
def isNameChar (c : Char) : Bool :=
  isPart c || c = '\n'

/-- A word with a capital in it. -/
structure Invented (name : String) : Prop where
  word : ∀ c ∈ name.toList, isNameChar c = true
  capital : ∃ c ∈ name.toList, c.isUpper = true

section Characters

theorem isNameChar_of_isPart {c : Char} (h : isPart c = true) : isNameChar c = true := by
  rw [isNameChar, h, Bool.true_or]

theorem isPart_of_isCamelPart {c : Char} (h : isCamelPart c = true) : isPart c = true := by
  rw [isCamelPart, Bool.or_eq_true] at h
  rw [isPart, Bool.or_assoc, Bool.or_eq_true, Bool.or_eq_true]
  exact h.imp_right .inr

theorem isPart_of_isStart {c : Char} (h : isStart c = true) : isPart c = true := by
  simp only [isStart, isPart, Char.isAlphanum, Bool.or_eq_true] at h ⊢
  rcases h with (h | h) | h
  · exact .inl (.inl (.inl h))
  · exact .inl (.inr h)
  · exact .inr h

theorem isPart_of_isDigit {c : Char} (h : c.isDigit = true) : isPart c = true := by
  simp [isPart, Char.isAlphanum, h]

theorem toNat_lt_of_isCamelPart {c : Char} (h : isCamelPart c = true) : c.toNat < 128 := by
  have hform : c.isUpper = true ∨ c.isLower = true ∨ c.isDigit = true ∨ c = '$' := by
    have halphanum : isCamelPart c = (((c.isUpper || c.isLower) || c.isDigit) || c = '$') := rfl
    simpa [halphanum, or_assoc] using h
  have hle : c.val ≤ 'z'.val := by
    rcases hform with h | h | h | rfl
    · have hupper : c.val ≥ 'A'.val ∧ c.val ≤ 'Z'.val := of_decide_eq_true h
      exact UInt32.le_trans hupper.2 (by decide)
    · have hlower : (decide (c.val ≥ 'a'.val) && decide (c.val ≤ 'z'.val)) = true := h
      rw [Bool.and_eq_true] at hlower
      exact of_decide_eq_true hlower.2
    · rw [Char.isDigit, Bool.and_eq_true] at h
      exact UInt32.le_trans (of_decide_eq_true h.2) (by decide)
    · decide
  exact Nat.lt_of_le_of_lt (UInt32.le_iff_toNat_le.mp hle) (by decide)

theorem isCamelPart_ascii : ∀ n < 128, isCamelPart (Char.ofNat n) = true →
    isCamelPart (Char.ofNat n).toUpper = true ∧ isCamelPart (Char.ofNat n).toLower = true := by
  decide

/-- Letters stay letters when their case is changed. -/
theorem isCamelPart_case {c : Char} (h : isCamelPart c = true) :
    isCamelPart c.toUpper = true ∧ isCamelPart c.toLower = true := by
  have hascii := isCamelPart_ascii c.toNat (toNat_lt_of_isCamelPart h)
  rw [Char.ofNat_toNat] at hascii
  exact hascii h

theorem isCamelPart_of_mem_joinWords {separated : Bool} {s : List Char} {c : Char}
    (hc : c ∈ joinWords separated s) : isCamelPart c = true := by
  induction s generalizing separated with
  | nil => cases hc
  | cons d rest ih =>
      rw [joinWords] at hc
      split at hc
      · rename_i hd
        rcases List.mem_cons.mp hc with rfl | hc
        · split
          · exact (isCamelPart_case hd).1
          · exact hd
        · exact ih hc
      · exact ih hc

theorem isCamelPart_of_mem_toCamelCase {s : List Char} {c : Char} (hc : c ∈ toCamelCase s) :
    isCamelPart c = true := by
  rw [toCamelCase] at hc
  cases hwords : joinWords false s with
  | nil =>
      rw [hwords] at hc
      cases hc
  | cons d rest =>
      have hjoined : ∀ a ∈ d :: rest, isCamelPart a = true := fun a ha =>
        isCamelPart_of_mem_joinWords (hwords ▸ ha)
      rw [hwords, lowerFirst] at hc
      rcases List.mem_cons.mp hc with rfl | hc
      · exact (isCamelPart_case (hjoined d List.mem_cons_self)).2
      · exact hjoined c (List.mem_cons_of_mem d hc)

end Characters

section Words

theorem isWord_cons {c : Char} {rest : List Char} (hc : isStart c = true)
    (hrest : ∀ d ∈ rest, isPart d = true) : isWord (c :: rest) = true := by
  rw [isWord, hc, Bool.true_and]
  exact List.all_eq_true.mpr hrest

theorem exists_eq_cons_of_isWord {s : List Char} (h : isWord s = true) :
    ∃ c rest, s = c :: rest ∧ isStart c = true ∧ ∀ d ∈ rest, isPart d = true := by
  cases s with
  | nil => cases h
  | cons c rest =>
      rw [isWord, Bool.and_eq_true, List.all_eq_true] at h
      exact ⟨c, rest, rfl, h⟩

theorem isPart_of_isWord {s : List Char} (h : isWord s = true) : ∀ c ∈ s, isPart c = true := by
  obtain ⟨c, rest, rfl, hc, hrest⟩ := exists_eq_cons_of_isWord h
  exact List.forall_mem_cons.mpr ⟨isPart_of_isStart hc, hrest⟩

theorem isWord_append {s t : List Char} (hs : isWord s = true) (ht : ∀ c ∈ t, isPart c = true) :
    isWord (s ++ t) = true := by
  obtain ⟨c, rest, rfl, hc, hrest⟩ := exists_eq_cons_of_isWord hs
  exact isWord_cons hc (List.forall_mem_append.mpr ⟨hrest, ht⟩)

/-- In camel case nothing is left but letters, digits and dollar signs, and an underscore stands in
front of a digit. -/
theorem isWord_typeName (base : List Char) : isWord (typeName base typeSuffix) = true := by
  have hcamel : ∀ c ∈ toCamelCase base, isCamelPart c = true := fun c hc =>
    isCamelPart_of_mem_toCamelCase hc
  have hsuffix : ∀ c ∈ typeSuffix, isPart c = true := by decide
  rw [typeName]
  cases hname : toCamelCase base with
  | nil => decide
  | cons c rest =>
      rw [hname] at hcamel
      have hparts : ∀ d ∈ c :: rest, isPart d = true := fun d hd =>
        isPart_of_isCamelPart (hcamel d hd)
      dsimp only
      split
      · exact isWord_cons (by decide) (List.forall_mem_append.mpr ⟨hparts, hsuffix⟩)
      · rename_i hdigit
        have hstart : isStart c = true := by
          have hc := hcamel c List.mem_cons_self
          simp only [isCamelPart, Char.isAlphanum, hdigit, Bool.or_false, Bool.or_eq_true] at hc
          simp only [isStart, Bool.or_eq_true]
          exact hc.imp_left .inl
        exact isWord_append (isWord_cons hstart fun d hd => hparts d (List.mem_cons_of_mem c hd))
          hsuffix

theorem mem_typeName {base suffix : List Char} {c : Char} (hc : c ∈ suffix) :
    c ∈ typeName base suffix := by
  rw [typeName]
  cases toCamelCase base with
  | nil => exact hc
  | cons d rest =>
      dsimp only
      split
      · exact List.mem_cons_of_mem '_' (List.mem_append_right _ hc)
      · exact List.mem_append_right _ hc

end Words

section Names

variable {name : String}

theorem isDigit_of_mem_toString {n : Nat} {c : Char} (hc : c ∈ (toString n).toList) :
    c.isDigit = true := by
  rw [Nat.toString_eq_repr, Nat.toList_repr] at hc
  exact Text.isDigit_of_mem_toDigits hc

/-- A number behind a name changes nothing. -/
theorem Invented.append_toString (h : Invented name) (n : Nat) : Invented (name ++ toString n) where
  word := by
    intro c hc
    rw [String.toList_append, List.mem_append] at hc
    exact hc.elim (h.word c) fun hc =>
      isNameChar_of_isPart (isPart_of_isDigit (isDigit_of_mem_toString hc))
  capital := by
    obtain ⟨c, hc, hupper⟩ := h.capital
    rw [String.toList_append]
    exact ⟨c, List.mem_append_left _ hc, hupper⟩

theorem Invented.candidate (h : Invented name) (n : Nat) : Invented (Name.candidate name n) := by
  cases n with
  | zero => exact h
  | succ n => exact h.append_toString (n + 2)

/-- A capitalised word behind a name makes it an invented one. -/
theorem invented_append (hname : ∀ c ∈ name.toList, isNameChar c = true) {suffix : String}
    (hword : ∀ c ∈ suffix.toList, isNameChar c = true)
    (hcapital : ∃ c ∈ suffix.toList, c.isUpper = true) : Invented (name ++ suffix) where
  word := by
    intro c hc
    rw [String.toList_append, List.mem_append] at hc
    exact hc.elim (hname c) (hword c)
  capital := by
    obtain ⟨c, hc, hupper⟩ := hcapital
    rw [String.toList_append]
    exact ⟨c, List.mem_append_right _ hc, hupper⟩

theorem invented_typeName (base : List Char) :
    Invented (String.ofList (typeName base typeSuffix)) where
  word := by
    rw [String.toList_ofList]
    exact fun c hc => isNameChar_of_isPart (isPart_of_isWord (isWord_typeName base) c hc)
  capital := by
    rw [String.toList_ofList]
    exact ⟨'T', mem_typeName (by decide), by decide⟩

/-- An identifier is a word; the line feed that may end it counts as well. -/
theorem isNameChar_of_isIdentifier {s : List Char} (h : isIdentifier s = true) :
    ∀ c ∈ s, isNameChar c = true := by
  rw [isIdentifier, Bool.and_eq_true] at h
  have hchomp : ∀ c ∈ chomp s, isNameChar c = true := fun c hc =>
    isNameChar_of_isPart (isPart_of_isWord h.1 c hc)
  intro c hc
  rw [chomp] at hchomp
  split at hchomp
  · rename_i hlast
    rw [← List.dropLast_append_getLast? '\n' hlast] at hc
    rcases List.mem_append.mp hc with hc | hc
    · exact hchomp c hc
    · rw [List.mem_singleton.mp hc]
      decide
  · exact hchomp c hc

end Names

end Name

namespace Emission

open Name (Invented isNameChar)
open Relation (ReflTransGen TransGen)

variable {o : Options}

/-- The names that parts are given are invented. -/
theorem NextName.invented {m n : String} (h : NextName o m n)
    (hm : ∀ c ∈ m.toList, isNameChar c = true) : Invented n := by
  cases h with
  | item =>
      have hitem : ∀ c ∈ "Item".toList, isNameChar c = true := by simp [isNameChar, Name.isPart]
      exact Name.invented_append hm hitem ⟨'I', by decide⟩
  | member i =>
      have hword : ∀ c ∈ "Union".toList, isNameChar c = true := by simp [isNameChar, Name.isPart]
      have hunion : Invented (m ++ "Union") := Name.invented_append hm hword ⟨'U', by decide⟩
      exact hunion.append_toString i
  | field name => exact Name.invented_typeName _

theorem invented_of_path {m n : String} (h : TransGen (NextName o) m n)
    (hm : ∀ c ∈ m.toList, isNameChar c = true) : Invented n := by
  induction h with
  | single h => exact h.invented hm
  | tail _ h ih => exact h.invented ih.word

/-- A name that is given is one of the candidates for the name that was asked for. -/
theorem Makes.candidate {α : Type} {w : Emit α} {e : Emission} {log : List Allocation}
    (h : Makes w e log) : ∀ a ∈ log, ∃ i, a.name = Name.candidate a.suggested i := by
  induction h with
  | still => exact fun _ ha => absurd ha List.not_mem_nil
  | bind _ _ _ ih ih' => exact fun a ha => (List.mem_append.mp ha).elim (ih a) (ih' a)
  | fail _ _ ih => exact ih
  | named _ _ ih => exact ih
  | @extract _ k suggested _ _ e _ _ ih =>
      exact List.forall_mem_cons.mpr ⟨Name.exists_unique_eq suggested e.registry.used, ih⟩

section Runs

variable {s : Shape} {rootName : String} {e : Emission}

/-- Every declaration but that of the root itself has an invented name. -/
theorem Run.invented (h : Run o s rootName e)
    (hroot : ∀ c ∈ rootName.toList, isNameChar c = true) {k : Key} {name : String}
    (hk : k ≠ s.identity) (hname : e.registry.nameOf? k = some name) : Invented name := by
  obtain ⟨log, hmakes, hasked⟩ :=
    allots_typeOf o s.sorted rootName ⟨start o s rootName, []⟩
  have hgrown := hmakes.grown (ready_start (o := o) s rootName ∅).fit.sound
  have hrun : typeOf o s.sorted rootName ⟨start o s rootName, []⟩ =
      (.ok (render o e.registry.nameOf? s.sorted), e) := h.run
  rw [hrun] at hgrown
  have hlatest : Allocation.latest log k = some name := by
    have hstart : (start o s rootName).nameOf? k = none := nameOf?_start s rootName k
    have hnamed := hgrown.named k
    rw [hname, hstart, Option.or_none] at hnamed
    exact hnamed.symm
  obtain ⟨a, ha, rfl, rfl⟩ := Allocation.mem_of_latest hlatest
  obtain ⟨i, hi⟩ := hmakes.candidate a ha
  rcases hasked a ha with ⟨hidentity, -⟩ | hpath
  · rw [Shape.identity_sorted] at hidentity
    exact absurd hidentity hk
  · rw [hi]
    exact (invented_of_path hpath hroot).candidate i

end Runs

end Emission

end TypeSketch
