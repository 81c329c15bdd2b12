import TypeSketch.Source

/-!
# Feeds

Sampling asks for one item after the other.  What a step of it does is told by the next reading; a run
over items that are wanted takes all of them, and it ends at the first fault and at the first item
that is one too many.  Main statements: `collect_items`, `collect_take`, and `collect_readings_join`,
joined feeds are sampled as what they give one after the other.
-/

namespace TypeSketch.Feed

/-- What feeds give one after the other. -/
def readingsOf (feeds : List Feed) : List Reading :=
  feeds.flatMap readings

variable {size : Option Nat} {n : Nat} {taken items : List Json} {rest : List Reading} {v : Json}

section Steps

/-- An item that is wanted is taken. -/
theorem collect_item (h : ∀ n ∈ size, taken.length < n) :
    collect size taken (.item v :: rest) = collect size (taken ++ [v]) rest := by
  refine if_neg ?_
  cases size with
  | none => exact Bool.false_ne_true
  | some n => simpa using h n rfl

/-- An item that is one too many ends the sampling. -/
theorem collect_surplus (h : taken.length = n) :
    collect (some n) taken (.item v :: rest) = .ok taken :=
  if_pos (decide_eq_true (Nat.le_of_eq h.symm))

end Steps

section Runs

/-- All items are taken as long as they are wanted. -/
theorem collect_items (h : ∀ n ∈ size, taken.length + items.length ≤ n) :
    collect size taken (items.map .item ++ rest) = collect size (taken ++ items) rest := by
  induction items generalizing taken with
  | nil => rw [List.map_nil, List.nil_append, List.append_nil]
  | cons v items ih =>
      rw [List.length_cons] at h
      have hitem : ∀ n ∈ size, taken.length < n := fun n hn => by have := h n hn; omega
      have hitems : ∀ n ∈ size, (taken ++ [v]).length + items.length ≤ n := fun n hn => by
        have := h n hn
        rw [List.length_append, List.length_singleton]
        omega
      rw [List.map_cons, List.cons_append, collect_item hitem, ih hitems, List.append_assoc,
        List.singleton_append]

/-- Without a size, all items are taken. -/
theorem collect_all :
    collect none taken (items.map .item ++ rest) = collect none (taken ++ items) rest :=
  collect_items fun n hn => absurd hn (Option.not_mem_none n)

/-- Where there are more items than are wanted, the first of them are taken. -/
theorem collect_of_lt (h : n < items.length) :
    collect (some n) [] (items.map .item ++ rest) = .ok (items.take n) := by
  have hlength : (items.take n).length = n := List.length_take_of_le (Nat.le_of_lt h)
  have hitems : items = items.take n ++ items[n] :: items.drop (n + 1) := by
    rw [List.getElem_cons_drop, List.take_append_drop]
  have hwanted : ∀ m ∈ some n, ([] : List Json).length + (items.take n).length ≤ m := by
    rintro _ ⟨⟩
    exact Nat.le_of_eq ((Nat.zero_add _).trans hlength)
  rw [hitems, List.map_append, List.map_cons, List.append_assoc, List.cons_append,
    collect_items hwanted, List.nil_append, collect_surplus hlength,
    List.take_append_of_le_length (Nat.le_of_eq hlength.symm), List.take_take, Nat.min_self]

/-- Where there are no more items than are wanted, all of them are taken, and then what follows
counts. -/
theorem collect_of_le (h : items.length ≤ n) :
    collect (some n) [] (items.map .item ++ rest) = collect (some n) items rest := by
  refine collect_items ?_
  rintro _ ⟨⟩
  simpa using h

/-- Nothing is read behind the item that is one too many. -/
theorem collect_take (h : taken.length ≤ n) (rs : List Reading) :
    collect (some n) taken (rs.take (n - taken.length + 1)) = collect (some n) taken rs := by
  induction rs generalizing taken with
  | nil => rw [List.take_nil]
  | cons r rs ih =>
      rw [List.take_succ_cons]
      cases r with
      | fault fault => rfl
      | item v =>
          rcases Nat.lt_or_eq_of_le h with hlt | heq
          · have hlength : (taken ++ [v]).length = taken.length + 1 := List.length_append
            have hsize : n - taken.length = n - (taken ++ [v]).length + 1 := by omega
            have hitem : ∀ m ∈ some n, taken.length < m := by
              rintro _ ⟨⟩
              exact hlt
            rw [collect_item hitem, collect_item hitem, hsize, ih (hlength ▸ hlt)]
          · rw [collect_surplus heq, collect_surplus heq]

/-- A fault is the last thing that is read. -/
theorem collect_append_fault (taken items : List Json) (fault : ReadFault)
    (unread : List Reading) :
    collect size taken (items.map .item ++ [.fault fault]) =
      collect size taken (items.map .item ++ .fault fault :: unread) := by
  induction items generalizing taken with
  | nil => rfl
  | cons v items ih => simp only [List.map_cons, List.cons_append, collect, ih]

end Runs

section Feeds

/-- Readings are items, and then possibly a fault. -/
theorem exists_readings (rs : List Reading) : ∃ items : List Json,
    rs = items.map .item ∨ ∃ fault rest, rs = items.map .item ++ .fault fault :: rest := by
  induction rs with
  | nil => exact ⟨[], .inl rfl⟩
  | cons r rs ih =>
      cases r with
      | fault fault => exact ⟨[], .inr ⟨fault, rs, rfl⟩⟩
      | item v =>
          obtain ⟨items, rfl | ⟨fault, rest, rfl⟩⟩ := ih
          · exact ⟨v :: items, .inl rfl⟩
          · exact ⟨v :: items, .inr ⟨fault, rest, rfl⟩⟩

/-- Joined feeds give what the feeds give up to the first fault. -/
theorem exists_readings_join (feeds : List Feed) : ∃ unread,
    readingsOf feeds = (join feeds).readings ++ unread ∧
      ((join feeds).fault = none → unread = []) := by
  induction feeds with
  | nil => exact ⟨[], rfl, fun _ => rfl⟩
  | cons f feeds ih =>
      obtain ⟨unread, hreadings, hunread⟩ := ih
      cases hfault : f.fault with
      | some fault =>
          refine ⟨readingsOf feeds, ?_, fun h => ?_⟩
          · simp only [readingsOf, List.flatMap_cons, join, readings, hfault]
          · simp only [join, hfault] at h
            cases h
      | none =>
          refine ⟨unread, ?_, fun h => hunread ?_⟩
          · have hcons : readingsOf (f :: feeds) = f.readings ++ readingsOf feeds := rfl
            rw [hcons, hreadings]
            simp [join, readings, hfault]
          · simpa only [join, hfault] using h

/-- What counts of joined feeds is what they give one after the other. -/
theorem collect_readings_join (size : Option Nat) (feeds : List Feed) :
    collect size [] (join feeds).readings = collect size [] (readingsOf feeds) := by
  obtain ⟨unread, hreadings, hunread⟩ := exists_readings_join feeds
  rw [hreadings, readings]
  cases hfault : (join feeds).fault with
  | none => rw [hunread hfault, List.append_nil]
  | some fault =>
      rw [Option.toList_some, List.map_singleton, List.append_assoc, List.singleton_append]
      exact collect_append_fault [] _ fault unread

/-- Sampling all items of inputs takes what they give one after the other. -/
theorem sample_join_none (feeds : List Feed) :
    (join feeds).sample none = collect none [] (readingsOf feeds) :=
  collect_readings_join none feeds

/-- Sampling some items of inputs takes what they give one after the other. -/
theorem sample_join_some (feeds : List Feed) (n : Nat) :
    (join feeds).sample (some n) = collect (some n) [] (readingsOf feeds) := by
  have hsize : ¬ (n : Int) < 0 := by omega
  rw [sample, if_neg hsize, Int.toNat_natCast]
  exact collect_readings_join (some n) feeds

end Feeds

end TypeSketch.Feed
