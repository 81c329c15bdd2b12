import TypeSketch.Proofs.Source

/-!
# Sampling some items

Inputs are asked for one item after the other, and sampling stops at the first item that is one too
many.  So a fault counts that stands directly behind the items that are wanted, and nothing counts
that comes later.  Main statement: `sample_readings`.
-/

namespace TypeSketch

namespace Feed

/-- Sampling `n` items gives the first `n` of more items than that, whatever follows them, and
otherwise all items if there is no fault.  It fails with the first fault if no more than `n` items
come before it, and what comes behind `n + 1` readings does not count. -/
theorem sample_readings (feeds : List Feed) (n : Nat) :
    (∀ (items : List Json) (rest : List Reading), readingsOf feeds = items.map .item ++ rest →
      n < items.length → (join feeds).sample (some n) = .ok (items.take n)) ∧
    (∀ items : List Json, readingsOf feeds = items.map .item →
      (join feeds).sample (some n) = .ok (items.take n)) ∧
    (∀ fault, (join feeds).sample (some n) = .error fault ↔
      ∃ (items : List Json) (rest : List Reading),
        readingsOf feeds = items.map .item ++ .fault fault :: rest ∧ items.length ≤ n) ∧
    ∀ others, (readingsOf feeds).take (n + 1) = (readingsOf others).take (n + 1) →
      (join feeds).sample (some n) = (join others).sample (some n) := by
  have hsome : ∀ (items : List Json) (rest : List Reading),
      readingsOf feeds = items.map .item ++ rest → n < items.length →
        (join feeds).sample (some n) = .ok (items.take n) := by
    intro items rest hreadings hlt
    rw [sample_join_some, hreadings, collect_of_lt hlt]
  have hall : ∀ items : List Json, readingsOf feeds = items.map .item →
      (join feeds).sample (some n) = .ok (items.take n) := by
    intro items hreadings
    by_cases hlt : n < items.length
    · exact hsome items [] (by rw [hreadings, List.append_nil]) hlt
    · have hle : items.length ≤ n := Nat.le_of_not_lt hlt
      have hcollect : collect (some n) [] (items.map .item ++ []) = collect (some n) items [] :=
        collect_of_le hle
      rw [List.append_nil] at hcollect
      rw [sample_join_some, hreadings, hcollect, List.take_of_length_le hle, collect]
  have hfault : ∀ (items : List Json) (fault : ReadFault) (rest : List Reading),
      readingsOf feeds = items.map .item ++ .fault fault :: rest → items.length ≤ n →
        (join feeds).sample (some n) = .error fault := by
    intro items fault rest hreadings hle
    rw [sample_join_some, hreadings, collect_of_le hle, collect]
  refine ⟨hsome, hall, fun fault => ⟨fun h => ?_, ?_⟩, fun others h => ?_⟩
  · obtain ⟨items, hitems | ⟨fault', rest, hreadings⟩⟩ := exists_readings (readingsOf feeds)
    · rw [hall items hitems] at h
      cases h
    · by_cases hlt : n < items.length
      · rw [hsome items _ hreadings hlt] at h
        cases h
      · have hle : items.length ≤ n := Nat.le_of_not_lt hlt
        rw [hfault items fault' rest hreadings hle] at h
        cases h
        exact ⟨items, rest, hreadings, hle⟩
  · rintro ⟨items, rest, hreadings, hle⟩
    exact hfault items fault rest hreadings hle
  · have htake : ∀ rs, collect (some n) [] (rs.take (n + 1)) = collect (some n) [] rs :=
      collect_take (Nat.zero_le n)
    rw [sample_join_some, sample_join_some, ← htake (readingsOf feeds),
      ← htake (readingsOf others)]
    exact congrArg _ h

end Feed

namespace Source

open Feed (join readingsOf)

/-- The text `x`. -/
def broken : Source := ⟨"c.json", .file [0x78]⟩

theorem feed_plain : feed strictly plain = ⟨[.scalar (.int (-9))], none⟩ := by
  with_unfolding_all rfl

theorem feed_broken : feed strictly broken = ⟨[], some (.input "c.json" .notStreamable)⟩ := by
  with_unfolding_all rfl

/-- A fault behind one item does not count where none is wanted, and counts where one is. -/
theorem sample_readings_broken :
    (join ([plain, broken].map (feed strictly))).sample (some 0) = .ok [] ∧
      (join ([plain, broken].map (feed strictly))).sample (some 1) =
        .error (.input "c.json" .notStreamable) ∧
      (join ([plain, plain].map (feed strictly))).sample (some 1) = .ok [.scalar (.int (-9))] ∧
      (join ([plain, plain, broken].map (feed strictly))).sample (some 1) =
        (join ([plain, plain].map (feed strictly))).sample (some 1) := by
  have hbroken : readingsOf ([plain, broken].map (feed strictly)) =
      [Json.scalar (.int (-9))].map .item ++ [.fault (.input "c.json" .notStreamable)] := by
    simp [readingsOf, Feed.readings, feed_plain, feed_broken]
  have hplain : readingsOf ([plain, plain].map (feed strictly)) =
      [Json.scalar (.int (-9)), .scalar (.int (-9))].map .item := by
    simp [readingsOf, Feed.readings, feed_plain]
  have htake : (readingsOf ([plain, plain, broken].map (feed strictly))).take (1 + 1) =
      (readingsOf ([plain, plain].map (feed strictly))).take (1 + 1) := by
    simp [readingsOf, Feed.readings, feed_plain, feed_broken]
  refine ⟨?_, ?_, ?_, ?_⟩
  · exact (Feed.sample_readings _ 0).1 _ _ hbroken (by decide)
  · exact ((Feed.sample_readings _ 1).2.2.1 _).mpr ⟨_, _, hbroken, by decide⟩
  · exact (Feed.sample_readings _ 1).2.1 _ hplain
  · exact (Feed.sample_readings _ 1).2.2.2 _ htake

/-- Where no items are wanted, an input is read all the same. -/
theorem sample_zero_fails :
    readingsOf ([broken].map (feed strictly)) = [.fault (.input "c.json" .notStreamable)] ∧
      (join ([broken].map (feed strictly))).sample (some 0) = .error (.input "c.json" .notStreamable) := by
  have hreadings : readingsOf ([broken].map (feed strictly)) =
      [.fault (.input "c.json" .notStreamable)] := by
    simp [readingsOf, Feed.readings, feed_broken]
  refine ⟨hreadings, (Feed.sample_join_some _ 0).trans ?_⟩
  rw [hreadings]
  rfl

end Source

end TypeSketch
