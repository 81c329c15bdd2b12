import TypeSketch.Proofs.Feed
import TypeSketch.Proofs.Json.Grammar

/-!
# Sampling all items

Reading and streaming are two ways to the items of an input.  Of the library that streams it is
assumed, by `StreamsStrictly`, that it gives the items of an array whose text is a document and that
it refuses octets that are no document.  Main statement: `sample_arrays`, inputs that are read as
arrays, each by itself, are sampled as the items of these arrays in a row, unless one of them is not
streamable; then the first such input is reported.
-/

namespace TypeSketch

open Text.Utf8 (decode decodeFrom dropMark)

/-- What is assumed of a library that streams documents. -/
structure StreamsStrictly (stream : Streamer) : Prop where
  /-- An array gives the items that it is read as. -/
  items : ∀ {octets : List UInt8} {text : List Char} {items : List Json},
    decode octets = .ok text → Json.IsDocument text → Json.parse text = .ok (.array items) →
      stream octets = ⟨items, true⟩
  /-- What is no document is refused. -/
  refused : ∀ {octets : List UInt8},
    (∀ text, decode octets = .ok text → ¬ Json.IsDocument text) → (stream octets).isSound = false

namespace Source

/-- The contents of a file; a directory has none. -/
def octets (s : Source) : List UInt8 :=
  match s.contents with
  | .file octets => octets
  | .directory => []

/-- Whether the input has neither a byte order mark nor a word for a number. -/
def isStreamable (s : Source) : Bool :=
  dropMark s.octets == s.octets && !Json.hasNumberWord (decodeFrom none s.octets).1

/-- The value of one named input. -/
def readAlone (w : Workspace) (argument : String) : Except ReadFault Json := do
  readAll false (← findAll w [argument])

variable {stream : Streamer} {w : Workspace} {s : Source} {sources : List Source} {arguments : List String}
  {items : List Json} {arrays : List (List Json)} {v : Json}

theorem mapError_eq_ok_iff {ε ε' α : Type} {f : ε → ε'} {x : Except ε α} {a : α} :
    x.mapError f = .ok a ↔ x = .ok a := by
  cases x with
  | error e => exact ⟨nofun, nofun⟩
  | ok b => rw [Except.mapError, Except.ok.injEq, Except.ok.injEq]

/-- An input is read by its text. -/
theorem read_eq_ok_iff : read false s = .ok v ↔ ∃ octets text, s.contents = .file octets ∧
    Text.Utf8.decode (Text.Utf8.dropMark octets) = .ok text ∧ Json.parse text = .ok v := by
  have hparse : ∀ text, (parse false text).mapError (ReadFault.input s.name) = .ok v ↔
      Json.parse text = .ok v := by
    intro text
    rw [mapError_eq_ok_iff, parse, if_neg (by decide), mapError_eq_ok_iff]
  rw [read]
  cases hcontents : s.contents with
  | directory =>
      refine ⟨nofun, ?_⟩
      rintro ⟨_, _, ⟨⟩, _⟩
  | file octets =>
      dsimp only
      cases htext : Text.Utf8.decode (Text.Utf8.dropMark octets) with
      | error fault =>
          refine ⟨nofun, ?_⟩
          rintro ⟨_, text, ⟨⟩, htext', -⟩
          rw [htext] at htext'
          cases htext'
      | ok text =>
          dsimp only
          rw [hparse]
          refine ⟨fun h => ⟨octets, text, rfl, htext, h⟩, ?_⟩
          rintro ⟨_, text', ⟨⟩, htext', h⟩
          rw [htext] at htext'
          cases htext'
          exact h

section Marks

theorem dropMark_cases (octets : List UInt8) : dropMark octets = octets ∨
    octets = 0xEF :: 0xBB :: 0xBF :: dropMark octets := by
  unfold dropMark
  split
  · exact .inr rfl
  · exact .inl rfl

theorem decodeFrom_mark (octets : List UInt8) :
    decodeFrom none (0xEF :: 0xBB :: 0xBF :: octets) =
      ('\uFEFF' :: (decodeFrom none octets).1, (decodeFrom none octets).2) := by
  rfl

theorem decode_eq_ok_iff {octets : List UInt8} {text : List Char} :
    decode octets = .ok text ↔ decodeFrom none octets = (text, none) := by
  unfold decode
  split
  next heq => rw [heq, Except.ok.injEq, Prod.mk.injEq, and_iff_left rfl]
  next heq =>
    rw [heq]
    exact ⟨nofun, nofun⟩

/-- A byte order mark belongs to no document. -/
theorem not_isDocument_mark (text : List Char) : ¬ Json.IsDocument ('\uFEFF' :: text) := by
  intro h
  obtain ⟨⟨v, hv⟩, -⟩ := Json.isDocument_iff.mp h
  exact (Json.parse_eq_ok_iff.mp hv).1 rfl

end Marks

section Feeds

/-- A streamable input is read by a text that is a document. -/
theorem exists_document_of_read (h : read false s = .ok v) (hs : s.isStreamable = true) :
    ∃ text, s.contents = .file s.octets ∧ decode s.octets = .ok text ∧ Json.IsDocument text ∧
      Json.parse text = .ok v := by
  obtain ⟨octets, text, hcontents, hdecode, hparse⟩ := read_eq_ok_iff.mp h
  have hoctets : s.octets = octets := by rw [Source.octets, hcontents]
  rw [isStreamable, hoctets, Bool.and_eq_true_iff, beq_iff_eq, Bool.not_eq_true'] at hs
  obtain ⟨hdrop, hword⟩ := hs
  rw [hdrop] at hdecode
  rw [decode_eq_ok_iff.mp hdecode] at hword
  rw [hoctets]
  exact ⟨text, hcontents, hdecode, Json.isDocument_iff.mpr ⟨⟨v, hparse⟩, hword⟩, hparse⟩

/-- An input that is read but not streamable has no text that is a document. -/
theorem not_isDocument_of_read (h : read false s = .ok v) (hs : s.isStreamable = false) :
    s.contents = .file s.octets ∧ ∀ text, decode s.octets = .ok text → ¬ Json.IsDocument text := by
  obtain ⟨octets, text, hcontents, hdecode, hparse⟩ := read_eq_ok_iff.mp h
  have hoctets : s.octets = octets := by rw [Source.octets, hcontents]
  rw [hoctets]
  refine ⟨hcontents, fun t ht hdocument => ?_⟩
  have htext := decode_eq_ok_iff.mp ht
  rcases dropMark_cases octets with hdrop | hmark
  · rw [isStreamable, hoctets, hdrop, beq_self_eq_true, htext,
      (Json.isDocument_iff.mp hdocument).2] at hs
    cases hs
  · rw [hmark, decodeFrom_mark, decode_eq_ok_iff.mp hdecode] at htext
    cases htext
    exact not_isDocument_mark text hdocument

/-- A file feeds what the library makes of it. -/
theorem feed_of_file {octets : List UInt8} (h : s.contents = .file octets) :
    feed stream s = ⟨(stream octets).items,
      if (stream octets).isSound then none else some (.input s.name .notStreamable)⟩ := by
  rw [feed, h]

/-- What an array feeds: its items, or a fault if it is not streamable. -/
theorem feed_of_read (hstream : StreamsStrictly stream) (h : read false s = .ok (.array items)) :
    if s.isStreamable then feed stream s = ⟨items, none⟩
    else (feed stream s).fault = some (.input s.name .notStreamable) := by
  cases hs : s.isStreamable with
  | true =>
      obtain ⟨text, hcontents, hdecode, hdocument, hparse⟩ := exists_document_of_read h hs
      rw [if_pos rfl, feed_of_file hcontents, hstream.items hdecode hdocument hparse, if_pos rfl]
  | false =>
      obtain ⟨hcontents, hnone⟩ := not_isDocument_of_read h hs
      rw [if_neg Bool.false_ne_true, feed_of_file hcontents, hstream.refused hnone]
      rfl

/-- Inputs in a row: all items behind those in `taken`, or the first input that is not streamable. -/
theorem collect_feeds (hstream : StreamsStrictly stream)
    (hread : List.Forall₂ (fun s items => read false s = .ok (.array items)) sources arrays)
    (taken : List Json) :
    Feed.collect none taken (Feed.readingsOf (sources.map (feed stream))) =
      match sources.find? (!·.isStreamable) with
      | none => .ok (taken ++ arrays.flatten)
      | some s => .error (.input s.name .notStreamable) := by
  induction hread generalizing taken with
  | nil => exact congrArg Except.ok (List.append_nil taken).symm
  | @cons s items sources arrays h _ ih =>
      have hfeed := feed_of_read hstream h
      have hcons : Feed.readingsOf ((s :: sources).map (feed stream)) =
          (feed stream s).readings ++ Feed.readingsOf (sources.map (feed stream)) := rfl
      rw [hcons, Feed.readings, List.append_assoc, Feed.collect_all]
      cases hstreamable : s.isStreamable with
      | false =>
          rw [hstreamable, if_neg Bool.false_ne_true] at hfeed
          rw [hfeed, List.find?_cons_of_pos (by rw [hstreamable]; rfl)]
          rfl
      | true =>
          rw [hstreamable, if_pos rfl] at hfeed
          rw [hfeed, List.find?_cons_of_neg (by rw [hstreamable]; decide)]
          exact (ih (taken ++ items)).trans (by rw [List.append_assoc, List.flatten_cons])

end Feeds

theorem readAll_singleton (s : Source) : readAll false [s] = read false s := by
  rw [readAll, List.mapM_cons, List.mapM_nil]
  cases read false s <;> rfl

theorem readAlone_eq_ok_iff {argument : String} :
    readAlone w argument = .ok v ↔ ∃ s, find w argument = .ok s ∧ read false s = .ok v := by
  rw [readAlone, findAll, if_neg (List.cons_ne_nil _ _), List.mapM_cons, List.mapM_nil]
  cases find w argument with
  | error fault => exact ⟨nofun, nofun⟩
  | ok s =>
      change readAll false [s] = .ok v ↔ _
      rw [readAll_singleton]
      exact ⟨fun h => ⟨s, rfl, h⟩, fun ⟨_, hs, h⟩ => Except.ok.inj hs ▸ h⟩

/-- Inputs that are there one by one are there together. -/
theorem exists_sources (hne : arguments ≠ [])
    (hread : List.Forall₂ (fun a items => readAlone w a = .ok (.array items)) arguments arrays) :
    ∃ sources, findAll w arguments = .ok sources ∧
      List.Forall₂ (fun s items => read false s = .ok (.array items)) sources arrays := by
  rw [findAll, if_neg hne]
  clear hne
  induction hread with
  | nil => exact ⟨[], rfl, .nil⟩
  | cons h _ ih =>
      obtain ⟨s, hfind, hs⟩ := readAlone_eq_ok_iff.mp h
      obtain ⟨sources, hsources, hrest⟩ := ih
      refine ⟨s :: sources, ?_, .cons hs hrest⟩
      rw [List.mapM_cons, hfind, hsources]
      rfl

/-- Inputs that are read as arrays, each by itself, are sampled as the items of all these arrays,
unless one of them has a byte order mark or a word for a number; then the first such input is
reported.  There has to be an input. -/
theorem sample_arrays (hstream : StreamsStrictly stream)
    (hread : List.Forall₂ (fun a items => readAlone w a = .ok (.array items)) arguments arrays) :
    (arguments = [] → findAll w arguments = .error .noInputs) ∧
      (arguments ≠ [] → ∃ sources, findAll w arguments = .ok sources ∧
        (Feed.join (sources.map (feed stream))).sample none =
          match sources.find? (!·.isStreamable) with
          | none => .ok arrays.flatten
          | some s => .error (.input s.name .notStreamable)) := by
  refine ⟨fun hnil => if_pos hnil, fun hne => ?_⟩
  obtain ⟨sources, hfind, hsources⟩ := exists_sources hne hread
  refine ⟨sources, hfind, ?_⟩
  rw [Feed.sample_join_none]
  exact collect_feeds hstream hsources []

section Desk

/-- A library that streams documents all at once. -/
def strictly : Streamer := fun octets =>
  match decode octets with
  | .error _ => ⟨[], false⟩
  | .ok text =>
      match Json.parse text with
      | .ok (.array items) => ⟨items, !Json.hasNumberWord text⟩
      | .ok _ => ⟨[], !Json.hasNumberWord text⟩
      | .error _ => ⟨[], false⟩

theorem streamsStrictly_strictly : StreamsStrictly strictly where
  items := by
    intro octets text items hdecode hdocument hparse
    simp only [strictly, hdecode, hparse, (Json.isDocument_iff.mp hdocument).2, Bool.not_false]
  refused := by
    intro octets hnone
    unfold strictly
    cases hdecode : decode octets with
    | error fault => rfl
    | ok text =>
        have hword : (∃ v, Json.parse text = .ok v) → Json.hasNumberWord text = true := by
          intro hparse
          rw [← Bool.not_eq_false]
          exact fun hword => hnone text hdecode (Json.isDocument_iff.mpr ⟨hparse, hword⟩)
        dsimp only
        split
        next hparse => rw [hword ⟨_, hparse⟩]; rfl
        next hparse => rw [hword ⟨_, hparse⟩]; rfl
        next => rfl

/-- The text `[-9]`. -/
def plain : Source := ⟨"a.json", .file [0x5B, 0x2D, 0x39, 0x5D]⟩

/-- The text `[1]` behind a byte order mark. -/
def marked : Source := ⟨"b.json", .file [0xEF, 0xBB, 0xBF, 0x5B, 0x31, 0x5D]⟩

/-- The text `["\ud83d\ude00", []]`. -/
def paired : Source where
  name := "<stdin>"
  contents := .file
    [0x5B, 0x22, 0x5C, 0x75, 0x64, 0x38, 0x33, 0x64, 0x5C, 0x75, 0x64, 0x65, 0x30, 0x30, 0x22, 0x2C,
      0x20, 0x5B, 0x5D, 0x5D]

def desk : Workspace where
  entries :=
    [(Path.ofText "a.json", plain.contents), (Path.ofText "b.json", marked.contents)]
  input := paired.octets

theorem read_plain : read false plain = .ok (.array [.scalar (.int (-9))]) :=
  read_eq_ok_iff.mpr ⟨_, "[-9]".toList, rfl, rfl, Json.parse_eq_ok_iff.mpr
    ⟨by decide, [.openArray, .scalar (.int (-9)), .closeArray], by decide +kernel, rfl⟩⟩

theorem read_marked : read false marked = .ok (.array [.scalar (.int 1)]) :=
  read_eq_ok_iff.mpr ⟨_, "[1]".toList, rfl, rfl, Json.parse_eq_ok_iff.mpr
    ⟨by decide, [.openArray, .scalar (.int 1), .closeArray], by decide +kernel, rfl⟩⟩

theorem read_paired : read false paired = .ok (.array [.scalar (.str "😀"), .array []]) :=
  read_eq_ok_iff.mpr ⟨_, "[\"\\ud83d\\ude00\", []]".toList, rfl, rfl, Json.parse_eq_ok_iff.mpr
    ⟨by decide, [.openArray, .scalar (.str "😀"), .comma, .openArray, .closeArray, .closeArray],
      by decide +kernel, rfl⟩⟩

theorem isStreamable_desk :
    plain.isStreamable = true ∧ marked.isStreamable = false ∧ paired.isStreamable = true := by
  decide +kernel

theorem sample_arrays_desk :
    (findAll desk ["a.json", "-", "a.json"] = .ok [plain, paired, plain] ∧
      (Feed.join ([plain, paired, plain].map (feed strictly))).sample none =
        .ok [.scalar (.int (-9)), .scalar (.str "😀"), .array [], .scalar (.int (-9))]) ∧
    findAll desk ["-", "b.json"] = .ok [paired, marked] ∧
      (Feed.join ([paired, marked].map (feed strictly))).sample none =
        .error (.input "b.json" .notStreamable) := by
  have hplain : readAlone desk "a.json" = .ok (.array [.scalar (.int (-9))]) :=
    readAlone_eq_ok_iff.mpr ⟨plain, rfl, read_plain⟩
  have hmarked : readAlone desk "b.json" = .ok (.array [.scalar (.int 1)]) :=
    readAlone_eq_ok_iff.mpr ⟨marked, rfl, read_marked⟩
  have hpaired : readAlone desk "-" = .ok (.array [.scalar (.str "😀"), .array []]) :=
    readAlone_eq_ok_iff.mpr ⟨paired, rfl, read_paired⟩
  constructor
  · have hfound : findAll desk ["a.json", "-", "a.json"] = .ok [plain, paired, plain] := rfl
    obtain ⟨sources, hfind, hsample⟩ :=
      (sample_arrays streamsStrictly_strictly
        (.cons hplain (.cons hpaired (.cons hplain .nil)))).2 (by decide)
    obtain rfl : sources = [plain, paired, plain] := Except.ok.inj (hfind.symm.trans hfound)
    refine ⟨hfound, hsample.trans ?_⟩
    simp [isStreamable_desk]
  · have hfound : findAll desk ["-", "b.json"] = .ok [paired, marked] := rfl
    obtain ⟨sources, hfind, hsample⟩ :=
      (sample_arrays streamsStrictly_strictly (.cons hpaired (.cons hmarked .nil))).2 (by decide)
    obtain rfl : sources = [paired, marked] := Except.ok.inj (hfind.symm.trans hfound)
    refine ⟨hfound, hsample.trans ?_⟩
    simp [isStreamable_desk]
    rfl

/-- An array behind a byte order mark is read and not sampled. -/
theorem marked_array_not_sampled :
    readAlone desk "b.json" = .ok (.array [.scalar (.int 1)]) ∧
      findAll desk ["b.json"] = .ok [marked] ∧
      (Feed.join ([marked].map (feed strictly))).sample none =
        .error (.input "b.json" .notStreamable) := by
  refine ⟨readAlone_eq_ok_iff.mpr ⟨marked, rfl, read_marked⟩, rfl, ?_⟩
  rw [Feed.sample_join_none, collect_feeds streamsStrictly_strictly (.cons read_marked .nil)]
  simp [isStreamable_desk]
  rfl

end Desk

end Source

end TypeSketch
