import TypeSketch.Proofs.Declaration.Document
import TypeSketch.Proofs.Declaration.Naming

/-!
# Usable names

Every name that is declared is a word and not reserved, whatever the fields are called, no name is
declared twice, and the name of the root is that of nothing else.  All of this holds of any shape,
also of one that no data has.  Main statement: `usable_names`.
-/

namespace TypeSketch

namespace Name

/-- A word that is not reserved. -/
structure Usable (name : String) : Prop where
  word : isWord name.toList = true
  free : isReserved name.toList = false

/-- Reserved words are written in small letters. -/
theorem plain_of_mem_reservedWords :
    ∀ w ∈ reservedWords, ∀ c ∈ w.toList, c.isUpper = false ∧ c.isDigit = false := by
  decide

theorem isReserved_eq_false {name : String} {c : Char} (hc : c ∈ name.toList)
    (h : c.isUpper = true ∨ c.isDigit = true) : isReserved name.toList = false := by
  rw [isReserved, String.ofList_toList, List.contains_eq_mem, decide_eq_false_iff_not]
  intro hmem
  have hplain := plain_of_mem_reservedWords name hmem c hc
  rcases h with h | h
  · exact Bool.noConfusion (hplain.1.symm.trans h)
  · exact Bool.noConfusion (hplain.2.symm.trans h)

theorem exists_digit_toString (n : Nat) : ∃ c ∈ (toString n).toList, c.isDigit = true := by
  obtain ⟨c, hc⟩ := List.exists_mem_of_ne_nil (Nat.toDigits 10 n) Nat.toDigits_ne_nil
  refine ⟨c, ?_, Text.isDigit_of_mem_toDigits hc⟩
  rwa [Nat.toString_eq_repr, Nat.toList_repr]

/-- A number behind a word leaves it a word. -/
theorem isWord_candidate {name : String} (h : isWord name.toList = true) (n : Nat) :
    isWord (Name.candidate name n).toList = true := by
  cases n with
  | zero => exact h
  | succ n =>
      rw [Name.candidate, String.toList_append]
      exact isWord_append h fun c hc => isPart_of_isDigit (isDigit_of_mem_toString hc)

/-- A number behind a usable name leaves it usable. -/
theorem Usable.candidate {name : String} (h : Usable name) (n : Nat) :
    Usable (Name.candidate name n) := by
  cases n with
  | zero => exact h
  | succ n =>
      constructor
      case word => exact isWord_candidate h.word (n + 1)
      case free =>
        obtain ⟨c, hc, hdigit⟩ := exists_digit_toString (n + 2)
        refine isReserved_eq_false (c := c) ?_ (.inr hdigit)
        rw [Name.candidate, String.toList_append]
        exact List.mem_append_right _ hc

theorem Invented.usable {name : String} (h : Invented name) (hword : isWord name.toList = true) :
    Usable name where
  word := hword
  free := by
    obtain ⟨c, hc, hupper⟩ := h.capital
    exact isReserved_eq_false hc (.inl hupper)

end Name

namespace Emission

open Name (Usable isWord)
open Registry (Grown)
open Relation (ReflTransGen)

variable {o : Options} {s : Shape} {rootName : String} {text : List Char} {r : Registry}

section Paths

theorem NextName.isWord {m n : String} (h : NextName o m n) (hm : isWord m.toList = true) :
    isWord n.toList = true := by
  cases h with
  | item =>
      rw [String.toList_append]
      exact Name.isWord_append hm (by decide)
  | member i =>
      rw [String.toList_append, String.toList_append]
      refine Name.isWord_append (Name.isWord_append hm (by decide)) fun c hc => ?_
      exact Name.isPart_of_isDigit (Name.isDigit_of_mem_toString hc)
  | field name =>
      rw [suggestedName, String.toList_ofList]
      exact Name.isWord_typeName _

theorem isWord_of_path {m n : String} (h : ReflTransGen (NextName o) m n)
    (hm : isWord m.toList = true) : isWord n.toList = true := by
  induction h with
  | refl => exact hm
  | tail _ h ih => exact h.isWord ih

/-- Names that are made from a usable one are usable. -/
theorem usable_of_path {m n : String} (h : ReflTransGen (NextName o) m n) (hm : Usable m) :
    Usable n := by
  have hword := isWord_of_path h hm.word
  rcases Relation.reflTransGen_iff_eq_or_transGen.mp h with rfl | hpath
  · exact hm
  · refine (invented_of_path hpath fun c hc => ?_).usable hword
    exact Name.isNameChar_of_isPart (Name.isPart_of_isWord hm.word c hc)

end Paths

section Roots

/-- What is emitted has been written from the start. -/
theorem exists_typeOf_of_emit (h : emit o s rootName = .ok (text, r)) :
    ∃ e, typeOf o s.sorted rootName ⟨start o s rootName, []⟩ = (.ok text, e) ∧ e.registry = r := by
  obtain ⟨⟨result, e⟩, hrun⟩ :
      ∃ outcome, typeOf o s.sorted rootName ⟨start o s rootName, []⟩ = outcome := ⟨_, rfl⟩
  have hrun' : (typeOf o s.sorted rootName).run ⟨start o s rootName, []⟩ = (result, e) := hrun
  rw [start] at hrun'
  cases hwhole : s.isWhole with
  | false =>
      simp only [emit, write, hwhole, Bool.false_eq_true, if_false] at h
      cases h
  | true =>
      simp only [emit, write, hwhole, if_true, hrun'] at h
      cases result with
      | error fault => cases h
      | ok t =>
          cases h
          exact ⟨e, hrun, rfl⟩

/-- The names in the registry were asked for on the way from the root. -/
theorem exists_grown_of_emit (h : emit o s rootName = .ok (text, r)) :
    ∃ log, Grown (start o s rootName) log r ∧ ∀ a ∈ log,
      ReflTransGen (NextName o) rootName a.suggested ∧
        ∃ i, a.name = Name.candidate a.suggested i := by
  obtain ⟨e, hrun, rfl⟩ := exists_typeOf_of_emit h
  obtain ⟨log, hmakes, hasked⟩ :=
    (operations_typeOf o s.sorted rootName).allots ⟨start o s rootName, []⟩
  have hgrown := hmakes.grown (ready_start (o := o) s rootName ∅).fit.sound
  rw [hrun] at hgrown
  refine ⟨log, hgrown, fun a ha => ⟨?_, hmakes.candidate a ha⟩⟩
  obtain ⟨_, -, hasks⟩ := hasked a ha
  exact hasks.path

/-- A root that is declared is the first declaration, and keeps its name. -/
theorem root_of_emit (h : emit o s rootName = .ok (text, r)) (hdeclares : declares o s = true) :
    text = rootName.toList ∧ r.nameOf? s.identity = some rootName ∧
      ∃ d others, r.declarations = d :: others ∧ d.name = rootName := by
  obtain ⟨e, hrun, rfl⟩ := exists_typeOf_of_emit h
  cases s with
  | object fs =>
      have hroot : ({} : Registry).freeName rootName = rootName := Name.unique_nil rootName
      have hfields := operations_fields o (Shape.sortedBody fs)
      rw [typeOf_start hdeclares, Shape.identity_sorted] at hrun
      obtain ⟨log, hmakes, -⟩ := hfields.allots ⟨Writes.opened {} _ rootName _, []⟩
      have hgrown := (Makes.extract (o := o) (e := ⟨{}, []⟩) hmakes).grown .empty
      rw [hrun] at hgrown
      obtain ⟨added, hadded, hnames⟩ := hgrown.declarations
      obtain ⟨parts, after, hwritten, rfl, rfl⟩ := exists_of_extract_eq_ok hrun
      refine ⟨congrArg String.toList hroot, ?_, ?_⟩
      · have hopened : (Writes.opened {} (Shape.object fs).identity rootName
            ((Shape.sortedBody fs).map (·.name))).nameOf? (Shape.object fs).identity =
              some rootName := by rw [Writes.nameOf?_opened, if_pos rfl, hroot]
        have hkept := hfields.keeps (e := ⟨Writes.opened {} _ rootName _, []⟩) hopened
        rw [hwritten] at hkept
        exact hkept
      · cases added with
        | nil => cases hnames
        | cons d others =>
            rw [List.map_cons, List.map_cons] at hnames
            exact ⟨d, others, hadded, (List.cons.inj hnames).1.trans hroot⟩
  | _ => cases hdeclares

end Roots

/-- The names that are declared under a usable name are usable and differ, and the one that was
asked for is declared for nothing but the root itself. -/
theorem usable_names (o : Options) (s : Shape) (rootName : String)
    (hword : Name.isWord rootName.toList = true)
    (hfree : Name.isReserved rootName.toList = false) {text : List Char} {r : Registry}
    (h : emit o s rootName = .ok (text, r)) :
    (r.declarations.map (·.name)).Nodup ∧ ∀ d ∈ r.declarations,
      Name.isWord d.name.toList = true ∧ Name.isReserved d.name.toList = false ∧
        (d.name = rootName → declares o s = true ∧ text = rootName.toList ∧
          r.declarations.head? = some d ∧ ∀ k, r.nameOf? k = some rootName ↔ k = s.identity) := by
  obtain ⟨log, hgrown, hasked⟩ := exists_grown_of_emit h
  have hnames : r.declarations.map (·.name) = log.map (·.name) := by
    obtain ⟨added, hadded, hnames⟩ := hgrown.declarations
    rw [hadded, declarations_start, List.nil_append, hnames]
  have hnodup : (r.declarations.map (·.name)).Nodup := hnames ▸ hgrown.nodup
  refine ⟨hnodup, fun d hd => ?_⟩
  obtain ⟨a, ha, hname⟩ : ∃ a ∈ log, a.name = d.name :=
    List.mem_map.mp (hnames ▸ List.mem_map_of_mem hd)
  obtain ⟨hpath, i, hi⟩ := hasked a ha
  have husable : Usable d.name := by
    rw [← hname, hi]
    exact (usable_of_path hpath ⟨hword, hfree⟩).candidate i
  refine ⟨husable.word, husable.free, fun hroot => ?_⟩
  cases hdeclares : declares o s with
  | false =>
      -- the name was taken before anything was declared
      exfalso
      refine hgrown.fresh a ha ?_
      rw [hname, hroot, start, hdeclares]
      exact List.mem_singleton_self rootName
  | true =>
      obtain ⟨htext, hnamed, e, others, hdeclarations, he⟩ := root_of_emit h hdeclares
      have hde : e = d := List.inj_on_of_nodup_map hnodup
        (hdeclarations ▸ List.mem_cons_self) hd (he.trans hroot.symm)
      refine ⟨rfl, htext, ?_, fun k => ⟨fun hk => ?_, ?_⟩⟩
      · rw [hdeclarations, hde]
        rfl
      · exact hgrown.sound.eq_of_named hk hnamed
      · rintro rfl
        exact hnamed

/-- Fields with names that are not words, and one whose value asks for the name of the root. -/
def unusual : Sample :=
  .record [("root", .record []), ("2nd\nte\u0301", .list [.record [("", .null)], .null]),
    ("", .record [("class", .scalar (.int 1))]), ("new", .record [("roots", .list [.record []])])]

theorem usable_names_unusual :
    ∃ text r, emit { overrides := [("root", "Root Type\n")] } (unusual.outline 0) "rootType" =
        .ok (text, r) ∧
      (r.declarations.map (·.name)).Nodup ∧ ∀ d ∈ r.declarations,
        Name.isWord d.name.toList = true ∧ Name.isReserved d.name.toList = false := by
  obtain ⟨e, hrun⟩ :=
    exists_run_outline { overrides := [("root", "Root Type\n")] } 0 unusual "rootType"
  have hemit := emit_of_write (hrun.write_eq (Sample.regular_outline 0 unusual))
  obtain ⟨hnodup, hnames⟩ := usable_names _ _ "rootType" (by decide) (by decide) hemit
  exact ⟨_, _, hemit, hnodup, fun d hd => ⟨(hnames d hd).1, (hnames d hd).2.1⟩⟩

end Emission

end TypeSketch
