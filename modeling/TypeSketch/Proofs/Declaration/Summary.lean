import TypeSketch.Command.Run
import TypeSketch.Proofs.Declaration.Usable
import TypeSketch.Proofs.Source
import TypeSketch.Proofs.Text.Apart

/-!
# Summaries and documents

The rows of a summary and the blocks of a document are of the same types in the same order: nothing
refers to the root, so it is the first in either order.  `SameType` says of a row and a block that
they are of one type.  Main statement: `same_types`.
-/

namespace TypeSketch

namespace Declaration

variable {ds others : List Declaration} {d : Declaration}

/-- Where nothing refers to the first declaration, it is the first in either order. -/
theorem exists_inOrder_eq_cons (order : DeclarationOrder)
    (hfree : ∀ e ∈ d :: others, d.name ∉ e.dependencies) :
    ∃ rest, inOrder order (d :: others) = d :: rest := by
  cases order with
  | discovery => exact ⟨others, rfl⟩
  | dependency =>
      have hready : isReady (d :: others) d = true := isReady_iff.mpr fun e he => .inr (hfree e he)
      have hfirst : (d :: others).find? (isReady (d :: others)) = some d :=
        List.find?_cons_of_pos hready
      exact ⟨_, (dependencyOrder_eq _).trans (readyOrder_of_some hfirst)⟩

end Declaration

namespace Document

/-- The document of types that are given by their names and their texts. -/
def ofTypes (types : List (String × List Char)) : List Char :=
  blocks (types.map fun t => Declaration.line t.1.toList t.2)

/-- The name and the text of a declared type. -/
def typeOf (d : Declaration) : String × List Char :=
  (d.name, d.body)

section Layouts

variable {r : Registry} {rootName : String} (text : List Char)

theorem declaration?_eq_none (hroot : rootName ∉ r.declarations.map (·.name)) :
    r.declaration? rootName = none := by
  refine List.find?_eq_none.mpr fun d hd hname => hroot ?_
  exact List.mem_map.mpr ⟨d, hd, beq_iff_eq.mp hname⟩

/-- A root that is not declared stands in front of all declarations. -/
theorem layout_alias (order : DeclarationOrder)
    (hroot : rootName ∉ r.declarations.map (·.name)) :
    render rootName text r order =
        ofTypes ((rootName, text) :: (Declaration.inOrder order r.declarations).map typeOf) ∧
      Summary.rows rootName text r order =
        .alias rootName text ::
          (Declaration.inOrder order r.declarations).map .ofDeclaration := by
  have hnone := declaration?_eq_none hroot
  have hothers : (Declaration.inOrder order r.declarations).filter (fun d => d.name ≠ rootName) =
      Declaration.inOrder order r.declarations := by
    refine List.filter_eq_self.mpr fun d hd => decide_eq_true fun hname => hroot ?_
    exact hname ▸ List.mem_map_of_mem ((Declaration.perm_inOrder order _).mem_iff.mp hd)
  constructor
  · rw [render, hnone, hothers, ofTypes, List.map_cons, List.map_map]
    rfl
  · rw [Summary.rows, hnone]
    rfl

/-- A root that is declared, and to which nothing refers, stands in front of all others. -/
theorem layout_declared (order : DeclarationOrder) {d : Declaration} {others : List Declaration}
    (hdeclarations : r.declarations = d :: others)
    (hnodup : (r.declarations.map (·.name)).Nodup)
    (hfree : ∀ e ∈ r.declarations, d.name ∉ e.dependencies) :
    render d.name text r order = ofTypes ((Declaration.inOrder order r.declarations).map typeOf) ∧
      Summary.rows d.name text r order =
        (Declaration.inOrder order r.declarations).map .ofDeclaration := by
  have hfound : r.declaration? d.name = some d := by
    rw [Registry.declaration?, hdeclarations]
    exact List.find?_cons_of_pos (beq_self_eq_true d.name)
  obtain ⟨rest, hrest⟩ := Declaration.exists_inOrder_eq_cons order (hdeclarations ▸ hfree)
  rw [← hdeclarations] at hrest
  have hnames := ((Declaration.perm_inOrder order r.declarations).map (·.name)).nodup_iff.mpr hnodup
  rw [hrest, List.map_cons, List.nodup_cons] at hnames
  -- the root is left out behind itself, and nothing else has its name
  have hothers : (d :: rest).filter (fun e => e.name ≠ d.name) = rest := by
    rw [List.filter_cons_of_neg (by simp), List.filter_eq_self]
    exact fun e he => decide_eq_true fun hname => hnames.1 (hname ▸ List.mem_map_of_mem he)
  constructor
  · rw [render, hfound, hrest, hothers, ofTypes, List.map_map]
    rfl
  · rw [Summary.rows, hfound]
    rfl

end Layouts

end Document

namespace Emission

open Shape (Within)

variable {o : Options} {s : Shape} {rootName : String} {text : List Char} {r : Registry}

section Fields

/-- Shapes that are the same have the same field names. -/
theorem names_sortFields_of_identity_eq {fs gs : List (Field Shape)}
    (h : (Shape.object fs).identity = (Shape.object gs).identity) :
    (sortFields fs).map (·.name) = (sortFields gs).map (·.name) := by
  rw [Shape.identity_object, Shape.identity_object, Key.object.injEq,
    sortFields_map (Field.map_name _), sortFields_map (Field.map_name _)] at h
  rw [← names_map Shape.identity, h, names_map]

/-- A declaration lists the field names of each object whose declaration it is, in order. -/
structure Listed (r : Registry) : Prop where
  sound : r.Sound
  fields : ∀ {fs name d}, r.nameOf? (Shape.object fs).identity = some name →
    r.declaration? name = some d → d.fields = (sortFields fs).map (·.name)

theorem Listed.update (hr : Listed r) {f : Declaration → Declaration}
    (hf : ∀ d, (f d).name = d.name ∧ (f d).fields = d.fields) (name : String) :
    Listed (r.update name f) where
  sound := hr.sound.update (fun d => (hf d).1) name
  fields := by
    intro fs n d hn hd
    rw [Registry.declaration?_update r fun d => (hf d).1] at hd
    split at hd
    · obtain ⟨d', hd', rfl⟩ := Option.map_eq_some_iff.mp hd
      rw [(hf d').2]
      exact hr.fields hn hd'
    · exact hr.fields hn hd

theorem Listed.opened (hr : Listed r) {gs : List (Field Shape)} (hsorted : sortFields gs = gs)
    (hnone : r.nameOf? (Shape.object gs).identity = none) (suggested : String) :
    Listed (Writes.opened r (Shape.object gs).identity suggested (gs.map (·.name))) where
  sound := (hr.sound.declare (r.freeName_notMem suggested) _).update (Writes.name_fields _) _
  fields := by
    intro fs name d hname hd
    rw [Writes.nameOf?_opened] at hname
    split at hname
    · rename_i hidentity
      rw [← Option.some.inj hname, Writes.declaration?_opened hr.sound, Option.some.injEq] at hd
      rw [← hd, names_sortFields_of_identity_eq hidentity, hsorted]
    · -- what has a name has its declaration, which stays as it is
      obtain ⟨d', hd'⟩ := hr.sound.declared_of_named hname
      have hkept := (Writes.extends_opened hr.sound hnone suggested (gs.map (·.name))).declared hd'
      rw [hkept, Option.some.injEq] at hd
      exact hd ▸ hr.fields hname hd'

theorem listed_of_emit (h : emit o s rootName = .ok (text, r)) : Listed r := by
  obtain ⟨e, hrun, rfl⟩ := exists_typeOf_of_emit h
  have hstart : Listed (start o s rootName) := by
    refine ⟨(ready_start (o := o) s rootName ∅).fit.sound, fun hname => ?_⟩
    rw [start, nameOf?_start] at hname
    cases hname
  have hlisted := (operations_typeOf o s.sorted rootName).invariant (e := ⟨start o s rootName, []⟩)
    (fun hasks hr hnone =>
      Listed.opened hr (Shape.sortFields_of_within_sorted hasks.within) hnone _)
    (fun hf hr => Listed.update hr hf _) hstart
  rwa [hrun] at hlisted

end Fields

section Mentioned

variable {σ : Key → Option String} {gs : List (Field Shape)} {n : String}

theorem infix_arrangeTexts {t : List Char} {texts : List (List Char)} (h : t ∈ texts) :
    t <:+: alternatives (arrangeTexts texts) := by
  have hmem : t ∈ arrangeTexts texts := List.mem_mergeSort.mpr (mem_distinctOn_id.mpr h)
  exact Text.infix_separated hmem

theorem infix_arrayText (texts : List (List Char)) :
    alternatives texts <:+: arrayText (itemText texts) := by
  have hitem : alternatives texts <:+: itemText texts := by
    rw [itemText]
    split
    · exact ⟨['('], [')'], rfl⟩
    · exact List.infix_rfl
  exact hitem.trans (List.prefix_append _ _).isInfix

theorem infix_fieldText (name : String) (isOptional : Bool) (type : List Char) :
    type <:+: fieldText o name isOptional type :=
  (List.suffix_append _ type).isInfix

theorem infix_lines {fs : List (Field Shape)} {f : Field Shape} (hf : f ∈ fs) {t : List Char}
    (ht : t <:+: (lineOf o σ f).content) : ∃ line ∈ lines o σ fs, t <:+: line := by
  refine ⟨_, ?_, ht⟩
  rw [lines, linesOf_eq_map]
  exact List.mem_map_of_mem (mem_sortFields.mpr (List.mem_map_of_mem hf))

theorem infix_inlineText {t line : List Char} {parts : List (List Char)} (hline : line ∈ parts)
    (ht : t <:+: line) : t <:+: inlineText parts := by
  cases parts with
  | nil => cases hline
  | cons p parts =>
      have hparts : t <:+: Text.separated "; ".toList (p :: parts) :=
        ht.trans (Text.infix_separated hline)
      have hopen := hparts.trans (List.suffix_append "\x7b ".toList _).isInfix
      exact hopen.trans (List.prefix_append _ _).isInfix

theorem infix_bodyText {t line : List Char} {parts : List (List Char)} (hline : line ∈ parts)
    (ht : t <:+: line) : t <:+: bodyText o parts := by
  cases parts with
  | nil => cases hline
  | cons p parts =>
      have hindented : t <:+: List.replicate o.indent ' ' ++ line ++ [';'] :=
        (ht.trans (List.suffix_append _ line).isInfix).trans (List.prefix_append _ _).isInfix
      have hparts : t <:+: Text.separated ['\n'] ((p :: parts).map fun q =>
          List.replicate o.indent ' ' ++ q ++ [';']) :=
        hindented.trans (Text.infix_separated (List.mem_map_of_mem hline))
      have hopen := hparts.trans (List.suffix_append "\x7b\n".toList _).isInfix
      exact hopen.trans (List.prefix_append _ _).isInfix

/-- The name of what is met in a shape is found in its text. -/
theorem Meets.infix_texts {s : Shape} (h : Meets o gs s)
    (hn : σ (Shape.object gs).identity = some n) :
    ∀ dropNull, n.toList <:+: alternatives (texts o σ dropNull s) := by
  induction h with
  | here hdeclared =>
      intro dropNull
      rw [texts, if_neg (Bool.eq_false_iff.mp hdeclared), hn, alternatives_singleton]
      exact List.infix_rfl
  | item _ ih =>
      intro dropNull
      rw [texts, alternatives_singleton]
      exact (ih false).trans (infix_arrayText _)
  | @member m ms hm hmeets ih =>
      intro dropNull
      have hkept : (dropNull && m.isNull) = false := by
        cases hmeets <;> exact Bool.and_false dropNull
      rw [texts]
      exact (ih false).trans (infix_arrangeTexts (mem_memberTexts.mpr ⟨m, hm, hkept, rfl⟩))
  | @content fs f hinline hf _ ih =>
      intro dropNull
      obtain ⟨line, hline, hinfix⟩ :=
        infix_lines hf ((ih (dropsNull o f.content)).trans (infix_fieldText f.name _ _))
      rw [texts, if_pos hinline, alternatives_singleton]
      exact infix_inlineText hline hinfix

/-- The names that a body refers to are found in its text. -/
theorem infix_body {fs : List (Field Shape)} (h : n ∈ namesOf σ (metIn o fs)) :
    n.toList <:+: body o σ fs := by
  obtain ⟨gs, hgs, hn⟩ := h
  obtain ⟨f, hf, hmeets⟩ := mem_metIn.mp hgs
  have htext := hmeets.infix_texts hn (dropsNull o f.content)
  obtain ⟨line, hline, hinfix⟩ := infix_lines hf (htext.trans (infix_fieldText f.name _ _))
  exact infix_bodyText hline hinfix

end Mentioned

/-- What a summary and a document say of the declaration of an object. -/
structure Tabulated (o : Options) (s : Shape) (r : Registry) (fs : List (Field Shape))
    (name : String) (fields references : List String) (text : List Char) : Prop where
  declared : isInline o fs = false
  within : Within (.object fs) s
  named : r.nameOf? (Shape.object fs).identity = some name
  body : text = body o r.nameOf? fs
  /-- The fields are those of the object, in the order of their names. -/
  perm : fields.Perm (fs.map (·.name))
  sorted : fields.Pairwise (· ≤ ·)
  /-- The references are the names that the body refers to, each of them once. -/
  nodup : references.Nodup
  referred : ∀ n, n ∈ references ↔ n ∈ namesOf r.nameOf? (metIn o fs)
  shown : ∀ n ∈ references, n ∈ r.declarations.map (·.name) ∧ n.toList <:+: text

/-- A row of a summary and a block of a document that are of the same type. -/
inductive SameType (o : Options) (s : Shape) (rootName : String) (rootText : List Char)
    (r : Registry) : SummaryRow → String × List Char → Prop
  /-- A root that is not declared. -/
  | alias (h : declares o s = false) :
      SameType o s rootName rootText r (.alias rootName rootText) (rootName, rootText)
  | declared {fs : List (Field Shape)} {name : String} {fields references : List String}
      {text : List Char} (h : Tabulated o s r fs name fields references text) :
      SameType o s rootName rootText r (.declared name fields references) (name, text)

theorem SameType.name_eq {row : SummaryRow} {type : String × List Char}
    (h : SameType o s rootName text r row type) : row.name = type.1 := by
  cases h <;> rfl

theorem names_eq_of_sameType {rows : List SummaryRow} {types : List (String × List Char)}
    (h : List.Forall₂ (SameType o s rootName text r) rows types) :
    rows.map (·.name) = types.map (·.1) := by
  induction h with
  | nil => rfl
  | cons hrow _ ih => rw [List.map_cons, List.map_cons, hrow.name_eq, ih]

/-- Each declaration has a row and a block of the same type. -/
theorem sameType_ofDeclaration {refs : List String} (h : emit o s rootName = .ok (text, r))
    (hlinked : Linked o s rootName refs r) {d : Declaration} (hd : d ∈ r.declarations) :
    SameType o s rootName text r (.ofDeclaration d) (Document.typeOf d) := by
  obtain ⟨fs, hinline, hwithin, hname⟩ := hlinked.owner d hd
  obtain ⟨hbody, hdependencies⟩ := hlinked.dependencies d hd fs hinline hwithin hname
  have hlisted := listed_of_emit h
  have hfields : d.fields = (sortFields fs).map (·.name) :=
    hlisted.fields hname (Registry.declaration?_of_mem hlinked.nodup hd)
  refine .declared (?_ : Tabulated o s r fs d.name d.fields _ d.body)
  constructor
  case declared => exact hinline
  case within => exact hwithin
  case named => exact hname
  case body => exact hbody
  case perm =>
    rw [hfields]
    exact (List.mergeSort_perm fs _).map (·.name)
  case sorted =>
    rw [hfields, List.pairwise_map]
    exact (List.pairwise_mergeSort names_trans names_total fs).imp of_decide_eq_true
  case nodup => exact nodup_distinctOn_id d.dependencies
  case referred => exact fun n => mem_distinctOn_id.trans (hdependencies n)
  case shown =>
    intro n hn
    have hdependency := mem_distinctOn_id.mp hn
    refine ⟨hlinked.closed n (.inr ⟨d.name, d, hd, rfl, hdependency⟩), ?_⟩
    rw [hbody]
    exact infix_body ((hdependencies n).mp hdependency)

theorem sameType_declarations {refs : List String} (h : emit o s rootName = .ok (text, r))
    (hlinked : Linked o s rootName refs r) (order : DeclarationOrder) :
    List.Forall₂ (SameType o s rootName text r)
      ((Declaration.inOrder order r.declarations).map .ofDeclaration)
      ((Declaration.inOrder order r.declarations).map Document.typeOf) := by
  rw [List.forall₂_map_left_iff, List.forall₂_map_right_iff, List.forall₂_same]
  intro d hd
  exact sameType_ofDeclaration h hlinked ((Declaration.perm_inOrder order _).mem_iff.mp hd)

/-- The summary and the document of what is emitted have the same types, and the root is the first
of them. -/
theorem exists_types {refs : List String} (h : emit o s rootName = .ok (text, r))
    (hlinked : Linked o s rootName refs r) (order : DeclarationOrder) :
    ∃ types, Document.render rootName text r order = Document.ofTypes types ∧
      List.Forall₂ (SameType o s rootName text r) (Summary.rows rootName text r order) types ∧
      (types.map (·.1)).head? = some rootName ∧
      ∀ d ∈ r.declarations, Document.typeOf d ∈ types := by
  have hsame := sameType_declarations h hlinked order
  have hmem : ∀ d ∈ r.declarations,
      Document.typeOf d ∈ (Declaration.inOrder order r.declarations).map Document.typeOf :=
    fun d hd => List.mem_map_of_mem ((Declaration.perm_inOrder order _).mem_iff.mpr hd)
  have hroot := hlinked.root
  cases hdeclares : declares o s with
  | false =>
      rw [hdeclares] at hroot
      obtain ⟨hdocument, hrows⟩ := Document.layout_alias text order hroot
      rw [hrows]
      exact ⟨_, hdocument, .cons (.alias hdeclares) hsame, rfl,
        fun d hd => List.mem_cons_of_mem _ (hmem d hd)⟩
  | true =>
      obtain ⟨-, -, d, others, hdeclarations, rfl⟩ := root_of_emit h hdeclares
      have hfree : ∀ e ∈ r.declarations, d.name ∉ e.dependencies := fun e he hdep =>
        hlinked.rootFree e.name ⟨e, he, rfl, hdep⟩
      obtain ⟨hdocument, hrows⟩ :=
        Document.layout_declared text order hdeclarations hlinked.nodup hfree
      obtain ⟨rest, hrest⟩ :=
        Declaration.exists_inOrder_eq_cons order (hdeclarations ▸ hfree)
      rw [hrows]
      refine ⟨_, hdocument, hsame, ?_, hmem⟩
      rw [hdeclarations, hrest]
      rfl

end Emission

namespace Request

/-- The request for the given command. -/
def on (q : Request) (command : Command) : Request :=
  { q with command }

variable {lib : Libraries} {w : Workspace} {q : Request} {o : Options} {value : Json}

theorem run_generate (ho : q.options lib.load w = .ok o)
    (hvalue : q.value lib.stream w = .ok value) :
    (q.on .generate).run lib w =
      (do q.deliver lib w (← (Document.ofSample o (.ofJson value)).mapError .shape)) := by
  have ho' : (q.on .generate).options lib.load w = .ok o := ho
  have hvalue' : (q.on .generate).value lib.stream w = .ok value := hvalue
  rw [run, ho', hvalue']
  rfl

theorem run_schema (ho : q.options lib.load w = .ok o)
    (hvalue : q.value lib.stream w = .ok value) :
    (q.on .schema).run lib w = (do
      let rows ← (Summary.ofSample o (.ofJson value)).mapError .shape
      pure { output := lib.output.table (Summary.table rows) }) := by
  have ho' : (q.on .schema).options lib.load w = .ok o := ho
  have hvalue' : (q.on .schema).value lib.stream w = .ok value := hvalue
  rw [run, ho', hvalue']
  rfl

end Request

namespace Emission

theorem summary_of_emit {v : Sample} (h : v.shape o.limits = .ok s)
    (hemit : emit o s (documentName o) = .ok (text, r)) :
    Summary.ofSample o v = .ok (Summary.rows (documentName o) text r o.order) := by
  rw [documentName] at hemit
  rw [Summary.ofSample, h]
  simp only [bind, Except.bind, hemit]
  rfl

/-- The text of an object that has another one in it. -/
def letter : String := "\x7b\"a\":\x7b\x7d,\"b\":null\x7d"

def posted : Workspace where
  input := letter.toUTF8.toList

/-- Asks for what the standard input holds. -/
def asking : Request where
  command := .schema
  files := ["-"]

/-- A console that prints all texts as they are and the rows of a table line by line. -/
def sheet : Console where
  isTerminal := false
  markup s := s ++ ['\n']
  plain s := s ++ ['\n']
  highlighted s := s ++ ['\n']
  table t := t.rows.flatMap fun cells => (cells.intersperse [' ']).flatten ++ ['\n']

/-- Libraries that print to sheets and read nothing. -/
def sheets : Libraries where
  stream _ := ⟨[], false⟩
  load _ := .error .malformed
  escape s := s
  output := sheet
  errors := sheet

theorem value_asking : asking.value sheets.stream posted = .ok (.object [("a", .object []), ("b", .null)]) := by
  have hread : Source.read false ⟨"<stdin>", .file posted.input⟩ =
      .ok (.object [("a", .object []), ("b", .null)]) := by
    refine Source.read_eq_ok_iff.mpr ⟨_, letter.toList, rfl, by decide +kernel, ?_⟩
    exact Json.parse_eq_ok_iff.mpr ⟨by decide,
      [.openObject, .scalar (.str "a"), .colon, .openObject, .closeObject, .comma,
        .scalar (.str "b"), .colon, .null, .closeObject], by decide +kernel, rfl⟩
  have hfound : Source.findAll posted asking.files = .ok [⟨"<stdin>", .file posted.input⟩] := rfl
  have hall : Source.readAll false [⟨"<stdin>", .file posted.input⟩] =
      .ok (.object [("a", .object []), ("b", .null)]) := by
    rw [Source.readAll, List.mapM_cons, hread]
    rfl
  rw [Request.value, hfound]
  show (Source.readAll false [⟨"<stdin>", .file posted.input⟩]).mapError Failure.read = _
  rw [hall]
  rfl

end Emission

end TypeSketch
