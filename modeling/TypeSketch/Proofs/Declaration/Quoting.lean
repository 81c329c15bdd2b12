import TypeSketch.Proofs.Declaration.Tokens

/-!
# Quotes are not broken out of

A document is read as the tokens that belong to its structure: each string and each field name is
one token of them, whatever its text.  Main statement: `quotes_closed`.
-/

namespace TypeSketch.Emission

open Shape (Regular Within)
open Token (Closed Reads isWordChar isBlank)

section Pieces

variable {o : Options} {texts : List (List Char)} {tokens : List (List Token)}

/-- A string is a text in quotes, and any other primitive a word. -/
def primitiveToken (o : Options) (kind : Kind) : Option Literal → Token
  | some (.str t) => .quoted t.toList
  | l => .word (primitiveText o kind l)

/-- An identifier is a word, without the line feed that may stand behind it. -/
def keyToken (name : String) : Token :=
  if Name.isIdentifier name.toList then .word (Name.chomp name.toList) else .quoted name.toList

def fieldTokens (name : String) (isOptional : Bool) (type : List Token) : List Token :=
  keyToken name :: ((if isOptional then [.mark '?'] else []) ++ .mark ':' :: type)

def barTokens (alternatives : List (List Token)) : List Token :=
  (alternatives.intersperse [.mark '|']).flatten

def itemTokens (alternatives : List (List Token)) : List Token :=
  if 1 < alternatives.length then .mark '(' :: (barTokens alternatives ++ [.mark ')'])
  else barTokens alternatives

def inlineTokens (fields : List (List Token)) : List Token :=
  .mark '\x7b' :: ((fields.intersperse [.mark ';']).flatten ++ [.mark '\x7d'])

def bodyTokens (fields : List (List Token)) : List Token :=
  .mark '\x7b' :: (fields.flatMap (· ++ [.mark ';']) ++ [.mark '\x7d'])

def lineTokens (name body : List Token) : List Token :=
  .word "type".toList :: (name ++ .mark '=' :: (body ++ [.mark ';']))

/-- The tokens of the texts in the order in which the distinct texts are arranged. -/
def arrangeTokens (texts : List (List Char)) (tokens : List (List Token)) : List (List Token) :=
  (arrangeTexts texts).map fun t => ((texts.zip tokens).lookup t).getD []

theorem isWordChar_of_isBare {c : Char} (h : isBare c = true) (hbreak : Text.isLineBreak c = false) :
    isWordChar c = true := by
  have hfeed : c ≠ '\n' := by
    rintro rfl
    exact absurd hbreak (by decide)
  simpa [isBare, Name.isNameChar, isWordChar, hfeed] using h

/-- A string is one token, whatever it says. -/
theorem reads_primitive {kind : Kind} {l : Option Literal} (hkind : ∀ m ∈ l, m.kind = kind) :
    Reads (primitiveText o kind l) [primitiveToken o kind l] := by
  rcases bare_or_string (o := o) (σ := fun _ => none) hkind with ⟨hbare, hplain⟩ | ⟨t, rfl, rfl⟩
  · have hchars := hbare.isBare
    have hne := hbare.ne_nil
    rw [render_primitive] at hchars hne
    have hunbroken : Text.Unbroken (primitiveText o kind l) :=
      unbroken_primitiveText fun t ht => absurd ht (hplain t)
    rw [primitiveToken]
    · exact Token.reads_word hne fun c hc => isWordChar_of_isBare (hchars c hc) (hunbroken c hc)
    · exact hplain
  · exact (Token.closed_enclosed o.quote t.toList).before

theorem reads_of_isWord {t : List Char} (h : Name.isWord t = true) : Reads t [.word t] := by
  refine Token.reads_word ?_ fun c hc => ?_
  · rintro rfl
    cases h
  · simp [isWordChar, Name.isPart_of_isWord h c hc]

/-- A field name is one token, in quotes or not. -/
theorem reads_printedKey (style : QuoteStyle) (name : String) :
    Reads (Name.printedKey style.char name.toList) [keyToken name] := by
  rw [Name.printedKey, keyToken]
  split
  · rename_i hname
    rw [Name.isIdentifier, Bool.and_eq_true, Name.chomp] at hname
    rw [Name.chomp]
    split at hname
    · rename_i hlast
      have hfeed : Closed ['\n'] [] := Token.closed_layout (by decide)
      rw [if_pos hlast]
      have hread : Reads _ _ := (reads_of_isWord hname.1).append hfeed.before (by decide)
      rwa [List.dropLast_append_getLast? '\n' hlast, List.append_nil] at hread
    · rename_i hlast
      rw [if_neg hlast]
      exact reads_of_isWord hname.1
  · exact (Token.closed_enclosed style _).before

theorem reads_fieldText {name : String} {isOptional : Bool} {t : List Char} {ts : List Token}
    (h : Reads t ts) :
    Reads (fieldText o name isOptional t) (fieldTokens name isOptional ts) := by
  have hkey := reads_printedKey o.quote name
  have hcolon : Closed ": ".toList [.mark ':'] := Token.closed_layout (by decide)
  have hmark : Closed "?: ".toList [.mark '?', .mark ':'] := Token.closed_layout (by decide)
  rw [fieldText, List.append_assoc, List.append_assoc]
  cases isOptional with
  | true => exact hkey.append (hmark.append h) (by decide)
  | false => exact hkey.append (hcolon.append h) (by decide)

theorem reads_alternatives (h : List.Forall₂ Reads texts tokens) :
    Reads (alternatives texts) (barTokens tokens) := by
  have hbar : Closed " | ".toList [.mark '|'] := Token.closed_layout (by decide)
  exact Token.reads_separated hbar (by decide) h

theorem reads_itemText (h : List.Forall₂ Reads texts tokens) :
    Reads (itemText texts) (itemTokens tokens) := by
  rw [itemText, itemTokens, h.length_eq]
  split
  · have hopen : Closed ['('] [.mark '('] := Token.closed_layout (by decide)
    have hclose : Closed [')'] [.mark ')'] := Token.closed_layout (by decide)
    exact hopen.append ((reads_alternatives h).append hclose.before (by decide))
  · exact reads_alternatives h

theorem reads_arrayText {t : List Char} {ts : List Token} (h : Reads t ts) :
    Reads (arrayText t) (ts ++ [.mark '[', .mark ']']) := by
  have hbrackets : Closed ['[', ']'] [.mark '[', .mark ']'] := Token.closed_layout (by decide)
  exact h.append hbrackets.before (by decide)

theorem reads_inlineText (h : List.Forall₂ Reads texts tokens) :
    Reads (inlineText texts) (inlineTokens tokens) := by
  have hopen : Closed "\x7b ".toList [.mark '\x7b'] := Token.closed_layout (by decide)
  have hclose : Closed " \x7d".toList [.mark '\x7d'] := Token.closed_layout (by decide)
  have hsemicolon : Closed "; ".toList [.mark ';'] := Token.closed_layout (by decide)
  cases h with
  | nil =>
      have hempty : Closed ['\x7b', '\x7d'] [.mark '\x7b', .mark '\x7d'] :=
        Token.closed_layout (by decide)
      exact hempty.before
  | @cons t ts texts tokens ht hrest =>
      have hfields := Token.reads_separated hsemicolon (by decide) (.cons ht hrest)
      show Reads ("\x7b ".toList ++ Text.separated "; ".toList (t :: texts) ++ " \x7d".toList) _
      rw [List.append_assoc]
      exact hopen.append (hfields.append hclose.before (by decide))

/-- A line of a body is read as its part and a semicolon, however far it is indented. -/
theorem reads_indented {t : List Char} {ts : List Token} (h : Reads t ts) :
    Reads (indented o t) (ts ++ [.mark ';']) := by
  have hsemicolon : Closed [';'] [.mark ';'] := Token.closed_layout (by decide)
  have hspaces : Closed (List.replicate o.indent ' ') [] := by
    have hblank : ∀ c ∈ List.replicate o.indent ' ', isBlank c = true := fun c hc =>
      List.eq_of_mem_replicate hc ▸ (by decide : isBlank ' ' = true)
    have hread := Token.closed_layout fun c hc => .inl (hblank c hc)
    rwa [List.filter_eq_nil_iff.mpr fun c hc => by simp [hblank c hc]] at hread
  rw [indented, List.append_assoc]
  exact hspaces.append (h.append hsemicolon.before (by decide))

theorem reads_bodyText (h : List.Forall₂ Reads texts tokens) :
    Reads (bodyText o texts) (bodyTokens tokens) := by
  have hopen : Closed "\x7b\n".toList [.mark '\x7b'] := Token.closed_layout (by decide)
  have hclose : Closed "\n\x7d".toList [.mark '\x7d'] := Token.closed_layout (by decide)
  have hfeed : Closed ['\n'] [] := Token.closed_layout (by decide)
  cases h with
  | nil =>
      have hempty : Closed ['\x7b', '\x7d'] [.mark '\x7b', .mark '\x7d'] :=
        Token.closed_layout (by decide)
      exact hempty.before
  | @cons t ts texts tokens ht hrest =>
      have hlines : List.Forall₂ Reads ((t :: texts).map (indented o))
          ((ts :: tokens).map (· ++ [.mark ';'])) := by
        rw [List.forall₂_map_left_iff, List.forall₂_map_right_iff]
        exact (List.Forall₂.cons ht hrest).imp fun _ _ => reads_indented
      have hread := Token.reads_spaced hfeed (by decide) hlines
      show Reads ("\x7b\n".toList ++ Text.separated ['\n'] ((t :: texts).map (indented o)) ++
        "\n\x7d".toList) _
      rw [List.append_assoc, bodyTokens, List.flatMap_def]
      exact hopen.append (hread.append hclose.before (by decide))

theorem reads_line {name body : List Char} {nameTokens ts : List Token}
    (hname : Reads name nameTokens) (hbody : Reads body ts) :
    Reads (Declaration.line name body) (lineTokens nameTokens ts) := by
  have hword : Reads "type".toList [.word "type".toList] := reads_of_isWord (by decide)
  have hspace : Closed [' '] [] := Token.closed_layout (by decide)
  have htype : Closed "type ".toList [.word "type".toList] := hword.append hspace (by decide)
  have hequals : Closed " = ".toList [.mark '='] := Token.closed_layout (by decide)
  have hsemicolon : Closed [';'] [.mark ';'] := Token.closed_layout (by decide)
  have hend : Reads (body ++ [';']) (ts ++ [.mark ';']) :=
    hbody.append hsemicolon.before (by decide)
  have hvalue : Reads (" = ".toList ++ (body ++ [';'])) (.mark '=' :: (ts ++ [.mark ';'])) :=
    hequals.append hend
  have hrest : Reads (name ++ (" = ".toList ++ (body ++ [';'])))
      (nameTokens ++ .mark '=' :: (ts ++ [.mark ';'])) := hname.append hvalue (by decide)
  have hline : Declaration.line name body =
      "type ".toList ++ (name ++ (" = ".toList ++ (body ++ [';']))) := by
    unfold Declaration.line
    simp only [List.append_assoc]
  rw [hline]
  exact htype.append hrest

theorem exists_lookup_zip {α β : Type} [BEq α] [LawfulBEq α] {R : α → β → Prop} {xs : List α}
    {ys : List β} (h : List.Forall₂ R xs ys) {x : α} (hx : x ∈ xs) :
    ∃ y, (xs.zip ys).lookup x = some y ∧ R x y := by
  induction h with
  | nil => cases hx
  | @cons a b xs ys hab _ ih =>
      rw [List.zip_cons_cons, List.lookup_cons]
      by_cases ha : x = a
      · subst ha
        exact ⟨b, by rw [beq_self_eq_true], hab⟩
      · rw [beq_eq_false_iff_ne.mpr ha]
        exact ih ((List.mem_cons.mp hx).resolve_left ha)

/-- Arranged texts are read as they were before. -/
theorem reads_arrangeTexts (h : List.Forall₂ Reads texts tokens) :
    List.Forall₂ Reads (arrangeTexts texts) (arrangeTokens texts tokens) := by
  rw [arrangeTokens, List.forall₂_map_right_iff, List.forall₂_same]
  intro t ht
  obtain ⟨ts, hlookup, hread⟩ :=
    exists_lookup_zip h (mem_distinctOn_id.mp (List.mem_mergeSort.mp ht))
  rwa [hlookup, Option.getD_some]

end Pieces

section Shapes

variable (o : Options) (σ : Key → Option String) (read : String → List Token)

mutual

/-- The tokens between the bars of a type expression.  `read` says how the name of a declaration
is read. -/
def expressions (dropNull : Bool) : Shape → List (List Token)
  | .null => [[.word "null".toList]]
  | .primitive kind l => [[primitiveToken o kind l]]
  | .array s => [itemTokens (expressions false s) ++ [.mark '[', .mark ']']]
  | .object fs =>
      if isInline o fs then [inlineTokens ((sortFields (fieldsTokens fs)).map (·.content))]
      else [read ((σ (Shape.object fs).identity).getD "")]
  | .union ms => arrangeTokens (memberTexts o σ dropNull ms) (memberTokens dropNull ms)
  | .hole => []

def memberTokens (dropNull : Bool) : List Shape → List (List Token)
  | [] => []
  | s :: rest =>
      if dropNull && s.isNull then memberTokens dropNull rest
      else barTokens (expressions false s) :: memberTokens dropNull rest

def fieldsTokens : List (Field Shape) → List (Field (List Token))
  | [] => []
  | ⟨name, s, isOptional⟩ :: rest =>
      ⟨name, fieldTokens name (isOptional || dropsNull o s)
        (barTokens (expressions (dropsNull o s) s)), isOptional⟩ :: fieldsTokens rest

end

/-- The tokens of a shape as a type expression. -/
def expression (s : Shape) : List Token :=
  barTokens (expressions o σ read false s)

variable {o σ read}

theorem memberTokens_eq_map (dropNull : Bool) (ms : List Shape) :
    memberTokens o σ read dropNull ms =
      (ms.filter fun m => !(dropNull && m.isNull)).map (expression o σ read) := by
  induction ms with
  | nil => rw [memberTokens, List.filter_nil, List.map_nil]
  | cons m ms ih =>
      rw [memberTokens]
      cases h : dropNull && m.isNull with
      | true => rw [if_pos rfl, ih, List.filter_cons_of_neg (by simp [h])]
      | false =>
          rw [if_neg Bool.false_ne_true, ih, List.filter_cons_of_pos (by simp [h]), List.map_cons,
            expression]

/-- The tokens of a field, under its name. -/
def fieldToken (o : Options) (σ : Key → Option String) (read : String → List Token)
    (f : Field Shape) : Field (List Token) :=
  ⟨f.name, fieldTokens f.name (f.isOptional || dropsNull o f.content)
    (barTokens (expressions o σ read (dropsNull o f.content) f.content)), f.isOptional⟩

theorem fieldsTokens_eq_map (fs : List (Field Shape)) :
    fieldsTokens o σ read fs = fs.map (fieldToken o σ read) := by
  induction fs with
  | nil => rw [fieldsTokens, List.map_nil]
  | cons f fs ih => rw [fieldsTokens, ih, List.map_cons, fieldToken]

/-- The tokens of the fields of an object, in the order of their names. -/
def fieldRows (o : Options) (σ : Key → Option String) (read : String → List Token)
    (fs : List (Field Shape)) : List (List Token) :=
  (sortFields (fieldsTokens o σ read fs)).map (·.content)

theorem reads_lines {fs : List (Field Shape)}
    (h : ∀ f ∈ fs, ∀ dropNull,
      List.Forall₂ Reads (texts o σ dropNull f.content) (expressions o σ read dropNull f.content)) :
    List.Forall₂ Reads (lines o σ fs) (fieldRows o σ read fs) := by
  rw [lines, fieldRows, linesOf_eq_map, fieldsTokens_eq_map, sortFields_map lineOf_name,
    sortFields_map (g := fieldToken o σ read) fun _ => rfl, List.map_map, List.map_map,
    List.forall₂_map_left_iff, List.forall₂_map_right_iff, List.forall₂_same]
  exact fun f hf => reads_fieldText (reads_alternatives (h f (mem_sortFields.mp hf) _))

/-- Type expressions are read as the tokens of their shapes, if the names in them can be read. -/
theorem reads_texts {s : Shape} (hs : s.Regular)
    (hnames : ∀ fs, isInline o fs = false → Within (.object fs) s →
      Reads ((σ (Shape.object fs).identity).getD "").toList
        (read ((σ (Shape.object fs).identity).getD ""))) (dropNull : Bool) :
    List.Forall₂ Reads (texts o σ dropNull s) (expressions o σ read dropNull s) := by
  induction hs generalizing dropNull with
  | null =>
      rw [texts, expressions]
      exact .cons (reads_of_isWord (by decide)) .nil
  | primitive hkind =>
      rw [texts, expressions]
      exact .cons (reads_primitive hkind) .nil
  | array _ ih =>
      rw [texts, expressions]
      have hitem := ih (fun fs hfs hwithin => hnames fs hfs (.item hwithin)) false
      exact .cons (reads_arrayText (reads_itemText hitem)) .nil
  | @object fs _ _ ih =>
      rw [texts, expressions]
      cases hinline : isInline o fs with
      | true =>
          have hlines : List.Forall₂ Reads (lines o σ fs) (fieldRows o σ read fs) :=
            reads_lines fun f hf => ih f hf fun gs hgs hwithin =>
              hnames gs hgs (.content hf hwithin)
          exact .cons (reads_inlineText hlines) .nil
      | false => exact .cons (hnames fs hinline (.refl _)) .nil
  | @union ms _ _ _ ih =>
      rw [texts, expressions]
      apply reads_arrangeTexts
      rw [memberTexts_eq_map, memberTokens_eq_map, List.forall₂_map_left_iff,
        List.forall₂_map_right_iff, List.forall₂_same]
      intro m hm
      have hmem := List.mem_of_mem_filter hm
      exact reads_alternatives
        (ih m hmem (fun fs hfs hwithin => hnames fs hfs (.member hmem hwithin)) false)

end Shapes

section Documents

variable {o : Options} {s : Shape} {rootName text : String} {e : Emission}

/-- The tokens of a declaration under its name. -/
def declarationTokens (o : Options) (σ : Key → Option String) (read : String → List Token)
    (name : String) (fs : List (Field Shape)) : List Token :=
  lineTokens (read name) (bodyTokens (fieldRows o σ read fs))

/-- The tokens of a document, in which each declaration is that of its owner. -/
def documentTokens (o : Options) (s : Shape) (rootName : String) (r : Registry)
    (owner : Declaration → List (Field Shape)) (read : String → List Token) : List Token :=
  let declared (d : Declaration) := declarationTokens o r.nameOf? read d.name (owner d)
  let root :=
    match r.declaration? rootName with
    | some d => declared d
    | none => lineTokens (read rootName) (expression o r.nameOf? read s)
  let others := (Declaration.inOrder o.order r.declarations).filter fun d => d.name ≠ rootName
  root ++ others.flatMap declared

/-- The owner of each declaration is an object in the shape for which it has been made. -/
def Owned (o : Options) (s : Shape) (r : Registry) (owner : Declaration → List (Field Shape)) :
    Prop :=
  ∀ d ∈ r.declarations, isInline o (owner d) = false ∧ Within (.object (owner d)) s ∧
    r.nameOf? (Shape.object (owner d)).identity = some d.name

theorem Run.exists_owned (h : Run o s rootName e) (hs : s.Regular) :
    ∃ owner, Owned o s e.registry owner := by
  have howner : ∀ d, ∃ fs, d ∈ e.registry.declarations → isInline o fs = false ∧
      Within (.object fs) s ∧ e.registry.nameOf? (Shape.object fs).identity = some d.name := by
    intro d
    by_cases hd : d ∈ e.registry.declarations
    · obtain ⟨fs, hfs⟩ := h.owner hs hd
      exact ⟨fs, fun _ => hfs⟩
    · exact ⟨[], fun hd' => absurd hd' hd⟩
  choose owner howner using howner
  exact ⟨owner, howner⟩

section Reading

variable {read : String → List Token} (h : Run o s rootName e) (hs : s.Regular)
  (hread : ∀ n ∈ rootName :: e.registry.declarations.map (·.name), Reads n.toList (read n))

include h hs hread

theorem Run.reads_name {fs : List (Field Shape)} (hinline : isInline o fs = false)
    (hfs : Within (.object fs) s) :
    Reads ((e.registry.nameOf? (Shape.object fs).identity).getD "").toList
      (read ((e.registry.nameOf? (Shape.object fs).identity).getD "")) := by
  obtain ⟨d, hd, hname⟩ := h.exists_name hs hinline hfs
  rw [hname, Option.getD_some]
  exact hread _ (List.mem_cons_of_mem _ (List.mem_map_of_mem hd))

theorem Run.reads_declaration {owner : Declaration → List (Field Shape)}
    (howner : Owned o s e.registry owner) {d : Declaration} (hd : d ∈ e.registry.declarations) :
    Reads d.render (declarationTokens o e.registry.nameOf? read d.name (owner d)) := by
  obtain ⟨hinline, hwithin, hname⟩ := howner d hd
  have hlines : List.Forall₂ Reads (lines o e.registry.nameOf? (owner d))
      (fieldRows o e.registry.nameOf? read (owner d)) :=
    reads_lines fun f hf => reads_texts ((hs.of_within hwithin).content hf)
      fun gs hgs hgswithin => h.reads_name hs hread hgs (.trans (.content hf hgswithin) hwithin)
  rw [Declaration.render, h.body_eq hs hd hwithin hinline hname]
  exact reads_line (hread _ (List.mem_cons_of_mem _ (List.mem_map_of_mem hd)))
    (reads_bodyText hlines)

/-- A document is read as the tokens of its declarations. -/
theorem Run.scan_render {owner : Declaration → List (Field Shape)}
    (howner : Owned o s e.registry owner) :
    Token.scan (Document.render rootName (render o e.registry.nameOf? s) e.registry o.order) =
      some (documentTokens o s rootName e.registry owner read) := by
  have hfeeds : Closed ['\n', '\n'] [] := Token.closed_layout (by decide)
  have hroot : Reads (match e.registry.declaration? rootName with
        | some d => d.render
        | none => Declaration.line rootName.toList (render o e.registry.nameOf? s))
      (match e.registry.declaration? rootName with
        | some d => declarationTokens o e.registry.nameOf? read d.name (owner d)
        | none => lineTokens (read rootName) (expression o e.registry.nameOf? read s)) := by
    cases hd : e.registry.declaration? rootName with
    | some d => exact h.reads_declaration hs hread howner (Registry.mem_of_declaration? hd).1
    | none =>
        exact reads_line (hread _ List.mem_cons_self)
          (reads_alternatives (reads_texts hs (fun _ => h.reads_name hs hread) false))
  have hothers : List.Forall₂ Reads
      (((Declaration.inOrder o.order e.registry.declarations).filter
        fun d => d.name ≠ rootName).map Declaration.render)
      (((Declaration.inOrder o.order e.registry.declarations).filter
        fun d => d.name ≠ rootName).map
          fun d => declarationTokens o e.registry.nameOf? read d.name (owner d)) := by
    rw [List.forall₂_map_left_iff, List.forall₂_map_right_iff, List.forall₂_same]
    intro d hd
    have hmem := (Declaration.perm_inOrder o.order _).mem_iff.mp (List.mem_of_mem_filter hd)
    exact h.reads_declaration hs hread howner hmem
  have hblocks := (Token.reads_spaced hfeeds (by decide) (.cons hroot hothers)).scan_eq
  rw [List.flatten_cons, ← List.flatMap_def] at hblocks
  exact hblocks

end Reading

/-- Under a root that is a word all declarations are. -/
theorem isWord_of_emit {t : List Char} {r : Registry} (h : emit o s rootName = .ok (t, r))
    (hroot : Name.isWord rootName.toList = true) :
    ∀ d ∈ r.declarations, Name.isWord d.name.toList = true := by
  obtain ⟨log, hgrown, hasked⟩ := exists_grown_of_emit h
  obtain ⟨added, hadded, hnames⟩ := hgrown.declarations
  rw [declarations_start, List.nil_append] at hadded
  intro d hd
  obtain ⟨a, ha, hname⟩ : ∃ a ∈ log, a.name = d.name :=
    List.mem_map.mp (hnames ▸ hadded ▸ List.mem_map_of_mem hd)
  obtain ⟨hpath, i, hi⟩ := hasked a ha
  rw [← hname, hi]
  exact Name.isWord_candidate (isWord_of_path hpath hroot) i

end Documents

section Main

/-- A name that is a word is read as that word. -/
def nameWord (name : String) : List Token := [.word name.toList]

/-- A scanner that has passed the first quote of a text in quotes stops at its last character,
whatever follows, and what it has read says which text was quoted.  So a document is read as the
tokens of its structure: each string and each field name is one of them, whatever its text.  This
needs names that can be read, which they can if the root is a word. -/
theorem quotes_closed (o : Options) :
    (∀ (style : QuoteStyle) (t : List Char),
      ∃ raw, Text.enclosed style.char t = style.char :: (raw ++ [style.char]) ∧
        raw = Text.replaced style.char ['\\', style.char] (Text.replaced '\\' ['\\', '\\'] t) ∧
        (∀ rest, Text.scanQuoted style.char (raw ++ style.char :: rest) = some (raw, rest)) ∧
        Text.unescaped raw = t) ∧
    (∀ style : QuoteStyle, Function.Injective (Text.enclosed style.char)) ∧
    ∀ s : Shape, s.Regular →
      (∀ ms, Within (.union ms) s → ∃ m ∈ ms, ∃ n ∈ ms, m.same n = false) →
      ∃ text r owner document, emit o s (documentName o) = .ok (text, r) ∧ Owned o s r owner ∧
        Document.ofShape o s = .ok document ∧
        (∀ v : Sample, v.shape o.limits = .ok s → Document.ofSample o v = .ok document) ∧
        (∀ read : String → List Token,
          (∀ n ∈ documentName o :: r.declarations.map (·.name), Reads n.toList (read n)) →
          Token.scan document = some (documentTokens o s (documentName o) r owner read)) ∧
        (Name.isWord (documentName o).toList = true →
          Token.scan document = some (documentTokens o s (documentName o) r owner nameWord)) := by
  refine ⟨fun style t => ?_, fun style => Text.enclosed_injective _, fun s hs hunions => ?_⟩
  · have hquote := quote_ne_backslash style
    exact ⟨_, rfl, Text.enclosedChars_eq_replaced hquote t,
      Text.scanQuoted_enclosedChars hquote t, Text.unescaped_enclosedChars _ t⟩
  · obtain ⟨e, hrun⟩ := exists_run o hs hunions (documentName o)
    obtain ⟨owner, howner⟩ := hrun.exists_owned hs
    have hemit := emit_of_write (hrun.write_eq hs)
    have htext : render o e.registry.nameOf? s.sorted = render o e.registry.nameOf? s :=
      render_congr (Shape.regular_sorted hs) hs (Shape.identity_sorted _) fun _ _ => rfl
    rw [htext] at hemit
    refine ⟨_, _, owner, _, hemit, howner, ofShape_of_emit hemit,
      fun v hv => ofSample_of_emit hv hemit, fun read hread => hrun.scan_render hs hread howner,
      fun hroot => hrun.scan_render hs ?_ howner⟩
    refine List.forall_mem_cons.mpr ⟨reads_of_isWord hroot, fun n hn => ?_⟩
    obtain ⟨d, hd, rfl⟩ := List.mem_map.mp hn
    exact reads_of_isWord (isWord_of_emit hemit hroot d hd)

/-- A list of objects whose only field has a name and a string made of quotes and marks. -/
def hostile : Shape :=
  .array (.object [⟨"a'; b: \"c\\", .primitive .string (some (.str "\\' | \" \x7d;")), true⟩])

/-- The name and the string are one token each. -/
theorem quotes_closed_hostile :
    hostile.Regular ∧ (∀ ms, Within (.union ms) hostile → ∃ m ∈ ms, ∃ n ∈ ms, m.same n = false) ∧
      ∃ document, Document.ofShape { extractObjects := false } hostile = .ok document ∧
        Token.scan document = some [.word "type".toList, .word "rootType".toList, .mark '=',
          .mark '\x7b', .quoted "a'; b: \"c\\".toList, .mark '?', .mark ':',
          .quoted "\\' | \" \x7d;".toList, .mark '\x7d', .mark '[', .mark ']', .mark ';'] := by
  have hs : hostile.Regular := by
    refine .array (.object (by decide) fun f hf => ?_)
    rw [List.mem_singleton.mp hf]
    refine .primitive fun m hm => ?_
    rw [← Option.some.inj hm]
    rfl
  have hunions : ∀ ms, Within (.union ms) hostile → ∃ m ∈ ms, ∃ n ∈ ms, m.same n = false := by
    intro ms hms
    cases hms with
    | item h =>
        cases h with
        | content hf h =>
            rw [List.mem_singleton.mp hf] at h
            cases h
  obtain ⟨-, -, hdocuments⟩ := quotes_closed { extractObjects := false }
  obtain ⟨text, r, owner, document, -, howner, hdocument, -, -, hscan⟩ :=
    hdocuments hostile hs hunions
  have hnone : r.declarations = [] := by
    refine List.eq_nil_iff_forall_not_mem.mpr fun d hd => ?_
    obtain ⟨hinline, hwithin, -⟩ := howner d hd
    generalize owner d = fs at hinline hwithin
    cases hwithin with
    | item h =>
        cases h with
        | refl => exact absurd hinline (by decide)
        | content hf h =>
            rw [List.mem_singleton.mp hf] at h
            cases h
  refine ⟨hs, hunions, document, hdocument, ?_⟩
  rw [hscan (by decide)]
  simp only [documentTokens, Registry.declaration?, hnone, Declaration.inOrder, List.find?_nil,
    List.filter_nil, List.flatMap_nil, List.append_nil, hostile, expression, expressions,
    fieldsTokens, sortFields, List.mergeSort_singleton]
  rfl

end Main

end TypeSketch.Emission
