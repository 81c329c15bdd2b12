import TypeSketch.Proofs.Declaration.Keys
import TypeSketch.Proofs.Declaration.Usable

/-!
# The header of a document

A document starts by declaring its root.  The name of the root is never a reserved word, and it is
a word unless it was given with the suffix of types and is none itself; such a name is kept.  Main
statement: `declared_root`.
-/

namespace TypeSketch

namespace Name

section Roots

variable {name : List Char}

theorem typeSuffix_suffix_typeName (base : List Char) : typeSuffix <:+ typeName base typeSuffix := by
  rw [typeName]
  split
  · split
    · exact (List.suffix_append _ _).trans (List.suffix_cons _ _)
    · exact List.suffix_append _ _
  · exact List.suffix_rfl

theorem rootName_of_suffix (h : typeSuffix <:+ name) : rootName name = name :=
  if_pos (List.isSuffixOf_iff_suffix.mpr h)

theorem rootName_of_not_suffix (h : ¬ typeSuffix <:+ name) :
    rootName name = typeName name typeSuffix :=
  if_neg fun h' => h (List.isSuffixOf_iff_suffix.mp h')

theorem typeSuffix_suffix_rootName (name : List Char) : typeSuffix <:+ rootName name := by
  by_cases h : typeSuffix <:+ name
  · rwa [rootName_of_suffix h]
  · rw [rootName_of_not_suffix h]
    exact typeSuffix_suffix_typeName name

/-- The suffix of types has a capital. -/
theorem isReserved_rootName (name : List Char) : isReserved (rootName name) = false := by
  have hcapital : 'T' ∈ (String.ofList (rootName name)).toList := by
    rw [String.toList_ofList]
    exact (typeSuffix_suffix_rootName name).subset List.mem_cons_self
  simpa using isReserved_eq_false hcapital (.inl (by decide))

theorem isWord_rootName_iff :
    isWord (rootName name) = true ↔ (typeSuffix <:+ name → isWord name = true) := by
  by_cases h : typeSuffix <:+ name
  · rw [rootName_of_suffix h]
    exact ⟨fun hword _ => hword, fun hword => hword h⟩
  · rw [rootName_of_not_suffix h]
    exact ⟨fun _ h' => absurd h' h, fun _ => isWord_typeName name⟩

end Roots

end Name

namespace Document

open Name (isWord isReserved isPart rootName typeSuffix)

/-- The name in the header of a document: a word that is not reserved between `type` and an equals
sign, with one space on either side. -/
def headName? : List Char → Option (List Char)
  | 't' :: 'y' :: 'p' :: 'e' :: ' ' :: rest =>
      let name := rest.takeWhile isPart
      if isWord name && !isReserved name && " = ".toList.isPrefixOf (rest.dropWhile isPart) then
        some name
      else none
  | _ => none

/-- The text behind the header of a type. -/
def Heads (name text : List Char) : Prop :=
  ∃ rest, text = "type ".toList ++ name ++ " = ".toList ++ rest

section Headers

variable {name text : List Char}

theorem heads_line (name body : List Char) : Heads name (Declaration.line name body) := by
  refine ⟨body ++ [';'], ?_⟩
  unfold Declaration.line
  simp only [List.append_assoc]

theorem Heads.append (h : Heads name text) (rest : List Char) : Heads name (text ++ rest) := by
  obtain ⟨body, rfl⟩ := h
  exact ⟨body ++ rest, by simp only [List.append_assoc]⟩

/-- What stands first in a document is its header. -/
theorem heads_blocks {texts : List (List Char)} (h : Heads name text) :
    Heads name (blocks (text :: texts)) := by
  cases texts with
  | nil => simpa [blocks] using h
  | cons t texts =>
      have hblocks : blocks (text :: t :: texts) = text ++ (['\n', '\n'] ++ blocks (t :: texts)) := by
        simp [blocks]
      rw [hblocks]
      exact h.append _

/-- A document declares the name that it is made for, whether or not that is in the registry. -/
theorem heads_render (rootName : String) (text : List Char) (r : Registry)
    (order : DeclarationOrder) : Heads rootName.toList (render rootName text r order) := by
  rw [render]
  refine heads_blocks ?_
  cases hd : r.declaration? rootName with
  | some d =>
      obtain ⟨-, rfl⟩ := Registry.mem_of_declaration? hd
      exact heads_line _ _
  | none => exact heads_line _ _

theorem heads_of_ofShape {o : Options} {s : Shape} (h : ofShape o s = .ok text) :
    Heads (rootName o.rootName.toList) text := by
  rw [ofShape] at h
  cases hemit : Emission.emit o s (String.ofList (rootName o.rootName.toList)) with
  | error fault =>
      rw [hemit] at h
      cases h
  | ok result =>
      rw [hemit] at h
      cases h
      have hheads := heads_render (String.ofList (rootName o.rootName.toList)) result.1 result.2
        o.order
      rwa [String.toList_ofList] at hheads

theorem exists_ofShape_of_ofSample {o : Options} {v : Sample} (h : ofSample o v = .ok text) :
    ∃ s, ofShape o s = .ok text := by
  rw [ofSample] at h
  cases hshape : v.shape o.limits with
  | error fault =>
      rw [hshape] at h
      cases h
  | ok s =>
      rw [hshape] at h
      exact ⟨s, h⟩

/-- A header is read back if its name can be. -/
theorem headName?_eq_some_iff (h : Heads name text) :
    headName? text = some name ↔ isWord name = true ∧ isReserved name = false := by
  obtain ⟨rest, rfl⟩ := h
  have hread : headName? ("type ".toList ++ name ++ " = ".toList ++ rest) =
      headName? ('t' :: 'y' :: 'p' :: 'e' :: ' ' :: (name ++ (" = ".toList ++ rest))) := by
    simp
  rw [hread, headName?]
  constructor
  · intro h
    split at h
    · rename_i hname
      rw [Bool.and_eq_true, Bool.and_eq_true, Option.some.inj h] at hname
      exact ⟨hname.1.1, by simpa using hname.1.2⟩
    · cases h
  · rintro ⟨hword, hfree⟩
    have hparts := Name.isPart_of_isWord hword
    have htake : (name ++ (" = ".toList ++ rest)).takeWhile isPart = name := by
      rw [List.takeWhile_append_of_pos hparts]
      simp [isPart]
    have hdrop : (name ++ (" = ".toList ++ rest)).dropWhile isPart = " = ".toList ++ rest := by
      rw [List.dropWhile_append_of_pos hparts]
      simp [isPart]
    have hequals : " = ".toList.isPrefixOf (" = ".toList ++ rest) = true :=
      List.isPrefixOf_iff_prefix.mpr (List.prefix_append _ _)
    rw [htake, hdrop, hword, hfree, hequals]
    rfl

end Headers

/-- The root of a document can be declared unless its name was given with the suffix of types and
is no word.  The name is not changed a second time, and it is what the document starts with. -/
theorem declared_root (o : Options) :
    (¬ typeSuffix <:+ o.rootName.toList → isWord (rootName o.rootName.toList) = true) ∧
    (typeSuffix <:+ o.rootName.toList → rootName o.rootName.toList = o.rootName.toList) ∧
    isReserved (rootName o.rootName.toList) = false ∧
    rootName (rootName o.rootName.toList) = rootName o.rootName.toList ∧
    ∀ text, ((∃ v, ofSample o v = .ok text) ∨ ∃ s, ofShape o s = .ok text) →
      Heads (rootName o.rootName.toList) text ∧
        (headName? text = some (rootName o.rootName.toList) ↔
          (typeSuffix <:+ o.rootName.toList → isWord o.rootName.toList = true)) := by
  refine ⟨fun h => ?_, Name.rootName_of_suffix, Name.isReserved_rootName _,
    Name.rootName_of_suffix (Name.typeSuffix_suffix_rootName _), fun text htext => ?_⟩
  · exact Name.isWord_rootName_iff.mpr fun h' => absurd h' h
  · obtain ⟨s, hs⟩ : ∃ s, ofShape o s = .ok text := by
      rcases htext with ⟨v, hv⟩ | hs
      · exact exists_ofShape_of_ofSample hv
      · exact hs
    have hheads := heads_of_ofShape hs
    refine ⟨hheads, ?_⟩
    rw [headName?_eq_some_iff hheads, Name.isWord_rootName_iff]
    exact and_iff_left (Name.isReserved_rootName _)

theorem declared_root_response :
    (¬ typeSuffix <:+ "2nd réponse".toList ∧
      rootName "2nd réponse".toList = "_2ndRPonseType".toList ∧
      ofSample { rootName := "2nd réponse" } .null = .ok "type _2ndRPonseType = null;".toList ∧
      headName? "type _2ndRPonseType = null;".toList = some "_2ndRPonseType".toList) ∧
    typeSuffix <:+ "UserType".toList ∧
      ofSample { rootName := "UserType" } .null = .ok "type UserType = null;".toList ∧
      headName? "type UserType = null;".toList = some "UserType".toList := by
  have hcamel : ¬ typeSuffix <:+ "2nd réponse".toList := by decide
  have hname : rootName "2nd réponse".toList = "_2ndRPonseType".toList := by decide
  have hdocument : ofSample { rootName := "2nd réponse" } .null =
      .ok "type _2ndRPonseType = null;".toList := rfl
  have hkept : typeSuffix <:+ "UserType".toList := by decide
  have hdocument' : ofSample { rootName := "UserType" } .null =
      .ok "type UserType = null;".toList := rfl
  obtain ⟨-, -, -, -, hheads⟩ := declared_root { rootName := "2nd réponse" }
  obtain ⟨-, hsame, -, -, hheads'⟩ := declared_root { rootName := "UserType" }
  refine ⟨⟨hcamel, hname, hdocument, ?_⟩, hkept, hdocument', ?_⟩
  · have hread := (hheads _ (.inl ⟨_, hdocument⟩)).2.mpr fun h => absurd h hcamel
    rwa [hname] at hread
  · have hread := (hheads' _ (.inl ⟨_, hdocument'⟩)).2.mpr fun _ => by decide
    rwa [hsame hkept] at hread

/-- A name with a space is accepted, and kept since it ends as names of types do. -/
theorem kept_root_not_word :
    Setting.toRootName (.scalar (.str "my Type")) = .ok "my Type" ∧
      isWord (rootName "my Type".toList) = false ∧
      ofSample { rootName := "my Type" } (.scalar (.int 1)) = .ok "type my Type = number;".toList ∧
      headName? "type my Type = number;".toList = none := by
  refine ⟨rfl, by decide, ?_, by decide⟩
  rfl

end Document

end TypeSketch
