import TypeSketch.Proofs.Json.Printer
import TypeSketch.Proofs.Shape.Equality

/-!
# Hashes of shapes

The hash of a shape is its key as compact JSON text.  Nothing is lost on the way: `Key.document` is
the JSON value that the text spells, and the reader of JSON gives it back.  Main statements:

* `Key.parse_json`: the text of a key is read as its document;
* `Key.json_injective`: so different keys have different texts;
* `hash?_eq_iff`: hashing never fails on shapes without holes whose literals are of their kind, and
  two of them have one hash exactly when they are structurally equal.
-/

namespace TypeSketch

namespace Json

/-- A value without any white space. -/
def compact (v : Json) : List Char :=
  (tokens v).flatMap (Token.text false)

theorem spaced_compact : ∀ {toks : List Token}, toks ≠ [] →
    Spaced IsSpaces (toks.map (Token.text false)) (toks.flatMap (Token.text false))
  | [], h => absurd rfl h
  | [t], _ => by
      rw [List.flatMap_singleton]
      exact .last _
  | t :: t' :: toks, _ => by
      have hrest := spaced_compact (List.cons_ne_nil t' toks)
      rw [List.map_cons, List.flatMap_cons, ← List.nil_append ((t' :: toks).flatMap _)]
      exact .next isSpaces_nil hrest

/-- Tokens need no white space between them. -/
theorem parse_compact {v : Json} (h : v.HasDistinctNames) : parse v.compact = .ok v := by
  obtain ⟨t, rest, htokens, -⟩ := State.exists_tokens_eq_cons v
  have hne : tokens v ≠ [] := htokens ▸ List.cons_ne_nil t rest
  exact parse_of_surrounded (forall₂_text false _) (State.steps?_tokens h)
    ⟨[], v.compact, [], isSpaces_nil, spaced_compact hne, isSpaces_nil,
      (List.append_nil _).symm⟩

theorem itemTokens_cons_cons (v w : Json) (items : List Json) :
    itemTokens (v :: w :: items) = tokens v ++ .comma :: itemTokens (w :: items) := by
  rw [itemTokens]
  exact List.cons_ne_nil w items

theorem flatten_intersperse_compact (items : List Json) :
    ((items.map compact).intersperse [',']).flatten =
      (itemTokens items).flatMap (Token.text false) := by
  induction items with
  | nil => rfl
  | cons v items ih =>
      cases items with
      | nil => exact List.append_nil _
      | cons w items =>
          rw [List.map_cons] at ih
          rw [itemTokens_cons_cons, List.flatMap_append, List.flatMap_cons, ← ih, List.map_cons,
            List.map_cons, List.intersperse_cons_cons, List.flatten_cons, List.flatten_cons]
          rfl

theorem compact_array (items : List Json) :
    (Json.array items).compact = Key.bracketed (items.map compact) := by
  rw [Key.bracketed, flatten_intersperse_compact, compact, tokens]
  simp [Token.text]

end Json

namespace Key

open Json (compact compact_array)

/-- A text as a JSON value. -/
def word (s : String) : Json := .scalar (.str s)

mutual

/-- The JSON value that a key is written as. -/
def document : Key → Json
  | .null => .array [word "null"]
  | .primitive kind none => .array [word "primitive", word kind.name]
  | .primitive kind (some l) => .array [word "primitive", word kind.name, .scalar l]
  | .array k => .array [word "array", k.document]
  | .object fs => .array [word "object", .array (fieldDocuments fs)]
  | .union ks => .array [word "union", .array (documents ks)]
  | .hole => .array []

def fieldDocuments : List (Field Key) → List Json
  | [] => []
  | ⟨n, k, o⟩ :: rest => .array [word n, .scalar (.bool o), k.document] :: fieldDocuments rest

def documents : List Key → List Json
  | [] => []
  | k :: rest => k.document :: documents rest

end

theorem compact_word (s : String) : (word s).compact = jsonName s := by
  simp [word, compact, Json.tokens, Json.Token.text, jsonName, Text.jsonString, Json.writeChar]

theorem compact_scalar (l : Literal) : (Json.scalar l).compact = l.json := by
  cases l <;> simp [compact, Json.tokens, Json.Token.text, Literal.json, Text.jsonString,
    Json.writeChar]

mutual

/-- The text of a key is its document without white space. -/
theorem json_eq_compact : ∀ k : Key, k.json = k.document.compact
  | .null => by simp [json, document, compact_array, compact_word]
  | .primitive kind none => by simp [json, document, compact_array, compact_word]
  | .primitive kind (some l) => by
      simp [json, document, compact_array, compact_word, compact_scalar]
  | .array k => by simp [json, document, compact_array, compact_word, json_eq_compact k]
  | .object fs => by
      simp [json, document, compact_array, compact_word, jsonsOfFields_eq_compact fs]
  | .union ks => by simp [json, document, compact_array, compact_word, jsons_eq_compact ks]
  | .hole => by simp [json, document, compact_array]

theorem jsonsOfFields_eq_compact : ∀ fs : List (Field Key),
    jsonsOfFields fs = (fieldDocuments fs).map compact
  | [] => rfl
  | ⟨n, k, o⟩ :: rest => by
      simp [jsonsOfFields, fieldDocuments, compact_array, compact_word, compact_scalar,
        json_eq_compact k, jsonsOfFields_eq_compact rest]

theorem jsons_eq_compact : ∀ ks : List Key, jsons ks = (documents ks).map compact
  | [] => rfl
  | k :: rest => by simp [jsons, documents, json_eq_compact k, jsons_eq_compact rest]

end

mutual

-- a document has no objects in it

theorem hasDistinctNames_document : ∀ k : Key, k.document.HasDistinctNames
  | .null => .array (by simp [word, Json.HasDistinctNames.scalar])
  | .primitive kind none => .array (by simp [word, Json.HasDistinctNames.scalar])
  | .primitive kind (some l) => .array (by simp [word, Json.HasDistinctNames.scalar])
  | .array k => .array (by
      simp [word, Json.HasDistinctNames.scalar, hasDistinctNames_document k])
  | .object fs => .array (by
      simp [word, Json.HasDistinctNames.scalar,
        Json.HasDistinctNames.array (hasDistinctNames_fieldDocuments fs)])
  | .union ks => .array (by
      simp [word, Json.HasDistinctNames.scalar,
        Json.HasDistinctNames.array (hasDistinctNames_documents ks)])
  | .hole => .array (by simp)

theorem hasDistinctNames_fieldDocuments : ∀ fs : List (Field Key),
    ∀ v ∈ fieldDocuments fs, v.HasDistinctNames
  | [] => by simp [fieldDocuments]
  | ⟨n, k, o⟩ :: rest => by
      rw [fieldDocuments, List.forall_mem_cons]
      refine ⟨.array ?_, hasDistinctNames_fieldDocuments rest⟩
      simp [word, Json.HasDistinctNames.scalar, hasDistinctNames_document k]

theorem hasDistinctNames_documents : ∀ ks : List Key, ∀ v ∈ documents ks, v.HasDistinctNames
  | [] => by simp [documents]
  | k :: rest => by
      rw [documents, List.forall_mem_cons]
      exact ⟨hasDistinctNames_document k, hasDistinctNames_documents rest⟩

end

/-- The text of a key is read as its document. -/
theorem parse_json (k : Key) : Json.parse k.json = .ok k.document := by
  rw [json_eq_compact]
  exact Json.parse_compact (hasDistinctNames_document k)

theorem word_injective {a b : String} (h : word a = word b) : a = b :=
  Literal.str.inj (Json.scalar.inj h)

mutual

/-- The first word of a document tells the form of the key, and the rest its parts. -/
theorem eq_of_document_eq : ∀ {k l : Key}, k.document = l.document → k = l
  | .null, l, h => by
      cases l with
      | primitive kind o => cases o <;> simp [document, word] at h
      | _ => simp [document, word] at h ⊢
  | .primitive kind none, l, h => by
      cases l with
      | primitive kind' o =>
          cases o with
          | none =>
              simp only [document, Json.array.injEq, List.cons.injEq, and_true, true_and] at h
              rw [kind_eq_of_name_eq (word_injective h)]
          | some l => simp [document] at h
      | _ => simp [document, word] at h
  | .primitive kind (some m), l, h => by
      cases l with
      | primitive kind' o =>
          cases o with
          | none => simp [document] at h
          | some l =>
              simp only [document, Json.array.injEq, List.cons.injEq, and_true, true_and,
                Json.scalar.injEq] at h
              rw [kind_eq_of_name_eq (word_injective h.1), h.2]
      | _ => simp [document, word] at h
  | .array k, l, h => by
      cases l with
      | primitive kind o => cases o <;> simp [document, word] at h
      | array l =>
          simp only [document, Json.array.injEq, List.cons.injEq, and_true, true_and] at h
          rw [eq_of_document_eq h]
      | _ => simp [document, word] at h
  | .object fs, l, h => by
      cases l with
      | primitive kind o => cases o <;> simp [document, word] at h
      | object gs =>
          simp only [document, Json.array.injEq, List.cons.injEq, and_true, true_and] at h
          rw [eq_of_fieldDocuments_eq h]
      | _ => simp [document, word] at h
  | .union ks, l, h => by
      cases l with
      | primitive kind o => cases o <;> simp [document, word] at h
      | union ls =>
          simp only [document, Json.array.injEq, List.cons.injEq, and_true, true_and] at h
          rw [eq_of_documents_eq h]
      | _ => simp [document, word] at h
  | .hole, l, h => by
      cases l with
      | primitive kind o => cases o <;> simp [document] at h
      | _ => simp [document] at h ⊢

theorem eq_of_fieldDocuments_eq : ∀ {fs gs : List (Field Key)},
    fieldDocuments fs = fieldDocuments gs → fs = gs
  | [], gs, h => by
      cases gs with
      | nil => rfl
      | cons g gs => simp [fieldDocuments] at h
  | ⟨n, k, o⟩ :: fs, gs, h => by
      cases gs with
      | nil => simp [fieldDocuments] at h
      | cons g gs =>
          obtain ⟨n', k', o'⟩ := g
          simp only [fieldDocuments, List.cons.injEq, Json.array.injEq, Json.scalar.injEq,
            Literal.bool.injEq, and_true] at h
          obtain ⟨⟨hname, rfl, hcontent⟩, hrest⟩ := h
          rw [word_injective hname, eq_of_document_eq hcontent, eq_of_fieldDocuments_eq hrest]

theorem eq_of_documents_eq : ∀ {ks ls : List Key}, documents ks = documents ls → ks = ls
  | [], ls, h => by
      cases ls with
      | nil => rfl
      | cons l ls => simp [documents] at h
  | k :: ks, ls, h => by
      cases ls with
      | nil => simp [documents] at h
      | cons l ls =>
          rw [documents, documents, List.cons.injEq] at h
          rw [eq_of_document_eq h.1, eq_of_documents_eq h.2]

end

/-- Different keys have different texts, also where a literal is not of its kind. -/
theorem json_injective : Function.Injective json := by
  intro k l h
  have hread := parse_json k
  rw [h, parse_json] at hread
  exact (eq_of_document_eq (Except.ok.inj hread)).symm

end Key

namespace Shape

theorem hash?_eq {s : Shape} (hs : s.isWhole = true) : s.hash? = .ok s.hash := by
  rw [hash?, hs, if_pos rfl]

/-- Hashes agree exactly where shapes are structurally equal, by their keys and in fact. -/
theorem hash?_eq_iff {a b : Shape} (ha : a.WellTyped) (hb : b.WellTyped) :
    ∃ s t, a.hash? = .ok s ∧ b.hash? = .ok t ∧
      (s = t ↔ a.equal? b = .ok true) ∧ (s = t ↔ Alike a b) := by
  have hhash : a.hash = b.hash ↔ a.identity = b.identity := by
    rw [ha.identity_eq_key, hb.identity_eq_key]
    exact Key.json_injective.eq_iff
  refine ⟨a.hash, b.hash, hash?_eq ha.isWhole, hash?_eq hb.isWhole, ?_, ?_⟩
  · rw [equal?_eq_same ha.isWhole hb.isWhole, Except.ok.injEq, same, decide_eq_true_iff]
    exact hhash
  · exact hhash.trans (identity_eq_iff_alike ha hb)

/-- A field whose name looks like the end of a key, with zero or a text that reads like zero. -/
def quotedField (kind : Kind) (l : Literal) : Shape :=
  .object [⟨"a\",true,[\"null\"]]", .union [.primitive kind (some l), .null], true⟩]

theorem hash?_eq_iff_quoted :
    (quotedField .number (.float (.zero true))).WellTyped ∧
      (quotedField .string (.str "0")).WellTyped ∧
      ∃ s t, (quotedField .number (.float (.zero true))).hash? = .ok s ∧
        (quotedField .string (.str "0")).hash? = .ok t ∧ s ≠ t := by
  have htyped : ∀ (kind : Kind) (l : Literal), l.kind = kind → (quotedField kind l).WellTyped := by
    intro kind l hl
    refine .object (List.nodup_singleton _) (List.forall_mem_singleton.mpr (.union ?_))
    rw [List.forall_mem_cons, List.forall_mem_singleton]
    exact ⟨.primitive fun m hm => Option.some.inj hm ▸ hl, .null⟩
  have hnumber := htyped .number (.float (.zero true)) rfl
  have hstring := htyped .string (.str "0") rfl
  obtain ⟨s, t, hs, ht, -, halike⟩ := hash?_eq_iff hnumber hstring
  refine ⟨hnumber, hstring, s, t, hs, ht, fun h => ?_⟩
  cases halike.mp h with
  | object _ _ hcontents =>
      have hunion := hcontents _ (List.mem_singleton_self _) _ (List.mem_singleton_self _) rfl
      obtain ⟨n, hn, hzero⟩ := (alike_union_iff.mp hunion).1 _ List.mem_cons_self
      simp only [List.mem_cons, List.not_mem_nil, or_false] at hn
      rcases hn with rfl | rfl <;> cases hzero

end Shape

end TypeSketch
