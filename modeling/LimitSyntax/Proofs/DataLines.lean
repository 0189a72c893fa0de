import LimitSyntax.Diagnostic.Datum
import LimitSyntax.Proofs.JsonText
import LimitSyntax.Tree.Basic
import Mathlib.Data.List.Nodup

/-!
# Messages, tokens and trees on a line

What is written of a message is an object that holds all of it, member by member
(`Diagnostic.Message.members`). The object is read back from its line, so a message is determined by
its line, and so is a token and a whole tree with the trivia in it (`Tree.Node.line_injective`).
-/

namespace LimitSyntax

/-! ## Data as JSON -/

namespace Datum

theorem jsonElements_eq (ds : List Datum) (done : List Json) :
    jsonElements ds done = done.reverse ++ ds.map json := by
  induction ds generalizing done with
  | nil => simp [jsonElements]
  | cons d ds ih => simp [jsonElements, ih]

theorem jsonMembers_eq (ds : List (String × Datum)) (done : List (String × Json)) :
    jsonMembers ds done = done.reverse ++ ds.map fun d => (d.1, d.2.json) := by
  induction ds generalizing done with
  | nil => simp [jsonMembers]
  | cons d ds ih => simp [jsonMembers, ih]

@[simp] theorem json_text (s : String) : (text s).json = .string s := by rw [json]

@[simp] theorem json_number (n : Nat) : (number n).json = .number n := by rw [json]

@[simp] theorem json_symbol (name : String) : (symbol name).json = .string name := by rw [json]

@[simp] theorem json_list (ds : List Datum) : (list ds).json = .array (ds.map json) := by
  rw [json, jsonElements_eq]
  rfl

@[simp] theorem json_record (name : String) (fields : List (String × Datum)) :
    (record name fields).json = .object (fields.map fun d => (d.1, d.2.json)) := by
  rw [json, jsonMembers_eq]
  rfl

@[simp] theorem json_variant (name : String) (content : Datum) :
    (variant name content).json = .object [(name, content.json)] := by rw [json]

end Datum

/-! ## Members -/

namespace Json

/-- A member that is left out if there is no value. -/
def optional (name : String) (value : Option Json) : List (String × Json) :=
  (value.map (name, ·)).toList

@[simp] theorem lookup_optional (key name : String) (value : Option Json) :
    (optional name value).lookup key = if key = name then value else none := by
  cases value with
  | none => simp [optional]
  | some v =>
    by_cases h : key = name
    · simp [optional, h]
    · simp [optional, List.lookup_cons, beq_false_of_ne h, h]

end Json

/-! ## Messages -/

/-- Zeros in front of a number make no difference. -/
theorem Text.ofDigitChars_padZeros (width n : Nat) :
    Nat.ofDigitChars 10 (padZeros width n).toList 0 = n := by
  have hzeros : ∀ k, Nat.ofDigitChars 10 (List.replicate k '0') 0 = 0 := by
    intro k
    induction k with
    | zero => rfl
    | succ k ih => exact ih
  rw [padZeros, String.toList_ofList, Nat.ofDigitChars_append, hzeros, Nat.ofDigitChars_ten_toDigits]

namespace Diagnostic

/-- What is written of the opening of a body. -/
def Block.members (b : Block) : List (String × Json) :=
  [("block_type", .string b.kind), ("start_line", .number b.line),
   ("start_column", .number b.column), ("start_lexeme", .string b.lexeme)]

/-- What is written of a message. Hint, suggestion, cause and block are left out if there is none. -/
def Message.members (m : Message) : List (String × Json) :=
  [("error_code", .string m.code.text), ("error_type", .string m.category.name),
   ("description", .string m.description), ("file_path", .string m.file),
   ("line", .number m.line), ("column", .number m.column),
   ("problematic_token", .string m.token), ("stage", .string m.stage.name),
   ("context_lines", .array (m.excerpt.map .string))] ++
  Json.optional "hint" (m.hint.map .string) ++
  Json.optional "suggestion" (m.suggestion.map .string) ++
  Json.optional "caused_by" (m.cause.map .string) ++
  Json.optional "block_context" (m.block.map fun b => .object b.members)

theorem map_optionalField (name : String) (d : Option Datum) :
    ((optionalField name d).map fun d => (d.1, d.2.json)) = Json.optional name (d.map Datum.json) := by
  cases d <;> rfl

theorem Block.json_datum (b : Block) : b.datum.json = .object b.members := by
  simp [datum, members]

theorem Message.json_datum (m : Message) : m.datum.json = .object m.members := by
  have htext : Datum.json ∘ Datum.text = Json.string := funext Datum.json_text
  have hblock : Datum.json ∘ Block.datum = fun b => .object b.members := funext Block.json_datum
  simp [datum, members, Datum.texts, map_optionalField, htext, hblock]

/-- The line of a message is the text of an object that holds all of the message. -/
theorem Message.read?_line (m : Message) :
    Json.read? m.datum.json.line = some (.object m.members) := by
  rw [Json.read?_line, m.json_datum]

theorem Code.text_injective {c d : Code} (h : c.text = d.text) : c = d := by
  have hpadded : Text.padZeros 3 c.number = Text.padZeros 3 d.number := (String.append_right_inj "E").1 h
  have hnumber := Text.ofDigitChars_padZeros 3 c.number
  rw [hpadded, Text.ofDigitChars_padZeros] at hnumber
  cases c
  cases d
  exact congrArg Code.mk hnumber.symm

theorem Category.name_injective {c d : Category} (h : c.name = d.name) : c = d := by
  revert h
  cases c <;> cases d <;> decide

theorem Stage.name_injective {s t : Stage} (h : s.name = t.name) : s = t := by
  revert h
  cases s <;> cases t <;> decide

theorem Block.members_injective {b c : Block} (h : b.members = c.members) : b = c := by
  cases b
  cases c
  simpa [members] using h

/-- Messages are equal if what is written of them is. -/
theorem Message.members_injective {m n : Message} (h : m.members = n.members) : m = n := by
  have hlookup : ∀ key, m.members.lookup key = n.members.lookup key := fun key => by rw [h]
  have hhint : m.hint.map Json.string = n.hint.map Json.string := by
    simpa [members, List.lookup_append, List.lookup_cons, List.lookup_nil] using hlookup "hint"
  have hsuggestion : m.suggestion.map Json.string = n.suggestion.map Json.string := by
    simpa [members, List.lookup_append, List.lookup_cons, List.lookup_nil] using hlookup "suggestion"
  have hcause : m.cause.map Json.string = n.cause.map Json.string := by
    simpa [members, List.lookup_append, List.lookup_cons, List.lookup_nil] using hlookup "caused_by"
  have hblock : m.block.map (Json.object ·.members) = n.block.map (Json.object ·.members) := by
    simpa [members, List.lookup_append, List.lookup_cons, List.lookup_nil] using hlookup "block_context"
  have htext : Function.Injective Json.string := fun _ _ => Json.string.inj
  have hobject : Function.Injective fun b : Block => Json.object b.members :=
    fun _ _ h => Block.members_injective (Json.object.inj h)
  simp only [members, List.cons_append, List.cons.injEq, Prod.mk.injEq, true_and, Json.string.injEq,
    Json.number.injEq, Json.array.injEq] at h
  obtain ⟨hcode, hcategory, hdescription, hfile, hline, hcolumn, htoken, hstage, hexcerpt, -⟩ := h
  cases m
  cases n
  rw [Message.mk.injEq]
  exact ⟨Code.text_injective hcode, Category.name_injective hcategory, hdescription, hfile, hline,
    hcolumn, htoken, Stage.name_injective hstage, htext.list_map hexcerpt,
    Option.map_injective htext hhint, Option.map_injective htext hsuggestion,
    Option.map_injective htext hcause, Option.map_injective hobject hblock⟩

/-- A message is determined by its line. -/
theorem Message.line_injective {m n : Message} (h : m.datum.json.line = n.datum.json.line) :
    m = n := by
  have hjson := Json.line_injective h
  rw [m.json_datum, n.json_datum] at hjson
  exact members_injective (Json.object.inj hjson)

end Diagnostic

/-! ## Tokens -/

/-- What is written of a span. -/
def Span.members (s : Span) : List (String × Json) :=
  [("start", .number s.start), ("end", .number s.stop)]

theorem Span.json_datum (s : Span) : s.datum.json = .object s.members := by simp [datum, members]

theorem Span.members_injective {s t : Span} (h : s.members = t.members) : s = t := by
  cases s
  cases t
  simpa [members] using h

/-- What is written of a piece of trivia. -/
def Trivia.members (t : Trivia) : List (String × Json) :=
  [("kind", .string t.kind.name), ("text", .string t.text), ("span", .object t.span.members)]

theorem Trivia.json_datum (t : Trivia) : t.datum.json = .object t.members := by
  simp [datum, members, Span.json_datum]

theorem Trivia.Kind.name_injective {k l : Trivia.Kind} (h : k.name = l.name) : k = l := by
  revert h
  cases k <;> cases l <;> decide

theorem Trivia.members_injective {t u : Trivia} (h : t.members = u.members) : t = u := by
  cases t
  cases u
  simp only [members, List.cons.injEq, Prod.mk.injEq, true_and, Json.string.injEq,
    Json.object.injEq, and_true] at h
  rw [Trivia.mk.injEq]
  exact ⟨Trivia.Kind.name_injective h.1, h.2.1, Span.members_injective h.2.2⟩

/-- What is written of the trivia on one side of a token: nothing if there is none. -/
def Trivia.side (pieces : List Trivia) : Option Json :=
  if pieces = [] then none else some (.array (pieces.map fun t => .object t.members))

theorem Trivia.map_field (name : String) (pieces : List Trivia) :
    ((Trivia.field name pieces).map fun d => (d.1, d.2.json)) = Json.optional name (side pieces) := by
  have htrivia : Datum.json ∘ Trivia.datum = fun t => .object t.members := funext Trivia.json_datum
  cases pieces with
  | nil => rfl
  | cons t ts => simp [field, side, Json.optional, Trivia.json_datum, htrivia]

theorem Trivia.side_injective {ts us : List Trivia} (h : side ts = side us) : ts = us := by
  have hobject : Function.Injective fun t : Trivia => Json.object t.members :=
    fun _ _ h => members_injective (Json.object.inj h)
  cases ts with
  | nil =>
    cases us with
    | nil => rfl
    | cons u us => simp [side] at h
  | cons t ts =>
    cases us with
    | nil => simp [side] at h
    | cons u us =>
      rw [side, side, if_neg (by simp), if_neg (by simp)] at h
      exact hobject.list_map (Json.array.inj (Option.some.inj h))

/-- What is written of a token. Its value is left out if it has none. -/
def Token.members (t : Token) : List (String × Json) :=
  [("kind", .string t.kind.name), ("lexeme", .string t.lexeme)] ++
  Json.optional "value" (t.value.map .string) ++
  [("span", .object t.span.members), ("line", .number t.line)] ++
  Json.optional "leading_trivia" (Trivia.side t.leading) ++
  Json.optional "trailing_trivia" (Trivia.side t.trailing)

theorem Token.json_datum (t : Token) : t.datum.json = .object t.members := by
  have hvalue : (((t.value.map fun v => [("value", Datum.text v)]).getD []).map
      fun d => (d.1, d.2.json)) = Json.optional "value" (t.value.map .string) := by
    cases t.value <;> simp [Json.optional]
  simp [datum, members, hvalue, Trivia.map_field, Span.json_datum]

theorem Token.Kind.nodup_names : (Token.Kind.all.map Token.Kind.name).Nodup := by decide +kernel

theorem Token.Kind.mem_all (k : Token.Kind) : k ∈ Token.Kind.all := by
  have hplace : Token.Kind.all[k.ctorIdx]? = some k := by cases k <;> rfl
  exact List.mem_of_getElem? hplace

theorem Token.Kind.name_injective {k l : Token.Kind} (h : k.name = l.name) : k = l :=
  List.inj_on_of_nodup_map nodup_names k.mem_all l.mem_all h

theorem Token.members_injective {t u : Token} (h : t.members = u.members) : t = u := by
  have hlookup : ∀ key, t.members.lookup key = u.members.lookup key := fun key => by rw [h]
  have hkind : t.kind.name = u.kind.name := by
    simpa [members, List.lookup_append, List.lookup_cons, List.lookup_nil] using hlookup "kind"
  have hlexeme : t.lexeme = u.lexeme := by
    simpa [members, List.lookup_append, List.lookup_cons, List.lookup_nil] using hlookup "lexeme"
  have hvalue : t.value.map Json.string = u.value.map Json.string := by
    simpa [members, List.lookup_append, List.lookup_cons, List.lookup_nil] using hlookup "value"
  have hspan : t.span.members = u.span.members := by
    simpa [members, List.lookup_append, List.lookup_cons, List.lookup_nil] using hlookup "span"
  have hline : t.line = u.line := by
    simpa [members, List.lookup_append, List.lookup_cons, List.lookup_nil] using hlookup "line"
  have hleading : Trivia.side t.leading = Trivia.side u.leading := by
    simpa [members, List.lookup_append, List.lookup_cons, List.lookup_nil] using hlookup "leading_trivia"
  have htrailing : Trivia.side t.trailing = Trivia.side u.trailing := by
    simpa [members, List.lookup_append, List.lookup_cons, List.lookup_nil] using hlookup "trailing_trivia"
  cases t
  cases u
  rw [Token.mk.injEq]
  exact ⟨Token.Kind.name_injective hkind, hlexeme,
    Option.map_injective (fun _ _ => Json.string.inj) hvalue, Span.members_injective hspan, hline,
    Trivia.side_injective hleading, Trivia.side_injective htrailing⟩

/-- A token is determined by its line, with the trivia around it. -/
theorem Token.line_injective {t u : Token} (h : t.datum.json.line = u.datum.json.line) : t = u := by
  have hjson := Json.line_injective h
  rw [t.json_datum, u.json_datum] at hjson
  exact members_injective (Json.object.inj hjson)

/-! ## Trees -/

namespace Tree

theorem Kind.nodup_names : (Kind.all.map Kind.name).Nodup := by decide +kernel

theorem Kind.mem_all (k : Kind) : k ∈ all := by
  have hplace : all[k.ctorIdx]? = some k := by cases k <;> rfl
  exact List.mem_of_getElem? hplace

theorem Kind.name_injective {k l : Kind} (h : k.name = l.name) : k = l :=
  List.inj_on_of_nodup_map nodup_names k.mem_all l.mem_all h

theorem elementData_eq (es : List Element) (done : List Datum) :
    elementData es done = done.reverse ++ es.map Element.datum := by
  induction es generalizing done with
  | nil => simp [elementData]
  | cons e es ih => simp [elementData, ih]

/-- What is written of a node with the given elements. Description and error are left out of a node
that has none. -/
theorem Node.json_datum (n : Node) : n.datum.json = .object
    ([("kind", .string n.kind.name), ("span", .object n.span.members),
      ("elements", .array (n.elements.map (·.datum.json)))] ++
     Json.optional "description" (n.description.map .string) ++
     Json.optional "error" (n.error.map .string)) := by
  obtain ⟨kind, span, elements, description, error⟩ := n
  have htext : ∀ name text, ((optionalText name text).map fun d => (d.1, d.2.json)) =
      Json.optional name (text.map .string) := by
    intro name text
    cases text <;> simp [optionalText, Json.optional]
  rw [Node.datum]
  simp [htext, Span.json_datum, elementData_eq, Function.comp_def]

theorem Element.json_node (n : Node) :
    (Element.node n).datum.json = .object [("Node", n.datum.json)] := by
  rw [Element.datum, Datum.json_variant]

theorem Element.json_token (t : Token) :
    (Element.token t).datum.json = .object [("Token", .object t.members)] := by
  rw [Element.datum, Datum.json_variant, t.json_datum]

mutual
/-- Nodes are equal if what is written of them is. -/
theorem Node.json_injective : ∀ n m : Node, n.datum.json = m.datum.json → n = m
  | ⟨kind, span, elements, description, error⟩, m, h => by
    rw [Node.json_datum, Node.json_datum] at h
    have hlookup : ∀ key, _ := fun key => congrArg (List.lookup key) (Json.object.inj h)
    have hkind := hlookup "kind"
    have hspan := hlookup "span"
    have helements := hlookup "elements"
    have hdescription := hlookup "description"
    have herror := hlookup "error"
    simp [List.lookup_append, List.lookup_cons] at hkind hspan helements hdescription herror
    have htext : Function.Injective Json.string := fun _ _ => Json.string.inj
    cases m
    rw [Node.mk.injEq]
    exact ⟨Kind.name_injective hkind, Span.members_injective hspan,
      elements_json_injective elements _ helements, Option.map_injective htext hdescription,
      Option.map_injective htext herror⟩

theorem Element.json_injective : ∀ e f : Element, e.datum.json = f.datum.json → e = f
  | .node n, .node m, h => by
    rw [Element.json_node, Element.json_node] at h
    have hdatum : n.datum.json = m.datum.json := by simpa using h
    exact congrArg Element.node (Node.json_injective n m hdatum)
  | .token t, .token u, h => by
    rw [Element.json_token, Element.json_token] at h
    have hmembers : t.members = u.members := by simpa using h
    exact congrArg Element.token (Token.members_injective hmembers)
  | .node n, .token t, h | .token t, .node n, h => by
    simp [Element.json_node, Element.json_token] at h

theorem elements_json_injective : ∀ es fs : List Element,
    es.map (·.datum.json) = fs.map (·.datum.json) → es = fs
  | [], [], _ => rfl
  | e :: es, f :: fs, h => by
    rw [List.map_cons, List.map_cons, List.cons.injEq] at h
    rw [Element.json_injective e f h.1, elements_json_injective es fs h.2]
  | [], _ :: _, h | _ :: _, [], h => nomatch h
end

/-- A tree is determined by its line, with all tokens in it and their trivia. -/
theorem Node.line_injective {n m : Node} (h : n.datum.json.line = m.datum.json.line) : n = m :=
  n.json_injective m (Json.line_injective h)

end Tree

end LimitSyntax
