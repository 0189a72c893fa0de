import LimitSyntax.Proofs.Reading

/-!
# Dictionary types

A type in braces whose first token names a built-in type is a dictionary type: that token is its key,
and what follows the colon is its value (`Grammar.basicTypeRule_reads_dict`). Only the key `function`
does not work: with it, the colon introduces the result of a function type.
-/

namespace LimitSyntax.Grammar

open Ast

/-- The type that a token names on its own. -/
def typeNamed (t : Token) : TypeKind :=
  match t.kind with
  | .listType => .list none
  | .arrayType => .array
  | .dictType => .anyDict
  | .identifier | .optionType => .named t.lexeme
  | _ => .primitive t.lexeme

/-- A token that names a built-in type: a keyword, or a word that a scan gave its kind. -/
def BuiltinKey (key : Token) : Prop :=
  key.kind.isPrimitiveType = true ∨
    key.lexeme ∈ builtinTypeNames ∧ key.kind = Token.wordKind key.lexeme.toList

/-- The kinds of the words that name a type alone. -/
def isTypeWord (kind : Token.Kind) : Bool :=
  kind.isPrimitiveType || [.identifier, .listType, .dictType, .optionType].contains kind

theorem isTypeWord_wordKind : ∀ name ∈ builtinTypeNames, name ≠ "function" →
    isTypeWord (Token.wordKind name.toList) = true := by
  decide

theorem wordKind_function : Token.wordKind "function".toList = .functionType := by decide

theorem simpleType_word {kind : Token.Kind} (h : isTypeWord kind = true) (rules : Rules) (t : Token)
    (ts : List Token) (ht : t.kind = kind) : Accepts (t :: ts) (simpleType rules kind)
      fun type us => type = typeNamed t ∧ us = ts := by
  have hne : t.kind ≠ .eof := by
    rw [ht]
    rintro rfl
    cases h
  unfold simpleType typeNamed
  rw [ht]
  cases kind with
  | identifier | listType | dictType | optionType => exact .bindTo (.advance hne) (.pure ⟨rfl, rfl⟩)
  | intType | int8Type | int16Type | int32Type | int64Type | int128Type | uintType | uint8Type
  | uint16Type | uint32Type | uint64Type | uint128Type | floatType | float32Type | float64Type
  | strType | boolType | anyType | kwNil => exact .bindTo (.advance hne) (.pure ⟨rfl, rfl⟩)
  | _ => cases h

theorem typeNode?_word {t : Token} (h : isTypeWord t.kind = true) (u : Token) :
    ∃ node, typeNode? t u = some node ∧ node ≠ .tupleType ∧ node ≠ .structuralType := by
  unfold typeNode?
  cases hkind : t.kind with
  | identifier | optionType => exact ⟨.namedType, rfl, by decide, by decide⟩
  | listType => exact ⟨.listType, rfl, by decide, by decide⟩
  | dictType => exact ⟨.dictType, rfl, by decide, by decide⟩
  | intType | int8Type | int16Type | int32Type | int64Type | int128Type | uintType | uint8Type
  | uint16Type | uint32Type | uint64Type | uint128Type | floatType | float32Type | float64Type
  | strType | boolType | anyType | kwNil => exact ⟨.primitiveType, rfl, by decide, by decide⟩
  | _ => rw [hkind] at h; cases h

/-- Without a question mark behind it a type has no suffix. -/
theorem Accepts.typeSuffix {u : Token} (hu : u.kind ≠ .question) (rules : Rules) (type : TypeExpr)
    (us : List Token) : Accepts (u :: us) (typeSuffix rules type)
      fun type' vs => type' = type ∧ vs = u :: us :=
  .bindTo (.eat hu) (.pure ⟨rfl, rfl⟩)

/-- A word that names a type is a type. -/
theorem Accepts.basicTypeRule_word {t u : Token} (ht : isTypeWord t.kind = true)
    (hu : u.kind ≠ .question) (rules : Rules) (us : List Token) :
    Accepts (t :: u :: us) (basicTypeRule rules) fun type vs =>
      (∃ span line, type = .plain (typeNamed t) span line) ∧ vs = u :: us := by
  obtain ⟨node, hnode, htuple, hrecord⟩ := typeNode?_word ht u
  refine .bindAny .startPos fun start => .bindTo .peek (.bindTo (.peekAt (t := u) rfl) ?_)
  rw [hnode]
  refine .bind (Q := fun type vs => (∃ span line, type = .plain (typeNamed t) span line) ∧
    vs = u :: us) (.inNode ?_) ?_
  · dsimp only
    split
    · exact absurd rfl htuple
    · exact absurd rfl hrecord
    · refine .bindTo (simpleType_word ht rules t _ rfl) (.bindAny (.spanFrom _) fun span => ?_)
      exact (Accepts.typeSuffix hu rules _ us).mono fun _ _ h => ⟨⟨_, _, h.1⟩, h.2⟩
  · rintro type _ ⟨⟨span, line, rfl⟩, rfl⟩
    exact .bindAny (.spanFrom _) fun span => .pure ⟨⟨_, _, rfl⟩, rfl⟩

section
variable {known : Bool} {key : Token} {rules rules' : Rules}

theorem BuiltinKey.names (h : BuiltinKey key) : namesBuiltinType key = true := by
  rcases h with h | ⟨h, -⟩
  · rw [namesBuiltinType, h, Bool.true_or]
  · rw [namesBuiltinType, List.contains_iff_mem.2 h, Bool.or_true]

/-- Every such token but `function` is a type of one word. -/
theorem BuiltinKey.isTypeWord (h : BuiltinKey key) (hfunction : key.kind ≠ .functionType) :
    isTypeWord key.kind = true := by
  rcases h with h | ⟨hname, hkind⟩
  · rw [Grammar.isTypeWord, h, Bool.true_or]
  · rw [hkind]
    refine isTypeWord_wordKind _ hname fun hname => hfunction ?_
    rw [hkind, hname, wordKind_function]

/-- A dictionary type, of which the value is read behind the colon. -/
theorem Parses.dictType {brace colon close : Token} {us vs : List Token} {value : TypeExpr → Prop}
    (hr : rules.Lawful) (hbrace : brace.kind = .leftBrace) (hkey : isTypeWord key.kind = true)
    (hcolon : colon.kind = .colon) (hclose : close.kind = .rightBrace)
    (hbasic : rules.call .basicType = basicTypeRule rules')
    (hvalue : Parses known us (rules.call .type) fun type ts => value type ∧ ts = close :: vs) :
    Parses known (brace :: key :: colon :: us) (dictType rules) fun kind ts =>
      (∃ key' value', (∃ span line, key' = .plain (typeNamed key) span line) ∧ value value' ∧
        kind = .dict key' value') ∧ ts = vs := by
  have hword := Accepts.basicTypeRule_word hkey (hcolon ▸ by decide : colon.kind ≠ .question) rules' us
  refine .after (.advance (by rw [hbrace]; decide)) .advance ?_
  rintro _ _ ⟨-, rfl⟩
  refine .after (hbasic ▸ hword) (hr.alike _).framed ?_
  rintro key' _ ⟨hkey', rfl⟩
  refine .after (.consume hcolon (by decide)) (Alike.consume _ (by decide) _).framed ?_
  rintro _ _ ⟨-, rfl⟩
  refine hvalue.bind ?_
  rintro value' _ ⟨hvalue', rfl⟩
  refine .after (.consumeClose hclose (by decide)) (Alike.consumeClose _ (by decide) _).framed ?_
  rintro _ _ rfl
  exact .pure ⟨⟨key', value', hkey', hvalue', rfl⟩, rfl⟩

theorem Parses.basicTypeRule_dict {brace colon close u : Token} {us vs : List Token}
    {value : TypeExpr → Prop} (hr : rules.Lawful) (hbrace : brace.kind = .leftBrace)
    (hkey : BuiltinKey key) (hfunction : key.kind ≠ .functionType) (hcolon : colon.kind = .colon)
    (hclose : close.kind = .rightBrace) (hu : u.kind ≠ .question)
    (hbasic : rules.call .basicType = basicTypeRule rules')
    (hvalue : Parses known us (rules.call .type) fun type ts => value type ∧ ts = close :: u :: vs) :
    Parses known (brace :: key :: colon :: us) (basicTypeRule rules) fun type ts =>
      (∃ key' value' span line, (∃ span line, key' = .plain (typeNamed key) span line) ∧
        value value' ∧ type = .plain (.dict key' value') span line) ∧ ts = u :: vs := by
  have hnode : typeNode? brace key = some .dictType := by
    rw [typeNode?, hbrace, hkey.names]
    rfl
  refine .after .startPos Alike.startPos.framed ?_
  rintro ⟨start, line⟩ _ rfl
  refine .after .peek Alike.peek.framed ?_
  rintro first _ ⟨hfirst, rfl⟩
  refine .after (.peekAt (t := key) rfl) (Alike.peekAt 1).framed ?_
  rintro second _ ⟨hsecond, rfl⟩
  rw [hfirst, hsecond, hnode, hbrace]
  refine Parses.bind (Q := fun type ts => (∃ key' value' span line,
    (∃ span line, key' = .plain (typeNamed key) span line) ∧ value value' ∧
      type = .plain (.dict key' value') span line) ∧ ts = u :: vs) (.inNode ?_) ?_
  · refine (Parses.dictType hr hbrace (hkey.isTypeWord hfunction) hcolon hclose hbasic hvalue).bind ?_
    rintro kind _ ⟨⟨key', value', hkey', hvalue', rfl⟩, rfl⟩
    refine .after (.spanFrom start) (Alike.spanFrom start).framed ?_
    rintro span _ rfl
    refine .of_accepts ((Accepts.typeSuffix hu rules _ vs).mono fun _ _ h => ?_)
      (Twin.typeSuffix _ _).alike.framed
    exact ⟨⟨key', value', span, line, hkey', hvalue', h.1⟩, h.2⟩
  · rintro type _ ⟨⟨key', value', span, line', hkey', hvalue', rfl⟩, rfl⟩
    refine .after (.spanFrom start) (Alike.spanFrom start).framed ?_
    rintro span' _ rfl
    exact .pure ⟨⟨key', value', span', line', hkey', hvalue', rfl⟩, rfl⟩

end

/-- Braces around a key that names a built-in type, a colon and a type are read as a dictionary type
of that key and, up to places, of that type. The key `function` is left out: the colon goes to it. -/
theorem basicTypeRule_reads_dict {known : Bool} {m n : Nat} {brace key colon close e : Token}
    {close' e' : Token} {ts ts' : List Token} {value : TypeExpr} (hbrace : brace.kind = .leftBrace)
    (hkey : BuiltinKey key) (hfunction : key.kind ≠ .functionType) (hcolon : colon.kind = .colon)
    (hclose : close.kind = .rightBrace) (hend : e.kind = .eof)
    (hvalue : Completes known (typeRule (.upTo m)) ts [close, e] value) (hm : ts.length + 2 ≤ m)
    (hsame : List.Forall₂ Token.Same ts ts') (hclose' : close.Same close') (hend' : e.Same e')
    (hn : ts.length + 5 ≤ n) :
    Parses known (brace :: key :: colon :: (ts' ++ [close', e'])) (basicTypeRule (.upTo n))
      fun type us => (∃ key' value' span line, (∃ span line, key' = .plain (typeNamed key) span line) ∧
        Same .type value value' ∧ type = .plain (.dict key' value') span line) ∧ us = [e'] := by
  obtain ⟨n, rfl⟩ : ∃ k, n = k + 1 := ⟨n - 1, by omega⟩
  have hkind : e'.kind = .eof := hend'.kind.symm.trans hend
  have hreads : Parses known (ts' ++ [close', e']) ((Rules.upTo (n + 1)).call .type)
      fun type us => Agree value type ∧ us = [close', e'] := by
    have hsound : ∀ b ∈ [close], b.kind ≠ .eof ∧ b.kind ≠ .error := by
      intro b hb
      rw [List.mem_singleton.1 hb, hclose]
      decide
    have hbehind : Completes known (typeRule (.upTo m)) ts ([close] ++ [e]) value := hvalue
    refine hbehind.reads (fun g => ?_) ((Rules.lawful_upTo _).alike .type).framed
      ((Rules.lawful_upTo _).alike .type).stepwise hsame (.cons hclose' .nil) hsound hkind hend'
    have hrules : Rules.InTandem g (ts.length + 1) (.upTo m) (.upTo n) :=
      Rules.inTandem_upTo (by omega) (by omega)
    exact .typeRule hrules le_rfl
  exact .basicTypeRule_dict (Rules.lawful_upTo _) hbrace hkey hfunction hcolon
    (hclose'.kind.symm.trans hclose) (by rw [hkind]; decide) rfl hreads

theorem basicTypeRule_reads_dict_int : ∃ (brace key colon int close e : Token) (value : TypeExpr),
    brace.kind = .leftBrace ∧ BuiltinKey key ∧ key.lexeme = "str" ∧ key.kind ≠ .functionType ∧
    colon.kind = .colon ∧ close.kind = .rightBrace ∧ e.kind = .eof ∧
    Completes false (typeRule (.upTo 3)) [int] [close, e] value ∧
    Parses false [brace, key, colon, int, close, e] (basicTypeRule (.upTo 6)) fun type us =>
      (∃ key' value' span line, (∃ span line, key' = .plain (typeNamed key) span line) ∧
        Same .type value value' ∧ type = .plain (.dict key' value') span line) ∧ us = [e] := by
  let brace : Token := { kind := .leftBrace, lexeme := "\x7b", span := ⟨0, 1⟩, line := 1 }
  let key : Token := { kind := .strType, lexeme := "str", span := ⟨1, 4⟩, line := 1 }
  let colon : Token := { kind := .colon, lexeme := ":", span := ⟨4, 5⟩, line := 1 }
  let int : Token := { kind := .intType, lexeme := "int", span := ⟨5, 8⟩, line := 1 }
  let close : Token := { kind := .rightBrace, lexeme := "\x7d", span := ⟨8, 9⟩, line := 1 }
  let e : Token := .eof 9 1
  let value : TypeExpr := .plain (.primitive "int") ⟨5, 8⟩ 1
  have hkey : BuiltinKey key := .inl rfl
  have hvalue : Completes false (typeRule (.upTo 3)) [int] [close, e] value := by
    refine ⟨fun t ht => ?_, ⟨⟨"", "a"⟩, e, 20⟩, _, rfl, rfl, rfl, rfl⟩
    obtain rfl := List.mem_singleton.1 ht
    decide
  exact ⟨brace, key, colon, int, close, e, value, rfl, hkey, rfl, by decide, rfl, rfl, rfl, hvalue,
    basicTypeRule_reads_dict rfl hkey (by decide) rfl rfl rfl hvalue (by decide)
      (.cons .rfl .nil) .rfl .rfl (by decide)⟩

/-- Behind the key `function` the colon is taken for the one in front of a result. -/
theorem basicTypeRule_fails_dict_function :
    ∃ (brace key colon int close e : Token) (value : TypeExpr) (i : Input) (t : State),
      brace.kind = .leftBrace ∧ BuiltinKey key ∧ key.lexeme = "function" ∧ colon.kind = .colon ∧
      close.kind = .rightBrace ∧ e.kind = .eof ∧ i.eof = e ∧
      Completes false (typeRule (.upTo 3)) [int] [close, e] value ∧
      exec (basicTypeRule (.upTo 6)) i (.before false [brace, key, colon, int, close, e]) =
        (.error (), t) ∧
      t.errors.messages.map (·.description) = #["Expected ':' in dictionary type."] := by
  let brace : Token := { kind := .leftBrace, lexeme := "\x7b", span := ⟨0, 1⟩, line := 1 }
  let key : Token := { kind := .functionType, lexeme := "function", span := ⟨1, 9⟩, line := 1 }
  let colon : Token := { kind := .colon, lexeme := ":", span := ⟨9, 10⟩, line := 1 }
  let int : Token := { kind := .intType, lexeme := "int", span := ⟨10, 13⟩, line := 1 }
  let close : Token := { kind := .rightBrace, lexeme := "\x7d", span := ⟨13, 14⟩, line := 1 }
  let e : Token := .eof 14 1
  let value : TypeExpr := .plain (.primitive "int") ⟨10, 13⟩ 1
  have hkey : BuiltinKey key := .inr ⟨by decide, by decide⟩
  have hvalue : Completes false (typeRule (.upTo 3)) [int] [close, e] value := by
    refine ⟨fun t ht => ?_, ⟨⟨"", "a"⟩, e, 20⟩, _, rfl, rfl, rfl, rfl⟩
    obtain rfl := List.mem_singleton.1 ht
    decide
  exact ⟨brace, key, colon, int, close, e, value, ⟨⟨"", "a"⟩, e, 20⟩, _, rfl, hkey, rfl, rfl, rfl, rfl,
    rfl, hvalue, rfl, by decide +kernel⟩

end LimitSyntax.Grammar
