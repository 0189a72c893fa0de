import LimitSyntax.Proofs.Tandem

/-!
# In tandem: types, patterns and bodies

The rules for types and patterns, and the parts that expressions, statements and declarations share,
run alike in parses that are abreast.
-/

namespace LimitSyntax.Grammar

open Ast

/-- Rules called from parses that are abreast, with at most `cap` tokens ahead. Each rule is called
at some spot, reads a token at least, and leaves the parses at another spot. -/
structure Rules.InTandem (g : Pair) (cap : Nat) (rules rules' : Rules) : Prop where
  lawful : rules.Lawful
  bound : cap < rules.bound
  bound' : cap < rules'.bound
  expression {H : Prop} {n : Nat} (hn : n ≤ cap) : Tandem H g .any n (rules.call .expression)
    (rules'.call .expression) (fun _ => .inner) (fun _ => n - 1)
  power {H : Prop} {n : Nat} (hn : n ≤ cap) : Tandem H g .any n (rules.call .power)
    (rules'.call .power) (fun _ => .inner) (fun _ => n - 1)
  unary {H : Prop} {n : Nat} (hn : n ≤ cap) : Tandem H g .any n (rules.call .unary)
    (rules'.call .unary) (fun _ => .inner) (fun _ => n - 1)
  type {H : Prop} {n : Nat} (hn : n ≤ cap) : Tandem H g .within n (rules.call .type)
    (rules'.call .type) (fun _ => .inner) (fun _ => n - 1)
  basicType {H : Prop} {n : Nat} (hn : n ≤ cap) : Tandem H g .within n (rules.call .basicType)
    (rules'.call .basicType) (fun _ => .inner) (fun _ => n - 1)
  pattern {H : Prop} {n : Nat} (hn : n ≤ cap) : Tandem H g .within n (rules.call .pattern)
    (rules'.call .pattern) (fun _ => .inner) (fun _ => n - 1)
  ifStatement {H : Prop} {n : Nat} (hn : n ≤ cap) : Tandem H g (.before .kwElif) n
    (rules.call .ifStatement) (rules'.call .ifStatement) (fun _ => .any) (fun _ => n - 1)
  statement {H : Prop} {n : Nat} (hn : n ≤ cap) : Tandem H g .within n (rules.call .statement)
    (rules'.call .statement) (fun _ => .any) (fun _ => n - 1)
  declaration {H : Prop} {n : Nat} (hn : n ≤ cap) : Tandem H g .within n (rules.call .declaration)
    (rules'.call .declaration) (fun _ => .any) (fun _ => n - 1)
  recovered {H : Prop} {n : Nat} (hn : n ≤ cap) : Tandem H g .within n (rules.call .recovered)
    (rules'.call .recovered) (fun _ => .any) (fun _ => n - 1)

namespace Tandem

section
variable {g : Pair} {cap : Nat} {rules rules' : Rules} {H : Prop} {n : Nat} {σ : Spot}
  (hr : rules.InTandem g cap rules') (hn : n ≤ cap + 1)
include hr hn

/-! ## Types -/

theorem listType : Tandem H g (.before .leftBracket) n (listType rules) (listType rules')
    (fun _ => .within) (fun _ => n - 1) :=
  .andThen .advance <|
    .checkThen .inner (.value fun _ => .none) (.map (hr.type (by omega)) .some) <|
      .andThen (.consume ..) <| .pure fun h => .listType (.ofOption h.2)

theorem tupleType : Tandem H g (.before .leftParen) n (tupleType rules) (tupleType rules')
    (fun _ => .within) (fun _ => n - 1) := by
  have hb := hr.bound
  have hb' := hr.bound'
  refine .startPos fun start line start' line' => .andThen .advance <|
    .bind (.commaList .rightParen (by omega) (by omega) fun k hk => hr.type (by omega))
      fun {r r'} => ?_
  obtain ⟨members, comma⟩ := r
  obtain ⟨members', comma'⟩ := r'
  refine .andThen (.consume ..) ?_
  refine .assume ?_ fun ⟨_, hmembers, hcomma⟩ => ?_
  · split
    · exact .pure _
    · exact .bind (Alike.spanFrom start).stepwise fun _ => .pure _
  -- one member without a comma behind it is no tuple
  obtain rfl : comma = comma' := hcomma
  rcases (hmembers : List.Forall₂ Agree members members') with _ | ⟨h, _ | _⟩
  case cons.nil =>
    cases comma with
    | false => exact .pure fun _ => h
    | true => exact .spanFrom fun _ _ => .pure fun h => .type (.tupleType (.ofList h.2.1)) .none
  all_goals exact .spanFrom fun _ _ => .pure fun h => .type (.tupleType (.ofList h.2.1)) .none

/-- A dictionary type. -/
theorem dictType : Tandem H g (.before .leftBrace) n (dictType rules) (dictType rules')
    (fun _ => .within) (fun _ => n - 1) :=
  .andThen .advance <| .bind (hr.basicType (by omega)) <| .andThen (.consume ..) <|
    .bind (hr.type (by omega)) <| .andThen (.consumeClose ..) <|
      .pure fun h => .dictType h.1.2 h.2

omit hr hn in
theorem typeFieldName : Tandem H g .within n typeFieldName typeFieldName
    (fun _ => .within) (fun _ => n - 1) := by
  refine .peek fun kind t t' hkind hsame => ?_
  have hfield : namesField t' = namesField t := by rw [namesField, namesField, hsame.kind]
  rw [← hsame.kind, hfield, hkind]
  by_cases hstring : kind = .string
  · obtain rfl := hstring
    simp only [beq_self_eq_true, if_true]
    exact .bindToken .advance fun h => .pure fun _ => h.text
  simp only [beq_false_of_ne hstring, Bool.false_eq_true, if_false]
  by_cases hname : namesField t = true
  · have hsolid : isSolid kind = true := by
      rw [isSolid_iff]
      constructor <;> (rintro rfl; rw [namesField, hkind] at hname; revert hname; decide)
    simp only [hname, if_true]
    exact .bindToken (.advance hsolid) fun h => .pure fun _ => h.lexeme
  · simp only [hname]
    exact .fail _

instance : Comparable RecordParts :=
  ⟨fun p q => Agree p.fields q.fields ∧ p.hasRest = q.hasRest ∧ p.bases = q.bases⟩

theorem recordPart {parts parts' : RecordParts} :
    Tandem (H ∧ Agree parts parts') g .within n (recordPart rules parts) (recordPart rules' parts')
      (fun _ => .any) (fun _ => n - 1) := by
  -- what is read so far, and the comma behind it
  have hcomma : ∀ {G : Prop} {σ : Spot} {k : Nat} {parts parts' : RecordParts},
      (G → Agree parts parts') → k ≤ n - 1 →
      Tandem G g σ k (Pure.pure parts >>= fun parts => Grammar.eat .comma >>= fun _ => Pure.pure parts)
        (Pure.pure parts' >>= fun parts => Grammar.eat .comma >>= fun _ => Pure.pure parts)
        (fun _ => .any) (fun _ => n - 1) :=
    fun h hk => .bind (.value h) <|
      .andThen (.eatOptional (Spot.meets_eq_false rfl)) (.pure And.right)
  refine .eat (.check (.bindToken .advance fun ht => hcomma ?_ (by omega)) (hcomma ?_ le_rfl)) ?_
  · exact fun h => ⟨h.2.1, rfl, by simp only [h.2.2.2, ht.lexeme]⟩
  · exact fun h => ⟨h.2.1, rfl, h.2.2.2⟩
  · refine .bindEq .typeFieldName fun name => .andThen (.consume ..) <|
      .bind (hr.type (by omega)) (hcomma ?_ (by omega))
    exact fun h => ⟨h.1.2.1.append (.cons (.typeField h.2) .nil), h.1.2.2⟩

theorem recordType {start line start' line' : Nat} :
    Tandem H g (.before .leftBrace) n (recordType rules start line) (recordType rules' start' line')
      (fun _ => .within) (fun _ => n - 1) := by
  have hb := hr.bound
  have hb' := hr.bound'
  refine .andThen .advance (.untilEnd (by omega) (by omega) (fun _ => ?_) (fun {x x'} k hk => ?_) ?_ ?_ ?_)
  · exact ⟨.nil, rfl, rfl⟩
  · refine .listEnds (.stop And.right) (.bind (recordPart hr (by omega)) (.again fun h => h.2))
  · exact fun x i s _ hend => exec_listEnds _ _ hend
  · exact .andThen (.consumeClose ..) <| .spanFrom fun _ _ => .pure fun ⟨_, hfields, hrest, hbases⟩ =>
      hrest ▸ hbases ▸ .type (.recordType (.ofList hfields)) .none
  · exact fun x => (Rejects.consumeClose (by decide) (by decide) _).bind fun _ =>
      .bind (Alike.spanFrom start).stepwise fun _ => .pure _

omit hr hn in
theorem startsWithParamName {α : Type} [Comparable α] {p q p' q' : Parse α} {τ : α → Spot}
    {m : α → Nat} (htrue : Tandem H g (.before .identifier) n p q τ m)
    (hfalse : Tandem H g .within n p' q' τ m) :
    Tandem H g .within n (startsWithParamName >>= fun b => if b = true then p else p')
      (startsWithParamName >>= fun b => if b = true then q else q') τ m := by
  refine .test (fun b => if b then .before .identifier else .within)
    Twin.startsWithParamName.stepwise (fun _ s s' hs hseam => ?_) (Bool.rec hfalse htrue)
  have hfirst := (hs.peek_of_not_atSeam hseam).kind
  refine ⟨(s.rest[0]?.getD g.left.eof).kind == .identifier &&
    ((s.rest[1]?.getD g.left.eof).kind == .colon || ((s.rest[1]?.getD g.left.eof).kind == .question &&
      (s.rest[2]?.getD g.left.eof).kind == .colon)), rfl, ?_, ?_⟩
  · refine congrArg (fun b => (Except.ok b, s')) ?_
    rw [← hfirst]
    by_cases hname : (s.rest[0]?.getD g.left.eof).kind = .identifier
    · have hsolid : isSolid (s.rest[0]?.getD g.left.eof).kind = true := by rw [hname]; rfl
      rw [(hs.ahead.peek_one hsolid).kind, hs.ahead.check_two hsolid (by decide) rfl]
    · rw [beq_false_of_ne hname, Bool.false_and, Bool.false_and]
  · split
    next hb => exact ⟨hseam, eq_of_beq (Bool.and_eq_true_iff.1 hb).1⟩
    next => exact hseam

omit hn in
theorem typeParam (hn : n ≤ cap) : Tandem H g .within n (typeParam rules) (typeParam rules')
    (fun _ => .inner) (fun _ => n - 1) := by
  refine .inNode (.startsWithParamName ?_ (.bind (hr.type hn) (.pure fun h => .typeParam h.2)))
  refine .bindBy Token.Same (fun _ => .rfl) And.left .advance fun {t t'} hsame => ?_
  rw [← hsame.lexeme]
  refine .bindEq .eatOptional fun optional => .andThen (.consume ..) ?_
  have htype : ∀ {G : Prop} (name : Option String), Tandem G g .within (n - 1 - 1)
      (do return TypeParam.mk name (← rules.call .type) optional)
      (do return TypeParam.mk name (← rules'.call .type) optional) (fun _ => .inner) (fun _ => n - 1) :=
    fun _ => .bind (hr.type (by omega)) (.pure fun h => .typeParam h.2)
  cases reservedParamNames.contains t.lexeme with
  | true => exact .reportAt _ (fun h => h.2.2) fun _ => (@htype H _).stepwise
  | false => exact htype _

omit hn in
/-- Parameters of a function type with the parenthesis after them. -/
theorem typeParams (hn : n ≤ cap) : Tandem H g .within n (typeParams rules) (typeParams rules')
    (fun _ => .within) (fun _ => n - 1) := by
  have hb := hr.bound
  have hb' := hr.bound'
  exact .bind (.commaList .rightParen (by omega) (by omega) fun k hk => typeParam hr (by omega)) <|
    .andThen (.consume ..) (.pure fun h => h.2.1)

theorem functionType : Tandem H g (.before .kwFn) n (functionType rules) (functionType rules')
    (fun _ => .inner) (fun _ => n - 1) := by
  refine .andThen .advance <| .andThen (.consume ..) <| .bind (typeParams hr (by omega)) <| .eat ?_ ?_
  · exact .bind (hr.type (by omega)) (.pure fun h => .functionType (.ofList h.1.2) (.some h.2))
  · exact .previous fun _ _ => .bind (.value fun _ => Same.type .primitiveType .none) <|
      .pure fun h => .functionType (.ofList h.1.2) (.some h.2)

theorem keywordFunctionType : Tandem H g (.before .functionType) n (keywordFunctionType rules)
    (keywordFunctionType rules') (fun _ => .inner) (fun _ => n - 1) :=
  .andThen .advance <| .eatThen .within (typeParams hr (by omega)) (.value fun _ => .nil) <|
    .bind (.after (hr.basicType (by omega))) <|
      .pure fun h => .functionType (.ofList h.1.2) (.ofOption h.2)

theorem simpleType (kind : Token.Kind) (hkind : isSolid kind = true) :
    Tandem H g (.before kind) n (simpleType rules kind) (simpleType rules' kind) (fun _ => .inner)
      (fun _ => n - 1) := by
  unfold Grammar.simpleType
  split
  · exact (listType hr hn).weaken
  · exact .andThen .advance (.pure fun _ => .listType .none)
  · exact .andThen .advance (.pure fun _ => .arrayType)
  · exact (dictType hr hn).weaken
  · exact .andThen .advance (.pure fun _ => .anyDictType)
  · exact functionType hr hn
  · exact keywordFunctionType hr hn
  · exact .bindToken .advance fun h => .pure fun _ => h.text ▸ .literalType
  · exact .bindToken .advance fun h => .pure fun _ => h.lexeme ▸ .namedType
  · exact .bindToken .advance fun h => .pure fun _ => h.lexeme ▸ .namedType
  · exact .bindToken (.advance hkind) fun h => .pure fun _ => h.lexeme ▸ .primitiveType

omit hr hn in
theorem errorTypes (hb : n ≤ rules.bound) (hb' : n ≤ rules'.bound) :
    Tandem H g (.before .identifier) n (errorTypes rules) (errorTypes rules')
      (fun _ => .within) (fun _ => n - 1) := by
  refine .bindToken .advance fun h => .repeatUpTo .within (by omega) (by omega)
    (fun _ => .cons h.lexeme .nil) fun k hk => ?_
  refine .eatBefore .identifier (fun t t' u u' ht hu => ?_) (fun t u h => ?_) ?_ (.stop And.right)
  · rw [← ht.kind]
    by_cases hname : t.kind = .identifier
    · rw [(hu (by rw [hname]; rfl)).kind]
    · rw [beq_false_of_ne hname, Bool.false_and, Bool.false_and]
  · exact eq_of_beq (Bool.and_eq_true_iff.1 h).1
  · exact .bindToken .advance fun h => .again fun hx => hx.2.append (.cons h.lexeme .nil)

omit hr hn in
theorem typeSuffix (hb : n ≤ rules.bound) (hb' : n ≤ rules'.bound) {t t' : TypeExpr}
    (hσ : autoParam (σ.le .inner = true) Std.Slice.Self.eq._autoParam) :
    Tandem (H ∧ Agree t t') g σ n (typeSuffix rules t) (typeSuffix rules' t')
      (fun _ => .inner) (fun _ => n) := by
  refine .eat (.check ?_ (.pure fun h => ?_)) (.pure And.right hσ) (Spot.meets_eq_false rfl)
  · refine .bindEq (errorTypes (by omega) (by omega)) (fun names => .pure fun h => ?_)
    obtain ⟨_, ht⟩ := h
    cases ht with
    | type hkind hrefinement => exact .type hkind hrefinement
  · obtain ⟨_, ht⟩ := h
    cases ht with
    | type hkind hrefinement => exact .type hkind hrefinement

omit hr hn in
theorem typeNode?_congr {t t' u u' : Token} (ht : t.Same t')
    (hu : isSolid t.kind = true → u.Same u') : typeNode? t' u' = typeNode? t u := by
  unfold typeNode?
  rw [← ht.kind]
  split
  case h_5 hkind =>
    have hu := hu (by rw [hkind]; rfl)
    rw [namesBuiltinType, namesBuiltinType, hu.kind, hu.lexeme]
  all_goals rfl

omit hr hn in
/-- What the kind of node says about the first token of a type. -/
theorem typeNode?_some {t u : Token} {node : Tree.Kind} (h : typeNode? t u = some node) :
    isSolid t.kind = true ∧ node.isRecovery = false ∧
      (node = .tupleType → t.kind = .leftParen) ∧ (node = .structuralType → t.kind = .leftBrace) := by
  unfold typeNode? at h
  split at h
  all_goals rename_i hkind
  case h_1 | h_2 | h_3 | h_4 | h_6 | h_7 | h_8 | h_9 | h_10 | h_11 =>
    cases h
    rw [hkind]
    decide
  case h_5 =>
    obtain rfl := Option.some.inj h
    rw [hkind]
    split <;> decide
  case h_12 =>
    split at h
    next hprimitive =>
      cases h
      refine ⟨isSolid_iff.2 ⟨?_, ?_⟩, rfl, nofun, nofun⟩
      all_goals
        intro heq
        rw [heq] at hprimitive
        cases hprimitive
    next => cases h

theorem basicTypeRule : Tandem H g .within n (basicTypeRule rules) (basicTypeRule rules')
    (fun _ => .inner) (fun _ => n - 1) := by
  have hb := hr.bound
  have hb' := hr.bound'
  refine .startPos fun start line start' line' => .peekTwo fun kind t t' u u' hkind ht hu => ?_
  rw [typeNode?_congr ht hu, ← ht.kind, hkind]
  cases hnode : typeNode? t u with
  | none => exact .fail _
  | some node =>
    obtain ⟨hsolid, hsound, htuple, hrecord⟩ := typeNode?_some hnode
    rw [hkind] at hsolid htuple hrecord
    refine .bindVia .inner (n - 1) (.inNode ?_ hsound) (.spanFrom fun _ _ => .pure fun h => ?_)
    · dsimp only
      split
      · obtain rfl := htuple rfl
        exact .bind (tupleType hr hn |>.fromSpot) (typeSuffix (by omega) (by omega))
      · obtain rfl := hrecord rfl
        exact .bind (recordType hr hn |>.fromSpot) (typeSuffix (by omega) (by omega))
      · exact .bind ((simpleType hr hn kind hsolid).fromSpot (beq_self_eq_true kind)) <| .spanFrom fun _ _ =>
          .bind (.value fun h => Same.type h.2 .none) (typeSuffix (by omega) (by omega))
    · obtain ⟨_, ht⟩ := h
      cases ht with
      | type hkind hrefinement => exact .type hkind hrefinement

theorem typeMembers {separator : Token.Kind} (hseparator : separator = .pipe ∨ separator = .kwAnd)
    {first first' : TypeExpr} :
    Tandem (H ∧ Agree first first') g .inner n (typeMembers rules separator first)
      (typeMembers rules' separator first') (fun _ => .inner) (fun _ => n) := by
  have hb := hr.bound
  have hb' := hr.bound'
  refine .bind (.repeatUpTo .inner (by omega) (by omega) (fun h => .cons h.2 .nil) fun k hk => ?_)
    (.pure fun h => h.2.reverse)
  rcases hseparator with rfl | rfl
  all_goals
    exact .eat (.bind (basicTypeRule hr (by omega)) (.again fun h => .cons h.2 h.1.2))
      (.stop And.right)

theorem typeWith (refinable : Bool) : Tandem H g .within n (typeWith rules refinable)
    (typeWith rules' refinable) (fun _ => .inner) (fun _ => n - 1) := by
  refine .checkpoint fun c c' => .startPos fun start line start' line' =>
    .bind (basicTypeRule hr hn) (.peekKind (fun t t' kind hkind hkind' => ?_)
      fun t t' heof hmeets => ?_)
  · rw [hkind, hkind']
    split
    · exact .bind (.inNodeAt ((typeMembers hr (by omega) (.inl rfl)).fromSpot)) <|
        .spanFrom fun _ _ => .pure fun h => .type (.unionType (.ofList h.2)) .none
    · exact .bind (.inNodeAt ((typeMembers hr (by omega) (.inr rfl)).fromSpot)) <|
        .spanFrom fun _ _ => .pure fun h => .type (.intersectionType (.ofList h.2)) .none
    · refine .ite (.bind (.inNodeAt (.andThen .advance
        ((hr.expression (by omega)).fromSpot))) <| .spanFrom fun _ _ => .pure fun h => ?_)
        (.pure And.right)
      obtain ⟨⟨_, ht⟩, hcondition⟩ := h
      cases ht with
      | type hkind _ => exact .type hkind (.some hcondition)
    · exact .pure And.right
  · rw [heof]
    dsimp only
    split
    case h_4 => exact .pure And.right
    all_goals
      rename_i hkind
      rw [hkind] at hmeets
      cases hmeets

theorem typeRule : Tandem H g .within n (typeRule rules) (typeRule rules') (fun _ => .inner)
    (fun _ => n - 1) :=
  typeWith hr hn true

/-! ## Patterns -/

instance : Comparable ListPatternParts :=
  ⟨fun p q => Agree p.elements q.elements ∧ p.rest = q.rest⟩

instance : Comparable DictPatternParts := ⟨Eq⟩
instance : Strict DictPatternParts := ⟨id⟩

theorem listPattern : Tandem H g (.before .leftBracket) n (listPattern rules) (listPattern rules')
    (fun _ => .within) (fun _ => n - 1) := by
  have hb := hr.bound
  have hb' := hr.bound'
  refine .andThen .advance <| .bind (.repeatUpTo .inner (by omega) (by omega) (fun _ => ?_)
    fun {parts parts'} k hk => ?_) <| .andThen (.consume ..) <| .pure fun ⟨_, h, hrest⟩ =>
      hrest ▸ .listPattern (.ofList h)
  · exact ⟨.nil, rfl⟩
  · refine .listEnds (.stop And.right) (.eat ?_ ?_)
    · exact .bindEq (.consumeName ..) fun name => .itemThenComma fun h => ⟨h.2.1, rfl⟩
    · exact .bind (hr.pattern (by omega)) <|
        .itemThenComma fun h => ⟨h.1.2.1.append (.cons h.2 .nil), h.1.2.2⟩

omit hr hn in
theorem fieldBinding : Tandem H g σ n fieldBinding fieldBinding (fun _ => .within)
    (fun _ => n - 1) := by
  refine .bindEq (.consumeName ..) fun key => .bind (.after (.consumeName ..)) <| .pure fun h => ?_
  cases h.2 with
  | none => rfl
  | some hname => exact congrArg (FieldBinding.mk key) hname

omit hr hn in
theorem dictPattern (hb : n ≤ rules.bound) (hb' : n ≤ rules'.bound) :
    Tandem H g (.before .leftBrace) n (dictPattern rules) (dictPattern rules') (fun _ => .within)
      (fun _ => n - 1) := by
  refine .andThen .advance <| .bindEq (.repeatEq .within (by omega) (by omega) fun parts k hk => ?_)
    fun parts => .andThen (.consumeClose ..) <| .pure fun _ => .dictPattern
  refine .listEnds (.stop fun _ => rfl) (.eat (.check ?_ (.itemThenComma fun _ => rfl)) ?_)
  · exact .bindToken .advance fun ht => .itemThenComma fun _ => ht.lexeme ▸ rfl
  · exact .bindEq .fieldBinding fun _ => .itemThenComma fun _ => rfl

omit hr hn in
theorem errorTypePattern (hb : n ≤ rules.bound) (hb' : n ≤ rules'.bound) :
    Tandem H g (.before .identifier) n (errorTypePattern rules) (errorTypePattern rules')
      (fun _ => .within) (fun _ => n - 1) := by
  refine .bindToken .advance fun ht => .eat ?_ (.pure fun _ => ht.lexeme ▸ .errorTypePattern)
  refine .bind (.commaList .rightParen (by omega) (by omega) fun k hk => .consumeName ..) <|
    .andThen (.consume ..) (.pure fun h => ?_)
  rw [ht.lexeme, Strict.eq h.2.1]
  exact .errorTypePattern

theorem tuplePattern : Tandem H g (.before .leftParen) n (tuplePattern rules) (tuplePattern rules')
    (fun _ => .within) (fun _ => n - 1) := by
  have hb := hr.bound
  have hb' := hr.bound'
  exact .andThen .advance <|
    .bind (.commaList .rightParen (by omega) (by omega) fun k hk => hr.pattern (by omega)) <|
      .andThen (.consume ..) (.pure fun h => .tuplePattern (.ofList h.2.1))

omit hr hn in
theorem bindingPattern : Tandem H g (.beforeTwo .identifier .leftParen) n bindingPattern
    bindingPattern (fun _ => .within) (fun _ => n - 1) :=
  .bindToken .advanceTo fun ht => .andThen .advance <| .bindEq (.consumeName ..) fun name =>
    .andThen (.consume ..) (.pure fun _ => ht.lexeme ▸ .bindingPattern)

omit hr hn in
theorem literal?_congr {t t' : Token} (ht : t.Same t') : literal? t' = literal? t := by
  unfold literal?
  rw [ht.kind, ht.lexeme, ht.text]

omit hr hn in
theorem patternNode?_congr {t t' u u' : Token} (ht : t.Same t')
    (hu : isSolid t.kind = true → u.Same u') : patternNode? t' u' = patternNode? t u := by
  unfold patternNode?
  rw [← ht.kind, ← ht.lexeme, literal?_congr ht]
  split
  case h_9 hkind => rw [(hu (by rw [hkind]; rfl)).kind]
  all_goals rfl

/-- The kinds of tokens that a pattern with a node of a kind starts with. -/
def PatternStarts (kind next : Token.Kind) : Tree.Kind → Prop
  | .listPattern => kind = .leftBracket
  | .dictPattern => kind = .leftBrace
  | .tuplePattern => kind = .leftParen
  | .errorTypePattern => kind = .identifier
  | .bindingPattern => kind = .identifier ∧ next = .leftParen
  | _ => True

omit hr hn in
theorem patternNode?_some {t u : Token} {node : Tree.Kind} (h : patternNode? t u = some node) :
    isSolid t.kind = true ∧ node.isRecovery = false ∧ PatternStarts t.kind u.kind node := by
  unfold patternNode? at h
  split at h
  all_goals rename_i hkind
  case h_1 | h_2 | h_3 | h_4 | h_5 | h_6 | h_7 | h_8 =>
    cases h
    rw [hkind]
    exact ⟨rfl, rfl, by trivial⟩
  case h_9 =>
    rw [hkind]
    split at h
    · cases h
      exact ⟨rfl, rfl, rfl⟩
    split at h
    next hparen =>
      cases h
      exact ⟨rfl, rfl, rfl, eq_of_beq hparen⟩
    · cases h
      exact ⟨rfl, rfl, trivial⟩
  case h_10 =>
    have hsolid : (t.kind.isPrimitiveType && t.kind != .kwNil || (literal? t).isSome) = true →
        isSolid t.kind = true := by
      intro hstart
      rw [isSolid_iff]
      constructor <;> (intro heq; simp [literal?, heq, Token.Kind.isPrimitiveType] at hstart)
    split at h
    next hprimitive =>
      cases h
      exact ⟨hsolid (by rw [hprimitive, Bool.true_or]), rfl, trivial⟩
    split at h
    next hliteral =>
      cases h
      exact ⟨hsolid (by rw [hliteral, Bool.or_true]), rfl, trivial⟩
    · cases h

theorem patternOf {kind next : Token.Kind} {node : Tree.Kind} {t t' : Token} (ht : t.Same t')
    (hkind : isSolid kind = true) (hstarts : PatternStarts kind next node) :
    Tandem H g (.beforeTwo kind next) n (patternOf rules node t) (patternOf rules' node t')
      (fun _ => .within) (fun _ => n - 1) := by
  have hb := hr.bound
  have hb' := hr.bound'
  unfold Grammar.patternOf
  rw [literal?_congr ht]
  split
  · exact .andThen (.advance hkind) (.bindEq (.consumeName ..) fun _ => .pure fun _ => .valuePattern)
  · exact .andThen (.advance hkind) (.bindEq (.consumeName ..) fun _ => .pure fun _ => .errorPattern)
  · obtain rfl := hstarts
    exact (errorTypePattern (by omega) (by omega)).fromSpot
  · exact .andThen (.advance hkind) (.pure fun _ => .wildcardPattern)
  · obtain rfl := hstarts
    exact (listPattern hr hn).fromSpot
  · obtain rfl := hstarts
    exact (dictPattern (by omega) (by omega)).fromSpot
  · obtain rfl := hstarts
    exact (tuplePattern hr hn).fromSpot
  · obtain ⟨rfl, rfl⟩ := hstarts
    exact bindingPattern
  · exact .bindToken (.advance hkind) fun h => .pure fun _ => h.lexeme ▸ .identifierPattern
  · exact .andThen (.advance hkind) (.pure fun _ => .literalPattern)

theorem patternRule : Tandem H g .within n (patternRule rules) (patternRule rules')
    (fun _ => .inner) (fun _ => n - 1) := by
  refine .startPos fun start line start' line' => .peekTwo fun kind t t' u u' hkind ht hu => ?_
  rw [patternNode?_congr ht hu]
  split
  · exact .fail _
  · exact .checkpoint fun c c' => .bind ((typeWith hr hn false).fromSpot) <|
      .andThen (.inNodeAt (.value fun _ => rfl)) <| .spanFrom fun _ _ => .pure fun h =>
        .pattern (.typePattern h.2)
  next node _ hnode =>
    obtain ⟨hsolid, hsound, hstarts⟩ := patternNode?_some hnode
    rw [hkind] at hsolid hstarts
    exact .bind (.inNode (patternOf hr hn ht hsolid hstarts) hsound) <|
      .spanFrom fun _ _ => .pure fun h => .pattern h.2

/-! ## Bodies -/

omit hn in
theorem nextDeclaration (hn : n ≤ cap) : Tandem H g .within n (nextDeclaration rules)
    (nextDeclaration rules') (fun _ => .any) (fun _ => n - 1) :=
  .unlessStuck fun _ hk => hr.recovered (by omega)

omit hn in
/-- The declarations of a body, and the brace behind them. -/
theorem declarations (hn : n ≤ cap) (description description' : String) :
    Tandem H g σ n
      (declarations rules >>= fun stmts => Grammar.closeBlock description >>= fun _ => Pure.pure stmts)
      (declarations rules' >>= fun stmts =>
        Grammar.closeBlock description' >>= fun _ => Pure.pure stmts)
      (fun _ => .within) (fun _ => n - 1) := by
  have hb := hr.bound
  have hb' := hr.bound'
  simp only [Grammar.declarations, bind_assoc, pure_bind]
  refine .untilEnd (by omega) (by omega) (fun _ => .nil) (fun k hk => ?_)
    (fun _ _ _ _ hend => exec_bodyEnds _ _ hend) ?_ fun _ => ?_
  · refine .bodyEnds (.stop And.right) (.bind (nextDeclaration hr (by omega)) (.again fun h => ?_))
    cases h.2 with
    | none => exact h.1.2
    | some hstmt => exact .cons hstmt h.1.2
  · exact .andThen (.closeBlock ..) (.pure fun h => h.2.reverse)
  · exact (Rejects.closeBlock (by decide) (by decide) _).bind fun _ => .pure _

omit hn in
theorem blockBody (hn : n ≤ cap) {brace brace' : Token} {kind kind' : String} :
    Tandem H g σ n (blockBody rules brace kind) (blockBody rules' brace' kind') (fun _ => .within)
      (fun _ => n - 1) :=
  .bind (.inBody (.deeper (declarations hr hn ..))) <| .spanFrom fun _ _ =>
    .pure fun h => .block (.ofList h.2)

theorem block {kind kind' description description' : String} :
    Tandem H g σ n (block rules kind description) (block rules' kind' description')
      (fun _ => .within) (fun _ => n - 1) :=
  .inNode <| .bind (.consume ..) <|
    (blockBody hr (by omega)).loosen (fun _ => rfl) fun _ => by omega

/-! ## Parameters and variables -/

theorem parameter : Tandem H g σ n (parameter rules) (parameter rules') (fun _ => .inner)
    (fun _ => n - 1) := by
  refine .startPos fun _ _ _ _ => .bind (.inNode (.bindEq (.consumeName ..) fun name =>
    .bind (.after (hr.type (by omega))) <| .bind (.after (hr.expression (by omega) |>.fromSpot))
      (.value fun h => ?_))) fun {r r'} => ?_
  · exact ⟨rfl, h.1.2, h.2⟩
  · obtain ⟨name, type, value⟩ := r
    obtain ⟨name', type', value'⟩ := r'
    refine .spanFrom fun _ _ => .pure fun ⟨_, hname, htype, hvalue⟩ => ?_
    obtain rfl : name = name' := hname
    exact .param (.ofOption htype) (.ofOption hvalue)

omit hr hn in
theorem isOptional_congr {p p' : Param} (h : Agree p p') : p.isOptional = p'.isOptional := by
  cases h with
  | param htype hvalue =>
    have hsome : ∀ {e e' : Option Expr}, Same (.option .expr) e e' → e.isSome = e'.isSome := by
      intro e e' h
      cases h <;> rfl
    have hany : ∀ {t t' : Option TypeExpr}, Same (.option .type) t t' →
        t.any (·.optional) = t'.any (·.optional) := by
      intro t t' h
      cases h with
      | none => rfl
      | some h =>
        cases h
        rfl
    rw [Param.isOptional, Param.isOptional, hsome hvalue, hany htype]

theorem parameters : Tandem H g σ n (parameters rules) (parameters rules') (fun _ => .within)
    (fun _ => n - 1) := by
  have hb := hr.bound
  have hb' := hr.bound'
  refine .inNode <| .andThen (.consume ..) <| .checkThen .inner (.value fun _ => .nil)
    (.commaSeparated (by omega) (by omega) fun k hk => parameter hr (by omega)) <|
    .andThen (.consume ..) <| .pure fun h => ⟨?_, ?_⟩
  · exact h.2.filter fun hp => congrArg not (isOptional_congr hp)
  · exact h.2.filter isOptional_congr

theorem varDeclaration (mods : Modifiers) :
    Tandem H g .within n (varDeclaration rules mods) (varDeclaration rules' mods) (fun _ => .any)
      (fun _ => n - 1) := by
  refine .andThen .eatOptional <| .bindEq (.consumeName ..) fun name => .andThen (.describe ..) <|
    .bind (.after (hr.type (by omega))) <| .bind (.after (hr.expression (by omega) |>.fromSpot)) <|
      .andThen .eatOptional <| .pure fun h => .varDecl (.ofOption h.1.2) (.ofOption h.2)

end

end Tandem

end LimitSyntax.Grammar
