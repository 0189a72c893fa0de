import LimitSyntax.Proofs.Sparing

/-!
# No bound is met: types, patterns and bodies

The rules for types and patterns, and the parts that expressions, statements and declarations share,
call other rules and repeat their loops only behind a token.
-/

namespace LimitSyntax.Grammar

open Ast

/-! ## What the end does not start -/

theorem namesField_eof {t : Token} (h : t.kind = .eof) : namesField t = false := by
  rw [namesField, h]
  rfl

theorem typeNode?_eof {first : Token} (h : first.kind = .eof) (second : Token) :
    typeNode? first second = none := by
  rw [typeNode?, h]
  rfl

theorem literal?_eof {t : Token} (h : t.kind = .eof) : literal? t = none := by
  rw [literal?, h]

theorem patternNode?_eof {first : Token} (h : first.kind = .eof) (second : Token) :
    patternNode? first second = none := by
  simp only [patternNode?, h, literal?_eof h]
  rfl

namespace Sparing

section
variable {rules : Rules} {n N : Nat} (hr : rules.Sparing N)
include hr

/-! ## Types -/

theorem listType (hn : n ≤ N) : Sparing NotAtEnd n (listType rules) fun _ => true :=
  .past .advance fun _ _ _ => .look (.checkAt 0 _) fun _ =>
    .branch (c := fun _ => false) .pure (.map (hr.call .type)) fun _ => .bind (.consume ..) fun _ =>
      .pure

theorem tupleType (hn : n ≤ N) : Sparing NotAtEnd n (tupleType rules) fun _ => true := by
  refine .look .startPos fun ⟨start, line⟩ => .past .advance fun _ _ _ =>
    .bind (.commaList hr (hr.call .type)) fun ⟨members, comma⟩ => .bind (.consume ..) fun _ => ?_
  split
  · exact .pure
  · exact .look (.spanFrom _) fun _ => .pure

theorem dictType (hn : n ≤ N) : Sparing NotAtEnd n (dictType rules) fun _ => true :=
  .past .advance fun _ _ _ => .bind (hr.call .basicType) fun _ => .bind (.consume ..) fun _ =>
    .bind (hr.call .type) fun _ => .bind (.consumeClose ..) fun _ => .pure

omit hr in
theorem typeFieldName : Sparing Anywhere n typeFieldName fun _ => true := by
  have hread : ∀ {g : Token → String}, Sparing NotAtEnd n (do return g (← Grammar.advance))
      fun _ => true := .past .advance fun _ _ _ => .pure
  refine .peek fun t _ => .ite (fun hstring => ?_) fun _ => .ite (fun hname => ?_) fun _ => .fail _
  · exact hread.sure (by rw [eq_of_beq hstring]; decide)
  · refine hread.sure fun hend => ?_
    rw [namesField_eof hend] at hname
    cases hname

theorem recordPart (hn : n ≤ N) (parts : RecordParts) :
    Sparing Anywhere n (recordPart rules parts) fun _ => true := by
  have hrest : ∀ {κ k} (parts : RecordParts),
      Sparing (Before κ) k (do let _ ← Grammar.eat .comma; return parts) fun _ => false :=
    fun _ => .bind (.eatIfAny _) fun _ => .pure
  refine .eat (fun _ _ => ?_) (.past .typeFieldName fun _ _ _ => ?_)
  · exact .check (.bind .advanceIfAny fun _ => .given (hrest _)) (.given (hrest _))
  · exact .bind (.consume ..) fun _ => .bind (hr.call .type) fun _ => .given (hrest _)

theorem recordType (hn : n ≤ N) (start line : Nat) :
    Sparing NotAtEnd n (recordType rules start line) fun _ => true := by
  refine .past .advance fun k hk _ => .bind (.loop hr (fun parts => ?_) _) fun _ =>
    .bind (.consumeClose ..) fun _ => .look (.spanFrom _) fun _ => .pure
  exact .listEnds (.past (.here (recordPart hr (by omega) parts)) fun _ _ _ => .pure)

omit hr in
theorem Looks.startsWithParamName : Looks startsWithParamName :=
  .bind (.checkAt 0 _) fun _ => .bind (.checkAt 1 _) fun _ => .bind (.checkAt 1 _) fun _ =>
    .bind (.checkAt 2 _) fun _ => .pure _

omit hr in
theorem notAtEnd_of_startsWithParamName (i : Input) (s : State)
    (h : exec startsWithParamName i s = (.ok true, s)) : NotAtEnd i s := by
  have hexec : ∃ b, exec startsWithParamName i s =
      (.ok ((s.rest[0]?.getD i.eof).kind == .identifier && b), s) := ⟨_, rfl⟩
  obtain ⟨b, hexec⟩ := hexec
  rw [h, Prod.mk.injEq, Except.ok.injEq] at hexec
  have hname : (s.rest[0]?.getD i.eof).kind = .identifier :=
    eq_of_beq (Bool.and_eq_true_iff.1 hexec.1.symm).1
  intro hend
  rw [hname] at hend
  cases hend

theorem typeParam (hn : n < N) : Sparing Anywhere n (typeParam rules) fun _ => false := by
  refine .inNode _ (.lookFor .startsWithParamName notAtEnd_of_startsWithParamName
    (.taking fun t => ?_) (.bind (hr.call .type) fun _ => .pure))
  exact .holding (.eatIfAny _) fun _ => .holding (.consume ..) fun _ => .ite
    (fun _ => .bind (.reportTaken t _) fun _ => .bind (hr.call .type) fun _ => .pure)
    fun _ => .bind (.here (hr.call .type)) fun _ => .pure

theorem typeParams (hn : n < N) : Sparing Anywhere n (typeParams rules) fun _ => false :=
  .bind (.commaList hr (.typeParam hr hn)) fun ⟨_, _⟩ => .bind (.consume ..) fun _ => .pure

theorem functionType (hn : n ≤ N) : Sparing NotAtEnd n (functionType rules) fun _ => true :=
  .past .advance fun _ _ _ => .bind (.consume ..) fun _ => .bind (.typeParams hr (by omega)) fun _ =>
    .eat (fun _ _ => .bind (hr.call .type) fun _ => .pure) (.look .previous fun _ => .given .pure)

theorem keywordFunctionType (hn : n ≤ N) :
    Sparing NotAtEnd n (keywordFunctionType rules) fun _ => true :=
  .past .advance fun _ _ _ => .bind (.eatIfAny _) fun _ =>
    .branch (.typeParams hr (by omega)) .pure fun _ =>
      .bind (.after fun _ _ => hr.call .basicType) fun _ => .pure

theorem simpleType (hn : n ≤ N) (kind : Token.Kind) :
    Sparing NotAtEnd n (simpleType rules kind) fun _ => true := by
  unfold Grammar.simpleType
  split
  · exact .listType hr hn
  · exact .past .advance fun _ _ _ => .pure
  · exact .past .advance fun _ _ _ => .pure
  · exact .dictType hr hn
  · exact .past .advance fun _ _ _ => .pure
  · exact .functionType hr hn
  · exact .keywordFunctionType hr hn
  all_goals exact .past .advance fun _ _ _ => .pure

theorem errorTypes (hn : n ≤ N) : Sparing Anywhere n (errorTypes rules) fun _ => false := by
  refine .bind .advanceIfAny fun _ => .loop hr (fun names => ?_) _
  exact .whether (.eatBefore _) (fun _ _ => .bind .advanceIfAny fun _ => .pure) .pure

theorem typeSuffix (hn : n ≤ N) (t : TypeExpr) :
    Sparing Anywhere n (typeSuffix rules t) fun _ => false :=
  .eat (fun _ _ => .check (.bind (.here (.errorTypes hr (by omega))) fun _ => .pure) .pure) .pure

theorem basicTypeRule (hn : n ≤ N) : Sparing Anywhere n (basicTypeRule rules) fun _ => false := by
  refine .look .startPos fun ⟨start, line⟩ => .peek fun first _ => .look (.peekAt 1) fun second => ?_
  split
  next => exact .fail _
  next node hnode =>
    have hfirst : first.kind ≠ .eof := by
      intro hend
      rw [typeNode?_eof hend] at hnode
      cases hnode
    refine .sure (.bind (c := fun _ => false) (.inNode _ ?_) fun _ => .look (.spanFrom _) fun _ =>
      .pure) hfirst
    split
    · exact .bind (.tupleType hr hn) fun t => .typeSuffix hr hn t
    · exact .bind (.recordType hr hn start line) fun t => .typeSuffix hr hn t
    · exact .bind (.simpleType hr hn first.kind) fun _ => .look (.spanFrom _) fun _ =>
        .given (.typeSuffix hr hn _)

theorem typeMembers (hn : n ≤ N) (separator : Token.Kind)
    (hseparator : autoParam (separator ≠ .eof) Rat.reduced._autoParam) (first : TypeExpr) :
    Sparing Anywhere n (typeMembers rules separator first) fun _ => false := by
  refine .bind (.loop hr (fun members => ?_) _) fun _ => .pure
  exact .eat (fun _ _ => .bind (.basicTypeRule hr (by omega)) fun _ => .pure) .pure hseparator

theorem typeWith (hn : n ≤ N) (refinable : Bool) :
    Sparing Anywhere n (typeWith rules refinable) fun _ => false := by
  refine .look .checkpoint fun c => .look .startPos fun ⟨start, line⟩ =>
    .bind (.basicTypeRule hr hn) fun first => .peek fun t _ => ?_
  split
  next =>
    exact .bind (.inNodeAt c _ (.here (.typeMembers hr hn .pipe (by decide) first))) fun _ =>
      .look (.spanFrom _) fun _ => .pure
  next =>
    exact .bind (.inNodeAt c _ (.here (.typeMembers hr hn .kwAnd (by decide) first))) fun _ =>
      .look (.spanFrom _) fun _ => .pure
  next hwhere =>
    have hcondition : Sparing NotAtEnd n (do let _ ← Grammar.advance; rules.call .expression)
        fun _ => false := .past .advance fun _ _ _ => hr.call .expression
    refine .ite (fun _ => .bind (.inNodeAt c _ (hcondition.sure ?_)) fun _ =>
      .look (.spanFrom _) fun _ => .pure) fun _ => .pure
    rw [hwhere]
    decide
  next => exact .pure

/-! ## Patterns -/

theorem listPattern (hn : n ≤ N) : Sparing NotAtEnd n (listPattern rules) fun _ => true := by
  refine .past .advance fun _ _ _ => .bind (.loop hr (fun parts => ?_) _) fun _ =>
    .bind (.consume ..) fun _ => .pure
  have hrest : ∀ {κ k} (parts : ListPatternParts),
      Sparing (Before κ) k (do return (parts, ← Grammar.eat .comma)) Prod.snd :=
    fun _ => .eat (fun _ _ => .pure) .pure
  exact .listEnds (.eat (fun _ _ => .bind (.consumeName _) fun _ => .given (hrest _).any)
    (.bind (.here (hr.call .pattern)) fun _ => .given (hrest _)))

omit hr in
theorem fieldBinding : Sparing Anywhere n fieldBinding fun _ => true :=
  .past (.consumeName _) fun _ _ _ => .bind (.after fun _ _ => .consumeName _) fun _ => .pure

theorem dictPattern (hn : n ≤ N) : Sparing NotAtEnd n (dictPattern rules) fun _ => true := by
  refine .past .advance fun _ _ _ => .bind (.loop hr (fun parts => ?_) _) fun _ =>
    .bind (.consumeClose ..) fun _ => .pure
  have hrest : ∀ {κ k} (parts : DictPatternParts),
      Sparing (Before κ) k (do return (parts, ← Grammar.eat .comma)) Prod.snd :=
    fun _ => .eat (fun _ _ => .pure) .pure
  exact .listEnds (.eat
    (fun _ _ => .check (.bind .advanceIfAny fun _ => .given (hrest _).any) (.given (hrest _).any))
    (.bind (.here .fieldBinding) fun _ => .given (hrest _)))

theorem errorTypePattern (hn : n ≤ N) :
    Sparing NotAtEnd n (errorTypePattern rules) fun _ => true :=
  .past .advance fun _ _ _ => .eat
    (fun _ _ => .bind (.commaList hr (.consumeName _)) fun ⟨_, _⟩ => .bind (.consume ..) fun _ =>
      .pure) .pure

theorem tuplePattern (hn : n ≤ N) : Sparing NotAtEnd n (tuplePattern rules) fun _ => true :=
  .past .advance fun _ _ _ => .bind (.commaList hr (hr.call .pattern)) fun ⟨_, _⟩ =>
    .bind (.consume ..) fun _ => .pure

omit hr in
theorem bindingPattern : Sparing NotAtEnd n bindingPattern fun _ => true :=
  .past .advance fun _ _ _ => .bind .advanceIfAny fun _ => .bind (.consumeName _) fun _ =>
    .bind (.consume ..) fun _ => .pure

theorem patternOf (hn : n ≤ N) (node : Tree.Kind) (first : Token) :
    Sparing NotAtEnd n (patternOf rules node first) fun _ => true := by
  unfold Grammar.patternOf
  split
  · exact .past .advance fun _ _ _ => .bind (.consumeName _) fun _ => .pure
  · exact .past .advance fun _ _ _ => .bind (.consumeName _) fun _ => .pure
  · exact .errorTypePattern hr hn
  · exact .past .advance fun _ _ _ => .pure
  · exact .listPattern hr hn
  · exact .dictPattern hr hn
  · exact .tuplePattern hr hn
  · exact .bindingPattern
  · exact .past .advance fun _ _ _ => .pure
  · exact .past .advance fun _ _ _ => .pure

theorem patternRule (hn : n ≤ N) : Sparing Anywhere n (patternRule rules) fun _ => false := by
  refine .look .startPos fun ⟨start, line⟩ => .peek fun first _ => .look (.peekAt 1) fun second => ?_
  split
  next => exact .fail _
  next =>
    exact .look .checkpoint fun c => .bind (.here (.typeWith hr hn false)) fun _ =>
      .bind (.inNodeAt c _ (.pure (c := fun _ => false))) fun _ => .look (.spanFrom _) fun _ =>
        .pure
  next node _ hnode =>
    have hfirst : first.kind ≠ .eof := by
      intro hend
      rw [patternNode?_eof hend] at hnode
      cases hnode
    exact .sure (.bind (.inNode _ (.patternOf hr hn node first)) fun _ => .look (.spanFrom _) fun _ =>
      .pure) hfirst

/-! ## Bodies, parameters and variables -/

/-- A declaration inside a body is read, or a token is skipped. -/
theorem nextDeclaration (hn : n < N) :
    Sparing (Before fun k => k ≠ .eof ∧ k ≠ .rightBrace) n (nextDeclaration rules) fun _ => true :=
  .unlessStuck (hr.call .recovered)

/-- A turn that goes on has read a declaration, or skipped a token. -/
theorem bodyTurn (hn : n < N) (stmts : List Stmt) :
    Sparing Anywhere n (bodyTurn rules stmts) Prod.snd :=
  .bodyEnds (.past (.nextDeclaration hr hn) fun _ _ _ => .pure)

theorem declarations (hn : n < N) : Sparing Anywhere n (declarations rules) fun _ => false :=
  .bind (.loop hr (.bodyTurn hr hn) _) fun _ => .pure

theorem blockBody (hn : n < N) (brace : Token) (kind : String) :
    Sparing Anywhere n (blockBody rules brace kind) fun _ => false :=
  .bind (.inBody kind brace (.deeper (.bind (.declarations hr hn) fun _ =>
    .bind (.closeBlock _) fun _ => .pure (c := fun _ => false)))) fun _ =>
      .look (.spanFrom _) fun _ => .pure

theorem block (hn : n ≤ N) (kind description : String) :
    Sparing Anywhere n (block rules kind description) fun _ => true :=
  .inNode _ (.past (.consume ..) fun _ _ brace => .blockBody hr (by omega) brace kind)

theorem parameter (hn : n ≤ N) : Sparing Anywhere n (parameter rules) fun _ => true := by
  refine .look .startPos fun ⟨start, line⟩ => .past (.inNode _ (.past (.consumeName _)
    fun _ _ _ => ?_)) fun _ _ ⟨_, _, _⟩ => .look (.spanFrom _) fun _ => .pure
  exact .bind (.after fun _ _ => hr.call .type) fun _ =>
    .bind (.after fun _ _ => hr.call .expression) fun _ => .pure

theorem parameters (hn : n ≤ N) : Sparing Anywhere n (parameters rules) fun _ => true :=
  .inNode _ (.past (.consume ..) fun _ _ _ => .look (.checkAt 0 _) fun _ =>
    .branch (c := fun _ => false) .pure (.commaSeparated hr (.parameter hr (by omega))) fun _ =>
      .bind (.consume ..) fun _ => .pure)

theorem varDeclaration (hn : n ≤ N) (mods : Modifiers) :
    Sparing Anywhere n (varDeclaration rules mods) fun _ => true :=
  .bind (.eatIfAny _) fun _ => .past (.consumeName _) fun _ _ _ => .bind (.describe _) fun _ =>
    .bind (.after fun _ _ => hr.call .type) fun _ =>
      .bind (.after fun _ _ => hr.call .expression) fun _ => .bind (.eatIfAny _) fun _ => .pure

end

end Sparing

end LimitSyntax.Grammar
