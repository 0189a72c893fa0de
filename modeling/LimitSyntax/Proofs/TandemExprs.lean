import LimitSyntax.Proofs.TandemTypes

/-!
# In tandem: expressions

The rules for expressions run alike in parses that are abreast. An expression may end at the seam
only if its last token is the semicolon of a statement inside it, and there only if the token at the
seam does not go on with an expression.
-/

namespace LimitSyntax.Grammar.Tandem

open Ast

section
variable {g : Pair} {cap : Nat} {rules rules' : Rules} {H : Prop} {n : Nat} {σ : Spot}

theorem exprFrom {kind kind' : ExprKind} {start line start' line' : Nat} (h : H → Agree kind kind') :
    Tandem H g σ n (exprFrom kind start line) (exprFrom kind' start' line') (fun _ => σ)
      (fun _ => n) :=
  .spanFrom fun _ _ => .value fun hH => .expr (h hH)

/-- An expression with a node of its own. -/
theorem exprNode {ρ : Spot} {k : Nat} {node : Tree.Kind} {p q : Parse ExprKind}
    {start line start' line' : Nat} (hp : Tandem H g σ n p q (fun _ => ρ) (fun _ => k))
    (hnode : autoParam (node.isRecovery = false) Std.Slice.Self.eq._autoParam) :
    Tandem H g σ n (do let kind ← Grammar.inNode node p; Grammar.exprFrom kind start line)
      (do let kind ← Grammar.inNode node q; Grammar.exprFrom kind start' line') (fun _ => ρ)
      (fun _ => k) :=
  .bind (.inNode hp hnode) (exprFrom And.right)

variable (hr : rules.InTandem g cap rules') (hn : n ≤ cap + 1)
include hr hn

/-! ## Arguments -/

instance : Comparable Argument where
  Agree
    | .positional e, .positional e' => Agree e e'
    | .named name e, .named name' e' => name = name' ∧ Agree e e'
    | _, _ => False

omit hn in
theorem argument (hn : n ≤ cap) : Tandem H g .within n (argument rules) (argument rules')
    (fun _ => .inner) (fun _ => n - 1) := by
  refine .checkTwo (.bindToken .advanceTo fun ht => .andThen .advance <|
    .bind ((hr.expression (by omega)).fromSpot) <| .pure fun h => ⟨ht.lexeme, h.2⟩) ?_
  exact .bind ((hr.expression hn).fromSpot) (.pure fun h => h.2)

theorem callArguments : Tandem H g (.before .leftParen) n (callArguments rules)
    (callArguments rules') (fun _ => .within) (fun _ => n - 1) := by
  have hb := hr.bound
  have hb' := hr.bound'
  refine .inNode <| .andThen .advance <| .checkThen .inner (.value fun _ => .nil)
    (.commaSeparated (by omega) (by omega) fun k hk => argument hr (by omega)) <|
    .andThen (.consume ..) <| .pure fun h => ⟨?_, ?_⟩
  · refine List.rel_filterMap (fun a a' ha => ?_) h.2
    cases a <;> cases a'
    · exact .some ha
    · cases ha
    · cases ha
    · exact .none
  · refine List.rel_filterMap (fun a a' ha => ?_) h.2
    cases a <;> cases a'
    · exact .none
    · cases ha
    · cases ha
    · exact .some ha

theorem arguments : Tandem H g (.before .leftParen) n (arguments rules) (arguments rules')
    (fun _ => .within) (fun _ => n - 1) := by
  have hb := hr.bound
  have hb' := hr.bound'
  exact .inNode <| .andThen .advance <| .checkThen .inner (.value fun _ => .nil)
    (.commaSeparated (by omega) (by omega) fun k hk => (hr.expression (by omega)).fromSpot) <|
    .andThen (.consume ..) <| .pure And.right

/-! ## Primary expressions -/

theorem interpolatedString : Tandem H g (.before .interpolationStart) n (interpolatedString rules)
    (interpolatedString rules') (fun _ => .within) (fun _ => n - 1) := by
  have hb := hr.bound
  have hb' := hr.bound'
  have hpart : ∀ {G : Prop} {k l : Nat} {parts parts' : List StringPart}, k ≤ n →
      (G → Agree parts parts') →
      Tandem G g (.before .interpolationStart) k
        (do
          let text := (← Grammar.advance).text
          let e ← rules.call .expression
          Grammar.consumeClose .interpolationEnd "Expected '\x7d' after interpolation expression."
          return (StringPart.expr e :: .str text :: parts, true))
        (do
          let text := (← Grammar.advance).text
          let e ← rules'.call .expression
          Grammar.consumeClose .interpolationEnd "Expected '\x7d' after interpolation expression."
          return (StringPart.expr e :: .str text :: parts', true))
        (ifMore .within .within) (ifMore (k - 1) l) := by
    intro G k l parts parts' hk hparts
    refine .bindToken .advance fun ht => .bind ((hr.expression (by omega)).fromSpot) <|
      .andThen (.consumeClose ..) <| .again fun h => .cons (.exprPart h.2) (.cons ?_ (hparts h.1))
    rw [ht.text]
    exact .strPart
  have hdone : ∀ {G : Prop} {k : Nat} {parts parts' : List StringPart}, k ≤ n - 1 →
      (G → Agree parts parts') → Tandem G g .within k
        (Pure.pure parts >>= fun parts => Pure.pure (ExprKind.interpolated parts.reverse))
        (Pure.pure parts' >>= fun parts => Pure.pure (ExprKind.interpolated parts.reverse))
        (fun _ => .within) (fun _ => n - 1) :=
    fun hk h => .bind (.value h) (.pure fun h => .interpolatedExpr (.ofList h.2.reverse))
  refine .bind (.repeatFirst .within .within (by omega) (by omega)
    (.checkSure (hpart le_rfl fun _ => .nil) (.pure _))
    fun k hk => .check (hpart hk And.right) (.stop And.right)) (.check ?_ (hdone le_rfl And.right))
  refine .bindToken .advance fun ht => hdone (by omega) fun h => ?_
  rw [ht.text]
  exact .cons .strPart h.2

theorem objectField : Tandem H g σ n (objectField rules) (objectField rules') (fun _ => .inner)
    (fun _ => n - 1) :=
  .bindEq (.consumeName ..) fun _ => .andThen (.consume ..) <|
    .bind ((hr.expression (by omega)).fromSpot) <| .pure fun h => ⟨rfl, h.2⟩

omit hr hn in
theorem named {fields fields' : List (String × Expr)} (h : Agree fields fields') :
    Same (.list .named) fields fields' := by
  refine .ofList (List.Forall₂.imp (fun x y hxy => ?_) h)
  obtain ⟨name, e⟩ := x
  obtain ⟨name', e'⟩ := y
  obtain ⟨rfl, he⟩ : name = name' ∧ Same .expr e e' := hxy
  exact .named he

theorem objectLiteral : Tandem H g (.beforeTwo .identifier .leftBrace) n (objectLiteral rules)
    (objectLiteral rules') (fun _ => .within) (fun _ => n - 1) := by
  have hb := hr.bound
  have hb' := hr.bound'
  refine .bindToken .advanceTo fun ht => .andThen .advance <|
    .bind (.commaList .rightBrace (by omega) (by omega) fun k hk => objectField hr (by omega)) <|
      .andThen (.consumeClose ..) <| .pure fun h => ?_
  rw [ht.lexeme]
  exact .objectExpr (named h.2.1)

theorem errorValue : Tandem H g (.before .kwErr) n (errorValue rules) (errorValue rules')
    (fun _ => .within) (fun _ => n - 1) :=
  .andThen .advance <| .andThen (.consume ..) <| .bindEq (.consumeName ..) fun _ =>
    .checkThen .within (arguments hr (by omega)) (.value fun _ => .nil) <|
      .andThen (.consume ..) <| .pure fun h => .errorValueExpr (.ofList h.2)

theorem okValue : Tandem H g (.before .kwOk) n (okValue rules) (okValue rules')
    (fun _ => .within) (fun _ => n - 1) :=
  .andThen .advance <| .andThen (.consume ..) <| .bind ((hr.expression (by omega)).fromSpot) <|
    .andThen (.consume ..) <| .pure fun h => .okValueExpr h.2

theorem lambda : Tandem H g (.before .kwFn) n (lambda rules) (lambda rules')
    (fun _ => .within) (fun _ => n - 1) :=
  .andThen .advance <| .demand _ <| .bind (parameters hr (by omega)) <|
    .bind (.after (hr.type (by omega))) <| .bind (block hr (by omega)) <|
      .pure fun ⟨⟨⟨_, hparams⟩, htype⟩, hbody⟩ =>
        .lambdaExpr (.ofList (hparams.1.append hparams.2)) (.ofOption htype) hbody

theorem parenthesized : Tandem H g (.before .leftParen) n (parenthesized rules)
    (parenthesized rules') (fun _ => .within) (fun _ => n - 1) := by
  have hb := hr.bound
  have hb' := hr.bound'
  refine .checkpoint fun c c' => .startPos fun _ _ _ _ => .andThen .advance <| .eat ?_ <|
    .bind ((hr.expression (by omega)).fromSpot) <| .check ?_ ?_
  · exact .andThen (.inNodeAt (.value fun _ => rfl)) <|
      (exprFrom fun _ => .tupleExpr .nil).loosen (fun _ => rfl) fun _ => by omega
  · refine .bind (.inNodeAt (.enter .inner (.bind (.repeatUpTo .inner (by omega) (by omega)
      (fun h => .cons h.2 .nil) fun k hk => .eat ?_ (.stop And.right)) <|
      .andThen (.consume ..) (.value fun h => h.2.reverse)))) <|
      (exprFrom fun h => .tupleExpr (.ofList h.2)).loosen (fun _ => rfl) fun _ => by omega
    exact .check (.stop And.right) <| .bind ((hr.expression (by omega)).fromSpot) <|
      .again fun h => .cons h.2 h.1.2
  · exact .andThen (.inNodeAt (.andThen (.consume ..) (.value fun _ => rfl))) <|
      (exprFrom fun h => .groupingExpr h.2).loosen (fun _ => rfl) fun _ => by omega

theorem listLiteral : Tandem H g (.before .leftBracket) n (listLiteral rules) (listLiteral rules')
    (fun _ => .within) (fun _ => n - 1) := by
  have hb := hr.bound
  have hb' := hr.bound'
  exact .andThen .advance <| .bind (.commaList .rightBracket (by omega) (by omega) fun k hk =>
    (hr.expression (by omega)).fromSpot) <| .andThen (.consume ..) <| .pure fun h =>
      .listExpr (.ofList h.2.1)

omit hn in
theorem dictEntry (hn : n ≤ cap) : Tandem H g .within n (dictEntry rules) (dictEntry rules')
    (fun _ => .inner) (fun _ => n - 1) :=
  .bind ((hr.expression hn).fromSpot) <| .andThen (.consume ..) <|
    .bind ((hr.expression (by omega)).fromSpot) <| .pure fun h => ⟨h.1.2, h.2⟩

theorem dictLiteral : Tandem H g (.before .leftBrace) n (dictLiteral rules) (dictLiteral rules')
    (fun _ => .within) (fun _ => n - 1) := by
  have hb := hr.bound
  have hb' := hr.bound'
  refine .andThen .advance <| .bind (.commaList .rightBrace (by omega) (by omega) fun k hk =>
    dictEntry hr (by omega)) <| .andThen (.consumeClose ..) <| .pure fun h => .dictExpr (.ofList ?_)
  exact List.Forall₂.imp (fun _ _ h => .entry h.1 h.2) h.2.1

theorem primary : Tandem H g .within n (primary rules) (primary rules') (fun _ => .within)
    (fun _ => n - 1) := by
  refine .startPos fun start line start' line' => .peek fun kind t t' hkind hsame => ?_
  rw [literal?_congr hsame, ← hsame.kind, hkind]
  dsimp only
  split
  next value hvalue =>
    have hsolid : isSolid kind = true := by
      rw [isSolid_iff]
      constructor <;> (rintro rfl; simp [literal?, hkind] at hvalue)
    exact exprNode <| .andThen (.advance hsolid) (.pure fun _ => .literalExpr)
  split
  · exact exprNode (interpolatedString hr hn)
  · exact exprNode <| .andThen .advance (.pure fun _ => .selfExpr)
  · exact exprNode <| .andThen .advance (.pure fun _ => .selfExpr)
  · exact exprNode <| .andThen .advance (.pure fun _ => .superExpr)
  · refine .checkNext (exprNode (objectLiteral hr hn)) (exprNode ?_)
    exact .andThen .advance (.pure fun _ => hsame.lexeme ▸ .variableExpr)
  · exact exprNode (errorValue hr hn)
  · exact exprNode (okValue hr hn)
  · exact exprNode (lambda hr hn)
  · exact parenthesized hr hn
  · exact exprNode (listLiteral hr hn)
  · exact exprNode (dictLiteral hr hn)
  · exact .noError (.bind (Alike.noteError _).stepwise fun _ => .giveUp)
  iterate 5
    · exact .rejected (Twin.missingExpr start line).stepwise <|
        (Rejects.reportHere (by decide) _).bind fun _ => .bind (.inNode _ (.pure _)) fun _ => .pure _
  · exact .fail _

/-! ## What follows a primary expression -/

omit hr hn in
theorem tupleIndex {kind : Token.Kind} (hkind : isSolid kind = true) :
    Tandem H g (.before kind) n tupleIndex tupleIndex (fun _ => .within) (fun _ => n - 1) := by
  refine .bindBy Token.Same (fun _ => .rfl) And.left (.advance hkind) fun {t t'} hsame => ?_
  rw [← hsame.kind, ← hsame.lexeme]
  cases t.kind == .intLiteral && (Text.word? t.lexeme).isSome with
  | true => exact .pure fun _ => .expr .literalExpr
  | false => exact .reportAt _ (fun h => h.2.2) fun _ => .pure _

theorem failureHandler : Tandem H g .within n (failureHandler rules) (failureHandler rules')
    (fun _ => .any) (fun _ => n) := by
  have hstatement : ∀ {G : Prop} {k : Nat} {name : Option String}, k ≤ n - 1 →
      Agree name name → Tandem G g .within k
        (Pure.pure name >>= fun name => rules.call .statement >>= fun stmt =>
          Pure.pure (name, some stmt))
        (Pure.pure name >>= fun name => rules'.call .statement >>= fun stmt =>
          Pure.pure (name, some stmt)) (fun _ => .any) (fun _ => n) :=
    fun hk hname => .bind (.value fun _ => hname) <| .bind (hr.statement (by omega)) <|
      .pure fun h => ⟨h.1.2, .some h.2⟩
  refine .eat (.checkTwo ?_ (hstatement le_rfl .none)) (.pure fun _ => ⟨.none, .none⟩)
  refine .bindToken .advance fun ht => ?_
  rw [ht.lexeme]
  exact hstatement (by omega) (.some rfl)

/-- The question mark behind an expression, and what to do if it fails. -/
def failing (rules : Rules) (e : Expr) : Parse ExprKind := do
  let _ ← Grammar.advance
  let (name, handler) ← Grammar.failureHandler rules
  return .fallible e name handler

/-- The statement that handles a failure may have read the last token before the seam. Then the text
of the left parse ends in the expression that may fail. -/
theorem fallible {c c' : Option Tree.Checkpoint} {e e' : Expr} :
    Tandem (H ∧ Agree e e') g (.before .question) n
      (Grammar.inNodeAt c .fallibleExpr (failing rules e))
      (Grammar.inNodeAt c' .fallibleExpr (failing rules' e')) (fun _ => .inner)
      (fun _ => n - 1) := by
  have hboth : Tandem (H ∧ Agree e e') g (.before .question) n
      (Grammar.inNodeAt c .fallibleExpr (failing rules e))
      (Grammar.inNodeAt c' .fallibleExpr (failing rules' e')) (fun _ => .any) (fun _ => n - 1) := by
    refine .inNodeAt <| .andThen .advance <| .bind (failureHandler hr (by omega)) <|
      .pure fun ⟨h, hname, hstmt⟩ => ?_
    rw [Strict.eq hname]
    exact .fallibleExpr h.2 (.ofOption hstmt)
  have halike : Regular (failing rules e) :=
    .bind .advance fun _ => .bind (Twin.failureHandler hr.lawful).alike fun (_, _) => .pure _
  refine ⟨hboth.stepwise, fun hH s s' hs hσ hlen hfine => ?_⟩
  obtain ⟨a, a', t, t', hexec, hexec', ht, -, hm, hagree⟩ := hboth.meets hH s s' hs hσ hlen hfine
  refine ⟨a, a', t, t', hexec, hexec', ht, fun hseam => ?_, hm, hagree⟩
  by_contra hjoins
  have hsteps := hboth.stepwise g.left s g.eof_left
  rw [hexec] at hfine hsteps
  obtain ⟨htree, hapart⟩ := hfine.2 (by simpa using hjoins)
  -- the question mark has been read, at least
  have hread : t.rest.length < s.rest.length := by
    have hpos := hs.ahead.length_pos
    have hone : s.rest.length ≠ 1 := fun hone => hσ.1 ⟨hseam.1, hone⟩
    have := hseam.2
    omega
  have hend : (t.rest[0]?.getD g.left.eof).kind = .eof := by
    rcases ht.peek with ⟨_, hnot, _⟩ | ⟨_, heof, _⟩
    · exact absurd hseam hnot
    · exact heof
  exact hapart hend (endsIn_inNodeAt halike.framed halike.stepwise g.eof_left hexec
    (hsteps.isSome_tree ▸ htree) hread)

theorem applied? {c c' : Option Tree.Checkpoint} {e e' : Expr} :
    Tandem (H ∧ Agree e e') g .inner n (applied? rules c e) (applied? rules' c' e')
      (fun _ => .inner) (fun r => if r.isSome then n - 1 else n) := by
  have hsome : ∀ {σ : Spot} {p q : Parse ExprKind},
      Tandem (H ∧ Agree e e') g σ n p q (fun _ => .inner) (fun _ => n - 1) →
      Tandem (H ∧ Agree e e') g σ n (some <$> p) (some <$> q) (fun _ => .inner)
        (fun r => if r.isSome then n - 1 else n) := by
    intro σ p q hp
    refine (Tandem.map hp .some).loosen (fun _ => rfl) fun r => ?_
    split
    · exact le_rfl
    · exact Nat.sub_le n 1
  refine .peekKind (fun t t' kind hkind hkind' => ?_) fun t t' heof hmeets => ?_
  · rw [hkind, hkind']
    split
    · exact hsome <| .inNodeAt <| .bind (callArguments hr hn) <| .pure fun h =>
        .callExpr h.1.2 (.ofList h.2.1) (named h.2.2)
    · refine .peekNext fun u u' hu => ?_
      rw [← hu.kind]
      by_cases hnumber : u.kind.isNumber = true
      · rw [if_pos hnumber, if_pos hnumber]
        have hsolid : isSolid u.kind = true := by
          rw [isSolid_iff]
          constructor <;> (intro heq; rw [heq] at hnumber; cases hnumber)
        exact hsome <| .inNodeAt <| .andThen .advanceTo <| .bind (tupleIndex hsolid) <|
          .pure fun h => .indexExpr h.1.2 h.2
      · rw [if_neg hnumber, if_neg hnumber]
        exact hsome <| .inNodeAt <| .andThen .advance <| .bindEq (.consumeName ..) fun _ =>
          .pure fun h => .memberExpr h.2
    · exact hsome <| .inNodeAt <| .andThen .advance <|
        .bind ((hr.expression (by omega)).fromSpot) <| .andThen (.consume ..) <|
          .pure fun h => .indexExpr h.1.2 h.2
    · exact hsome (fallible hr hn)
    · exact .pure (fun _ => .none) rfl le_rfl
  · rw [heof]
    dsimp only
    split
    case h_5 => exact .pure (fun _ => .none) rfl le_rfl
    all_goals
      rename_i hkind
      rw [hkind] at hmeets
      cases hmeets

theorem callRule : Tandem H g .within n (callRule rules) (callRule rules') (fun _ => .inner)
    (fun _ => n - 1) := by
  have hb := hr.bound
  have hb' := hr.bound'
  refine .checkpoint fun c c' => .startPos fun start line start' line' =>
    .bind (primary hr hn) ?_
  refine .enter .inner (.repeatUpTo .inner (by omega) (by omega) And.right fun {e e'} k hk => ?_)
  refine .bind (applied? hr (by omega)) fun {r r'} => .assume ?_ fun ⟨_, h⟩ => ?_
  · cases r with
    | none => exact .pure _
    | some kind => exact .bind (Twin.exprFrom (o := .value) kind start line).stepwise fun _ => .pure _
  · cases h with
    | none => exact .stop (fun h => h.1.2) rfl le_rfl
    | some h => exact .bind (exprFrom fun _ => h) (.again And.right rfl le_rfl)

/-! ## Operators and their operands -/

theorem unaryRule : Tandem H g σ n (unaryRule rules) (unaryRule rules') (fun _ => .inner)
    (fun _ => n - 1) := by
  refine .unlessEnded (.peek fun kind t t' hkind hsame => ?_)
    (.unaryRule hr.lawful rfl (by decide))
  rw [← hsame.kind, hkind]
  split
  · exact (callRule hr hn).fromSpot
  next op hop =>
    have hsolid : isSolid kind = true := by
      rw [isSolid_iff]
      constructor <;> (rintro rfl; cases hop)
    exact .startPos fun _ _ _ _ => .bind (.inNode (.andThen (.advance hsolid)
      ((hr.unary (by omega)).fromSpot))) <|
      (exprFrom fun h => .unaryExpr h.2).loosen (fun _ => rfl) fun _ => by omega

omit hr hn in
theorem binary {left left' right right' : Expr} {op : BinaryOp} (hleft : Agree left left')
    (hright : Agree right right') : Agree (binary left op right) (binary left' op right') :=
  .expr (.binaryExpr hleft hright)

theorem powerRule : Tandem H g σ n (powerRule rules) (powerRule rules') (fun _ => .inner)
    (fun _ => n - 1) :=
  .checkpoint fun _ _ => .bind (unaryRule hr hn) <| .check
    (.bind (.inNodeAt (.andThen .advance ((hr.power (by omega)).fromSpot))) <|
      .pure fun h => binary h.1.2 h.2)
    (.pure And.right)

/-- The operators are never read across the seam. -/
def Inside (op? : Token.Kind → Option BinaryOp) : Prop :=
  ∀ {kind op}, op? kind = some op → isSolid kind = true ∧ Spot.inner.meets kind = false

section
variable {op? : Token.Kind → Option BinaryOp} {operand operand' : Parse Expr}
  (hoperand : ∀ {G : Prop} {ρ : Spot} {k : Nat}, k ≤ cap + 1 →
    Tandem G g ρ k operand operand' (fun _ => .inner) (fun _ => k - 1))
include hoperand

theorem operators (hop : Inside op?) {c c' : Option Tree.Checkpoint} {left left' : Expr} :
    Tandem (H ∧ Agree left left') g .inner n (operators rules op? operand c left)
      (operators rules' op? operand' c' left') (fun _ => .inner) (fun _ => n) := by
  have hb := hr.bound
  have hb' := hr.bound'
  refine .repeatUpTo .inner (by omega) (by omega) And.right fun k hk =>
    .peekKind (fun t t' kind hkind hkind' => ?_) fun t t' heof hmeets => ?_
  · rw [hkind, hkind']
    split
    next op hkind =>
      exact .bind (.inNodeAt (.andThen (.advance (hop hkind).1) (hoperand (by omega)))) <|
        .again fun h => binary h.1.2 h.2
    next => exact .stop And.right
  · have hnone : op? t.kind = none := by
      rw [heof]
      by_contra hne
      obtain ⟨op, hsome⟩ := Option.ne_none_iff_exists'.1 hne
      cases (hop hsome).1
    have hnone' : op? t'.kind = none := by
      by_contra hne
      obtain ⟨op, hsome⟩ := Option.ne_none_iff_exists'.1 hne
      rw [(hop hsome).2] at hmeets
      cases hmeets
    rw [hnone, hnone']
    exact .stop And.right

theorem leftAssociative (hop : Inside op?) :
    Tandem H g σ n (leftAssociative rules op? operand) (leftAssociative rules' op? operand')
      (fun _ => .inner) (fun _ => n - 1) :=
  .checkpoint fun _ _ => .bind (hoperand hn) (operators hr (by omega) hoperand hop)

end

theorem sum : Tandem H g σ n (sum rules) (sum rules') (fun _ => .inner) (fun _ => n - 1) := by
  have hproduct : Inside productOp? := by
    intro kind op h
    unfold productOp? at h
    split at h <;> cases h <;> decide
  have hsum : Inside sumOp? := by
    intro kind op h
    unfold sumOp? at h
    split at h <;> cases h <;> decide
  exact leftAssociative hr hn
    (fun hk => leftAssociative hr hk (fun hk => powerRule hr hk) hproduct) hsum

theorem comparison : Tandem H g σ n (comparison rules) (comparison rules') (fun _ => .inner)
    (fun _ => n - 1) := by
  have hop : Inside comparisonOp? := by
    intro kind op h
    unfold comparisonOp? at h
    split at h <;> cases h <;> decide
  refine .checkpoint fun _ _ => .startPos fun _ _ _ _ => .bind (sum hr hn) <| .check ?_
    (operators hr (by omega) (fun hk => sum hr hk) hop)
  exact .bind (.inNodeAt (.andThen .advance (sum hr (by omega)))) <|
    (exprFrom fun h => .rangeExpr h.1.2 h.2).loosen (fun _ => rfl) fun _ => by omega

theorem disjunction : Tandem H g σ n (disjunction rules) (disjunction rules') (fun _ => .inner)
    (fun _ => n - 1) := by
  have hequality : Inside equalityOp? := by
    intro kind op h
    unfold equalityOp? at h
    split at h <;> cases h <;> decide
  have hand : Inside andOp? := by
    intro kind op h
    unfold andOp? at h
    split at h <;> cases h
    decide
  have hor : Inside orOp? := by
    intro kind op h
    unfold orOp? at h
    split at h <;> cases h
    decide
  exact leftAssociative hr hn (fun hk => leftAssociative hr hk
    (fun hk => leftAssociative hr hk (fun hk => comparison hr hk) hequality) hand) hor

/-! ## Assignments -/

theorem exprRule : Tandem H g σ n (exprRule rules) (exprRule rules') (fun _ => .inner)
    (fun _ => n - 1) := by
  refine .checkpoint fun _ _ => .bind (disjunction hr hn) fun {left left'} => ?_
  refine .peekKind (fun t t' kind hkind hkind' => ?_) fun t t' heof hmeets => ?_
  · rw [hkind, hkind']
    split
    next => exact .pure And.right
    next op hop =>
      have hsolid : isSolid kind = true := by
        rw [isSolid_iff]
        constructor <;> (rintro rfl; cases hop)
      refine .bind (.inNodeAt (.bind (.advance hsolid) <|
        .bind ((hr.expression (by omega)).fromSpot) (.value fun h => ?_))) fun {r r'} => ?_
      · exact ⟨h.1.2, h.2⟩
      obtain ⟨opToken, value⟩ := r
      obtain ⟨opToken', value'⟩ := r'
      refine .assume ?_ fun ⟨⟨_, hleft⟩, hopToken, hvalue⟩ => ?_
      · dsimp only
        split
        · exact .bind (.pure _) fun _ => .pure _
        · exact .bind (Alike.reportAt opToken _).stepwise fun _ => .bind (.pure _) fun _ => .pure _
      · dsimp only
        have htarget := Same.assignTarget? hleft
        generalize Grammar.assignTarget? left = target, Grammar.assignTarget? left' = target'
          at htarget ⊢
        cases htarget with
        | none =>
          exact .reportAt _ (fun h => h.2.1.2) fun _ => .bind (.pure _) fun _ => .pure _
        | some htarget => exact .pure fun _ => .expr (.assignExpr htarget hvalue)
  · rw [heof]
    have hnone : assignOp? t'.kind = none := by
      unfold assignOp?
      split
      case h_7 => rfl
      all_goals
        rename_i hkind
        rw [hkind] at hmeets
        cases hmeets
    rw [hnone]
    exact .pure And.right

end

end LimitSyntax.Grammar.Tandem
