import LimitSyntax.Proofs.TypeRules

/-!
# Lawful rules: expressions and statements

The rules for expressions and statements are lawful. What `print` prints, without parentheses, goes on
over a comma (`Twin.printStatement`). That a target cannot be assigned to is said only behind the
value that would be assigned to it, however much was reported in between (`Twin.exprRule`).
-/

namespace LimitSyntax.Grammar

open Ast

/-! ## Places -/

/-- Behind an assignment its operator has passed. -/
theorem passed_of_assignment {p : Parse Expr} (hp : Stepwise p) {c : Option Tree.Checkpoint}
    {kind : Tree.Kind} {i : Input} {s t : State} {opToken : Token} {value : Expr}
    (heof : i.eof.kind = .eof)
    (hexec : exec (inNodeAt c kind do
      let opToken ← advance
      return (opToken, ← p)) i s = (.ok (opToken, value), t)) : Passed opToken i t := by
  obtain ⟨_, u, hopen, hrest⟩ := exec_bind_eq_ok hexec
  obtain ⟨_, v, hinside, hclose⟩ := exec_bind_eq_ok hrest
  obtain ⟨opToken', x, hadvance, hpair⟩ := exec_bind_eq_ok hinside
  obtain ⟨value', y, hvalue, hdone⟩ := exec_bind_eq_ok hpair
  cases hdone
  cases hclose
  obtain ⟨hnext, -⟩ := yields_advance i u opToken x heof hadvance
  have hread := Stepwise.advance.run heof hadvance
  exact ⟨u, hnext, (hread.trans (hp.run heof hvalue)).tail (.edit v _ .finish)⟩

/-- A value that is read goes unreported. -/
theorem silent_settingValue : Silent settingValue := by
  intro i s a t heof hexec
  have hpeek : exec peek i s = (.ok (i.next s), s) := rfl
  rw [settingValue, exec_bind_ok i hpeek] at hexec
  split at hexec
  iterate 5
    · obtain ⟨token, u, hadvance, hdone⟩ := exec_bind_eq_ok hexec
      cases hdone
      exact Quiet.advance.silent i s token t heof hadvance
  · obtain ⟨_, _, -, hgiveUp⟩ := exec_bind_eq_ok hexec
    cases hgiveUp

/-- Where a statement is read: a block from its brace on, and a conditional from its keyword on. -/
def Fits (node : Tree.Kind) (i : Input) (s : State) : Prop :=
  (node = .blockStatement → (i.next s).kind = .leftBrace) ∧
    (node = .ifStatement → (i.next s).kind = .kwIf)

theorem Facing.fits {first second : Token} {i : Input} {s : State} (h : Facing first i s)
    (concurrent : Bool) : Fits (statementNode concurrent first second) i s := by
  unfold statementNode
  split
  case h_2 hif => exact ⟨nofun, fun _ => h.kind_eq.trans hif⟩
  case h_6 hbrace => exact ⟨fun _ => h.kind_eq.trans hbrace, nofun⟩
  case h_16 =>
    split
    · split <;> exact ⟨nofun, nofun⟩
    · exact ⟨nofun, nofun⟩
  all_goals exact ⟨nofun, nofun⟩

namespace Twin

theorem exprFrom {o : Outlook} (kind : ExprKind) (start line : Nat) :
    Lawful o (exprFrom kind start line) :=
  .bind (.spanFrom _) fun _ => .pure _

/-- An expression that is a node of its own. -/
theorem exprNode {p q : Parse ExprKind} (node : Tree.Kind) (start line : Nat)
    (h : Twin none Anywhere .value id p q) :
    Twin none Anywhere .value id (do Grammar.exprFrom (← Grammar.inNode node p) start line)
      (do Grammar.exprFrom (← Grammar.inNode node q) start line) :=
  .bind (.inNode node h) fun kind => .exprFrom kind start line

/-- A token whose value is known. -/
theorem word {o : Outlook} {α : Type} (a : α) : Lawful o (do let _ ← Grammar.advance; return a) :=
  .bind .advance fun _ => .pure _

section
variable {rules : Rules} (hr : rules.Lawful)
include hr

/-! ## Primary expressions -/

theorem argument : Lawful .within (argument rules) := by
  refine .checkTwo (fun _ _ => .ite
    (.bind .advance fun _ => .bind .advance fun _ => .bind (hr.rule .expression) fun _ => .pure _)
    (.bind (hr.rule .expression) fun _ => .pure _)) (fun _ => rfl) fun g x hx => .inl ?_
  rw [g.close_kind]
  exact (hr.named g hx).bind (hr.alike .expression).stepwise fun _ => .pure _

theorem callArguments : Lawful .value (callArguments rules) :=
  .inNode _ (.bind .advance fun _ => .shut <| .bind (.check _) fun _ =>
    .branch (.pure _) (.commaSeparated rules (.argument hr)) fun _ => .consume fun _ => .pure _)

theorem arguments : Lawful .value (arguments rules) :=
  .inNode _ (.bind .advance fun _ => .shut <| .bind (.check _) fun _ =>
    .branch (.pure _) (.commaSeparated rules (hr.rule .expression)) fun _ =>
      .consume fun _ => .pure _)

theorem interpolatedString : Lawful .value (interpolatedString rules) := by
  refine .bind (.repeatUpTo (fun parts => ?_) ..) fun parts => .bind (.check _) fun _ => .ite
    (.bind .advance fun _ => .bind (.pure _) fun _ => .pure _) (.bind (.pure _) fun _ => .pure _)
  exact .bind (.check _) fun _ => .ite
    (.bind .advance fun _ => .bind (hr.rule .expression) fun _ => .bind (.consumeClose ..) fun _ =>
      .pure _) (.pure _)

theorem objectField : Lawful .value (objectField rules) :=
  .bind (.consumeName _) fun _ => .bind (.consume ..) fun _ => .bind (hr.rule .expression) fun _ =>
    .pure _

theorem objectLiteral : Lawful .value (objectLiteral rules) :=
  .bind .advance fun _ => .bind .advance fun _ => .shut <|
    .bind (.commaList rules _ (objectField hr).inner) fun ⟨_, _⟩ => .consumeClose fun _ => .pure _

theorem errorValue : Lawful .value (errorValue rules) :=
  .bind .advance fun _ => .bind (.consume ..) fun _ => .bind (.consumeName _) fun _ =>
    .bind (.check _) fun _ => .branch (.arguments hr) (.pure _) fun _ =>
      .bind (.consume ..) fun _ => .pure _

theorem okValue : Lawful .value (okValue rules) :=
  .bind .advance fun _ => .bind (.consume ..) fun _ => .bind (hr.rule .expression) fun _ =>
    .bind (.consume ..) fun _ => .pure _

theorem lambda : Lawful .value (lambda rules) :=
  .bind .advance fun _ => .bind (.check _) fun _ => .guarded (d := id) (.fail _)
    (.bind (.parameters hr) fun ⟨_, _⟩ => .bind (.after _ (hr.rule .type)) fun _ =>
      .bind (.block hr ..) fun _ => .pure _)

theorem parenthesized : Lawful .value (parenthesized rules) := by
  refine .bind .checkpoint fun c => .bind .startPos fun ⟨start, line⟩ => .bind .advance fun _ =>
    .bind (.eat _) fun _ => .ite ?_ <| .shut <| .bind (hr.rule .expression) fun first =>
      .bind (.check _) fun _ => .ite ?_ ?_
  · exact .bind (.inNodeAt (e := id) c _ (.pure _)) fun _ => .exprFrom ..
  · refine .andThen (.inNodeAt (e := id) c _ (.bind (.repeatUpTo (fun elements => ?_) ..) fun _ =>
      .consume fun _ => .pure _)) fun _ => .exprFrom ..
    exact .bind (.eat _) fun _ => .ite (.bind (.check _) fun _ =>
      .ite (.pure _) (.bind (hr.rule .expression) fun _ => .pure _)) (.pure _)
  · exact .andThen (.inNodeAt (e := id) c _ (.consume fun _ => .pure _)) fun _ => .exprFrom ..

theorem listLiteral : Lawful .value (listLiteral rules) :=
  .bind .advance fun _ => .shut <| .bind (.commaList rules _ (hr.rule .expression)) fun ⟨_, _⟩ =>
    .consume fun _ => .pure _

theorem dictEntry : Lawful .value (dictEntry rules) :=
  .bind (hr.rule .expression) fun _ => .bind (.consume ..) fun _ =>
    .bind (hr.rule .expression) fun _ => .pure _

theorem dictLiteral : Lawful .value (dictLiteral rules) :=
  .bind .advance fun _ => .shut <| .bind (.commaList rules _ (dictEntry hr).inner) fun ⟨_, _⟩ =>
    .consumeClose fun _ => .pure _

omit hr in
theorem missingExpr (start line : Nat) : Lawful .value (missingExpr start line) :=
  .bind (.reportHere _) fun _ => .bind (.inNode (e := id) _ (.pure _)) fun _ => .pure _

theorem primary : Lawful .value (primary rules) := by
  refine .bind .startPos fun ⟨start, line⟩ => .peek (fun t => ?_) fun g _ => ?_
  · rw [show literal? t.bare = literal? t from rfl, show t.bare.kind = t.kind from rfl]
    dsimp only
    split
    · exact .of (.exprNode _ start line (.word _))
    split
    · exact .of (.exprNode _ start line (.interpolatedString hr))
    · exact .of (.exprNode _ start line (.word _))
    · exact .of (.exprNode _ start line (.word _))
    · exact .of (.exprNode _ start line (.word _))
    · exact .bind (.checkNext _) fun _ => .ite (.exprNode _ start line (.objectLiteral hr))
        (.exprNode _ start line (.word _))
    · exact .of (.exprNode _ start line (.errorValue hr))
    · exact .of (.exprNode _ start line (.okValue hr))
    · exact .of (.exprNode _ start line (.lambda hr))
    · exact .of (.parenthesized hr)
    · exact .of (.exprNode _ start line (.listLiteral hr))
    · exact .of (.exprNode _ start line (.dictLiteral hr))
    · next hkind =>
      -- an error token was reported when it was scanned
      refine .on <| .bindTo (fun _ => Noted) (.noteError _ fun heof hfirst => .of_lastError rfl rfl
        fun _ => .unexpected (hfirst.mem heof (by rw [hkind]; decide)) hkind)
        (fun _ _ hexec => ?_) fun _ => .giveUp
      cases hexec
      exact .inl rfl
    iterate 5 · exact .of (.missingExpr start line)
    · exact .of (.fail _)
  · have hnone : literal? g.close = none := by
      unfold literal?
      rw [g.close_kind]
    refine Stuck.settles <| .peek ?_
    simp only [hnone, g.close_kind]
    exact (Stuck.reportHere _).bind (Alike.reportHere _).stepwise fun _ =>
      (Alike.bind (e := id) (.inNode (e := id) _ (.pure _)) fun _ => .pure _).stepwise

/-! ## Operators -/

omit hr in
theorem tupleIndex : Twin none (Before (·.isNumber = true)) .value id tupleIndex tupleIndex := by
  refine .remember Written .advance yields_advance (fun heof hnumber hexec =>
    written_of_advance heof (isPlain_of_isNumber hnumber) hexec) fun token =>
      .guarded (d := id) (.reportAt append_ne_tooManyErrors append_not_mem_unclosedBodies
        fun hwritten htidy => ?_) (.pure _)
  exact .append (by decide) (hwritten.oneLine htidy)

theorem failureHandler : Lawful .value (failureHandler rules) := by
  have handler : ∀ name : Option String,
      Lawful .value (do return (name, some (← rules.call .statement))) := fun _ =>
    .bind (hr.rule .statement) fun _ => .pure _
  exact .bind (.eat _) fun _ => .ite (.checkTwo (fun _ _ =>
    .ite (.bind .advance fun _ => .bind (.pure _) handler) (.bind (.pure _) handler)) (fun _ => rfl)
      fun _ _ _ => .inr rfl) (.pure _)

theorem applied? (c : Option Tree.Checkpoint) (e : Expr) :
    Twin none Anywhere .value id (applied? rules c e) (applied? rules none e) := by
  refine .peek (fun t => ?_) fun g hstep => .peek_nil (fun hadmits => ?_) ?_ hstep
  · rw [show t.bare.kind = t.kind from rfl]
    split
    · exact .of (.map (.inNodeAt c _ (.bind (.callArguments hr) fun ⟨_, _⟩ => .pure _)))
    · next hdot =>
      refine .second (fun y => .on (.iteOf (fun hnumber => .map (.inNodeAtOf id c _
        (.bindTo (fun _ => Facing y) .advance (fun heof hplace hexec => ?_) fun _ =>
          .bind (.weaken .tupleIndex fun hnext => ?_) fun _ => .pure _))) fun _ => .map
        (.inNodeAt c _ (.bind .advance fun _ => .bind (.consumeName _) fun _ => .pure _))))
        fun g => .inr ?_
      · exact hplace.1.advance heof (by rw [hdot]; decide) hplace.2 hexec
      · rw [← hnext] at hnumber
        exact hnumber
      have hdigits : ∀ {kind : Token.Kind}, Outlook.type.sees kind = true →
          kind.isNumber = false := by
        intro kind hkind
        cases kind <;> first | rfl | cases hkind
      rw [hdigits g.sees_next, hdigits g.sees_close]
    · exact .of (.map (.inNodeAt c _ (.bind .advance fun _ => .bind (hr.rule .expression) fun _ =>
        .bind (.consume ..) fun _ => .pure _)))
    · exact .of (.map (.inNodeAt c _ (.bind .advance fun _ => .bind (.failureHandler hr)
        fun ⟨_, _⟩ => .pure _)))
    · exact .of (.pure _)
  · rw [g.close_kind]
    rcases hadmits.value with hnext | hnext <;> rw [hnext]
  · rw [g.close_kind]
    exact .pure none

theorem callRule : Lawful .value (callRule rules) := by
  refine .bind .checkpoint fun c => .bind .startPos fun ⟨start, line⟩ => .bind (.primary hr)
    fun _ => .repeatUpTo (fun e => .bind (.applied? hr c e) fun kind => ?_) ..
  cases kind with
  | some kind => exact .bind (.exprFrom kind start line) fun _ => .pure _
  | none => exact .pure _

theorem unaryRule : Lawful .value (unaryRule rules) := by
  refine .peekSame (fun t => ?_) fun g hadmits => ?_
  · rw [show t.bare.kind = t.kind from rfl]
    split
    · exact .callRule hr
    · exact .bind .startPos fun ⟨start, line⟩ => .bind
        (.inNode (e := id) _ (.bind .advance fun _ => hr.rule .unary)) fun _ => .exprFrom _ start line
  · rw [g.close_kind]
    rcases hadmits.value with hnext | hnext <;> rw [hnext]
    rfl

theorem powerRule : Lawful .value (powerRule rules) :=
  .bind .checkpoint fun c => .bind (.unaryRule hr) fun _ => .bind (.check _) fun _ => .ite
    (.bind (.inNodeAt (e := id) c _ (.bind .advance fun _ => hr.rule .power)) fun _ => .pure _) (.pure _)

omit hr in
/-- No operator is next where an expression ends. -/
theorem operators {op? : Token.Kind → Option BinaryOp} (hparen : op? .rightParen = none)
    (hcomma : op? .comma = none) {p q : Parse Expr} (h : Twin none Anywhere .value id p q)
    (c : Option Tree.Checkpoint) (left : Expr) : Twin none Anywhere .value id
      (operators rules op? p c left) (operators rules op? q none left) := by
  refine .repeatUpTo (fun left => .peekSame (fun t => ?_) fun g hadmits => ?_) ..
  · rw [show t.bare.kind = t.kind from rfl]
    split
    · exact .bind (.inNodeAt (e := id) c _ (.bind .advance fun _ => h)) fun _ => .pure _
    · exact .pure _
  · rw [g.close_kind, hparen]
    rcases hadmits.value with hnext | hnext <;> rw [hnext]
    · rw [hparen]
    · rw [hcomma]

omit hr in
theorem leftAssociative {op? : Token.Kind → Option BinaryOp} (hparen : op? .rightParen = none)
    (hcomma : op? .comma = none) {p q : Parse Expr} (h : Twin none Anywhere .value id p q) :
    Twin none Anywhere .value id (leftAssociative rules op? p) (leftAssociative rules op? q) :=
  .bind .checkpoint fun c => .bind h fun left => .operators hparen hcomma h c left

theorem sum : Lawful .value (sum rules) :=
  .leftAssociative rfl rfl (.leftAssociative rfl rfl (.powerRule hr))

theorem comparison : Lawful .value (comparison rules) :=
  .bind .checkpoint fun c => .bind .startPos fun ⟨start, line⟩ => .bind (.sum hr) fun left =>
    .bind (.check _) fun _ => .ite
      (.bind (.inNodeAt (e := id) c _ (.bind .advance fun _ => .sum hr)) fun last =>
        .exprFrom (.range left last) start line)
      (.operators rfl rfl (.sum hr) c left)

theorem disjunction : Lawful .value (disjunction rules) :=
  .leftAssociative rfl rfl <| .leftAssociative rfl rfl <| .leftAssociative rfl rfl <| .comparison hr

theorem exprRule : Lawful .value (exprRule rules) := by
  refine .bind .checkpoint fun c => .bind (.disjunction hr) fun left =>
    .peekSame (fun t => ?_) fun g hadmits => ?_
  · rw [show t.bare.kind = t.kind from rfl]
    split
    · exact .pure _
    · refine .bindTo (fun a => Passed a.1) (.inNodeAt (e := Prod.map Token.bare id) c _
        (.bind .advance fun _ => .bind (hr.rule .expression) fun _ => .pure _))
        (fun heof _ hexec => passed_of_assignment (hr.alike .expression).stepwise heof hexec)
        fun ⟨opToken, value⟩ => ?_
      dsimp only [Prod.map, id]
      split
      · exact .bind (.pure _) fun _ => .pure _
      · exact .bind (.reportLate opToken) fun _ => .bind (.pure _) fun _ => .pure _
  · rw [g.close_kind]
    rcases hadmits.value with hnext | hnext <;> rw [hnext]
    rfl

end

end Twin

/-! ## The first operand -/

/-- In front of a token of the kind, the parser runs `p` before it reads or changes anything. -/
inductive Leads (kind : Token.Kind) {α : Type} (p : Parse α) : {β : Type} → Parse β → Prop where
  | refl : Leads kind p p
  | glance {β γ : Type} {look : Parse β} {f : β → Parse γ}
      (hlook : ∀ i s, ∃ a, exec look i s = (.ok a, s)) (hf : ∀ a, Leads kind p (f a)) :
      Leads kind p (look >>= f)
  | peek {γ : Type} {f : Token → Parse γ} (hf : ∀ t : Token, t.kind = kind → Leads kind p (f t)) :
      Leads kind p (Grammar.peek >>= f)
  | bind {β γ : Type} {q : Parse β} {f : β → Parse γ} (h : Leads kind p q) (hq : Stepwise q)
      (hf : ∀ a, Stepwise (f a)) : Leads kind p (q >>= f)

namespace Leads

section
variable {α : Type} {rules : Rules} (hr : rules.Lawful) {kind : Token.Kind} {p : Parse α}
  {operand : Parse Expr} {op? : Token.Kind → Option BinaryOp}

/-- What does not stop in front of the seam leads to nothing that does. -/
theorem stuck {β : Type} {q : Parse β} {g : Seam} {o : Outlook} {x : Token} {ts : List Token}
    (h : Leads x.kind p q) (hp : Stuck g o (x :: ts) p) : Stuck g o (x :: ts) q := by
  induction h with
  | refl => exact hp
  | glance hlook _ ih =>
    refine .past fun {i s} _ hs => ?_
    obtain ⟨a, ha⟩ := hlook i s
    exact ⟨a, s, _, ha, hs, ih a⟩
  | peek _ ih =>
    exact .past fun {i s} _ hs => ⟨_, s, _, exec_peekAt i s 0, hs, ih _ (by rw [hs.next_cons])⟩
  | bind _ hq hf ih => exact ih.bind hq hf

theorem leftAssociative (h : Leads kind p operand) (hoperand : Lawful .value operand)
    (hparen : op? .rightParen = none) (hcomma : op? .comma = none) :
    Leads kind p (leftAssociative rules op? operand) :=
  .glance (fun _ _ => ⟨_, rfl⟩) fun c => h.bind hoperand.stepwise fun left =>
    (Twin.operators hparen hcomma hoperand c left).stepwise

include hr

theorem callRule : Leads kind (primary rules) (callRule rules) := by
  refine .glance (fun _ _ => ⟨_, rfl⟩) fun c => .glance (fun _ _ => ⟨_, rfl⟩) fun ⟨start, line⟩ =>
    .bind .refl (Twin.primary hr).stepwise fun first => ?_
  refine .repeatUpTo (fun e => .bind (Twin.applied? hr c e).stepwise fun kind => ?_) _ first
  cases kind with
  | some kind => exact .bind (Twin.exprFrom (o := .value) kind _ _).stepwise fun _ => .pure _
  | none => exact .pure _

section
variable (hkind : unaryOp? kind = none)
include hkind

theorem unaryRule : Leads kind (primary rules) (unaryRule rules) := by
  refine .peek fun t ht => ?_
  rw [ht, hkind]
  exact callRule hr

theorem powerRule : Leads kind (primary rules) (powerRule rules) :=
  .glance (fun _ _ => ⟨_, rfl⟩) fun c => .bind (unaryRule hr hkind) (Twin.unaryRule hr).stepwise
    fun _ => .bind (Alike.check _).stepwise fun _ => .ite
      (.bind (.inNodeAt c _ (.bind .advance fun _ => (hr.alike .power).stepwise)) fun _ => .pure _)
      (.pure _)

theorem sum : Leads kind (primary rules) (sum rules) :=
  .leftAssociative (.leftAssociative (powerRule hr hkind) (.powerRule hr) rfl rfl)
    (.leftAssociative rfl rfl (.powerRule hr)) rfl rfl

theorem comparison : Leads kind (primary rules) (comparison rules) :=
  .glance (fun _ _ => ⟨_, rfl⟩) fun c => .glance (fun _ _ => ⟨_, rfl⟩) fun ⟨_, _⟩ =>
    .bind (sum hr hkind) (Twin.sum hr).stepwise fun left => .bind (Alike.check _).stepwise fun _ =>
      .ite (.bind (.inNodeAt c _ (.bind .advance fun _ => (Twin.sum hr).stepwise)) fun _ =>
        (Twin.exprFrom (o := .value) _ _ _).stepwise)
        (Twin.operators rfl rfl (.sum hr) c left).stepwise

/-- An expression starts with a primary one, unless it starts with a sign. -/
theorem exprRule : Leads kind (primary rules) (exprRule rules) := by
  refine .glance (fun _ _ => ⟨_, rfl⟩) fun c => .bind (.leftAssociative (.leftAssociative
    (.leftAssociative (comparison hr hkind) (.comparison hr) rfl rfl)
    (.leftAssociative rfl rfl (.comparison hr)) rfl rfl)
    (.leftAssociative rfl rfl (.leftAssociative rfl rfl (.comparison hr))) rfl rfl)
    (Twin.disjunction hr).stepwise fun left => .bind Alike.peek.stepwise fun t => ?_
  split
  · exact .pure _
  · refine .bind (.inNodeAt c _ (.bind .advance fun _ => .bind (hr.alike .expression).stepwise fun _ =>
      .pure _)) fun ⟨opToken, value⟩ => ?_
    dsimp only
    split
    · exact .bind (.pure _) fun _ => .pure _
    · exact .bind (Alike.reportAt opToken _).stepwise fun _ => .bind (.pure _) fun _ => .pure _

end

end

end Leads

/-- A name alone is no more than the part. -/
theorem Stuck.exprRule {rules : Rules} (hr : rules.Lawful) (g : Seam) {x : Token}
    (hx : x.kind = .identifier) : Stuck g .within [x] (exprRule rules) := by
  refine (Leads.exprRule hr (by rw [hx]; rfl)).stuck <| .look
    (v := fun i s => ((s.rest[0]?.getD i.eof).span.start, (s.rest[0]?.getD i.eof).line))
    (fun _ _ => rfl) fun (start, line) => .past fun {i s} _ hs => ⟨_, s, _, exec_peekAt i s 0, hs, ?_⟩
  have hliteral : literal? x = none := by rw [literal?, hx]
  rw [hs.next_cons, hliteral, hx]
  refine .past fun {i s} _ hs => ⟨false, s, _, ?_, hs, ?_⟩
  · rw [hs.exec_checkNext, g.close_kind]
    rfl
  · have hone : Stuck g .within [x] (do let _ ← Grammar.advance; return ExprKind.variable x.lexeme) :=
      (Stuck.advance_one (by rw [hx]; decide)).bind .advance fun _ => .pure _
    exact (hone.inNodeAt (.bind .advance fun _ => .pure _) none _).bind
      (.inNodeAt none _ (.bind .advance fun _ => .pure _)) fun _ =>
        (Twin.exprFrom (o := .value) _ _ _).stepwise

/-! ## Loop headers -/

/-- Whether three tokens start the header of a loop that lists variables. -/
abbrev listsVariables (t u v : Token.Kind) : Bool :=
  t == .kwVar && (v == .kwIn || v == .comma) || t == .identifier && (u == .kwIn || u == .comma)

/-- Whether the first three tokens do, with the end behind them all. -/
abbrev opensListing (ts : List Token) (eof : Token) : Bool :=
  listsVariables (ts[0]?.getD eof).kind (ts[1]?.getD eof).kind (ts[2]?.getD eof).kind

theorem exec_startsLoopHeader (i : Input) (s : State) :
    exec startsLoopHeader i s = (.ok (opensListing s.rest i.eof), s) := rfl

theorem Alike.startsLoopHeader : Regular startsLoopHeader := by
  have listed : ∀ k < 3,
      Regular (do return (← Grammar.checkAt k .kwIn) || (← Grammar.checkAt k .comma)) :=
    fun k hk => .bind (.checkAt k _ hk) fun _ => .bind (.checkAt k _ hk) fun _ => .pure _
  exact .bind (.check _) fun _ => .bind (listed 2 (by decide)) fun _ => .bind (.check _) fun _ =>
    .bind (listed 1 (by decide)) fun _ => .pure _

/-- The three tokens are the same, or they tell the same. Else they reach behind the part, and what is
left of it is too short for what a counting loop starts with. -/
theorem Seam.opensListing_right (g : Seam) (ts : List Token) (eof : Token) :
    (∃ x us, ts = x :: us ∧
        (x.kind = .identifier ∧ us = [] ∨ x.kind = .kwVar ∧ us.length ≤ 1) ∧
        opensListing (g.left ts) eof = false) ∨
      opensListing (g.right ts) eof = opensListing (g.left ts) eof := by
  match ts with
  | [] =>
    have hnone {t : Token.Kind} (ht : Outlook.type.sees t = true) (u v : Token.Kind) :
        listsVariables t u v = false := by
      rw [listsVariables, beq_false_of_ne (Outlook.ne_of_sees ht rfl),
        beq_false_of_ne (Outlook.ne_of_sees ht rfl)]
      rfl
    exact .inr ((hnone g.sees_next ..).trans (hnone g.sees_close ..).symm)
  | [x] =>
    by_cases hx : x.kind = .kwVar ∨ x.kind = .identifier
    · refine .inl ⟨x, [], rfl, hx.symm.imp (⟨·, rfl⟩) (⟨·, Nat.zero_le _⟩), ?_⟩
      show listsVariables x.kind g.close.kind g.last.kind = false
      rcases hx with hx | hx <;> rw [hx, g.close_kind, g.last_kind] <;> rfl
    · right
      rw [not_or] at hx
      show listsVariables x.kind _ _ = listsVariables x.kind _ _
      simp only [listsVariables, beq_false_of_ne hx.1, beq_false_of_ne hx.2, Bool.false_and]
  | [x, y] =>
    by_cases hx : x.kind = .kwVar
    · refine .inl ⟨x, [y], rfl, .inr ⟨hx, le_rfl⟩, ?_⟩
      show listsVariables x.kind y.kind g.close.kind = false
      rw [hx, g.close_kind]
      rfl
    · right
      show listsVariables x.kind y.kind _ = listsVariables x.kind y.kind _
      simp only [listsVariables, beq_false_of_ne hx, Bool.false_and]
  | x :: y :: z :: ts => exact .inr rfl

/-- What stands behind the initializer of a counting loop. -/
abbrev loopClauses (rules : Rules) (init : Option Stmt) : Parse StmtKind := do
  let condition ← exprUnless rules .semicolon
  let _ ← consume .semicolon "Expected ';' after loop condition."
  let increment ← exprUnless rules .rightParen
  let _ ← consume .rightParen "Expected ')' after for clauses."
  return StmtKind.forLoop init condition increment (← bodyStatement rules "for")

namespace Twin

section
variable {rules : Rules} (hr : rules.Lawful)
include hr

/-! ## Statements -/

theorem bodyStatement (kind : String) : Lawful .value (bodyStatement rules kind) := by
  have body : Twin none (Before (· = .leftBrace)) .value id
      (Grammar.inNode .blockStatement do Grammar.blockBody rules (← Grammar.advance) kind)
      (Grammar.inNode .blockStatement do Grammar.blockBody rules (← Grammar.advance) kind) :=
    .inNodeOf id _ (.bindTo Behind .advance behind_of_advance fun brace => .blockBody hr brace kind)
  refine .checked (.bindTo (d := id) (fun _ => Before (· = .leftBrace)) .startPos
    (fun _ hnext hexec => ?_)
    fun (_, _) => .bind body fun _ => .bind (.spanFrom _) fun _ => .pure _) (hr.rule .statement)
  cases hexec
  exact hnext

/-- What is printed does not go on in front of a comma. -/
theorem printStatement {keyword : Token} (hkeyword : keyword.kind = .kwPrint) :
    TwinAt Anywhere .value keyword id (printStatement rules) (printStatement rules) := by
  have rest : ∀ args : List Expr,
      Lawful .value (do let _ ← Grammar.eat .semicolon; return StmtKind.print args) := fun _ =>
    .bind (.eat _) fun _ => .pure _
  have bare : Lawful .row (Grammar.commaSeparated rules (rules.call .expression)) :=
    .commaSeparated rules (hr.rule .expression)
  have closed : Lawful .value (do
      let args ← if ← Grammar.check .rightParen then Pure.pure []
        else Grammar.commaSeparated rules (rules.call .expression)
      let _ ← Grammar.consume .rightParen "Expected ')' after print arguments."
      let args ← Pure.pure args
      let _ ← Grammar.eat .semicolon
      return StmtKind.print args) :=
    .shut <| .bind (.check _) fun _ => .branch (.pure _) (bare.le rfl) fun _ => .consume fun _ =>
      .bind (.pure _) rest
  have opened (b : Bool) := Stepwise.ite (c := b = true) closed.stepwise
    (.bind bare.stepwise fun args => (rest args).stepwise)
  refine ⟨.bind .advance fun _ => .bind (.eat _) fun _ => .ite closed.alike
    (.bind bare.alike fun args => (rest args).alike), fun g ts => ?_,
    .bind (.quiet .advance) fun _ => .bind (.quiet (.eat _)) fun _ => .ite closed.reports
      (.bind bare.reports fun args => (rest args).reports)⟩
  refine .bindAt .advance (fun _ hs hexec hu => ?_) .advance fun _ =>
    .bind (Alike.eat _).stepwise opened
  obtain rfl := hs.eq_of_advance (by rw [hkeyword]; decide) hexec hu
  refine .bindAt (.eat (.inl rfl)) (fun {i s b u us} heof hu' hexec' hv => ?_)
    (Alike.eat _).stepwise opened
  cases b with
  | true => exact closed.settles g us
  | false =>
    obtain ⟨rfl, hopen⟩ := exec_eat_eq_false (by decide) heof hexec'
    obtain rfl := hu'.unique hv
    refine .bind (.widen (bare.settles g ts) fun hadmits hreads => ?_)
      (fun args _ => (rest args).settles g _) bare.stepwise fun args => (rest args).stepwise
    obtain ⟨n, rfl⟩ := hr.tied
    refine hadmits.row fun hcomma => g.apart ?_
    rw [← hs.tokens]
    refine .print hkeyword (fun t ht => hopen t ?_) hreads hcomma
    rw [hu'.rest]
    cases ts with
    | nil => cases ht
    | cons => exact ht

theorem elseBranch : Lawful .value (elseBranch rules) := by
  refine .checked (.bindTo (d := id) (fun _ => Before (· = .kwElif)) .startPos
    (fun _ hnext hexec => ?_) fun (_, _) => .bind
      (.inNodeOf id _ (.weaken (hr.calls .ifStatement) .inr)) fun _ => .bind (.spanFrom _) fun _ =>
        .pure _) (.after _ (.bodyStatement hr _))
  cases hexec
  exact hnext

/-- The keyword is quoted if there is no parenthesis behind it. -/
theorem ifRule :
    Twin none (Rule.place .ifStatement) .value id (ifRule rules) (ifRule rules) := by
  refine .bindTo Written .advance (fun {i s _ _} heof hkeyword hexec => ?_) fun keyword =>
    .bind (.consumeQuoting append_append_ne_tooManyErrors append_append_not_mem_unclosedBodies
      (fun hwritten htidy => ?_) _) fun _ => .bind (hr.rule .expression) fun _ =>
        .bind (.consume ..) fun _ => .bind (.bodyStatement hr _) fun _ =>
          .bind (.elseBranch hr) fun _ => .pure _
  · have hkind : (i.next s).kind = .kwIf ∨ (i.next s).kind = .kwElif := hkeyword
    refine written_of_advance heof ?_ hexec
    rcases hkind with h | h <;> rw [h] <;> rfl
  · exact oneLine_around (by decide) (hwritten.oneLine htidy)

theorem loopHeader : Lawful .value (loopHeader rules) :=
  .bind (.eat _) fun _ => .shut <| .bind (.commaSeparated rules (.consumeName _)) fun _ =>
    .consume fun _ => .bind (hr.rule .expression) fun _ => .pure _

theorem loopInitializer : Lawful .value (loopInitializer rules) := by
  refine .bind (.eat _) fun _ => .ite (.pure _) <| .bind .startPos fun ⟨start, line⟩ =>
    .bind (.check _) fun _ => .branch (.inNode _ (.map (.varDeclaration hr {})))
      (.inNode _ (.map (hr.rule .expression))) fun _ => .bind (.spanFrom _) fun _ => ?_
  exact .bind .previous fun _ => .guarded (.consume ..) (.pure _)

theorem exprUnless (close : Token.Kind) : Lawful .within (exprUnless rules close) :=
  .bind (.check _ rfl) fun _ => .ite (.pure _) (.bind (hr.rule .expression) fun _ => .pure _)

/-- A name, or a variable that is not set, is not all that a loop starts with. -/
theorem stuck_loopInitializer {g : Seam} {x : Token} {ts : List Token}
    (h : x.kind = .identifier ∧ ts = [] ∨ x.kind = .kwVar ∧ ts.length ≤ 1) :
    Stuck g .within (x :: ts) (Grammar.loopInitializer rules) := by
  have rest (init : StmtKind) (start line : Nat) : Lawful .within (do
      let init : Stmt := ⟨init, ← Grammar.spanFrom start, line⟩
      if (← Grammar.previous).kind != .semicolon then
        let _ ← Grammar.consume .semicolon "Expected ';' after loop initializer."
      return some init) :=
    .bind (.spanFrom _) fun _ => .bind .previous fun _ => .guarded (.consume ..) (.pure _)
  refine .past fun {i s} heof hs => ⟨false, s, _, hs.exec_eat_ne ?_ i, hs, ?_⟩
  · rcases h with ⟨hx, -⟩ | ⟨hx, -⟩ <;> rw [hx] <;> decide
  refine .look (v := fun i s => ((s.rest[0]?.getD i.eof).span.start, (s.rest[0]?.getD i.eof).line))
    (fun _ _ => rfl) fun (start, line) => .past fun {i s} _ hs => ⟨_, s, _, exec_check i s _, hs, ?_⟩
  rw [hs.next_cons]
  obtain ⟨hx, rfl⟩ | ⟨hx, hts⟩ := h
  · rw [hx]
    have hmap := (hr.alike .expression).map (f := StmtKind.expression)
    refine (Stuck.inNodeAt ?_ hmap.stepwise none _).bind (Alike.inNode _ hmap).stepwise fun kind =>
      (rest kind start line).stepwise
    rw [map_eq_pure_bind]
    exact (hr.named g hx).bind (hr.alike .expression).stepwise fun _ => .pure _
  · rw [hx]
    have hdecl := varDeclaration hr {}
    have hmap := hdecl.alike.map (f := StmtKind.varDecl)
    refine (Stuck.inNodeAt ?_ hmap.stepwise none _).bind (Alike.inNode _ hmap).stepwise fun kind =>
      (rest kind start line).stepwise
    rw [map_eq_pure_bind]
    refine Stuck.bind ?_ hdecl.stepwise fun _ => .pure _
    refine .past fun {i _} _ hs => ⟨_, _, _, hs.exec_eat_eq hx (by decide) i, hs.take, ?_⟩
    refine Stuck.bind (.consumeName _ hts) (Alike.consumeName _ (by decide)).stepwise fun name => ?_
    exact .bind (Alike.describe name).stepwise fun _ =>
      .bind (Alike.after _ (hr.alike .type)).stepwise fun _ =>
        .bind (Alike.after _ (hr.alike .expression)).stepwise fun _ =>
          .bind (Alike.eat _).stepwise fun _ => .pure _

theorem loopClauses (init : Option Stmt) : Sealed .value (Grammar.loopClauses rules init) :=
  .bind (.exprUnless hr _) fun _ => .consume fun _ => .shut <| .bind (.exprUnless hr _) fun _ =>
    .consume fun _ => .bind (.bodyStatement hr _) fun _ => .pure _

theorem forStatement : Lawful .value (forStatement rules) := by
  refine .bind .advance fun _ => .bind (.consume ..) fun _ =>
    .test Alike.startsLoopHeader exec_startsLoopHeader (fun _ _ _ => rfl) (fun _ => .ite
      (.bind (.loopHeader hr) fun ⟨_, _⟩ => .bind (.consume ..) fun _ =>
        .bind (.bodyStatement hr _) fun _ => .pure _)
      (.bind (.loopInitializer hr) fun init => (loopClauses hr init).toTwin))
    fun {g ts i s} _ hs _ => ?_
  rw [hs.rest]
  refine (g.opensListing_right ts i.eof).imp ?_ id
  rintro ⟨x, us, rfl, hshort, hopens⟩
  rw [hopens]
  exact (stuck_loopInitializer hr hshort).before (fun init => (loopClauses hr init).stuck g)
    (Twin.loopInitializer hr).stepwise fun init => (loopClauses hr init).stepwise

theorem whileStatement : Lawful .value (whileStatement rules) :=
  .bind .advance fun _ => .bind (.consume ..) fun _ => .bind (hr.rule .expression) fun _ =>
    .bind (.consume ..) fun _ => .bind (.bodyStatement hr _) fun _ => .pure _

theorem iterStatement : Lawful .value (iterStatement rules) :=
  .bind .advance fun _ => .bind (.consume ..) fun _ => .bind (.loopHeader hr) fun ⟨_, _⟩ =>
    .bind (.consume ..) fun _ => .bind (.bodyStatement hr _) fun _ => .pure _

theorem returnStatement : Lawful .value (returnStatement rules) := by
  have rest : ∀ value : Option Expr,
      Lawful .value (do let _ ← Grammar.eat .semicolon; return StmtKind.returns value) := fun _ =>
    .bind (.eat _) fun _ => .pure _
  refine .bind .advance fun _ => .peekSame (fun t => ?_) fun g hadmits => ?_
  · rw [show t.bare.kind = t.kind from rfl]
    dsimp only
    split
    iterate 3 · exact .bind (.pure _) rest
    · exact .bind (.map (hr.rule .expression)) rest
  · rw [g.close_kind]
    rcases hadmits.value with hnext | hnext <;> rw [hnext]

omit hr in
theorem settingValue : Lawful .within settingValue := by
  refine .peekInside fun t => ?_
  rw [show t.bare.kind = t.kind from rfl]
  split
  iterate 5 · exact .bind .advance fun _ => .pure _
  · exact .fail _

theorem concurrencySetting (settings : ConcurrencySettings) :
    Lawful .within (concurrencySetting rules settings) := by
  have closing : ∀ settings : ConcurrencySettings, Lawful .within (do
      if !(← Grammar.eat .comma) && !(← Grammar.check .rightParen) then
        Grammar.fail "Expected ',' or ')' after parameter"
      return settings) := fun _ =>
    .bind (.eat _) fun _ => .bind (.check _) fun _ => .guarded (d := id) (.fail _) (.pure _)
  -- the name stays known until it is reported on
  refine .remember Written (.consume ..) (yields_consume _ _)
    (fun heof _ hexec => written_of_consume rfl heof hexec) fun key =>
      .keep (lasting_written key) (.eat _) (Quiet.eat _).silent fun _ => .ite
        (.here (.bind (hr.rule .type) fun _ => .bind (.pure _) closing))
        (.keep (lasting_written key) (.consume ..) (yields_consume _ _).silent fun _ =>
          .keep (lasting_written key) .settingValue silent_settingValue fun value => ?_)
  rw [show key.bare.lexeme = key.lexeme from rfl]
  dsimp only [id]
  split
  · exact .bind (.pure _) closing
  · refine .bind (.reportAt append_ne_tooManyErrors append_not_mem_unclosedBodies
      fun hwritten htidy => ?_) fun _ => .bind (.pure _) closing
    exact .append (by decide) (hwritten.oneLine htidy)

theorem concurrencySettings (defaults : ConcurrencySettings) :
    Lawful .value (concurrencySettings rules defaults) := by
  refine .bind (.eat _) fun _ => .ite (.shut <| .bind (.repeatUpTo (fun settings => ?_) ..) fun _ =>
    .consume fun _ => .pure _) (.pure _)
  exact .bind (.check _) fun _ => .bind (.atEnd rfl) fun _ => .ite (.pure _)
    (.bind (.concurrencySetting hr settings) fun _ => .pure _)

theorem concurrencyBlock {keyword : String} (hkeyword : Text.OneLine keyword)
    (defaults : ConcurrencySettings) : Lawful .value (concurrencyBlock rules keyword defaults) := by
  have hremark : Remark ("Expected '\x7b' after '" ++ keyword ++ "'.") :=
    ⟨append_append_ne_tooManyErrors, append_append_not_mem_unclosedBodies,
      oneLine_around (by decide) hkeyword⟩
  exact .bind .advance fun _ => .bind (.concurrencySettings hr defaults) fun _ =>
    .bind (.concurrently (.blockOf hr _ hremark)) fun _ => .pure _

theorem taskStatement : Lawful .value (taskStatement rules) := by
  have body : ∀ var : Option String, Lawful .value (do
      let iterable ← rules.call .expression
      let _ ← Grammar.consume .rightParen "Expected ')' after task header."
      return StmtKind.task var iterable
        (← Grammar.block rules "task" "Expected '\x7b' after task header.")) := fun _ =>
    .bind (hr.rule .expression) fun _ => .bind (.consume ..) fun _ => .bind (.block hr ..) fun _ =>
      .pure _
  exact .bind .advance fun _ => .bind .advance fun _ => .checkTwo (fun _ _ => .ite
    (.bind .advance fun _ => .bind .advance fun _ => .bind (.pure _) body)
    (.bind (.pure _) body)) (fun _ => rfl) fun _ _ _ => .inr rfl

theorem workerStatement : Lawful .value (workerStatement rules) := by
  refine .bind .advance fun _ => .bind .advance fun _ => .bind (.check _) fun _ => .ite
    (.bind .advance fun _ => .bind (d := id) (.pure _) fun _ => ?_)
    (.bind (d := id) (.pure _) fun _ => ?_)
  all_goals exact .bind (.consume ..) fun _ => .bind (.block hr ..) fun _ => .pure _

theorem matchCase : Lawful .within (matchCase rules) :=
  .inNode _ (.bind (hr.rule .pattern) fun _ => .bind (.after _ (hr.rule .expression)) fun _ =>
    .bind (.consume ..) fun _ => .bind (hr.rule .statement) fun _ => .bind (.eat _) fun _ => .pure _)

theorem matchStatement : Lawful .value (matchStatement rules) := by
  obtain ⟨n, rfl⟩ := hr.tied
  exact .bind .advance fun _ => .bind (.consume ..) fun _ => .bind (hr.rule .expression) fun _ =>
    .bind (.consume ..) fun _ => .behindBrace _ fun _ => .bind (.body .matchCases
      (Shuts.toTwin (.bodyLoop (fun _ => .bind (.matchCase hr) fun _ => .pure _)
        (fun _ => .bind fun _ => .pure rfl) ..)) fun _ _ => .pure _) fun _ => .pure _

theorem contractStatement : Lawful .value (contractStatement rules) :=
  .bind .advance fun _ => .bind (.consume ..) fun _ => .bind (hr.rule .expression) fun _ =>
    .shut <| .bind (.after _ (hr.rule .expression)) fun _ => .consume fun _ =>
      .bind (.consume ..) fun _ => .pure _

theorem statementOf {node : Tree.Kind} (hnode : node ≠ .printStatement) :
    Twin none (Fits node) .value id (statementOf rules node) (statementOf rules node) := by
  unfold Grammar.statementOf
  split
  · contradiction
  · exact .weaken (.ifRule hr) fun hfits => .inl (hfits.2 rfl)
  · exact .here (.forStatement hr)
  · exact .here (.whileStatement hr)
  · exact .here (.iterStatement hr)
  · exact .bindTo Behind .advance
      (fun heof hfits hexec => behind_of_advance heof (hfits.1 rfl) hexec)
      fun brace => .bind (.blockBody hr brace _) fun _ => .pure _
  · exact .here (.returnStatement hr)
  · exact .bind .advance fun _ => .bind (.consume ..) fun _ => .pure _
  · exact .bind .advance fun _ => .bind (.consume ..) fun _ => .pure _
  · exact .here (.bind (.concurrencyBlock hr (by decide) _) fun ⟨_, _⟩ => .pure _)
  · exact .here (.bind (.concurrencyBlock hr (by decide) _) fun ⟨_, _⟩ => .pure _)
  · exact .here (.taskStatement hr)
  · exact .here (.workerStatement hr)
  · exact .here (.matchStatement hr)
  · exact .bind .advance fun _ => .bind (.block hr ..) fun _ => .pure _
  · exact .here (.contractStatement hr)
  · exact .bind .advance fun _ => .bind (hr.rule .declaration) fun _ => .pure _
  · exact .here (.bind (.exprRule hr) fun _ => .bind (.eat _) fun _ => .pure _)

omit hr in
/-- Only a keyword starts what is printed. -/
theorem statementNode_ne_print (concurrent : Bool) {first : Token} (second : Token)
    (hfirst : first.kind ≠ .kwPrint) : statementNode concurrent first second ≠ .printStatement := by
  unfold statementNode
  split
  · contradiction
  case h_16 =>
    split
    · split <;> decide
    · decide
  all_goals decide

omit hr in
/-- Of the second token it matters whether it is an opening parenthesis. -/
theorem statementNode_congr (concurrent : Bool) (first : Token) {second second' : Token}
    (h : second.kind ≠ .leftParen) (h' : second'.kind ≠ .leftParen) :
    statementNode concurrent first second = statementNode concurrent first second' := by
  unfold statementNode
  rw [beq_false_of_ne h, beq_false_of_ne h']

theorem statementRule : Lawful .value (statementRule rules) := by
  have statement {node : Tree.Kind} (hnode : node ≠ .printStatement) (start line : Nat) :
      Twin none (Fits node) .value id
        (do
          let kind ← Grammar.inNode node (Grammar.statementOf rules node)
          return (⟨kind, ← Grammar.spanFrom start, line⟩ : Stmt))
        (do
          let kind ← Grammar.inNode node (Grammar.statementOf rules node)
          return (⟨kind, ← Grammar.spanFrom start, line⟩ : Stmt)) :=
    .bind (.inNodeOf id _ (.statementOf hr hnode)) fun _ => .bind (.spanFrom _) fun _ => .pure _
  refine .bind .startPos fun ⟨start, line⟩ => .get (fun _ _ => rfl) (fun _ _ => rfl) fun s =>
    .peek (fun first => .second (fun second => ?_) fun g => .inr ?_) fun g hstep => ?_
  · rw [show statementNode s.bare.concurrent first.bare second.bare =
      statementNode s.concurrent first second from rfl]
    by_cases hfirst : first.kind = .kwPrint
    · rw [show statementNode s.concurrent first second = .printStatement by
        rw [statementNode, hfirst]]
      exact .bind (.inNode _ (printStatement hr hfirst)) fun _ => .bind (.spanFrom _) fun _ =>
        .pure _
    · exact .on (.weaken (statement (statementNode_ne_print _ second hfirst) start line)
        fun hplace => hplace.1.fits _)
  · rw [statementNode_congr _ first (Outlook.ne_of_sees g.sees_next rfl)
      (Outlook.ne_of_sees g.sees_close rfl)]
  · have hnode {t : Token} (ht : t.kind = .rightParen ∨ t.kind = .comma) (second : Token) :
        statementNode s.concurrent t second = .expressionStatement := by
      unfold statementNode
      rcases ht with ht | ht <;> rw [ht]
    have expression := statement (show Tree.Kind.expressionStatement ≠ .printStatement by decide)
    refine .peek_nil (fun hadmits => ?_) (.ignored (fun _ _ => ⟨_, rfl⟩) (fun second => ?_)
      ((expression start line).settles g [])) hstep
    · simp only [hnode hadmits.value, hnode (.inl g.close_kind)]
    · rw [hnode (.inl g.close_kind)]

end

end Twin

theorem Alike.printStatement {rules : Rules} (hr : rules.Lawful) :
    Regular (printStatement rules) := by
  let keyword : Token := { Token.eof 0 0 with kind := .kwPrint }
  exact (Twin.printStatement hr (show keyword.kind = .kwPrint from rfl)).alike

/-- So is a concurrency block, whatever its keyword. -/
theorem Alike.concurrencyBlock {rules : Rules} (hr : rules.Lawful) (keyword : String)
    (defaults : ConcurrencySettings) : Regular (concurrencyBlock rules keyword defaults) :=
  .bind .advance fun _ => .bind (Twin.concurrencySettings hr defaults).alike fun _ =>
    .bind (.concurrently (.block hr _ append_append_ne_tooManyErrors)) fun _ => .pure _

/-- A statement of any kind is made of the operations. -/
theorem Alike.statementOf {rules : Rules} (hr : rules.Lawful) (node : Tree.Kind) :
    Regular (statementOf rules node) := by
  by_cases hnode : node = .printStatement
  · rw [hnode]
    exact .printStatement hr
  · exact (Twin.statementOf hr hnode).alike

end LimitSyntax.Grammar
