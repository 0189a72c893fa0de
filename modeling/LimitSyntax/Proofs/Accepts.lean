import LimitSyntax.Proofs.Levels

/-!
# Texts that are accepted

`Grammar.Accepts ts p Q`: wherever the tokens `ts` are to be read, the parser `p` yields a value
without any report, and `Q` holds of the value and of the tokens that are left. A primary expression
is an expression if what follows does not go on with it (`Accepts.exprRule_primary`), and a string
alone is a program (`Accepts.topDeclarations`).
-/

namespace LimitSyntax.Grammar

open Ast

/-- Where the tokens `ts` are to be read, `p` reports nothing and yields a value; of it and of the
tokens that are left `Q` holds. -/
def Accepts {α : Type} (ts : List Token) (p : Parse α) (Q : α → List Token → Prop) : Prop :=
  ∀ i s, s.rest = ts → s.halted = false →
    ∃ a t, exec p i s = (.ok a, t) ∧ t.errors = s.errors ∧ t.halted = false ∧ Q a t.rest

namespace Accepts

section
variable {α β : Type} {ts us : List Token} {t : Token} {p : Parse α} {f : α → Parse β} {a : α}
  {Q : α → List Token → Prop} {R : β → List Token → Prop}

/-! ## Parsers in a row -/

theorem pure (h : Q a ts) : Accepts ts (Pure.pure a) Q :=
  fun _ s hs hrun => ⟨a, s, rfl, rfl, hrun, hs ▸ h⟩

theorem bind (hp : Accepts ts p Q) (hf : ∀ a us, Q a us → Accepts us (f a) R) :
    Accepts ts (p >>= f) R := by
  intro i s hs hrun
  obtain ⟨a, t, hexec, herrors, hrun', hQ⟩ := hp i s hs hrun
  obtain ⟨b, u, hexec', herrors', hrun'', hR⟩ := hf a _ hQ i t rfl hrun'
  exact ⟨b, u, by rw [exec_bind_ok i hexec, hexec'], herrors'.trans herrors, hrun'', hR⟩

/-- What follows a parser that yields `a` and leaves the tokens `us`. -/
theorem bindTo (hp : Accepts ts p fun b vs => b = a ∧ vs = us) (hf : Accepts us (f a) R) :
    Accepts ts (p >>= f) R :=
  hp.bind fun _ _ ⟨hb, hvs⟩ => hb ▸ hvs ▸ hf

/-- What follows a parser that leaves the tokens `us`, whatever it yields. -/
theorem bindAny (hp : Accepts ts p fun _ vs => vs = us) (hf : ∀ a, Accepts us (f a) R) :
    Accepts ts (p >>= f) R :=
  hp.bind fun a _ hvs => hvs ▸ hf a

theorem mono {Q' : α → List Token → Prop} (hp : Accepts ts p Q) (h : ∀ a us, Q a us → Q' a us) :
    Accepts ts p Q' := by
  intro i s hs hrun
  obtain ⟨a, t, hexec, herrors, hrun', hQ⟩ := hp i s hs hrun
  exact ⟨a, t, hexec, herrors, hrun', h _ _ hQ⟩

/-! ## Operations -/

/-- A parser that reads nothing. -/
theorem look (h : ∀ i s, ∃ a, exec p i s = (.ok a, s)) : Accepts ts p fun _ us => us = ts := by
  intro i s hs hrun
  obtain ⟨a, hexec⟩ := h i s
  exact ⟨a, s, hexec, rfl, hrun, hs⟩

theorem get {f : State → Parse β} (h : ∀ s, s.halted = false → Accepts ts (f s) R) :
    Accepts ts (get >>= f) R :=
  fun i s hs hrun => h s hrun i s hs hrun

theorem onTree (f : Tree.Builder → Tree.Builder) : Accepts ts (onTree f) fun _ us => us = ts :=
  fun _ s hs hrun => ⟨(), s.mapTree f, rfl, rfl, hrun, hs⟩

theorem peekAt {k : Nat} (h : ts[k]? = some t) :
    Accepts ts (peekAt k) fun u us => u = t ∧ us = ts := by
  intro i s hs hrun
  refine ⟨_, s, exec_peekAt i s k, rfl, hrun, ?_, hs⟩
  rw [hs, h, Option.getD_some]

theorem peek : Accepts (t :: ts) peek fun u us => u = t ∧ us = t :: ts := peekAt rfl

theorem check (kind : Token.Kind) :
    Accepts (t :: ts) (check kind) fun b us => b = (t.kind == kind) ∧ us = t :: ts :=
  .bindTo .peek (.pure ⟨rfl, rfl⟩)

theorem checkAt {k : Nat} {kind : Token.Kind} (h : ts[k]? = some t) :
    Accepts ts (checkAt k kind) fun b us => b = (t.kind == kind) ∧ us = ts :=
  .bindTo (.peekAt h) (.pure ⟨rfl, rfl⟩)

theorem advance (h : t.kind ≠ .eof) :
    Accepts (t :: ts) advance fun u us => u = t ∧ us = ts := by
  intro i s hs hrun
  refine ⟨t, s.take t ts, ?_, rfl, hrun, rfl, rfl⟩
  rw [exec_advance, hs]
  simp only [h, if_false]

/-- A token of another kind is left. -/
theorem eat {k : Token.Kind} (h : t.kind ≠ k) :
    Accepts (t :: ts) (eat k) fun b us => b = false ∧ us = t :: ts := by
  refine .bindTo (.check k) ?_
  rw [beq_false_of_ne h]
  exact .pure ⟨rfl, rfl⟩

/-- A token of the kind is read. -/
theorem eatThis {k : Token.Kind} (h : t.kind = k) (hk : k ≠ .eof) :
    Accepts (t :: ts) (Grammar.eat k) fun b us => b = true ∧ us = ts := by
  refine .bindTo (.check k) ?_
  rw [h, beq_self_eq_true]
  exact .bindTo (.advance (h ▸ hk)) (.pure ⟨rfl, rfl⟩)

theorem consume {k : Token.Kind} {description : String} (h : t.kind = k) (hk : k ≠ .eof) :
    Accepts (t :: ts) (consume k description) fun u us => u = t ∧ us = ts := by
  refine .bindTo (.check k) ?_
  rw [h, beq_self_eq_true]
  exact .advance (h ▸ hk)

theorem consumeName {description : String} (h : t.kind = .identifier) :
    Accepts (t :: ts) (consumeName description) fun name us => name = t.lexeme ∧ us = ts :=
  .bindTo (.consume h (by decide)) (.pure ⟨rfl, rfl⟩)

theorem consumeClose {k : Token.Kind} {description : String} (h : t.kind = k) (hk : k ≠ .eof) :
    Accepts (t :: ts) (consumeClose k description) fun _ us => us = ts := by
  refine .bindTo (.check k) ?_
  rw [h, beq_self_eq_true]
  exact .bindTo (.advance (h ▸ hk)) (.pure rfl)

theorem startPos : Accepts ts startPos fun _ us => us = ts := look fun _ _ => ⟨_, rfl⟩

theorem checkpoint : Accepts ts checkpoint fun _ us => us = ts := look fun _ _ => ⟨_, rfl⟩

theorem spanFrom (start : Nat) : Accepts ts (spanFrom start) fun _ us => us = ts := by
  refine look fun i s => ?_
  rw [Grammar.spanFrom, exec_bind_ok i (exec_get i s)]
  split
  · exact ⟨_, rfl⟩
  · rw [exec_bind_ok i (exec_previous i s)]
    exact ⟨_, rfl⟩

theorem inNode {kind : Tree.Kind} (hp : Accepts ts p Q) : Accepts ts (inNode kind p) Q :=
  .bindAny (.onTree _) fun _ => hp.bind fun _ _ hQ => .bindAny (.onTree _) fun _ => .pure hQ

theorem inNodeAt {c : Option Tree.Checkpoint} {kind : Tree.Kind} (hp : Accepts ts p Q) :
    Accepts ts (inNodeAt c kind p) Q := by
  have hopen : Accepts ts (openAt c kind) fun _ us => us = ts := by
    cases c with
    | none => exact .onTree _
    | some c => exact .onTree _
  exact .bindAny hopen fun _ => hp.bind fun _ _ hQ => .bindAny (.onTree _) fun _ => .pure hQ

theorem map {f : α → β} (hp : Accepts ts p fun a us => R (f a) us) : Accepts ts (f <$> p) R := by
  rw [map_eq_pure_bind]
  exact hp.bind fun _ _ hR => .pure hR

/-- A loop takes one turn, and then more of them or none. -/
theorem repeatUpTo {turn : α → Parse (α × Bool)} {T : α × Bool → List Token → Prop} {n : Nat}
    (hturn : Accepts ts (turn a) T)
    (hmore : ∀ b us, T (b, true) us → Accepts us (repeatUpTo turn n b) Q)
    (hstop : ∀ b us, T (b, false) us → Q b us) : Accepts ts (repeatUpTo turn (n + 1) a) Q := by
  refine hturn.bind ?_
  rintro ⟨b, more⟩ us hT
  cases more with
  | true => exact hmore b us hT
  | false => exact .pure (hstop b us hT)

/-- A loop that stops at once. -/
theorem stop {turn : α → Parse (α × Bool)} {bound : Nat} (hbound : 0 < bound)
    (hturn : Accepts ts (turn a) fun r us => r = (a, false) ∧ us = ts) (hQ : Q a ts) :
    Accepts ts (Grammar.repeatUpTo turn bound a) Q := by
  obtain ⟨n, rfl⟩ := Nat.exists_eq_add_of_lt hbound
  rw [Nat.zero_add]
  refine .repeatUpTo hturn (fun b us h => nomatch h.1) fun b us h => ?_
  obtain ⟨heq, rfl⟩ := h
  cases heq
  exact hQ

end

end Accepts

/-! ## What goes on with an expression -/

/-- The level of the expressions that a token goes on with. A brace goes on with a name only. -/
def continues : Token.Kind → Option Nat
  | .equal | .plusEqual | .minusEqual | .starEqual | .slashEqual | .modulusEqual => some 0
  | .kwOr => some 1
  | .kwAnd => some 2
  | .equalEqual | .bangEqual => some 3
  | .less | .lessEqual | .greater | .greaterEqual | .range => some 4
  | .plus | .minus => some 5
  | .star | .slash | .modulus => some 6
  | .power => some 7
  | .leftParen | .dot | .leftBracket | .question => some 9
  | .leftBrace => some 10
  | _ => none

/-- A token of the kind does not go on with expressions of the level and above. -/
def Stops (n : Nat) (kind : Token.Kind) : Prop := ∀ m ∈ continues kind, m < n

theorem continues_of_leftOp? {n : Nat} {kind : Token.Kind} {op : BinaryOp}
    (h : leftOp? n kind = some op) : continues kind = some n := by
  unfold leftOp? at h
  split at h
  · unfold orOp? at h
    split at h <;> cases h
    rfl
  · unfold andOp? at h
    split at h <;> cases h
    rfl
  · unfold equalityOp? at h
    split at h <;> cases h
    all_goals rfl
  · unfold comparisonOp? at h
    split at h <;> cases h
    all_goals rfl
  · unfold sumOp? at h
    split at h <;> cases h
    all_goals rfl
  · unfold productOp? at h
    split at h <;> cases h
    all_goals rfl
  · cases h

theorem continues_of_assignOp? {kind : Token.Kind} {op : AssignOp} (h : assignOp? kind = some op) :
    continues kind = some 0 := by
  unfold assignOp? at h
  split at h <;> cases h
  all_goals rfl

namespace Stops

variable {n m : Nat} {kind other : Token.Kind}

theorem of_eq (h : continues kind = some m) (hm : m < n) : Stops n kind := by
  intro k hk
  obtain rfl : m = k := Option.some.inj (h.symm.trans hk)
  exact hm

theorem of_none (h : continues kind = none) : Stops n kind := by
  intro k hk
  rw [h] at hk
  cases hk

theorem mono (h : Stops n kind) (hn : n ≤ m) : Stops m kind :=
  fun k hk => Nat.lt_of_lt_of_le (h k hk) hn

/-- A token that goes on with the level is of another kind. -/
theorem ne (h : Stops n kind) (hother : continues other = some m) (hm : n ≤ m) : kind ≠ other := by
  rintro rfl
  exact Nat.not_lt.2 hm (h m hother)

theorem leftOp?_eq (h : Stops n kind) : leftOp? n kind = none := by
  rw [Option.eq_none_iff_forall_ne_some]
  intro op hop
  exact Nat.lt_irrefl n (h n (continues_of_leftOp? hop))

theorem assignOp?_eq (h : Stops 0 kind) : assignOp? kind = none := by
  rw [Option.eq_none_iff_forall_ne_some]
  intro op hop
  exact Nat.lt_irrefl 0 (h 0 (continues_of_assignOp? hop))

end Stops

namespace Accepts

section
variable {rules : Rules} {t u : Token} {ts us : List Token} {P : Expr → Prop} {operand : Parse Expr}
  {n : Nat}

/-- Nothing is applied to an expression. -/
theorem applied?_none (hu : Stops 9 u.kind) (c : Option Tree.Checkpoint) (e : Expr) :
    Accepts (u :: us) (applied? rules c e) fun kind vs => kind = none ∧ vs = u :: us := by
  refine .bindTo .peek ?_
  split
  next hkind => exact absurd hkind (hu.ne rfl (Nat.le_refl 9))
  next hkind => exact absurd hkind (hu.ne rfl (Nat.le_refl 9))
  next hkind => exact absurd hkind (hu.ne rfl (Nat.le_refl 9))
  next hkind => exact absurd hkind (hu.ne rfl (Nat.le_refl 9))
  next => exact .pure ⟨rfl, rfl⟩

theorem unaryRule (ht : unaryOp? t.kind = none)
    (h : Accepts (t :: ts) (callRule rules) fun e vs => P e ∧ vs = us) :
    Accepts (t :: ts) (unaryRule rules) fun e vs => P e ∧ vs = us := by
  refine .bindTo .peek ?_
  rw [ht]
  exact h

theorem powerRule (hu : Stops 7 u.kind)
    (h : Accepts ts (Grammar.unaryRule rules) fun e vs => P e ∧ vs = u :: us) :
    Accepts ts (powerRule rules) fun e vs => P e ∧ vs = u :: us := by
  refine .bindAny .checkpoint fun c => h.bind ?_
  rintro e _ ⟨he, rfl⟩
  refine .bindTo (.check .power) ?_
  rw [beq_false_of_ne (hu.ne rfl (Nat.le_refl 7))]
  exact .pure ⟨he, rfl⟩

theorem exprRule (hu : Stops 0 u.kind)
    (h : Accepts ts (disjunction rules) fun e vs => P e ∧ vs = u :: us) :
    Accepts ts (exprRule rules) fun e vs => P e ∧ vs = u :: us := by
  refine .bindAny .checkpoint fun c => h.bind ?_
  rintro e _ ⟨he, rfl⟩
  refine .bindTo .peek ?_
  rw [hu.assignOp?_eq]
  exact .pure ⟨he, rfl⟩

variable (hbound : 0 < rules.bound)
include hbound

theorem callRule (hu : Stops 9 u.kind)
    (h : Accepts ts (primary rules) fun e vs => P e ∧ vs = u :: us) :
    Accepts ts (callRule rules) fun e vs => P e ∧ vs = u :: us := by
  refine .bindAny .checkpoint fun c => .bindAny .startPos fun (start, line) => h.bind ?_
  rintro e _ ⟨he, rfl⟩
  exact .stop hbound (.bindTo (applied?_none hu c e) (.pure ⟨rfl, rfl⟩)) ⟨he, rfl⟩

theorem operators (hu : Stops n u.kind) (c : Option Tree.Checkpoint) {e : Expr} (he : P e) :
    Accepts (u :: us) (operators rules (leftOp? n) operand c e) fun e vs => P e ∧ vs = u :: us := by
  refine .stop hbound (.bindTo .peek ?_) ⟨he, rfl⟩
  rw [hu.leftOp?_eq]
  exact .pure ⟨rfl, rfl⟩

theorem leftAssociative (hu : Stops n u.kind)
    (h : Accepts ts operand fun e vs => P e ∧ vs = u :: us) :
    Accepts ts (leftAssociative rules (leftOp? n) operand) fun e vs => P e ∧ vs = u :: us := by
  refine .bindAny .checkpoint fun c => h.bind ?_
  rintro e _ ⟨he, rfl⟩
  exact .operators hbound hu c he

theorem comparison (hu : Stops 4 u.kind)
    (h : Accepts ts (sum rules) fun e vs => P e ∧ vs = u :: us) :
    Accepts ts (comparison rules) fun e vs => P e ∧ vs = u :: us := by
  refine .bindAny .checkpoint fun c => .bindAny .startPos fun (start, line) => h.bind ?_
  rintro e _ ⟨he, rfl⟩
  refine .bindTo (.check .range) ?_
  rw [beq_false_of_ne (hu.ne rfl (Nat.le_refl 4))]
  exact operators hbound (n := 4) hu c he

/-- A primary expression is an expression where what follows does not go on with it. -/
theorem exprRule_primary (hu : Stops 0 u.kind) (ht : unaryOp? t.kind = none)
    (h : Accepts (t :: ts) (primary rules) fun e vs => P e ∧ vs = u :: us) :
    Accepts (t :: ts) (Grammar.exprRule rules) fun e vs => P e ∧ vs = u :: us := by
  have hpower : Accepts (t :: ts) (Grammar.powerRule rules) fun e vs => P e ∧ vs = u :: us :=
    .powerRule (hu.mono (Nat.zero_le _)) <| .unaryRule ht <|
      .callRule hbound (hu.mono (Nat.zero_le _)) h
  have hsum : Accepts (t :: ts) (sum rules) fun e vs => P e ∧ vs = u :: us :=
    leftAssociative hbound (n := 5) (hu.mono (Nat.zero_le _)) <|
      leftAssociative hbound (n := 6) (hu.mono (Nat.zero_le _)) hpower
  exact .exprRule hu <| leftAssociative hbound (n := 1) (hu.mono (Nat.zero_le _)) <|
    leftAssociative hbound (n := 2) (hu.mono (Nat.zero_le _)) <|
      leftAssociative hbound (n := 3) (hu.mono (Nat.zero_le _)) <|
        .comparison hbound (hu.mono (Nat.zero_le _)) hsum

end

/-! ## Primary expressions -/

section
variable {rules : Rules} {t u : Token} {ts us : List Token}

theorem exprFrom {kind : ExprKind} {start line : Nat} :
    Accepts ts (exprFrom kind start line) fun e vs => e.kind = kind ∧ vs = ts :=
  .bindAny (.spanFrom start) fun _ => .pure ⟨rfl, rfl⟩

/-- An expression of one word. -/
theorem word {node : Tree.Kind} {kind : ExprKind} {start line : Nat} (ht : t.kind ≠ .eof) :
    Accepts (t :: ts) (do
        let kind ← Grammar.inNode node (do
          let _ ← Grammar.advance
          return kind)
        Grammar.exprFrom kind start line) fun e vs => e.kind = kind ∧ vs = ts :=
  .bindTo (.inNode (.bindTo (.advance ht) (.pure ⟨rfl, rfl⟩))) .exprFrom

/-- A string without interpolations. -/
theorem stringPrimary (ht : t.kind = .string) :
    Accepts (t :: ts) (primary rules) fun e vs => e.kind = .literal (.str t.text) ∧ vs = ts := by
  refine .bindAny .startPos fun (start, line) => .bindTo .peek ?_
  simp only [literal?, ht]
  exact .word (by rw [ht]; decide)

/-- A name that no brace follows. -/
theorem namePrimary (ht : t.kind = .identifier) (hu : u.kind ≠ .leftBrace) :
    Accepts (t :: u :: us) (primary rules) fun e vs =>
      e.kind = .variable t.lexeme ∧ vs = u :: us := by
  refine .bindAny .startPos fun (start, line) => .bindTo .peek ?_
  simp only [literal?, ht]
  refine .bindTo (.checkAt (t := u) rfl) ?_
  rw [beq_false_of_ne hu]
  exact .word (by rw [ht]; decide)

end

/-! ## Programs of one expression -/

/-- The token starts a string. -/
def Opens (t : Token) : Prop := t.kind = .string ∨ t.kind = .interpolationStart

theorem Opens.eq {β : Type} {t : Token} (ht : Opens t) {f : Token.Kind → β} {b : β}
    (h : f .string = b) (h' : f .interpolationStart = b) : f t.kind = b := by
  rcases ht with hkind | hkind
  · rw [hkind, h]
  · rw [hkind, h']

section
variable {rules : Rules} {t u : Token} {ts : List Token} {P : Expr → Prop} (ht : Opens t)
  (hu : u.kind = .eof) (h : Accepts (t :: ts) (Grammar.exprRule rules) fun e vs => P e ∧ vs = [u])
include ht hu h

theorem statementRule : Accepts (t :: ts) (statementRule rules) fun stmt vs =>
    (∃ e, stmt.kind = .expression e ∧ P e) ∧ vs = [u] := by
  refine .bindAny .startPos fun (start, line) => .get fun s _ => .bindTo .peek ?_
  refine .bindAny (look fun i s => ⟨_, exec_peekAt i s 1⟩) fun second => ?_
  have hnode : statementNode s.concurrent t second = .expressionStatement := by
    rcases ht with hkind | hkind
    · simp only [statementNode, hkind]
    · simp only [statementNode, hkind]
  rw [hnode]
  have hkind : Accepts (t :: ts) (statementOf rules .expressionStatement) fun kind vs =>
      (∃ e, kind = .expression e ∧ P e) ∧ vs = [u] := by
    refine h.bind ?_
    rintro e _ ⟨he, rfl⟩
    refine (Accepts.eat (k := .semicolon) ?_).bindTo (.pure ⟨⟨e, rfl, he⟩, rfl⟩)
    rw [hu]
    decide
  refine hkind.inNode.bind ?_
  rintro kind _ ⟨hkind, rfl⟩
  exact .bindAny (.spanFrom start) fun _ => .pure ⟨hkind, rfl⟩

theorem declarationRule (hbound : 0 < rules.bound) :
    Accepts (t :: ts) (declarationRule rules) fun stmt vs =>
      (∃ e, stmt.kind = .expression e ∧ P e) ∧ vs = [u] := by
  have hmods : Accepts (t :: ts) (modifiers rules) fun mods vs => mods = {} ∧ vs = t :: ts := by
    refine .stop hbound (.bindTo .peek ?_) ⟨rfl, rfl⟩
    dsimp only
    rw [ht.eq (f := Modifiers.add? {}) rfl rfl]
    exact .pure ⟨rfl, rfl⟩
  refine .bindAny .startPos fun (start, line) => .bindAny .checkpoint fun c => hmods.bindTo ?_
  refine .bindTo .peek <| .bindAny (look fun i s => ⟨_, exec_peekAt i s 1⟩) fun second => ?_
  have hnode : declarationNode? {} t second = none := by
    rcases ht with hkind | hkind
    · simp only [declarationNode?, hkind]
    · simp only [declarationNode?, hkind]
  rw [hnode]
  exact statementRule ht hu h

theorem recoveredRule (hbound : 0 < rules.bound) :
    Accepts (t :: ts) (recoveredRule rules) fun stmt vs =>
      (∃ s e, stmt = some s ∧ s.kind = .expression e ∧ P e) ∧ vs = [u] := by
  refine .get fun s _ => .bind (Q := fun stmt vs =>
    (∃ s e, stmt = some s ∧ s.kind = .expression e ∧ P e) ∧ vs = [u]) ?_ ?_
  · intro i s hs hrun
    obtain ⟨a, t', hexec, herrors, hrun', ⟨e, hkind, he⟩, hrest⟩ :=
      declarationRule ht hu h hbound i s hs hrun
    refine ⟨some a, t', ?_, herrors, hrun', ⟨a, e, rfl, hkind, he⟩, hrest⟩
    rw [exec_attempt, hexec]
  · rintro _ _ ⟨⟨stmt, e, rfl, hkind, he⟩, rfl⟩
    exact .pure ⟨⟨stmt, e, rfl, hkind, he⟩, rfl⟩

theorem topDeclaration (hbound : 0 < rules.bound) :
    Accepts (t :: ts) (topDeclaration rules) fun stmt vs =>
      (∃ s e, stmt = some s ∧ s.kind = .expression e ∧ P e) ∧ vs = [u] := by
  refine .get fun s _ => .bindTo (.check .rightBrace) ?_
  rw [ht.eq (f := (· == .rightBrace)) (b := false) rfl rfl]
  refine (recoveredRule ht hu h hbound).bind ?_
  rintro stmt _ ⟨hstmt, rfl⟩
  refine .get fun s' _ => .bindTo (.check .eof) ?_
  rw [hu, beq_self_eq_true, Bool.not_true, Bool.and_false]
  exact .pure ⟨hstmt, rfl⟩

omit ht h in
/-- The end of a program. -/
theorem topTurn_eof (stmts : List Stmt) :
    Accepts [u] (topTurn rules stmts) fun r vs => r = (stmts, false) ∧ vs = [u] := by
  refine .bindTo (.check .eof) (.get fun s _ => ?_)
  rw [hu, beq_self_eq_true, Bool.true_or, if_pos rfl]
  exact .pure ⟨rfl, rfl⟩

/-- A string as an expression is a program of one statement. -/
theorem topDeclarations (hbound : 1 < rules.bound) :
    Accepts (t :: ts) (topDeclarations rules) fun stmts _ =>
      ∃ stmt e, stmts = [stmt] ∧ stmt.kind = .expression e ∧ P e := by
  have hturn : Accepts (t :: ts) (topTurn rules []) fun r vs =>
      (∃ stmt e, r = ([stmt], true) ∧ stmt.kind = .expression e ∧ P e) ∧ vs = [u] := by
    refine .bindTo (.check .eof) (.get fun s hs => ?_)
    rw [ht.eq (f := (· == .eof)) (b := false) rfl rfl, Bool.false_or, hs, if_neg Bool.false_ne_true]
    refine (topDeclaration ht hu h (by omega)).bind ?_
    rintro _ _ ⟨⟨stmt, e, rfl, hkind, he⟩, rfl⟩
    exact .pure ⟨⟨stmt, e, rfl, hkind, he⟩, rfl⟩
  obtain ⟨n, hn⟩ := Nat.exists_eq_add_of_lt hbound
  rw [Grammar.topDeclarations, hn]
  refine .bind (Q := fun stmts _ => ∃ stmt e, stmts = [stmt] ∧ stmt.kind = .expression e ∧ P e)
    (.repeatUpTo hturn ?_ ?_) ?_
  · rintro _ _ ⟨⟨stmt, e, heq, hkind, he⟩, rfl⟩
    cases heq
    exact .stop (by omega) (topTurn_eof hu _) ⟨stmt, e, rfl, hkind, he⟩
  · rintro _ _ ⟨⟨stmt, e, heq, -⟩, -⟩
    cases heq
  · rintro _ _ ⟨stmt, e, rfl, hkind, he⟩
    exact .pure ⟨stmt, e, rfl, hkind, he⟩

end

end Accepts

end LimitSyntax.Grammar
