import LimitSyntax.Proofs.Accepts
import LimitSyntax.Proofs.ParseSteps
import LimitSyntax.Proofs.Productions
import LimitSyntax.Proofs.SameSyntax
import LimitSyntax.Proofs.WrittenExprs

/-!
# Written expressions are read back

The rule for expressions reads all words of an expression that can be written, and yields this
expression up to its places (`Grammar.written_expr_read`). What operands of a level are read by is
the rule of this level and of every lower one (`Grammar.ReadAt.level`). The rules that go on in turns
are followed from operand to operand: an expression that starts with another one takes one more turn
than this one does (`Grammar.Chains.link`).
-/

namespace LimitSyntax.Grammar

open Ast

/-! ## Words and tokens -/

section
variable {t : Token} {w v : Word} {ts : List Token} {ws vs : List Word}

theorem toWord_kind (h : t.toWord = w) : t.kind = w.1 := h ▸ rfl

theorem lexeme_of_toWord {name : String} (h : t.toWord = nameWord name) : t.lexeme = name := by
  have hkind : t.kind = .identifier := toWord_kind h
  have hword : t.toWord.2 = name := congrArg Prod.snd h
  simpa only [Token.toWord, hkind] using hword

theorem literal?_of_toWord {value : Literal} (h : t.toWord = value.word) :
    literal? t = some value := by
  have hkind : t.kind = value.word.1 := toWord_kind h
  have htext : t.toWord.2 = value.word.2 := congrArg Prod.snd h
  cases value with
  | bool value =>
    cases value <;> simp only [literal?, hkind, Literal.word, sign]
  | nil => simp only [literal?, hkind, Literal.word, sign]
  | _ =>
    simp only [Literal.word] at hkind htext
    simp only [Token.toWord, hkind] at htext
    simp only [literal?, hkind, htext]

/-- Tokens for words in brackets are the two brackets, and tokens for the words between them. -/
theorem exists_brackets {opening closing : Token.Kind}
    (h : ts.map Token.toWord = sign opening :: (ws ++ [sign closing])) :
    ∃ left as right, ts = left :: (as ++ [right]) ∧ left.kind = opening ∧
      as.map Token.toWord = ws ∧ right.kind = closing := by
  obtain ⟨left, ts, rfl, hleft, hts⟩ := List.map_eq_cons_iff.1 h
  obtain ⟨as, bs, rfl, has, hbs⟩ := List.map_eq_append_iff.1 hts
  obtain ⟨right, rfl, hright⟩ := List.map_eq_singleton_iff.1 hbs
  exact ⟨left, as, right, rfl, toWord_kind hleft, has, toWord_kind hright⟩

end

/-! ## Reading what is written -/

/-- Wherever the words of `e` stand, and what follows does not go on with the level, `p` reads them
and yields `e`, up to its places. -/
def Reads (p : Parse Expr) (n : Nat) (e : Expr) : Prop :=
  ∀ ts u us, ts.map Token.toWord = e.words → Stops n u.kind →
    Accepts (ts ++ u :: us) p fun e' vs => Same .expr e e' ∧ vs = u :: us

/-- Wherever the words of `e` stand, and what follows is fine, `p` reads them in some of its turns
and goes on as in its further turns from `e` on. -/
def Chains {γ : Type} (p : Nat → Parse Expr) (turn : γ → Expr → Parse (Expr × Bool))
    (fine : Token.Kind → Prop) (e : Expr) : Prop :=
  ∃ j < e.words.length, ∀ ts u us k R, ts.map Token.toWord = e.words → fine u.kind →
    (∀ c e', Same .expr e e' → Accepts (u :: us) (repeatUpTo (turn c) k e') R) →
      Accepts (ts ++ u :: us) (p (k + j)) R

section
variable {γ : Type} {p : Nat → Parse Expr} {turn : γ → Expr → Parse (Expr × Bool)}
  {fine : Token.Kind → Prop} {e first : Expr}

/-- What is read in turns is read back if there are turns enough, and the loop then stops. -/
theorem Chains.reads (h : Chains p turn fine e) {bound n : Nat} (hbound : e.words.length ≤ bound)
    (hfine : ∀ kind, Stops n kind → fine kind)
    (hstop : ∀ c e' u us, Stops n u.kind →
      Accepts (u :: us) (turn c e') fun r vs => r = (e', false) ∧ vs = u :: us) :
    Reads (p bound) n e := by
  obtain ⟨j, hj, hp⟩ := h
  intro ts u us hts hu
  have hturns : bound = (bound - j) + j := by omega
  rw [hturns]
  refine hp ts u us (bound - j) _ hts (hfine _ hu) fun c e' he => ?_
  exact .stop (by omega) (hstop c e' u us hu) ⟨he, rfl⟩

/-- One more turn reads what stands behind `first`. -/
theorem Chains.link (h : Chains p turn fine first) {v : Word} {ws : List Word}
    (hwords : e.words = first.words ++ v :: ws) (hv : fine v.1)
    (hturn : ∀ c first' ts u us, Same .expr first first' → ts.map Token.toWord = v :: ws →
      fine u.kind → Accepts (ts ++ u :: us) (turn c first') fun r vs =>
        ∃ e', r = (e', true) ∧ Same .expr e e' ∧ vs = u :: us) :
    Chains p turn fine e := by
  obtain ⟨j, hj, hp⟩ := h
  refine ⟨j + 1, ?_, fun ts u us k R hts hu hmore => ?_⟩
  · rw [hwords, List.length_append, List.length_cons]
    omega
  · rw [hwords] at hts
    obtain ⟨as, bs, rfl, has, hbs⟩ := List.map_eq_append_iff.1 hts
    obtain ⟨t, bs, rfl, ht, -⟩ := List.map_eq_cons_iff.1 hbs
    have hkind : fine t.kind := toWord_kind ht ▸ hv
    rw [List.append_assoc, List.cons_append, Nat.add_comm j 1, ← Nat.add_assoc]
    refine hp as t (bs ++ u :: us) (k + 1) R has hkind fun c first' hfirst => ?_
    refine .repeatUpTo (hturn c first' (t :: bs) u us hfirst hbs hu) ?_ ?_
    · rintro e' vs ⟨_, heq, he, rfl⟩
      cases heq
      exact hmore c e' he
    · rintro e' vs ⟨_, heq, -⟩
      cases heq

end

/-! ## The rules of the levels -/

section
variable (rules : Rules)

def levelRule : Nat → Parse Expr
  | 0 => exprRule rules
  | 1 => disjunction rules
  | 2 => conjunction rules
  | 3 => equality rules
  | 4 => comparison rules
  | 5 => sum rules
  | 6 => product rules
  | 7 => powerRule rules
  | 8 => unaryRule rules
  | _ => callRule rules

/-- The rule of a level that groups from the left, with a bound for its turns. -/
def leftRule (n k : Nat) : Parse Expr := do
  let c ← checkpoint
  if n = 4 then
    let (start, line) ← startPos
    let left ← sum rules
    if ← check .range then
      let last ← inNodeAt c .rangeExpr do
        let _ ← advance
        sum rules
      exprFrom (.range left last) start line
    else repeatUpTo (operatorTurn 4 (sum rules) c) k left
  else
    repeatUpTo (operatorTurn n (levelRule rules (n + 1)) c) k (← levelRule rules (n + 1))

/-- The rule for what is applied to a primary expression, with a bound for its turns. -/
def callUpTo (k : Nat) : Parse Expr := do
  let c ← checkpoint
  let (start, line) ← startPos
  repeatUpTo (callTurn rules c start line) k (← primary rules)

theorem leftRule_bound {n : Nat} (hn : 0 < n) (hn' : n < 7) :
    leftRule rules n rules.bound = levelRule rules n := by
  match n with
  | 1 | 2 | 3 | 4 | 5 | 6 => rfl
  | n + 7 => exact absurd hn' (by omega)

/-- What follows the left operand of an operator: no range where comparisons are. -/
def Fine (n : Nat) (kind : Token.Kind) : Prop := Stops (n + 1) kind ∧ (n = 4 → kind ≠ .range)

/-- An operator of the level can be read behind the expression. -/
abbrev LeftChains (n : Nat) (e : Expr) : Prop :=
  Chains (leftRule rules n) (operatorTurn n (levelRule rules (n + 1))) (Fine n) e

/-- Something can be applied to the expression. -/
abbrev CallChains (e : Expr) : Prop :=
  Chains (callUpTo rules) (fun c : Option Tree.Checkpoint × Nat × Nat =>
    callTurn rules c.1 c.2.1 c.2.2) (Stops 10) e

/-- The rules of all levels up to its own read the expression back, and so do their loops. -/
structure ReadAt (e : Expr) : Prop where
  level : ∀ n ≤ e.level, Reads (levelRule rules n) n e
  left : ∀ n, 0 < n → n < 7 → e.Leads n → LeftChains rules n e
  call : e.level = 9 → CallChains rules e

end

section
variable {rules : Rules} {e : Expr} {w : Word} {ws : List Word} {n : Nat}

/-- What the rule of the level above reads, the rule of a level reads if no operator follows. -/
theorem Reads.lower (hbound : 0 < rules.bound) (hstarts : e.Starts w ws) (hn : n < e.level)
    (h : Reads (levelRule rules (n + 1)) (n + 1) e) : Reads (levelRule rules n) n e := by
  intro ts u us hts hu
  have hnext := h ts u us hts (hu.mono (Nat.le_succ n))
  match n with
  | 0 => exact .exprRule hu hnext
  | 1 => exact Accepts.leftAssociative (n := 1) hbound hu hnext
  | 2 => exact Accepts.leftAssociative (n := 2) hbound hu hnext
  | 3 => exact Accepts.leftAssociative (n := 3) hbound hu hnext
  | 4 => exact .comparison hbound hu hnext
  | 5 => exact Accepts.leftAssociative (n := 5) hbound hu hnext
  | 6 => exact Accepts.leftAssociative (n := 6) hbound hu hnext
  | 7 => exact .powerRule hu hnext
  | 8 =>
    obtain ⟨t, ts, rfl, ht, -⟩ := List.map_eq_cons_iff.1 (hts.trans hstarts.words)
    have hlevel : e.level = 9 := Nat.le_antisymm e.kind.level_le hn
    exact .unaryRule (toWord_kind ht ▸ hstarts.unsigned hlevel) hnext
  | n + 9 =>
    have hle : e.level ≤ 9 := e.kind.level_le
    omega

/-- What the rule of the level above reads is the first operand of a level. -/
theorem LeftChains.of_reads (hstarts : e.Starts w ws)
    (h : Reads (levelRule rules (n + 1)) (n + 1) e) : LeftChains rules n e := by
  refine ⟨0, ?_, fun ts u us k R hts hu hmore => .bindAny .checkpoint fun c => ?_⟩
  · rw [hstarts.words]
    exact Nat.succ_pos _
  have hfirst := h ts u us hts hu.1
  split
  next hfour =>
    subst hfour
    refine .bindAny .startPos fun (start, line) => hfirst.bind ?_
    rintro e' _ ⟨he, rfl⟩
    refine .bindTo (.check .range) ?_
    rw [beq_false_of_ne (hu.2 rfl)]
    exact hmore c e' he
  next hfour =>
    refine hfirst.bind ?_
    rintro e' _ ⟨he, rfl⟩
    exact hmore c e' he

theorem CallChains.of_reads (hstarts : e.Starts w ws) (h : Reads (primary rules) 10 e) :
    CallChains rules e := by
  refine ⟨0, ?_, fun ts u us k R hts hu hmore => .bindAny .checkpoint fun c => .bindAny .startPos
    fun (start, line) => (h ts u us hts hu).bind ?_⟩
  · rw [hstarts.words]
    exact Nat.succ_pos _
  · rintro e' _ ⟨he, rfl⟩
    exact hmore (c, start, line) e' he

namespace ReadAt

variable (hbound : 0 < rules.bound) (hstarts : e.Starts w ws)
include hbound hstarts

/-- What the rule of its level reads back, all rules below read back. -/
theorem of_level (hlevel : Reads (levelRule rules e.level) e.level e)
    (hleft : 0 < e.level → e.level < 7 → e.Leads e.level → LeftChains rules e.level e)
    (hcall : e.level = 9 → CallChains rules e) : ReadAt rules e := by
  have hbelow : ∀ d n, n + d = e.level → Reads (levelRule rules n) n e := by
    intro d
    induction d with
    | zero =>
      rintro n rfl
      exact hlevel
    | succ d ih =>
      intro n hn
      exact (ih (n + 1) (by omega)).lower hbound hstarts (by omega)
  have hat : ∀ n ≤ e.level, Reads (levelRule rules n) n e :=
    fun n hn => hbelow (e.level - n) n (by omega)
  refine ⟨hat, fun n hpos hn hleads => ?_, hcall⟩
  rcases Nat.eq_or_lt_of_le hleads.level with rfl | hlt
  · exact hleft hpos hn hleads
  · exact .of_reads hstarts (hat (n + 1) hlt)

theorem of_call (hlength : e.words.length ≤ rules.bound) (hlevel : e.level = 9)
    (hcall : CallChains rules e) : ReadAt rules e := by
  refine of_level hbound hstarts ?_ (fun _ hn => by omega) fun _ => hcall
  rw [hlevel]
  refine hcall.reads hlength (fun _ h => h.mono (by decide)) fun c e' u us hu => ?_
  exact .bindTo (.applied?_none hu _ e') (.pure ⟨rfl, rfl⟩)

theorem of_left (hlength : e.words.length ≤ rules.bound) (hpos : 0 < e.level) (hlevel : e.level < 7)
    (hleft : LeftChains rules e.level e) : ReadAt rules e := by
  refine of_level hbound hstarts ?_ (fun _ _ _ => hleft) (by omega)
  rw [← leftRule_bound rules hpos hlevel]
  refine hleft.reads hlength (fun _ h => ⟨h.mono (Nat.le_succ _), ?_⟩) fun c e' u us hu => ?_
  · intro hfour
    exact h.ne rfl (Nat.le_of_eq hfour)
  · refine .bindTo .peek ?_
    rw [hu.leftOp?_eq]
    exact .pure ⟨rfl, rfl⟩

end ReadAt

end

/-! ## Operators and their operands -/

section
variable {rules : Rules} {span : Span} {line n : Nat}

theorem same_of_kind {kind : ExprKind} {e : Expr} (h : Same .exprKind kind e.kind) :
    Same .expr ⟨kind, span, line⟩ e := by
  obtain ⟨kind', span', line'⟩ := e
  exact .expr h

theorem leftOp?_mark {op : BinaryOp} (h : op.level < 7) : leftOp? op.level op.mark = some op := by
  cases op with
  | pow => exact absurd h (Nat.lt_irrefl 7)
  | _ => rfl

theorem LeftChains.binary {left right : Expr} {op : BinaryOp} (hop : op.level < 7)
    (hleft : LeftChains rules op.level left)
    (hright : Reads (levelRule rules (op.level + 1)) (op.level + 1) right) :
    LeftChains rules op.level ⟨.binary left op right, span, line⟩ := by
  have hmark := leftOp?_mark hop
  have hcontinues := continues_of_leftOp? hmark
  have hwords : (Expr.mk (.binary left op right) span line).words =
      left.words ++ sign op.mark :: right.words := by rw [Expr.words]
  refine hleft.link hwords
    ⟨.of_eq hcontinues (Nat.lt_succ_self _), fun _ => ?_⟩ fun c left' ts u us hsame hts hu => ?_
  · cases op <;> decide
  · obtain ⟨t, ts, rfl, ht, hts⟩ := List.map_eq_cons_iff.1 hts
    have hkind : t.kind = op.mark := toWord_kind ht
    refine .bindTo .peek ?_
    rw [hkind, hmark]
    refine .bind (.inNodeAt (.bindTo (.advance ?_) (hright ts u us hts hu.1))) ?_
    · rw [hkind]
      cases op <;> decide
    · rintro right' _ ⟨hright', rfl⟩
      exact .pure ⟨_, rfl, .expr (.binaryExpr hsame hright'), rfl⟩

theorem Reads.unary {operand : Expr} {op : UnaryOp} (h : Reads (rules.call .unary) 8 operand) :
    Reads (unaryRule rules) 8 ⟨.unary op operand, span, line⟩ := by
  intro ts u us hts hu
  rw [Expr.words] at hts
  obtain ⟨t, ts, rfl, ht, hts⟩ := List.map_eq_cons_iff.1 hts
  have hkind : t.kind = op.mark := toWord_kind ht
  have hop : unaryOp? t.kind = some op := by
    rw [hkind]
    cases op <;> rfl
  refine .bindTo .peek ?_
  rw [hop]
  refine .bindAny .startPos ?_
  rintro ⟨start, line⟩
  refine .bind (.inNode (.bindTo (.advance ?_) (h ts u us hts hu))) ?_
  · rw [hkind]
    cases op <;> decide
  · rintro operand' _ ⟨hoperand, rfl⟩
    refine Accepts.exprFrom.mono ?_
    rintro e _ ⟨hkind, rfl⟩
    exact ⟨same_of_kind (hkind ▸ .unaryExpr hoperand), rfl⟩

theorem Reads.power {base exponent : Expr} (hbase : Reads (unaryRule rules) 8 base)
    (hexponent : Reads (rules.call .power) 7 exponent) :
    Reads (powerRule rules) 7 ⟨.binary base .pow exponent, span, line⟩ := by
  intro ts u us hts hu
  rw [Expr.words] at hts
  obtain ⟨as, bs, rfl, has, hbs⟩ := List.map_eq_append_iff.1 hts
  obtain ⟨t, bs, rfl, ht, hbs⟩ := List.map_eq_cons_iff.1 hbs
  have hkind : t.kind = .power := toWord_kind ht
  rw [List.append_assoc, List.cons_append]
  have hstops : Stops 8 t.kind := by
    rw [hkind]
    exact .of_eq rfl (by decide)
  refine .bindAny .checkpoint fun c => (hbase as t _ has hstops).bind ?_
  rintro base' _ ⟨hbase', rfl⟩
  refine .bindTo (.check .power) ?_
  rw [hkind, beq_self_eq_true]
  refine .bind (.inNodeAt (.bindTo (.advance (hkind ▸ by decide)) (hexponent bs u us hbs hu))) ?_
  rintro exponent' _ ⟨hexponent', rfl⟩
  exact .pure ⟨.expr (.binaryExpr hbase' hexponent'), rfl⟩

theorem Reads.range {first last : Expr} (hfirst : Reads (sum rules) 5 first)
    (hlast : Reads (sum rules) 5 last) :
    Reads (comparison rules) 4 ⟨.range first last, span, line⟩ := by
  intro ts u us hts hu
  rw [Expr.words] at hts
  obtain ⟨as, bs, rfl, has, hbs⟩ := List.map_eq_append_iff.1 hts
  obtain ⟨t, bs, rfl, ht, hbs⟩ := List.map_eq_cons_iff.1 hbs
  have hkind : t.kind = .range := toWord_kind ht
  rw [List.append_assoc, List.cons_append]
  have hstops : Stops 5 t.kind := by
    rw [hkind]
    exact .of_eq rfl (by decide)
  refine .bindAny .checkpoint fun c => .bindAny .startPos ?_
  rintro ⟨start, line⟩
  refine (hfirst as t _ has hstops).bind ?_
  rintro first' _ ⟨hfirst', rfl⟩
  refine .bindTo (.check .range) ?_
  rw [hkind, beq_self_eq_true]
  refine .bind (.inNodeAt (.bindTo (.advance (hkind ▸ by decide))
    (hlast bs u us hbs (hu.mono (by decide))))) ?_
  rintro last' _ ⟨hlast', rfl⟩
  refine Accepts.exprFrom.mono ?_
  rintro e _ ⟨hkind, rfl⟩
  exact ⟨same_of_kind (hkind ▸ .rangeExpr hfirst' hlast'), rfl⟩

/-- The words of what can be assigned to, an operator and a value are an assignment. -/
theorem Reads.assign {e value : Expr} {target : AssignTarget} {op : AssignOp}
    (he : Reads (disjunction rules) 1 e) (htarget : assignTarget? e = some target)
    (hvalue : Reads (rules.call .expression) 0 value)
    (hwords : (Expr.mk (.assign target op value) span line).words =
      e.words ++ sign op.mark :: value.words) :
    Reads (exprRule rules) 0 ⟨.assign target op value, span, line⟩ := by
  intro ts u us hts hu
  rw [hwords] at hts
  obtain ⟨as, bs, rfl, has, hbs⟩ := List.map_eq_append_iff.1 hts
  obtain ⟨t, bs, rfl, ht, hbs⟩ := List.map_eq_cons_iff.1 hbs
  have hkind : t.kind = op.mark := toWord_kind ht
  have hop : assignOp? t.kind = some op := by
    rw [hkind]
    cases op <;> rfl
  have hstops : Stops 1 t.kind := .of_eq (continues_of_assignOp? hop) Nat.zero_lt_one
  rw [List.append_assoc, List.cons_append]
  refine .bindAny .checkpoint fun c => (he as t _ has hstops).bind ?_
  rintro e' _ ⟨hsame, rfl⟩
  refine .bindTo .peek ?_
  rw [hop]
  have hread : Accepts (t :: (bs ++ u :: us)) (inNodeAt c .assignExpr do
      let opToken ← advance
      return (opToken, ← rules.call .expression)) fun r vs =>
        Same .expr value r.2 ∧ vs = u :: us := by
    refine .inNodeAt (.bindTo (.advance ?_) ((hvalue bs u us hbs hu).bind ?_))
    · rw [hkind]
      cases op <;> decide
    · rintro value' _ ⟨hvalue', rfl⟩
      exact .pure ⟨hvalue', rfl⟩
  refine hread.bind ?_
  rintro ⟨opToken, value'⟩ _ ⟨hvalue', rfl⟩
  have hrel := hsame.assignTarget?
  rw [htarget] at hrel
  dsimp only
  split
  next target' htarget' =>
    rw [htarget'] at hrel
    obtain ⟨htargets⟩ := hrel
    rw [pure_bind]
    exact .pure ⟨.expr (.assignExpr htargets hvalue'), rfl⟩
  next hnone =>
    rw [hnone] at hrel
    cases hrel

end

/-! ## What is applied to an expression -/

section
variable {rules : Rules} {first : Expr} {span : Span} {line : Nat}

/-- A turn applies something, and the loop goes on. -/
theorem CallChains.apply {kind : ExprKind} {v : Word} {ws : List Word}
    (hfirst : CallChains rules first)
    (hwords : (Expr.mk kind span line).words = first.words ++ v :: ws)
    (hv : Stops 10 v.1)
    (happly : ∀ c first' ts u us, Same .expr first first' → ts.map Token.toWord = v :: ws →
      Accepts (ts ++ u :: us) (applied? rules c first') fun r vs =>
        ∃ kind', r = some kind' ∧ Same .exprKind kind kind' ∧ vs = u :: us) :
    CallChains rules ⟨kind, span, line⟩ := by
  refine hfirst.link hwords hv fun c first' ts u us hsame hts _ => ?_
  refine (happly c.1 first' ts u us hsame hts).bind ?_
  rintro _ _ ⟨kind', rfl, hkind, rfl⟩
  refine Accepts.exprFrom.bind ?_
  rintro e _ ⟨rfl, rfl⟩
  exact .pure ⟨e, rfl, same_of_kind hkind, rfl⟩

theorem CallChains.member {name : String} (hfirst : CallChains rules first) :
    CallChains rules ⟨.member first name, span, line⟩ := by
  refine hfirst.apply (by rw [Expr.words]) (.of_eq (m := 9) rfl (by decide))
    fun c first' ts u us hsame hts => ?_
  obtain ⟨dot, ts, rfl, hdot, hts⟩ := List.map_eq_cons_iff.1 hts
  obtain ⟨t, rfl, ht⟩ := List.map_eq_singleton_iff.1 hts
  have hkind : dot.kind = .dot := toWord_kind hdot
  have hname : t.kind = .identifier := toWord_kind ht
  refine .bindTo .peek ?_
  rw [hkind]
  refine .bindTo (.peekAt (t := t) rfl) ?_
  rw [hname]
  refine .map (.inNodeAt (.bindTo (.advance (hkind ▸ by decide)) ?_))
  refine .bindTo (.consumeName hname) (.pure ⟨_, rfl, ?_, rfl⟩)
  rw [lexeme_of_toWord ht]
  exact .memberExpr hsame

theorem CallChains.index {index : Expr} (hfirst : CallChains rules first)
    (hindex : Reads (rules.call .expression) 0 index) :
    CallChains rules ⟨.index first index, span, line⟩ := by
  refine hfirst.apply (by rw [Expr.words]) (.of_eq (m := 9) rfl (by decide))
    fun c first' ts u us hsame hts => ?_
  obtain ⟨left, as, right, rfl, hkind, has, hclose⟩ := exists_brackets hts
  rw [List.cons_append, List.append_assoc]
  refine .bindTo .peek ?_
  rw [hkind]
  refine .map (.inNodeAt (.bindTo (.advance (hkind ▸ by decide)) ?_))
  refine (hindex as right _ has ?_).bind ?_
  · rw [hclose]
    exact .of_none rfl
  · rintro index' _ ⟨hindex', rfl⟩
    exact .bindTo (.consume hclose (by decide)) (.pure ⟨_, rfl, .indexExpr hsame hindex', rfl⟩)

end

/-! ## Items with commas between them -/

section
variable {ι α : Type} {w : ι → List Word} {S : ι → α → Prop} {item : Parse α}
  {close : Token.Kind} {rules : Rules}

/-- Before a comma or the end of a list the words of `x` are read as such an item. -/
def ReadsItem (w : ι → List Word) (S : ι → α → Prop) (item : Parse α) (close : Token.Kind)
    (x : ι) : Prop :=
  ∀ ts u us, ts.map Token.toWord = w x → (u.kind = .comma ∨ u.kind = close) →
    Accepts (ts ++ u :: us) item fun a vs => S x a ∧ vs = u :: us

/-- Items that each have a comma before them, and perhaps a comma behind the last. -/
def commaWords (w : ι → List Word) (xs : List ι) (trailing : Bool) : List Word :=
  xs.flatMap (fun x => sign .comma :: w x) ++ if trailing then [sign .comma] else []

theorem commaWords_cons (x : ι) (xs : List ι) (trailing : Bool) :
    commaWords w (x :: xs) trailing = sign .comma :: (w x ++ commaWords w xs trailing) := by
  simp [commaWords]

theorem listed_map_cons (x : ι) (xs : List ι) :
    listed ((x :: xs).map w) = w x ++ commaWords w xs false := by
  simp [listed, commaWords, List.flatMap_map]

theorem length_le_commaWords (xs : List ι) (trailing : Bool) :
    xs.length ≤ (commaWords w xs trailing).length := by
  induction xs with
  | nil => exact Nat.zero_le _
  | cons x xs ih =>
    rw [commaWords_cons, List.length_cons, List.length_cons, List.length_append]
    omega

/-- Behind an item stands a comma or the end of the list. -/
theorem exists_separator {xs : List ι} {trailing : Bool} {ts : List Token} {u : Token}
    (us : List Token) (hts : ts.map Token.toWord = commaWords w xs trailing)
    (hu : u.kind = close) : ∃ v vs, ts ++ u :: us = v :: vs ∧ (v.kind = .comma ∨ v.kind = close) := by
  cases ts with
  | nil => exact ⟨u, us, rfl, .inr hu⟩
  | cons v ts =>
    refine ⟨v, ts ++ u :: us, rfl, .inl ?_⟩
    cases xs with
    | cons x xs =>
      rw [commaWords_cons] at hts
      exact toWord_kind (List.cons.inj hts).1
    | nil =>
      cases trailing with
      | true => exact toWord_kind (List.cons.inj hts).1
      | false => cases hts

/-- Nothing that stands behind an item goes on with it. -/
theorem stops_separator {n : Nat} {kind : Token.Kind} (hclose : continues close = none)
    (h : kind = .comma ∨ kind = close) : Stops n kind := by
  rcases h with rfl | rfl
  · exact .of_none rfl
  · exact .of_none hclose

/-- Items that each have a comma before them. -/
theorem Accepts.commaItems (hclose : close ≠ .comma) {xs : List ι}
    (hitems : ∀ x ∈ xs, ReadsItem w S item close x) {ts us : List Token} {u : Token}
    (hts : ts.map Token.toWord = commaWords w xs false) (hu : u.kind = close)
    {n : Nat} (hn : xs.length < n) (items : List α) :
    Accepts (ts ++ u :: us) (Grammar.repeatUpTo (fun items => do
        if ← Grammar.eat .comma then return ((← item) :: items, true)
        else return (items, false)) n items) fun read vs =>
      ∃ as, List.Forall₂ S xs as ∧ read = as.reverse ++ items ∧ vs = u :: us := by
  induction xs generalizing ts n items with
  | nil =>
    obtain rfl := List.map_eq_nil_iff.1 hts
    refine .stop (Nat.zero_lt_of_lt hn) (.bindTo (.eat (hu ▸ hclose)) (.pure ⟨rfl, rfl⟩)) ?_
    exact ⟨[], .nil, rfl, rfl⟩
  | cons x xs ih =>
    obtain ⟨n, rfl⟩ := Nat.exists_eq_succ_of_ne_zero (Nat.ne_of_gt (Nat.zero_lt_of_lt hn))
    rw [commaWords_cons] at hts
    obtain ⟨comma, ts, rfl, hcomma, hts⟩ := List.map_eq_cons_iff.1 hts
    obtain ⟨as, bs, rfl, has, hbs⟩ := List.map_eq_append_iff.1 hts
    obtain ⟨v, vs, hvs, hv⟩ := exists_separator us hbs hu
    rw [List.cons_append, List.append_assoc]
    refine .repeatUpTo (T := fun r vs => ∃ a, S x a ∧ r = (a :: items, true) ∧ vs = bs ++ u :: us)
      (.bindTo (.eatThis (toWord_kind hcomma) (by decide)) ?_) ?_ ?_
    · rw [hvs]
      refine (hitems x List.mem_cons_self as v vs has hv).bind ?_
      rintro a _ ⟨ha, rfl⟩
      exact .pure ⟨a, ha, rfl, rfl⟩
    · rintro _ _ ⟨a, ha, heq, rfl⟩
      cases heq
      have hrest := ih (fun y hy => hitems y (List.mem_cons_of_mem x hy)) hbs
        (Nat.lt_of_succ_lt_succ hn) (a :: items)
      refine hrest.mono ?_
      rintro _ _ ⟨as, has, rfl, rfl⟩
      exact ⟨a :: as, .cons ha has, by simp, rfl⟩
    · rintro _ _ ⟨a, -, heq, -⟩
      cases heq

theorem Accepts.commaSeparated (hclose : close ≠ .comma) {x : ι} {xs : List ι}
    (hitems : ∀ y ∈ x :: xs, ReadsItem w S item close y) {ts us : List Token} {u : Token}
    (hts : ts.map Token.toWord = listed ((x :: xs).map w)) (hu : u.kind = close)
    (hbound : xs.length < rules.bound) :
    Accepts (ts ++ u :: us) (commaSeparated rules item) fun as vs =>
      List.Forall₂ S (x :: xs) as ∧ vs = u :: us := by
  rw [listed_map_cons] at hts
  obtain ⟨as, bs, rfl, has, hbs⟩ := List.map_eq_append_iff.1 hts
  obtain ⟨v, vs, hvs, hv⟩ := exists_separator us hbs hu
  rw [List.append_assoc, hvs]
  refine (hitems x List.mem_cons_self as v vs has hv).bind ?_
  rintro a _ ⟨ha, rfl⟩
  rw [← hvs]
  refine (commaItems hclose (fun y hy => hitems y (List.mem_cons_of_mem x hy)) hbs hu hbound
    [a]).bind ?_
  rintro _ _ ⟨as, has, rfl, rfl⟩
  refine .pure ⟨?_, rfl⟩
  rw [List.reverse_append, List.reverse_reverse]
  exact .cons ha has

/-- One turn over a list reads an item, and the comma behind it unless it is the last one. -/
theorem Accepts.listTurn (hcomma : close ≠ .comma) {x : ι} {xs : List ι}
    (hitem : ReadsItem w S item close x)
    (hopens : ∃ v vs, w x = v :: vs ∧ v.1 ≠ close ∧ v.1 ≠ .eof) {ts us : List Token} {u : Token}
    (hts : ts.map Token.toWord = listed ((x :: xs).map w)) (hu : u.kind = close) (items : List α)
    (comma : Bool) :
    Accepts (ts ++ u :: us) (do
        if (← Grammar.check close) || (← atEnd) then return ((items, comma), false)
        let next ← item
        let comma ← Grammar.eat .comma
        return ((next :: items, comma), comma)) fun r vs =>
      ∃ a, S x a ∧ r.1.1 = a :: items ∧ (r.2 = false → xs = [] ∧ vs = u :: us) ∧
        (r.2 = true → ∃ cs, vs = cs ++ u :: us ∧ cs.map Token.toWord = listed (xs.map w)) := by
  obtain ⟨o, os, ho, hne, hneof⟩ := hopens
  rw [listed_map_cons] at hts
  obtain ⟨as, bs, rfl, has, hbs⟩ := List.map_eq_append_iff.1 hts
  obtain ⟨v, vs, hvs, hv⟩ := exists_separator us hbs hu
  obtain ⟨t, as, rfl, ht, -⟩ := List.map_eq_cons_iff.1 (has.trans ho)
  have hkind : t.kind = o.1 := toWord_kind ht
  rw [List.append_assoc, List.cons_append]
  refine .bindTo (.check close) (.bindTo (.check .eof) ?_)
  rw [hkind, beq_false_of_ne hne, beq_false_of_ne hneof, Bool.or_self, if_neg Bool.false_ne_true,
    hvs]
  refine (hitem (t :: as) v vs has hv).bind ?_
  rintro a _ ⟨ha, rfl⟩
  cases xs with
  | nil =>
    obtain rfl := List.map_eq_nil_iff.1 hbs
    cases hvs
    exact .bindTo (.eat (hu ▸ hcomma)) (.pure ⟨a, ha, rfl, fun _ => ⟨rfl, rfl⟩, nofun⟩)
  | cons y ys =>
    rw [commaWords_cons] at hbs
    obtain ⟨comma, cs, rfl, hcomma, hcs⟩ := List.map_eq_cons_iff.1 hbs
    cases hvs
    refine .bindTo (.eatThis (toWord_kind hcomma) (by decide))
      (.pure ⟨a, ha, rfl, nofun, fun _ => ⟨cs, rfl, ?_⟩⟩)
    rw [listed_map_cons]
    exact hcs

/-- The items of a list, turn by turn. -/
theorem Accepts.listItems (hcomma : close ≠ .comma) {xs : List ι}
    (hitems : ∀ x ∈ xs, ReadsItem w S item close x)
    (hopens : ∀ x ∈ xs, ∃ v vs, w x = v :: vs ∧ v.1 ≠ close ∧ v.1 ≠ .eof) {ts us : List Token}
    {u : Token} (hts : ts.map Token.toWord = listed (xs.map w)) (hu : u.kind = close) {n : Nat}
    (hn : xs.length < n) (items : List α) (comma : Bool) :
    Accepts (ts ++ u :: us) (Grammar.repeatUpTo (fun p => do
        if (← Grammar.check close) || (← atEnd) then return (p, false)
        let next ← item
        let comma ← Grammar.eat .comma
        return ((next :: p.1, comma), comma)) n (items, comma)) fun r vs =>
      ∃ as, List.Forall₂ S xs as ∧ r.1 = as.reverse ++ items ∧ vs = u :: us := by
  induction xs generalizing ts n items comma with
  | nil =>
    obtain rfl := List.map_eq_nil_iff.1 hts
    refine .stop hn (.bindTo (.check close) (.bindTo (.check .eof) ?_)) ⟨[], .nil, rfl, rfl⟩
    rw [hu, beq_self_eq_true, Bool.true_or, if_pos rfl]
    exact .pure ⟨rfl, rfl⟩
  | cons x xs ih =>
    obtain ⟨n, rfl⟩ := Nat.exists_eq_succ_of_ne_zero (Nat.ne_of_gt (Nat.zero_lt_of_lt hn))
    refine .repeatUpTo (.listTurn hcomma (hitems x List.mem_cons_self)
      (hopens x List.mem_cons_self) hts hu items comma) ?_ ?_
    · rintro ⟨items', comma'⟩ _ ⟨a, ha, hread, -, hgo⟩
      obtain ⟨cs, rfl, hcs⟩ := hgo rfl
      cases hread
      refine (ih (fun y hy => hitems y (List.mem_cons_of_mem x hy))
        (fun y hy => hopens y (List.mem_cons_of_mem x hy)) hcs (Nat.lt_of_succ_lt_succ hn)
        (a :: items) comma').mono ?_
      rintro r _ ⟨as, has, hr, rfl⟩
      exact ⟨a :: as, .cons ha has, by simp [hr], rfl⟩
    · rintro ⟨items', comma'⟩ _ ⟨a, ha, hread, hstop, -⟩
      obtain ⟨rfl, rfl⟩ := hstop rfl
      exact ⟨[a], .cons ha .nil, hread, rfl⟩

theorem Accepts.commaList (hcomma : close ≠ .comma) {xs : List ι}
    (hitems : ∀ x ∈ xs, ReadsItem w S item close x)
    (hopens : ∀ x ∈ xs, ∃ v vs, w x = v :: vs ∧ v.1 ≠ close ∧ v.1 ≠ .eof) {ts us : List Token}
    {u : Token} (hts : ts.map Token.toWord = listed (xs.map w)) (hu : u.kind = close)
    (hbound : xs.length < rules.bound) :
    Accepts (ts ++ u :: us) (commaList rules close item) fun r vs =>
      List.Forall₂ S xs r.1 ∧ vs = u :: us := by
  refine (listItems hcomma hitems hopens hts hu hbound [] false).bind ?_
  rintro ⟨items, comma⟩ _ ⟨as, has, hread, rfl⟩
  refine .pure ⟨?_, rfl⟩
  obtain rfl : items = as.reverse ++ [] := hread
  rw [List.append_nil, List.reverse_reverse]
  exact has

/-- The elements of a tuple behind its first one, and perhaps a comma behind the last. -/
theorem Accepts.tupleItems {es : List Expr} (hitems : ∀ e ∈ es, Reads (rules.call .expression) 0 e)
    (hopens : ∀ e ∈ es, ∃ v vs, e.words = v :: vs ∧ v.1 ≠ .rightParen) (trailing : Bool)
    {ts us : List Token} {u : Token}
    (hts : ts.map Token.toWord = commaWords Expr.words es trailing)
    (hu : u.kind = .rightParen) {n : Nat} (hn : es.length < n) (elements : List Expr) :
    Accepts (ts ++ u :: us) (Grammar.repeatUpTo (fun elements => do
        if ← Grammar.eat .comma then
          if ← Grammar.check .rightParen then return (elements, false)
          else return ((← rules.call .expression) :: elements, true)
        else return (elements, false)) n elements) fun read vs =>
      ∃ as, List.Forall₂ (Same .expr) es as ∧ read = as.reverse ++ elements ∧ vs = u :: us := by
  induction es generalizing ts n elements with
  | nil =>
    cases trailing with
    | false =>
      obtain rfl := List.map_eq_nil_iff.1 hts
      exact .stop hn (.bindTo (.eat (hu ▸ by decide)) (.pure ⟨rfl, rfl⟩)) ⟨[], .nil, rfl, rfl⟩
    | true =>
      obtain ⟨comma, rfl, hcomma⟩ := List.map_eq_singleton_iff.1 hts
      obtain ⟨n, rfl⟩ := Nat.exists_eq_succ_of_ne_zero (Nat.ne_of_gt hn)
      refine .repeatUpTo (T := fun r vs => r = (elements, false) ∧ vs = u :: us)
        (.bindTo (.eatThis (toWord_kind hcomma) (by decide)) (.bindTo (.check .rightParen) ?_))
        (fun _ _ h => nomatch h.1) ?_
      · rw [hu, beq_self_eq_true]
        exact .pure ⟨rfl, rfl⟩
      · rintro _ _ ⟨heq, rfl⟩
        cases heq
        exact ⟨[], .nil, rfl, rfl⟩
  | cons e es ih =>
    obtain ⟨n, rfl⟩ := Nat.exists_eq_succ_of_ne_zero (Nat.ne_of_gt (Nat.zero_lt_of_lt hn))
    obtain ⟨o, os, ho, hne⟩ := hopens e List.mem_cons_self
    rw [commaWords_cons] at hts
    obtain ⟨comma, ts, rfl, hcomma, hts⟩ := List.map_eq_cons_iff.1 hts
    obtain ⟨as, bs, rfl, has, hbs⟩ := List.map_eq_append_iff.1 hts
    obtain ⟨t, as, rfl, ht, -⟩ := List.map_eq_cons_iff.1 (has.trans ho)
    have hkind : t.kind = o.1 := toWord_kind ht
    obtain ⟨v, vs, hvs, hv⟩ := exists_separator us hbs hu
    rw [List.cons_append, List.append_assoc]
    refine .repeatUpTo (T := fun r vs => ∃ a, Same .expr e a ∧ r = (a :: elements, true) ∧
      vs = bs ++ u :: us) (.bindTo (.eatThis (toWord_kind hcomma) (by decide)) ?_) ?_ ?_
    · refine .bindTo (.check .rightParen) ?_
      rw [hkind, beq_false_of_ne hne, hvs]
      refine (hitems e List.mem_cons_self (t :: as) v vs has (stops_separator rfl hv)).bind ?_
      rintro a _ ⟨ha, rfl⟩
      exact .pure ⟨a, ha, rfl, rfl⟩
    · rintro _ _ ⟨a, ha, heq, rfl⟩
      cases heq
      refine (ih (fun x hx => hitems x (List.mem_cons_of_mem e hx))
        (fun x hx => hopens x (List.mem_cons_of_mem e hx)) hbs (Nat.lt_of_succ_lt_succ hn)
        (a :: elements)).mono ?_
      rintro _ _ ⟨as, has, rfl, rfl⟩
      exact ⟨a :: as, .cons ha has, by simp, rfl⟩
    · rintro _ _ ⟨a, -, heq, -⟩
      cases heq

end

/-! ## Arguments -/

/-- The words of an argument. -/
def Argument.words : Argument → List Word
  | .positional e => e.words
  | .named name e => nameWord name :: sign .equal :: e.words

/-- The same argument up to places. -/
inductive Argument.Same : Argument → Argument → Prop where
  | positional {e e' : Expr} (h : Ast.Same .expr e e') : Same (.positional e) (.positional e')
  | named {name : String} {e e' : Expr} (h : Ast.Same .expr e e') :
      Same (.named name e) (.named name e')

/-- All arguments of a call, in the order in which they are written. -/
def allArguments (args : List Expr) (named : List (String × Expr)) : List Argument :=
  args.map .positional ++ named.map fun p => .named p.1 p.2

theorem listed_allArguments (args : List Expr) (named : List (String × Expr)) :
    listed ((allArguments args named).map Argument.words) =
      listed (args.map Expr.words ++
        named.map fun p => nameWord p.1 :: sign .equal :: p.2.words) := by
  rw [allArguments, List.map_append, List.map_map, List.map_map]
  rfl

theorem same_positional {args : List Argument} {named : List Argument}
    (h : List.Forall₂ Argument.Same args named) :
    List.Forall₂ (Same .expr) (args.filterMap Argument.positional?)
      (named.filterMap Argument.positional?) := by
  induction h with
  | nil => exact .nil
  | cons hx _ ih =>
    cases hx with
    | positional hx => exact .cons hx ih
    | named => exact ih

theorem same_named {args : List Argument} {named : List Argument}
    (h : List.Forall₂ Argument.Same args named) :
    List.Forall₂ (Same .named) (args.filterMap Argument.named?)
      (named.filterMap Argument.named?) := by
  induction h with
  | nil => exact .nil
  | cons hx _ ih =>
    cases hx with
    | positional => exact ih
    | named hx => exact .cons (.named hx) ih

theorem positional_allArguments (args : List Expr) (named : List (String × Expr)) :
    (allArguments args named).filterMap Argument.positional? = args := by
  simp [allArguments, List.filterMap_append, List.filterMap_map, Function.comp_def,
    Argument.positional?]

theorem named_allArguments (args : List Expr) (named : List (String × Expr)) :
    (allArguments args named).filterMap Argument.named? = named := by
  simp [allArguments, List.filterMap_append, List.filterMap_map, Function.comp_def,
    Argument.named?]

section
variable {rules : Rules} {w : Word} {ws : List Word}

/-- A positional argument does not start like a named one. -/
theorem readsItem_positional {e : Expr} (hstarts : e.Starts w ws) (hnaming : e.isNaming = false)
    (h : Reads (rules.call .expression) 0 e) :
    ReadsItem Argument.words Argument.Same (argument rules) .rightParen (.positional e) := by
  intro ts u us hts hu
  obtain ⟨t, ts, rfl, ht, hws⟩ := List.map_eq_cons_iff.1 (hts.trans hstarts.words)
  obtain ⟨v, vs, hvs, hv⟩ : ∃ v vs, ts ++ u :: us = v :: vs ∧
      (t.kind = .identifier → v.kind ≠ .equal) := by
    cases ts with
    | nil =>
      refine ⟨u, us, rfl, fun _ => ?_⟩
      rcases hu with hu | hu
      · rw [hu]
        decide
      · rw [hu]
        decide
    | cons v vs =>
      refine ⟨v, vs ++ u :: us, rfl, fun hname => ?_⟩
      have hw : w.1 = .identifier := toWord_kind ht ▸ hname
      refine hstarts.unnamed hnaming hw v.toWord ?_
      rw [← hws]
      rfl
  rw [List.cons_append, hvs]
  refine .bindTo (.check .identifier) (.bindTo (.checkAt (k := 1) (t := v) rfl) ?_)
  have hnamed : ((t.kind == .identifier) && (v.kind == .equal)) = false := by
    rw [Bool.and_eq_false_imp]
    intro hname
    exact beq_false_of_ne (hv (beq_iff_eq.1 hname))
  rw [hnamed, if_neg Bool.false_ne_true, ← hvs, ← List.cons_append]
  refine (h _ u us hts (stops_separator rfl hu)).bind ?_
  rintro e' _ ⟨he, rfl⟩
  exact .pure ⟨.positional he, rfl⟩

theorem readsItem_named {name : String} {e : Expr} (h : Reads (rules.call .expression) 0 e) :
    ReadsItem Argument.words Argument.Same (argument rules) .rightParen (.named name e) := by
  intro ts u us hts hu
  obtain ⟨t, ts, rfl, ht, hts⟩ := List.map_eq_cons_iff.1 hts
  obtain ⟨equal, ts, rfl, hequal, hts⟩ := List.map_eq_cons_iff.1 hts
  have hname : t.kind = .identifier := toWord_kind ht
  have hkind : equal.kind = .equal := toWord_kind hequal
  refine .bindTo (.check .identifier) (.bindTo (.checkAt (k := 1) (t := equal) rfl) ?_)
  rw [hname, hkind, beq_self_eq_true, beq_self_eq_true, Bool.and_self, if_pos rfl]
  refine .bindTo (.advance (hname ▸ by decide)) (.bindTo (.advance (hkind ▸ by decide)) ?_)
  refine (h ts u us hts (stops_separator rfl hu)).bind ?_
  rintro e' _ ⟨he, rfl⟩
  rw [lexeme_of_toWord ht]
  exact .pure ⟨.named he, rfl⟩

/-- Written arguments are read back, and told apart. -/
theorem Accepts.callArguments {all : List Argument}
    (hitems : ∀ a ∈ all, ReadsItem Argument.words Argument.Same (argument rules) .rightParen a)
    (hopens : ∀ a ∈ all, ∃ v vs, a.words = v :: vs ∧ v.1 ≠ .rightParen)
    (hbound : all.length ≤ rules.bound) {left right : Token} {ts us : List Token}
    (hleft : left.kind = .leftParen) (hts : ts.map Token.toWord = listed (all.map Argument.words))
    (hright : right.kind = .rightParen) :
    Accepts (left :: (ts ++ right :: us)) (callArguments rules) fun r vs =>
      List.Forall₂ (Same .expr) (all.filterMap Argument.positional?) r.1 ∧
        List.Forall₂ (Same .named) (all.filterMap Argument.named?) r.2 ∧ vs = us := by
  refine .inNode (.bindTo (.advance (hleft ▸ by decide)) ?_)
  cases all with
  | nil =>
    obtain rfl := List.map_eq_nil_iff.1 hts
    refine .bindTo (.check .rightParen) ?_
    rw [hright, beq_self_eq_true]
    exact .bindTo (.pure ⟨rfl, rfl⟩)
      (.bindTo (.consume hright (by decide)) (.pure ⟨.nil, .nil, rfl⟩))
  | cons x xs =>
    obtain ⟨o, os, ho, hne⟩ := hopens x List.mem_cons_self
    have hfirst := hts
    rw [listed_map_cons, ho] at hfirst
    obtain ⟨t, as, rfl, ht, -⟩ := List.map_eq_cons_iff.1 hfirst
    have hkind : t.kind = o.1 := toWord_kind ht
    refine .bindTo (.check .rightParen) ?_
    rw [hkind, beq_false_of_ne hne, if_neg Bool.false_ne_true]
    refine (commaSeparated (by decide) hitems hts hright hbound).bind ?_
    rintro read _ ⟨hread, rfl⟩
    exact .bindTo (.consume hright (by decide))
      (.pure ⟨same_positional hread, same_named hread, rfl⟩)

theorem CallChains.call {callee : Expr} {args : List Expr} {named : List (String × Expr)}
    {span : Span} {line : Nat} (hcallee : CallChains rules callee)
    (hitems : ∀ a ∈ allArguments args named,
      ReadsItem Argument.words Argument.Same (argument rules) .rightParen a)
    (hopens : ∀ a ∈ allArguments args named, ∃ v vs, a.words = v :: vs ∧ v.1 ≠ .rightParen)
    (hbound : (allArguments args named).length ≤ rules.bound) :
    CallChains rules ⟨.call callee args named, span, line⟩ := by
  refine hcallee.apply (by rw [Expr.words]) (.of_eq (m := 9) rfl (by decide))
    fun c callee' ts u us hsame hts => ?_
  rw [← listed_allArguments] at hts
  obtain ⟨left, as, right, rfl, hkind, has, hclose⟩ := exists_brackets hts
  rw [List.cons_append, List.append_assoc]
  refine .bindTo .peek ?_
  rw [hkind]
  refine .map (.inNodeAt (.bind (.callArguments hitems hopens hbound hkind has hclose) ?_))
  rintro ⟨args', named'⟩ _ ⟨hargs, hnamed, rfl⟩
  rw [positional_allArguments] at hargs
  rw [named_allArguments] at hnamed
  exact .pure ⟨_, rfl, .callExpr hsame (.ofList hargs) (.ofList hnamed), rfl⟩

end

/-! ## Primary expressions -/

section
variable {rules : Rules} {span : Span} {line : Nat}

theorem Reads.literal (value : Literal) :
    Reads (primary rules) 10 ⟨.literal value, span, line⟩ := by
  intro ts u us hts _
  rw [Expr.words] at hts
  obtain ⟨t, rfl, ht⟩ := List.map_eq_singleton_iff.1 hts
  have hliteral := literal?_of_toWord ht
  refine .bindAny .startPos ?_
  rintro ⟨start, line'⟩
  refine .bindTo .peek ?_
  simp only [hliteral]
  refine (Accepts.word ?_).mono ?_
  · rintro heof
    simp [literal?, heof] at hliteral
  · rintro e vs ⟨hkind, rfl⟩
    exact ⟨same_of_kind (hkind ▸ .literalExpr), rfl⟩

theorem Reads.variable (name : String) :
    Reads (primary rules) 10 ⟨.variable name, span, line⟩ := by
  intro ts u us hts hu
  rw [Expr.words] at hts
  obtain ⟨t, rfl, ht⟩ := List.map_eq_singleton_iff.1 hts
  refine (Accepts.namePrimary (toWord_kind ht) (hu.ne rfl (Nat.le_refl 10))).mono ?_
  rintro e vs ⟨hkind, rfl⟩
  rw [lexeme_of_toWord ht] at hkind
  exact ⟨same_of_kind (hkind ▸ .variableExpr), rfl⟩

theorem Reads.self : Reads (primary rules) 10 ⟨.self, span, line⟩ := by
  intro ts u us hts _
  rw [Expr.words] at hts
  obtain ⟨t, rfl, ht⟩ := List.map_eq_singleton_iff.1 hts
  have hword : t.kind = .kwThis := toWord_kind ht
  refine .bindAny .startPos ?_
  rintro ⟨start, line'⟩
  refine .bindTo .peek ?_
  simp only [literal?, hword]
  refine (Accepts.word (hword ▸ by decide)).mono ?_
  rintro e vs ⟨hkind, rfl⟩
  exact ⟨same_of_kind (hkind ▸ .selfExpr), rfl⟩

theorem Reads.super : Reads (primary rules) 10 ⟨.super, span, line⟩ := by
  intro ts u us hts _
  rw [Expr.words] at hts
  obtain ⟨t, rfl, ht⟩ := List.map_eq_singleton_iff.1 hts
  have hword : t.kind = .kwSuper := toWord_kind ht
  refine .bindAny .startPos ?_
  rintro ⟨start, line'⟩
  refine .bindTo .peek ?_
  simp only [literal?, hword]
  refine (Accepts.word (hword ▸ by decide)).mono ?_
  rintro e vs ⟨hkind, rfl⟩
  exact ⟨same_of_kind (hkind ▸ .superExpr), rfl⟩

/-- What stands in parentheses is read by a rule of its own. -/
theorem Accepts.parenthesized {t : Token} {ts : List Token} {Q : Expr → List Token → Prop}
    (ht : t.kind = .leftParen) (h : Accepts (t :: ts) (parenthesized rules) Q) :
    Accepts (t :: ts) (primary rules) Q := by
  refine .bindAny .startPos fun (start, line) => .bindTo .peek ?_
  simp only [literal?, ht]
  exact h

theorem Reads.grouping {inner : Expr} {w : Word} {ws : List Word} (hstarts : inner.Starts w ws)
    (h : Reads (rules.call .expression) 0 inner) :
    Reads (primary rules) 10 ⟨.grouping inner, span, line⟩ := by
  intro ts u us hts _
  rw [Expr.words, List.cons_append] at hts
  obtain ⟨left, as, right, rfl, hopen, has, hclose⟩ := exists_brackets hts
  obtain ⟨t, as, rfl, ht, -⟩ := List.map_eq_cons_iff.1 (has.trans hstarts.words)
  have hkind : t.kind = w.1 := toWord_kind ht
  rw [List.cons_append, List.append_assoc]
  refine .parenthesized hopen (.bindAny .checkpoint fun c => .bindAny .startPos ?_)
  rintro ⟨start, line'⟩
  refine .bindTo (.advance (hopen ▸ by decide)) ?_
  refine .bindTo (.eat (hkind ▸ hstarts.opens.1)) ?_
  rw [if_neg Bool.false_ne_true]
  refine (h (t :: as) right (u :: us) has (.of_none (by rw [hclose]; rfl))).bind ?_
  rintro inner' _ ⟨hinner, rfl⟩
  refine .bindTo (.check .comma) ?_
  rw [hclose, beq_false_of_ne (by decide), if_neg Bool.false_ne_true]
  refine .bindAny (.inNodeAt (.bindTo (.consume hclose (by decide)) (.pure rfl))) fun _ => ?_
  refine Accepts.exprFrom.mono ?_
  rintro e _ ⟨hkind, rfl⟩
  exact ⟨same_of_kind (hkind ▸ .groupingExpr hinner), rfl⟩

theorem Reads.emptyTuple : Reads (primary rules) 10 ⟨.tuple [], span, line⟩ := by
  intro ts u us hts _
  rw [Expr.words] at hts
  obtain ⟨left, ts, rfl, hleft, hts⟩ := List.map_eq_cons_iff.1 hts
  obtain ⟨right, rfl, hright⟩ := List.map_eq_singleton_iff.1 hts
  have hopen : left.kind = .leftParen := toWord_kind hleft
  refine .parenthesized hopen (.bindAny .checkpoint fun c => .bindAny .startPos ?_)
  rintro ⟨start, line'⟩
  refine .bindTo (.advance (hopen ▸ by decide)) ?_
  refine .bindTo (.eatThis (toWord_kind hright) (by decide)) ?_
  rw [if_pos rfl]
  refine .bindAny (.inNodeAt (.pure rfl)) fun _ => Accepts.exprFrom.mono ?_
  rintro e _ ⟨hkind, rfl⟩
  exact ⟨same_of_kind (hkind ▸ .tupleExpr .nil), rfl⟩

/-- A tuple has a comma behind its only element. -/
theorem tuple_words (x : Expr) (xs : List Expr) :
    (Expr.mk (.tuple (x :: xs)) span line).words = sign .leftParen ::
      (x.words ++ commaWords Expr.words xs xs.isEmpty) ++ [sign .rightParen] := by
  rw [Expr.words, listed_map_cons]
  cases xs with
  | nil => simp [commaWords]
  | cons y ys => simp [commaWords]

/-- Behind the first element of a tuple stands a comma. -/
theorem exists_comma {xs : List Expr} {ts : List Token}
    (hts : ts.map Token.toWord = commaWords Expr.words xs xs.isEmpty) :
    ∃ comma us, ts = comma :: us ∧ comma.kind = .comma := by
  cases xs with
  | nil =>
    obtain ⟨comma, us, rfl, hcomma, -⟩ := List.map_eq_cons_iff.1 hts
    exact ⟨comma, us, rfl, toWord_kind hcomma⟩
  | cons x xs =>
    rw [commaWords_cons] at hts
    obtain ⟨comma, us, rfl, hcomma, -⟩ := List.map_eq_cons_iff.1 hts
    exact ⟨comma, us, rfl, toWord_kind hcomma⟩

section
variable {elements : List Expr}
  (hitems : ∀ e ∈ elements, Reads (rules.call .expression) 0 e)
  (hstarts : ∀ e ∈ elements, ∃ w ws, e.Starts w ws)
include hitems hstarts

theorem Reads.list (hbound : elements.length < rules.bound) :
    Reads (primary rules) 10 ⟨.list elements, span, line⟩ := by
  intro ts u us hts _
  rw [Expr.words, List.cons_append] at hts
  obtain ⟨left, as, right, rfl, hopen, has, hclose⟩ := exists_brackets hts
  rw [List.cons_append, List.append_assoc]
  refine .bindAny .startPos ?_
  rintro ⟨start, line'⟩
  refine .bindTo .peek ?_
  simp only [literal?, hopen]
  have hread : Accepts (as ++ right :: u :: us)
      (commaList rules .rightBracket (rules.call .expression)) fun r vs =>
        List.Forall₂ (Same .expr) elements r.1 ∧ vs = right :: u :: us := by
    refine .commaList (by decide) (fun e he => ?_) (fun e he => ?_) has hclose hbound
    · intro cs v vs hcs hv
      exact hitems e he cs v vs hcs (stops_separator rfl hv)
    · obtain ⟨w, ws, h⟩ := hstarts e he
      exact ⟨w, ws, h.words, h.opens.2⟩
  have hkind : Accepts (left :: (as ++ right :: u :: us)) (listLiteral rules) fun kind vs =>
      Same .exprKind (.list elements) kind ∧ vs = u :: us := by
    refine .bindTo (.advance (hopen ▸ by decide)) (hread.bind ?_)
    rintro ⟨elements', comma⟩ _ ⟨helements, rfl⟩
    exact .bindTo (.consume hclose (by decide)) (.pure ⟨.listExpr (.ofList helements), rfl⟩)
  refine hkind.inNode.bind ?_
  rintro kind _ ⟨hsame, rfl⟩
  refine Accepts.exprFrom.mono ?_
  rintro e _ ⟨hkind, rfl⟩
  exact ⟨same_of_kind (hkind ▸ hsame), rfl⟩

theorem Reads.tuple (hbound : elements.length ≤ rules.bound) :
    Reads (primary rules) 10 ⟨.tuple elements, span, line⟩ := by
  intro ts u us hts hnext
  cases elements with
  | nil => exact Reads.emptyTuple ts u us hts hnext
  | cons x xs =>
    obtain ⟨w, ws, hx⟩ := hstarts x List.mem_cons_self
    rw [tuple_words, List.cons_append] at hts
    obtain ⟨left, cs, right, rfl, hopen, hcs, hclose⟩ := exists_brackets hts
    obtain ⟨as, bs, rfl, has, hbs⟩ := List.map_eq_append_iff.1 hcs
    obtain ⟨t, as, rfl, ht, -⟩ := List.map_eq_cons_iff.1 (has.trans hx.words)
    have hkind : t.kind = w.1 := toWord_kind ht
    obtain ⟨comma, cs, rfl, hcomma⟩ := exists_comma hbs
    rw [List.cons_append, List.append_assoc, List.append_assoc]
    refine .parenthesized hopen (.bindAny .checkpoint fun c => .bindAny .startPos ?_)
    rintro ⟨start, line'⟩
    refine .bindTo (.advance (hopen ▸ by decide)) ?_
    refine .bindTo (.eat (hkind ▸ hx.opens.1)) ?_
    rw [if_neg Bool.false_ne_true]
    refine (hitems x List.mem_cons_self (t :: as) comma (cs ++ right :: u :: us) has
      (.of_none (by rw [hcomma]; rfl))).bind ?_
    rintro x' _ ⟨hx', rfl⟩
    refine .bindTo (.check .comma) ?_
    rw [hcomma, beq_self_eq_true, if_pos rfl]
    have hread : Accepts (comma :: cs ++ right :: u :: us) (inNodeAt c .tupleExpr do
        let elements ← repeatUpTo (fun elements => do
          if ← eat .comma then
            if ← check .rightParen then return (elements, false)
            else return ((← rules.call .expression) :: elements, true)
          else return (elements, false)) rules.bound [x']
        let _ ← consume .rightParen "Expected ')' after tuple elements."
        return elements.reverse) fun read vs =>
          List.Forall₂ (Same .expr) (x :: xs) read ∧ vs = u :: us := by
      refine .inNodeAt ((Accepts.tupleItems (fun e he => hitems e (List.mem_cons_of_mem x he))
        (fun e he => ?_) _ hbs hclose hbound [x']).bind ?_)
      · obtain ⟨v, vs, hv⟩ := hstarts e (List.mem_cons_of_mem x he)
        exact ⟨v, vs, hv.words, hv.opens.1⟩
      · rintro _ _ ⟨read, hread, rfl, rfl⟩
        refine .bindTo (.consume hclose (by decide)) (.pure ⟨?_, rfl⟩)
        rw [List.reverse_append, List.reverse_reverse]
        exact .cons hx' hread
    refine hread.bind ?_
    rintro read _ ⟨hsame, rfl⟩
    refine Accepts.exprFrom.mono ?_
    rintro e _ ⟨hkind, rfl⟩
    exact ⟨same_of_kind (hkind ▸ .tupleExpr (.ofList hsame)), rfl⟩

end

end

/-! ## All that can be written -/

section
variable {ι : Type} {w : ι → List Word} {x : ι} {xs : List ι}

theorem length_le_commaWords_of_mem (trailing : Bool) (hx : x ∈ xs) :
    (w x).length ≤ (commaWords w xs trailing).length := by
  induction xs with
  | nil => cases hx
  | cons y ys ih =>
    rw [commaWords_cons, List.length_cons, List.length_append]
    rcases List.mem_cons.1 hx with rfl | hx
    · omega
    · have hle := ih hx
      omega

theorem length_le_listed_of_mem (hx : x ∈ xs) : (w x).length ≤ (listed (xs.map w)).length := by
  cases xs with
  | nil => cases hx
  | cons y ys =>
    rw [listed_map_cons, List.length_append]
    rcases List.mem_cons.1 hx with rfl | hx
    · omega
    · have hle := length_le_commaWords_of_mem (w := w) false hx
      omega

theorem length_le_listed (hw : ∀ x ∈ xs, w x ≠ []) :
    xs.length ≤ (listed (xs.map w)).length := by
  cases xs with
  | nil => exact Nat.zero_le _
  | cons y ys =>
    have hy := List.length_pos_iff.2 (hw y List.mem_cons_self)
    have hys := length_le_commaWords (w := w) ys false
    rw [listed_map_cons, List.length_append, List.length_cons]
    omega

end

section
variable {e : Expr} {m : Nat}

/-- An expression inside of another one is read by a nested call of a rule. -/
theorem Reads.nested (ih : ∀ {m}, e.words.length ≤ m → ReadAt (.upTo m) e)
    (hm : e.words.length < m) : Reads ((Rules.upTo m).call .expression) 0 e := by
  obtain ⟨m, rfl⟩ := Nat.exists_eq_succ_of_ne_zero (Nat.ne_of_gt (Nat.zero_lt_of_lt hm))
  exact (ih (Nat.le_of_lt_succ hm)).level 0 (Nat.zero_le _)

theorem ReadAt.of_primary (he : e.Writable) (hm : e.words.length ≤ m) (hlevel : e.level = 9)
    (h : Reads (primary (.upTo m)) 10 e) : ReadAt (.upTo m) e := by
  obtain ⟨w, ws, hstarts⟩ := he.starts
  exact .of_call (Nat.succ_pos m) hstarts (Nat.le_succ_of_le hm) hlevel (.of_reads hstarts h)

/-- What the rule of its level reads, unless this rule goes on in turns. -/
theorem ReadAt.of_rule (he : e.Writable) (hlevel : Reads (levelRule (.upTo m) e.level) e.level e)
    (hleads : 0 < e.level → e.level < 7 → ¬ e.Leads e.level) (hne : e.level ≠ 9) :
    ReadAt (.upTo m) e := by
  obtain ⟨w, ws, hstarts⟩ := he.starts
  exact .of_level (Nat.succ_pos m) hstarts hlevel (fun hpos hn h => absurd h (hleads hpos hn))
    fun h => absurd h hne

/-- All elements of a list are read back. -/
theorem Reads.elements {elements : List Expr} (helements : ∀ e ∈ elements, e.Writable)
    (ih : ∀ e ∈ elements, ∀ {m}, e.words.length ≤ m → ReadAt (.upTo m) e)
    (hm : (listed (elements.map Expr.words)).length < m) :
    (∀ e ∈ elements, Reads ((Rules.upTo m).call .expression) 0 e) ∧ elements.length < m := by
  constructor
  · intro e he
    exact .nested (ih e he) (Nat.lt_of_le_of_lt (length_le_listed_of_mem he) hm)
  · refine Nat.lt_of_le_of_lt (length_le_listed (w := Expr.words) fun e he => ?_) hm
    obtain ⟨w, ws, hstarts⟩ := (helements e he).starts
    rw [hstarts.words]
    exact List.cons_ne_nil _ _

/-- All arguments of a call are read back. -/
theorem ReadsItem.arguments {args : List Expr} {named : List (String × Expr)}
    (hargs : ∀ e ∈ args, e.Writable) (hpositional : ∀ e ∈ args, e.isNaming = false)
    (ihargs : ∀ e ∈ args, ∀ {m}, e.words.length ≤ m → ReadAt (.upTo m) e)
    (ihnamed : ∀ p ∈ named, ∀ {m}, p.2.words.length ≤ m → ReadAt (.upTo m) p.2)
    (hm : (listed ((allArguments args named).map Argument.words)).length < m) :
    ∀ a ∈ allArguments args named,
      ReadsItem Argument.words Argument.Same (argument (.upTo m)) .rightParen a := by
  intro a ha
  have hlength := Nat.lt_of_le_of_lt (length_le_listed_of_mem (w := Argument.words) ha) hm
  rcases List.mem_append.1 ha with ha | ha
  · obtain ⟨e, he, rfl⟩ := List.mem_map.1 ha
    obtain ⟨w, ws, hstarts⟩ := (hargs e he).starts
    exact readsItem_positional hstarts (hpositional e he) (.nested (ihargs e he) hlength)
  · obtain ⟨p, hp, rfl⟩ := List.mem_map.1 ha
    refine readsItem_named (.nested (ihnamed p hp) ?_)
    rw [Argument.words, List.length_cons, List.length_cons] at hlength
    omega

theorem Argument.opens {args : List Expr} (named : List (String × Expr))
    (hargs : ∀ e ∈ args, e.Writable) :
    ∀ a ∈ allArguments args named, ∃ v vs, a.words = v :: vs ∧ v.1 ≠ .rightParen := by
  intro a ha
  rcases List.mem_append.1 ha with ha | ha
  · obtain ⟨e, he, rfl⟩ := List.mem_map.1 ha
    obtain ⟨w, ws, hstarts⟩ := (hargs e he).starts
    exact ⟨w, ws, hstarts.words, hstarts.opens.1⟩
  · obtain ⟨p, -, rfl⟩ := List.mem_map.1 ha
    exact ⟨nameWord p.1, _, rfl, nofun⟩

section
variable {object key : Expr} {name : String} {span : Span} {line : Nat}
  (hobject : object.Writable) (hlevel : object.level = 9)
  (ihobject : ∀ {m}, object.words.length ≤ m → ReadAt (.upTo m) object)
include hobject hlevel ihobject

theorem ReadAt.member (hm : (Expr.mk (.member object name) span line).words.length ≤ m) :
    ReadAt (.upTo m) ⟨.member object name, span, line⟩ := by
  have hlength := hm
  rw [Expr.words, List.length_append] at hlength
  obtain ⟨w, ws, hstarts⟩ := (Expr.Writable.member hobject hlevel).starts
  exact .of_call (Nat.succ_pos m) hstarts (Nat.le_succ_of_le hm) rfl
    (.member ((ihobject (by omega)).call hlevel))

theorem ReadAt.index (hkey : key.Writable)
    (ihkey : ∀ {m}, key.words.length ≤ m → ReadAt (.upTo m) key)
    (hm : (Expr.mk (.index object key) span line).words.length ≤ m) :
    ReadAt (.upTo m) ⟨.index object key, span, line⟩ := by
  have hlength := hm
  rw [Expr.words, List.length_append, List.length_cons, List.length_append] at hlength
  obtain ⟨w, ws, hstarts⟩ := (Expr.Writable.index hobject hkey hlevel).starts
  exact .of_call (Nat.succ_pos m) hstarts (Nat.le_succ_of_le hm) rfl
    (.index ((ihobject (by omega)).call hlevel) (.nested ihkey (by omega)))

end

/-- What can be assigned to is read back as an operand. -/
theorem ReadAt.assign {value : Expr} {target : AssignTarget} {op : AssignOp} {span : Span}
    {line : Nat} (hassign : (Expr.mk (.assign target op value) span line).Writable)
    (hwords : (Expr.mk (.assign target op value) span line).words =
      e.words ++ sign op.mark :: value.words)
    (hlevel : e.level = 9) (he : e.words.length ≤ m → ReadAt (.upTo m) e)
    (htarget : assignTarget? e = some target)
    (hvalue : ∀ {m}, value.words.length ≤ m → ReadAt (.upTo m) value)
    (hm : (Expr.mk (.assign target op value) span line).words.length ≤ m) :
    ReadAt (.upTo m) ⟨.assign target op value, span, line⟩ := by
  rw [hwords, List.length_append, List.length_cons] at hm
  refine .of_rule hassign ?_ nofun nofun
  exact .assign ((he (by omega)).level 1 (by omega)) htarget (.nested hvalue (by omega)) hwords

end

/-- Whatever can be written is read back, if calls may be nested as deep as there are words. -/
theorem readAt_of_writable {e : Expr} (h : e.Writable) {m : Nat} (hm : e.words.length ≤ m) :
    ReadAt (.upTo m) e := by
  induction h generalizing m with
  | literal => exact .of_primary .literal hm rfl (.literal _)
  | «variable» => exact .of_primary .variable hm rfl (.variable _)
  | self => exact .of_primary .self hm rfl .self
  | super => exact .of_primary .super hm rfl .super
  | grouping hinner ih =>
    obtain ⟨v, vs, hv⟩ := hinner.starts
    refine .of_primary (.grouping hinner) hm rfl (.grouping hv (.nested ih ?_))
    rw [Expr.words, List.length_append, List.length_cons] at hm
    omega
  | list helements ih =>
    have hlength := hm
    rw [Expr.words, List.length_append, List.length_cons] at hlength
    obtain ⟨hitems, hbound⟩ := Reads.elements helements ih (m := m) (by omega)
    exact .of_primary (.list helements) hm rfl
      (.list hitems (fun e he => (helements e he).starts) (Nat.lt_succ_of_lt hbound))
  | tuple helements ih =>
    have hlength := hm
    rw [Expr.words, List.length_append, List.length_append, List.length_cons] at hlength
    obtain ⟨hitems, hbound⟩ := Reads.elements helements ih (m := m) (by omega)
    exact .of_primary (.tuple helements) hm rfl
      (.tuple hitems (fun e he => (helements e he).starts) (Nat.le_succ_of_le (Nat.le_of_lt hbound)))
  | unary hoperand hlevel ih =>
    rw [Expr.words, List.length_cons] at hm
    obtain ⟨m, rfl⟩ := Nat.exists_eq_succ_of_ne_zero (Nat.ne_of_gt (Nat.zero_lt_of_lt hm))
    have hread := ih (Nat.le_of_succ_le_succ hm)
    exact .of_rule (.unary hoperand hlevel) (.unary (hread.level 8 hlevel))
      (fun _ h => absurd h (Nat.not_lt_of_le (Nat.le_succ 7))) (Nat.ne_of_lt (show 8 < 9 by decide))
  | @binary left right op span line hleft hright hgrades ihleft ihright =>
    have hlength := hm
    rw [Expr.words, List.length_append, List.length_cons] at hlength
    rcases hgrades.cases with ⟨hop, hleads, hlevel⟩ | ⟨rfl, hbase, hexponent⟩
    · obtain ⟨w, ws, hstarts⟩ := (Expr.Writable.binary hleft hright hgrades).starts
      exact .of_left (Nat.succ_pos m) hstarts (Nat.le_succ_of_le hm) op.level_pos hop
        (.binary hop ((ihleft (by omega)).left _ op.level_pos hop hleads)
          ((ihright (by omega)).level _ hlevel))
    · obtain ⟨m, rfl⟩ := Nat.exists_eq_succ_of_ne_zero (show m ≠ 0 by omega)
      exact .of_rule (.binary hleft hright hgrades)
        (.power ((ihleft (by omega)).level 8 hbase) ((ihright (by omega)).level 7 hexponent))
        (fun _ h => absurd h (Nat.lt_irrefl 7)) (Nat.ne_of_lt (show 7 < 9 by decide))
  | range hfirst hlast hlevel hlevel' ihfirst ihlast =>
    rw [Expr.words, List.length_append, List.length_cons] at hm
    refine .of_rule (.range hfirst hlast hlevel hlevel') ?_
      (fun _ _ h => Bool.false_ne_true (h.noRange rfl).symm)
      (Nat.ne_of_lt (show 4 < 9 by decide))
    exact .range ((ihfirst (by omega)).level 5 hlevel) ((ihlast (by omega)).level 5 hlevel')
  | @call _ _ named _ _ hcallee hlevel hargs hpositional hnamed ihcallee ihargs ihnamed =>
    have hlength := hm
    rw [Expr.words, ← listed_allArguments, List.length_append, List.length_cons,
      List.length_append] at hlength
    obtain ⟨w, ws, hstarts⟩ :=
      (Expr.Writable.call hcallee hlevel hargs hpositional hnamed).starts
    have hitems := ReadsItem.arguments (m := m) hargs hpositional ihargs ihnamed (by omega)
    have hopens := Argument.opens named hargs
    have hcount := length_le_listed (w := Argument.words) fun a ha => by
      obtain ⟨v, vs, hwords, -⟩ := hopens a ha
      rw [hwords]
      exact List.cons_ne_nil _ _
    exact .of_call (Nat.succ_pos m) hstarts (Nat.le_succ_of_le hm) rfl
      (.call ((ihcallee (by omega)).call hlevel) hitems hopens (Nat.le_succ_of_le (by omega)))
  | member hobject hlevel ih => exact .member hobject hlevel ih hm
  | index hobject hindex hlevel ihobject ihindex =>
    exact .index hobject hlevel ihobject hindex ihindex hm
  | @assignVariable name op value span line hvalue ihvalue =>
    exact .assign (e := ⟨.variable name, span, line⟩) (.assignVariable hvalue)
      (by rw [Expr.words, Expr.words]; rfl) rfl (fun hm => .of_primary .variable hm rfl (.variable _))
      rfl ihvalue hm
  | @assignMember object name op value span line hobject hlevel hvalue ihobject ihvalue =>
    exact .assign (e := ⟨.member object name, span, line⟩) (.assignMember hobject hlevel hvalue)
      (by rw [Expr.words, Expr.words]) rfl (.member hobject hlevel ihobject) rfl ihvalue hm
  | @assignIndex object index op value span line hobject hindex hlevel hvalue ihobject ihindex
      ihvalue =>
    exact .assign (e := ⟨.index object index, span, line⟩)
      (.assignIndex hobject hindex hlevel hvalue) (by rw [Expr.words, Expr.words]) rfl
      (.index hobject hlevel ihobject hindex ihindex) rfl ihvalue hm

/-- Where the tokens of an expression that can be written stand before a semicolon, the rule for
expressions reads just these tokens, yields the expression up to its places, and reports nothing. -/
theorem written_expr_read {e : Expr} (he : e.Writable) {ts us : List Token} {semi : Token}
    {i : Input} {s : State} {n : Nat} (hwords : ts.map Token.toWord = e.words)
    (hsemi : semi.kind = .semicolon) (hn : ts.length ≤ n) (heof : i.eof.kind = .eof)
    (hrest : s.rest = ts ++ semi :: us) (halted : s.halted = false) :
    ∃ e' t, exec (exprRule (.upTo n)) i s = (.ok e', t) ∧ Same .expr e e' ∧
      t.rest = semi :: us ∧ t.read.toList = s.read.toList ++ ts ∧ t.errors = s.errors := by
  have hlength : e.words.length ≤ n := by
    rw [← hwords, List.length_map]
    exact hn
  have hstops : Stops 0 semi.kind := .of_none (by rw [hsemi]; rfl)
  obtain ⟨e', t, hexec, herrors, -, hsame, ht⟩ :=
    (readAt_of_writable he hlength).level 0 (Nat.zero_le _) ts semi us hwords hstops i s hrest halted
  have hread : t.read.toList ++ t.rest = s.read.toList ++ s.rest :=
    ((Twin.exprRule (Rules.lawful_upTo n)).stepwise.run heof hexec).tokens_eq
  rw [ht, hrest, ← List.append_assoc] at hread
  exact ⟨e', t, hexec, hsame, ht, List.append_cancel_right hread, herrors⟩

/-- `f(x, k = 1) ** -y` is read back. -/
theorem written_expr_read_power :
    let stream := (Scan.scan ⟨"f(x, k = 1) ** -y;", "a"⟩ .lossy {}).1
    let s := State.start stream {} {}
    let bare : ExprKind → Expr := fun kind => ⟨kind, .empty 0, 0⟩
    let f := bare (.call (bare (.variable "f")) [bare (.variable "x")]
      [("k", bare (.literal (.int "1")))])
    ∃ e t, exec (exprRule (.upTo 11)) (.of stream {}) s = (.ok e, t) ∧
      Same .expr (bare (.binary f .pow (bare (.unary .neg (bare (.variable "y")))))) e ∧
      t.read.toList = s.rest.take 11 ∧ t.errors = s.errors := by
  intro stream s bare f
  have hargs : ∀ e ∈ [bare (.variable "x")], e.Writable ∧ e.isNaming = false := by
    rintro e (_ | ⟨_, ⟨⟩⟩)
    exact ⟨.variable, rfl⟩
  have hnamed : ∀ p ∈ [("k", bare (.literal (.int "1")))], p.2.Writable := by
    rintro p (_ | ⟨_, ⟨⟩⟩)
    exact .literal
  have hpower : (bare (.binary f .pow (bare (.unary .neg (bare (.variable "y")))))).Writable :=
    .binary (.call .variable rfl (fun e he => (hargs e he).1) (fun e he => (hargs e he).2) hnamed)
      (.unary .variable (by decide)) ⟨by decide, by decide⟩
  have hread : (s.rest.take 11).map Token.toWord =
      [nameWord "f", sign .leftParen, nameWord "x", sign .comma, nameWord "k", sign .equal,
        (.intLiteral, "1"), sign .rightParen, sign .power, sign .minus, nameWord "y"] := by
    decide +kernel
  have hwords : (s.rest.take 11).map Token.toWord =
      (bare (.binary f .pow (bare (.unary .neg (bare (.variable "y")))))).words := by
    rw [hread]
    simp [bare, f, Expr.words, listed, BinaryOp.mark, UnaryOp.mark, Literal.word]
  obtain ⟨semi, hsemi, hrest⟩ :
      ∃ semi : Token, semi.kind = .semicolon ∧
        s.rest = s.rest.take 11 ++ semi :: s.rest.drop 12 :=
    ⟨s.rest.get ⟨11, by decide +kernel⟩, by decide +kernel, by decide +kernel⟩
  obtain ⟨e, t, hexec, hsame, -, ht, herrors⟩ := written_expr_read hpower (i := .of stream {})
    hwords hsemi (List.length_take_le 11 s.rest) (by decide +kernel) hrest rfl
  exact ⟨e, t, hexec, hsame, ht, herrors⟩

end LimitSyntax.Grammar
