import LimitSyntax.Proofs.ErrorCap

/-!
# What is rejected

A parse that has reported nothing yet reports the first thing that is wrong. A parser rejects a kind
of token if it then reports something whenever a token of the kind is next (`Grammar.Rejects`). The
rules for expressions, statements and declarations reject every token that opens no declaration
(`Grammar.opensDeclaration`), the end of the text among them.
-/

namespace LimitSyntax.Grammar

open Ast

/-! ## Reports -/

/-- Nothing was reported, so that anything wrong will be. -/
structure State.Clean (s : State) : Prop where
  errors : s.errors.messages = #[]
  going : s.halted = false
  closed : s.unclosedAt = none

theorem State.Clean.report {s : State} (h : s.Clean) (i : Input) {t : Token}
    (ht : t.kind ≠ .error) (description : String) (block : Option OpenBlock) :
    (s.report i t description block).errors.messages ≠ #[] :=
  State.report_ne_empty h.errors h.going i ht description block

/-- If two parsers in a row report nothing, then the first does not. -/
theorem clean_of_bind {α β : Type} {p : Parse α} {f : α → Parse β} {i : Input} {s : State}
    (heof : i.eof.kind = .eof) (hf : ∀ a, Stepwise (f a))
    (h : (exec (p >>= f) i s).2.errors.messages = #[]) :
    (exec p i s).2.errors.messages = #[] := by
  rw [exec_bind] at h
  rcases hexec : exec p i s with ⟨_ | a, t⟩
  · rwa [hexec] at h
  · rw [hexec] at h
    exact (hf a i t heof).clean h

/-- The parser reports something if a token of the kind is next. -/
def Rejects {α : Type} (p : Parse α) (kind : Token.Kind) : Prop :=
  ∀ i s, i.eof.kind = .eof → s.Clean → (s.rest[0]?.getD i.eof).kind = kind →
    (exec p i s).2.errors.messages ≠ #[]

namespace Rejects

variable {α β : Type} {p : Parse α} {f : α → Parse β} {kind : Token.Kind}

theorem bind (hp : Rejects p kind) (hf : ∀ a, Stepwise (f a)) : Rejects (p >>= f) kind :=
  fun i s heof hs hkind hclean => hp i s heof hs hkind (clean_of_bind heof hf hclean)

/-- Something that reads and reports nothing comes first. -/
theorem after (h : ∀ i s, s.Clean → i.eof.kind = .eof → (s.rest[0]?.getD i.eof).kind = kind →
    ∃ a t, exec p i s = (.ok a, t) ∧ t.Clean ∧ t.rest = s.rest ∧ Rejects (f a) kind) :
    Rejects (p >>= f) kind := by
  intro i s heof hs hkind
  obtain ⟨a, t, hexec, ht, hrest, hf⟩ := h i s hs heof hkind
  rw [exec_bind_ok i hexec]
  exact hf i t heof ht (by rwa [hrest])

theorem change {F : State → State} {q : Parse β}
    (h : ∀ s, (F s).errors = s.errors ∧ (F s).halted = s.halted ∧
      (F s).unclosedAt = s.unclosedAt ∧ (F s).rest = s.rest)
    (hq : Rejects q kind) : Rejects (modify F >>= fun _ => q) kind := by
  refine .after fun i s hs _ _ => ⟨(), F s, rfl, ?_, (h s).2.2.2, hq⟩
  obtain ⟨herrors, hhalted, hclosed, _⟩ := h s
  exact ⟨herrors ▸ hs.errors, hhalted ▸ hs.going, hclosed ▸ hs.closed⟩

theorem fail (hkind : kind ≠ .error) (description : String) :
    Rejects (Grammar.fail description : Parse α) kind := by
  intro i s _ hs hnext
  exact hs.report i (hnext ▸ hkind) description none

theorem reportHere (hkind : kind ≠ .error) (description : String) :
    Rejects (Grammar.reportHere description) kind :=
  fun i _ _ hs hnext => hs.report i (hnext ▸ hkind) description none

theorem inNode (node : Tree.Kind) (hp : Rejects p kind) : Rejects (inNode node p) kind :=
  .change (fun _ => ⟨rfl, rfl, rfl, rfl⟩) (hp.bind fun _ => .bind (.onTree .finish) fun _ => .pure _)

/-- A token of another kind is not there. -/
theorem check {other : Token.Kind} {f : Bool → Parse β} (hne : kind ≠ other)
    (hf : Rejects (f false) kind) : Rejects (Grammar.check other >>= f) kind :=
  .after fun i s hs _ hnext =>
    ⟨false, s, by rw [exec_check, hnext, beq_false_of_ne hne], hs, rfl, hf⟩

theorem eat {other : Token.Kind} {f : Bool → Parse β} (hne : kind ≠ other)
    (hf : Rejects (f false) kind) : Rejects (Grammar.eat other >>= f) kind := by
  rw [Grammar.eat, bind_assoc]
  exact .check hne hf

theorem consume {other : Token.Kind} (hne : kind ≠ other) (hkind : kind ≠ .error)
    (description : String) : Rejects (Grammar.consume other description) kind :=
  .check hne (.fail hkind description)

theorem reportUnclosed (hkind : kind ≠ .error) (description : String) :
    Rejects (Grammar.reportUnclosed description) kind :=
  fun i _ _ hs hnext => hs.report i (hnext ▸ hkind) description _

theorem consumeClose {other : Token.Kind} (hne : kind ≠ other) (hkind : kind ≠ .error)
    (description : String) : Rejects (Grammar.consumeClose other description) kind :=
  .check hne ((Rejects.reportUnclosed hkind description).bind fun _ => .giveUp)

/-- A closing brace that is missing for the first time. -/
theorem closeBlock (hne : kind ≠ .rightBrace) (hkind : kind ≠ .error) (description : String) :
    Rejects (Grammar.closeBlock description) kind := by
  refine .eat hne fun i s heof hs hnext => ?_
  have hopen : ¬ s.unclosedAt = some (s.rest[0]?.getD i.eof).span.start := by simp [hs.closed]
  have hpeek : exec Grammar.peek i s = (.ok (s.rest[0]?.getD i.eof), s) := rfl
  simp only [Bool.false_eq_true, if_false]
  rw [exec_bind_ok _ hpeek, exec_bind_ok _ (exec_get _ _), if_neg hopen]
  exact State.report_ne_empty (s := { s with unclosedAt := some _ }) hs.errors hs.going i
    (hnext ▸ hkind) description _

/-- To look at the next token, which is of the kind. -/
theorem peek {α : Type} {f : Token → Parse α} (hf : ∀ t : Token, t.kind = kind → Rejects (f t) kind) :
    Rejects (Grammar.peek >>= f) kind :=
  .after fun _ s hs _ hnext => ⟨_, s, rfl, hs, rfl, hf _ hnext⟩

/-- To look at something that does not matter. -/
theorem glance {α β : Type} {look : Parse α} {f : α → Parse β}
    (hlook : ∀ i s, ∃ a, exec look i s = (.ok a, s)) (hf : ∀ a, Rejects (f a) kind) :
    Rejects (look >>= f) kind := by
  refine .after fun i s hs _ _ => ?_
  obtain ⟨a, ha⟩ := hlook i s
  exact ⟨a, s, ha, hs, rfl, hf a⟩

end Rejects

/-- A parser that runs one first that rejects the kind rejects it. -/
theorem Leads.rejects {α β : Type} {p : Parse α} {q : Parse β} {kind : Token.Kind}
    (h : Leads kind p q) (hp : Rejects p kind) : Rejects q kind := by
  induction h with
  | refl => exact hp
  | glance hlook _ ih => exact .glance hlook ih
  | peek _ ih => exact .peek ih
  | bind _ _ hf ih => exact ih.bind hf

/-! ## The rules -/

/-- Whether a declaration may start with a token of this kind. -/
def opensDeclaration : Token.Kind → Bool
  | .kwPub | .kwProt | .kwConst | .kwStatic | .kwAbstract | .kwFinal | .kwData
  | .atPublic | .atPrivate | .atProtected | .atOpen | .atProperty | .atCache
  | .kwClass | .kwFn | .kwVar | .kwEnum | .kwImport | .kwType | .kwTrait | .kwInterface
  | .kwModule | .kwPrint | .kwIf | .kwFor | .kwWhile | .kwIter | .kwReturn | .kwBreak
  | .kwContinue | .kwParallel | .kwConcurrent | .kwMatch | .kwUnsafe | .kwContract | .kwComptime
  | .bang | .minus | .plus | .leftParen | .leftBracket | .leftBrace
  | .identifier | .intLiteral | .floatLiteral | .scientificLiteral | .string | .interpolationStart
  | .kwTrue | .kwFalse | .kwNil | .kwThis | .kwSelf | .kwSuper | .kwErr | .kwOk => true
  | _ => false

namespace Rejects

section
variable {rules : Rules} (hr : rules.Lawful) {kind : Token.Kind}
  (hkind : opensDeclaration kind = false) (herror : kind ≠ .error)
include hr hkind herror

omit hr in
theorem primary : Rejects (primary rules) kind := by
  refine .glance (fun _ _ => ⟨_, rfl⟩) fun start => .peek fun t ht => ?_
  have hliteral : literal? t = none := by
    unfold literal?
    rw [ht]
    split
    all_goals first | cases hkind | rfl
  rw [hliteral, ht]
  dsimp only
  split
  all_goals try cases hkind
  · exact absurd rfl herror
  iterate 5
    · exact (Rejects.reportHere herror _).bind fun _ =>
        .bind (.inNode _ (.pure _)) fun _ => .pure _
  · exact .fail herror _

omit hr herror in
theorem unaryOp?_eq_none : unaryOp? kind = none := by
  unfold unaryOp?
  split
  all_goals first | cases hkind | rfl

theorem unaryRule : Rejects (unaryRule rules) kind :=
  (Leads.unaryRule hr (unaryOp?_eq_none hkind)).rejects (.primary hkind herror)

theorem exprRule : Rejects (exprRule rules) kind :=
  (Leads.exprRule hr (unaryOp?_eq_none hkind)).rejects (.primary hkind herror)

/-! ## Statements and declarations -/

theorem statementRule : Rejects (statementRule rules) kind := by
  refine .glance (fun _ _ => ⟨_, rfl⟩) fun start => .glance (fun _ s => ⟨s, rfl⟩) fun s =>
    .peek fun t ht => .glance (fun _ _ => ⟨_, rfl⟩) fun u => ?_
  have hnode : statementNode s.concurrent t u = .expressionStatement := by
    unfold statementNode
    rw [ht]
    split
    all_goals first | cases hkind | rfl
  rw [hnode]
  have hexpr : Rejects (statementOf rules .expressionStatement) kind :=
    (Rejects.exprRule hr hkind herror).bind fun _ => .bind (Alike.eat _).stepwise fun _ => .pure _
  exact (hexpr.inNode _).bind fun _ => .bind (Alike.spanFrom _).stepwise fun _ => .pure _

/-- No modifier is read. -/
theorem declarationRule (hbound : 0 < rules.bound) : Rejects (declarationRule rules) kind := by
  have hmodifiers : ∀ i s, (s.rest[0]?.getD i.eof).kind = kind →
      exec (modifiers rules) i s = (.ok {}, s) := by
    intro i s hnext
    obtain ⟨bound, hbound⟩ : ∃ b, rules.bound = b + 1 := ⟨rules.bound - 1, by omega⟩
    have hadd : Modifiers.add? {} kind = none := by
      unfold Modifiers.add?
      split
      all_goals first | cases hkind | rfl
    have hpeek : exec Grammar.peek i s = (.ok (s.rest[0]?.getD i.eof), s) := rfl
    rw [modifiers, hbound, repeatUpTo, bind_assoc, exec_bind_ok _ hpeek, hnext]
    dsimp only
    rw [hadd]
    rfl
  refine .glance (fun _ _ => ⟨_, rfl⟩) fun start => .glance (fun _ _ => ⟨_, rfl⟩) fun c =>
    .after fun i s hs heof hnext => ⟨{}, s, hmodifiers i s hnext, hs, rfl, ?_⟩
  refine .peek fun t ht => .glance (fun _ _ => ⟨_, rfl⟩) fun u => ?_
  have hnode : declarationNode? {} t u = none := by
    unfold declarationNode?
    rw [ht]
    split
    all_goals first | cases hkind | rfl
  rw [hnode]
  exact .statementRule hr hkind herror

end

end Rejects

end LimitSyntax.Grammar
