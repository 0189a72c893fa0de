import LimitSyntax.Proofs.TreeBuilder

/-!
# Any use of a builder

The parser uses a builder in an order of its own, but a builder keeps its tokens in any order of
operations (`Tree.Builder.Op`): nodes may be closed that were not opened, and checkpoints may be
used whose node is closed or whose elements are taken back. What the tree holds in the end can be
told from the operations and from what they answered alone (`Tree.Builder.replay`).
-/

namespace LimitSyntax.Tree.Builder

/-! ## Operations -/

/-- Something that a builder can be told to do. -/
inductive Op where
  | start (kind : Kind)
  | checkpoint
  /-- With any checkpoint, in particular one that was taken at any time before. -/
  | startAt (c : Checkpoint) (kind : Kind)
  | token (t : Token)
  | popToken
  | describe (text : String)
  | markError (text : String)
  | finish
  | unwind (depth : Nat)

namespace Op

/-- The builder after the operation. -/
def apply : Op → Builder → Builder
  | .start kind, b => b.start kind
  | .checkpoint, b => b
  | .startAt c kind, b => b.startAt c kind
  | .token t, b => b.token t
  | .popToken, b => b.popToken
  | .describe text, b => b.describe text
  | .markError text, b => b.markError text
  | .finish, b => b.finish
  | .unwind depth, b => b.unwind depth

/-- The token that the operation gives back. -/
def answer : Op → Builder → Option Token
  | .popToken, b => b.lastToken?
  | _, _ => none

/-- What an operation with this answer does to a list of tokens. -/
def onTokens : Op → Option Token → List Token → List Token
  | .token t, _, ts => ts ++ [t]
  | .popToken, some _, ts => ts.dropLast
  | _, _, ts => ts

end Op

/-- The builder after some operations. -/
def perform (b : Builder) : List Op → Builder
  | [] => b
  | op :: ops => (op.apply b).perform ops

/-- The operations and what they answer. -/
def log (b : Builder) : List Op → List (Op × Option Token)
  | [] => []
  | op :: ops => (op, op.answer b) :: (op.apply b).log ops

/-- A list of tokens after everything that was done to it. -/
def replay (ts : List Token) : List (Op × Option Token) → List Token
  | [] => ts
  | (op, answer) :: log => replay (op.onTokens answer ts) log

/-! ## What one operation keeps -/

/-- The token that is taken back is the last of the leaves. -/
theorem leaves_popToken {b : Builder} {t : Token} (h : b.lastToken? = some t) :
    b.leaves = b.popToken.leaves ++ [t] := by
  have hpop : b.popToken = { b with
      top := { b.top with elements := b.top.elements.pop }
      offset := t.fullSpan.start } := by
    rw [popToken, h]
  obtain ⟨e, hback, htoken⟩ := Option.bind_eq_some_iff.1 h
  obtain ⟨elements, helements⟩ := Array.back?_eq_some_iff.1 hback
  have hleaf : e.leaves = [t] := by
    cases e with
    | token u =>
      cases htoken
      exact Element.leaves_token t
    | node n => cases htoken
  rw [hpop]
  simp [leaves, Frame.leaves, helements, hleaf]

theorem Op.leaves_apply (op : Op) (b : Builder) :
    (op.apply b).leaves = op.onTokens (op.answer b) b.leaves := by
  cases op with
  | token t => exact leaves_token b t
  | popToken =>
    cases h : b.lastToken? with
    | none =>
      have hpop : b.popToken = b := by rw [Builder.popToken, h]
      simp only [Op.apply, Op.answer, Op.onTokens, h, hpop]
    | some t =>
      simp only [Op.apply, Op.answer, Op.onTokens, h]
      rw [leaves_popToken h, List.dropLast_concat]
  | checkpoint => rfl
  | start kind => exact (Edit.start kind).leaves_eq b
  | startAt c kind => exact (Edit.startAt c kind).leaves_eq b
  | describe text => exact (Edit.describe text).leaves_eq b
  | markError text => exact (Edit.markError text).leaves_eq b
  | finish => exact Edit.finish.leaves_eq b
  | unwind depth => exact (Edit.unwind depth).leaves_eq b

/-! ## What a use keeps -/

theorem leaves_perform (b : Builder) (ops : List Op) :
    (b.perform ops).leaves = replay b.leaves (b.log ops) := by
  induction ops generalizing b with
  | nil => rfl
  | cons op ops ih => rw [perform, ih, log, replay, Op.leaves_apply]

/-- However a builder is used, its tree holds the tokens that were added and not taken back. A token
that is taken back is the last one at the time, and there is always an open node. -/
theorem conserves_tokens (ops : List Op) (length : Nat) :
    ((perform {} ops).tree length).allTokens = replay [] (log {} ops) ∧
      (∀ earlier later t, ops = earlier ++ .popToken :: later →
        Op.popToken.answer (perform {} earlier) = some t →
          (replay [] (log {} earlier)).getLast? = some t) ∧
      ∀ earlier, earlier <+: ops → 1 ≤ (perform {} earlier).depth := by
  refine ⟨?_, ?_, fun earlier _ => Nat.succ_pos _⟩
  · rw [allTokens_tree]
    exact leaves_perform {} ops
  · intro earlier later t _ hanswer
    have hleaves : (perform {} earlier).leaves = replay [] (log {} earlier) :=
      leaves_perform {} earlier
    rw [← hleaves, leaves_popToken hanswer, List.getLast?_concat]

/-- The checkpoint is one of a node that is closed. It takes a token from the node after it. -/
theorem conserves_tokens_stale : ∃ earlier later : List Op,
    Op.popToken.answer (perform {} earlier) = some (.eof 0 1) ∧
      (replay [] (log {} earlier)).getLast? = some (.eof 0 1) ∧
      ((perform {} (earlier ++ .popToken :: later)).tree 0).allTokens = [.missing 0 1] ∧
      1 ≤ (perform {} earlier).depth := by
  let earlier : List Op := [.start .blockStatement, .checkpoint, .token (.missing 0 1), .finish,
    .finish, .start .blockStatement, .describe "", .token (.eof 0 1), .startAt ⟨2, 0⟩ .errorNode]
  let later : List Op := [.popToken, .unwind 0, .popToken]
  have hanswer : Op.popToken.answer (perform {} earlier) = some (.eof 0 1) := by decide
  obtain ⟨htokens, hpopped, hdepth⟩ := conserves_tokens (earlier ++ .popToken :: later) 0
  exact ⟨earlier, later, hanswer, hpopped earlier later _ rfl hanswer, htokens.trans (by decide),
    hdepth earlier (List.prefix_append _ _)⟩

end LimitSyntax.Tree.Builder
