import LimitSyntax.Proofs.Parsers
import LimitSyntax.Proofs.TreeBuilder
import Mathlib.Logic.Relation

/-!
# What a parser does to its state

A run of a parser, whether or not it gives up, is a row of steps (`Grammar.Step`): a token is read,
or read and given back; the tree is changed without its tokens; something is reported; or only what
is known about the place changes (`Grammar.Alike.stepwise`). What every step keeps is kept by the
parse of a whole program.
-/

namespace LimitSyntax.Grammar

open Relation

/-- A change of the state of a parse. -/
inductive Step (i : Input) : State → State → Prop where
  | take (s : State) (t : Token) (rest : List Token) (hrest : s.rest = t :: rest)
      (hkind : t.kind ≠ .eof) : Step i s (s.take t rest)
  | retake (s : State) (t : Token) (rest : List Token) (hrest : s.rest = t :: rest)
      (hkind : t.kind ≠ .eof) : Step i s (s.take t rest).back
  | edit (s : State) (f : Tree.Builder → Tree.Builder) (hf : Tree.Builder.Edit f) :
      Step i s (s.mapTree f)
  | report (s : State) (t : Token) (description : String) (block : Option OpenBlock) :
      Step i s (s.report i t description block)
  | context (s : State) (blocks : List OpenBlock) (depth : Nat) (concurrent : Bool)
      (lastError : Option String) (unclosedAt : Option Nat) :
      Step i s { s with blocks, depth, concurrent, lastError, unclosedAt }
  /-- A bound is met. -/
  | spend (s : State) : Step i s { s with spent := true }

/-- Any number of steps. -/
abbrev Steps (i : Input) : State → State → Prop := ReflTransGen (Step i)

/-! ## What a step does -/

/-- A report is made unless the same was reported before. -/
theorem State.report_eq_ite (s : State) (i : Input) (t : Token) (description : String)
    (block : Option OpenBlock) :
    s.report i t description block =
      let s := { s with lastError := some description }
      if s.halted || t.kind == .error then s
      else
        let message := (i.message t description).onToken t.lexeme
        let message := match block with
          | some b => message.inBlock (b.context i.source)
          | none => message
        if s.errors.seen message then s
        else
          let s := { s with
            errors := s.errors.report message (some i.source.text)
            reported := s.reported + 1 }
          if s.reported < i.limit then s
          else { s with
            errors := s.errors.report (i.message t tooManyErrors) (some i.source.text)
            halted := true } := by
  cases block with
  | none | some b =>
    simp only [State.report, Diagnostic.Collector.report, Diagnostic.Collector.record_fst,
      Bool.not_eq_true', ← Bool.not_eq_true, ite_not]

/-- A report adds messages to the errors, and leaves the tokens and the tree alone. -/
theorem State.report_eq (s : State) (i : Input) (t : Token) (description : String)
    (block : Option OpenBlock) :
    ∃ (messages : List Diagnostic.Message) (reported : Nat) (halted : Bool),
      s.report i t description block = { s with
        errors := messages.foldl (fun c m => c.report m (some i.source.text)) s.errors
        reported, halted, lastError := some description } := by
  rw [State.report_eq_ite]
  rcases block with _ | b
  all_goals
    dsimp only
    split
    · exact ⟨[], _, _, rfl⟩
    split
    · exact ⟨[], _, _, rfl⟩
    split
    · exact ⟨[_], _, _, rfl⟩
    · exact ⟨[_, _], _, _, rfl⟩

theorem State.report_onto (s : State) (ts : List Token) (i : Input) (t : Token)
    (description : String) (block : Option OpenBlock) :
    (s.onto ts).report i t description block = (s.report i t description block).onto ts := by
  unfold State.report
  rw [apply_ite (State.onto · ts), apply_ite (State.onto · ts), apply_ite (State.onto · ts)]
  cases block with
  | none | some b => rfl

/-- The first report is made, unless it is about an error token. -/
theorem State.report_ne_empty {s : State} (herrors : s.errors.messages = #[])
    (hgoing : s.halted = false) (i : Input) {t : Token} (ht : t.kind ≠ .error)
    (description : String) (block : Option OpenBlock) :
    (s.report i t description block).errors.messages ≠ #[] := by
  have hseen : ∀ m, s.errors.seen m = false := fun m => by
    simp [Diagnostic.Collector.seen_eq_any, herrors]
  simp only [State.report_eq_ite, hgoing, beq_false_of_ne ht, Bool.or_self, Bool.false_eq_true,
    if_false, hseen]
  split
  · exact Diagnostic.Collector.report_ne_empty _ _ _
  · exact Diagnostic.Collector.report_ne_empty _ _ _

/-- What a token leaves behind that is read and given back. -/
theorem State.back_take (s : State) (t : Token) (rest : List Token) :
    (s.take t rest).back = { s with
      rest := t :: rest
      tree := s.tree.map fun b => { b with offset := t.fullSpan.start } } := by
  simp [State.back, State.take, Function.comp_def, Tree.Builder.popToken_token]

section
variable {i : Input} {s s' : State}

theorem Step.tokens_eq (h : Step i s s') :
    s'.read.toList ++ s'.rest = s.read.toList ++ s.rest := by
  cases h with
  | take t rest hrest => simp [State.take, hrest]
  | retake t rest hrest => simp [State.back_take, hrest]
  | edit | context | spend => rfl
  | report t description block =>
    obtain ⟨_, _, _, heq⟩ := s.report_eq i t description block
    rw [heq]

/-- The tokens of a parse stay the same. -/
theorem Steps.tokens_eq (h : Steps i s s') :
    s'.read.toList ++ s'.rest = s.read.toList ++ s.rest := by
  induction h with
  | refl => rfl
  | tail _ hstep ih => exact hstep.tokens_eq.trans ih

theorem Step.rest_suffix (h : Step i s s') : s'.rest <:+ s.rest := by
  cases h with
  | take t rest hrest =>
    rw [hrest]
    exact List.suffix_cons ..
  | retake t rest hrest =>
    simp only [State.back_take, hrest]
    exact List.suffix_rfl
  | edit | context | spend => exact List.suffix_rfl
  | report t description block =>
    obtain ⟨_, _, _, heq⟩ := s.report_eq i t description block
    simp only [heq]
    exact List.suffix_rfl

theorem Steps.rest_suffix (h : Steps i s s') : s'.rest <:+ s.rest := by
  induction h with
  | refl => exact List.suffix_rfl
  | tail _ hstep ih => exact hstep.rest_suffix.trans ih

theorem Step.spent (h : Step i s s') (hs : s.spent = true) : s'.spent = true := by
  cases h with
  | take | edit | context => exact hs
  | retake t rest =>
    rw [State.back_take]
    exact hs
  | report t description block =>
    obtain ⟨_, _, _, heq⟩ := s.report_eq i t description block
    rwa [heq]
  | spend => rfl

/-- It is never forgotten that a bound was met. -/
theorem Steps.spent (h : Steps i s s') (hs : s.spent = true) : s'.spent = true := by
  induction h with
  | refl => exact hs
  | tail _ hstep ih => exact hstep.spent ih

/-- If no bound is met by the end, then none was met before. -/
theorem Steps.spent_eq_false (h : Steps i s s') (hs' : s'.spent = false) : s.spent = false := by
  cases hs : s.spent with
  | false => rfl
  | true => exact absurd hs' (by rw [h.spent hs]; decide)

/-- Messages are only added. -/
theorem Step.errors_prefix (h : Step i s s') :
    s.errors.messages.toList <+: s'.errors.messages.toList := by
  cases h with
  | take | edit | context | spend => exact List.prefix_rfl
  | retake t rest =>
    simp only [State.back_take]
    exact List.prefix_rfl
  | report t description block =>
    obtain ⟨messages, _, _, heq⟩ := s.report_eq i t description block
    rw [heq]
    exact Diagnostic.Collector.prefix_foldl messages s.errors _

theorem Steps.errors_prefix (h : Steps i s s') :
    s.errors.messages.toList <+: s'.errors.messages.toList := by
  induction h with
  | refl => exact List.prefix_rfl
  | tail _ hstep ih => exact ih.trans hstep.errors_prefix

/-- A parse that has halted reports nothing. -/
theorem Step.halted (h : Step i s s') (hs : s.halted = true) :
    s'.halted = true ∧ s'.errors = s.errors := by
  cases h with
  | take | edit | context | spend => exact ⟨hs, rfl⟩
  | retake t rest =>
    rw [State.back_take]
    exact ⟨hs, rfl⟩
  | report t description block => simp [State.report, hs]

theorem Steps.halted (h : Steps i s s') (hs : s.halted = true) :
    s'.halted = true ∧ s'.errors = s.errors := by
  induction h with
  | refl => exact ⟨hs, rfl⟩
  | tail _ hstep ih =>
    obtain ⟨hhalted, herrors⟩ := hstep.halted ih.1
    exact ⟨hhalted, herrors.trans ih.2⟩

/-- If nothing was reported by the end, then nothing was before. -/
theorem Steps.clean (h : Steps i s s') (hs : s'.errors.messages = #[]) :
    s.errors.messages = #[] := by
  have hpre := h.errors_prefix
  rw [hs] at hpre
  exact Array.toList_eq_nil_iff.1 (List.prefix_nil.1 hpre)

/-- As many tokens were read as are not left any more. -/
theorem Steps.position_add (h : Steps i s s') :
    s'.position + s'.rest.length = s.position + s.rest.length := by
  simpa [State.position] using congrArg List.length h.tokens_eq

/-- A parse never goes back. -/
theorem Steps.position_le (h : Steps i s s') : s.position ≤ s'.position := by
  have hadd := h.position_add
  have hle := h.rest_suffix.length_le
  omega

end

/-! ## Stepwise parsers -/

/-- Every run of the parser is a row of steps, if the end is known as such. -/
def Stepwise {α : Type} (p : Parse α) : Prop :=
  ∀ (i : Input) (s : State), i.eof.kind = .eof → Steps i s (exec p i s).2

namespace Stepwise

section
variable {α β : Type} {p : Parse α}

theorem run (h : Stepwise p) {i : Input} {s t : State} {r : Except Unit α}
    (heof : i.eof.kind = .eof) (hexec : exec p i s = (r, t)) : Steps i s t := by
  have hsteps := h i s heof
  rwa [hexec] at hsteps

theorem pure (a : α) : Stepwise (Pure.pure a) := fun _ _ _ => .refl

theorem giveUp : Stepwise (giveUp : Parse α) := fun _ _ _ => .refl

theorem get : Stepwise get := fun _ _ _ => .refl

theorem change {f : State → State} (h : ∀ i s, Steps i s (f s)) : Stepwise (modify f) :=
  fun i s _ => h i s

theorem bind {f : α → Parse β} (hp : Stepwise p) (hf : ∀ a, Stepwise (f a)) :
    Stepwise (p >>= f) :=
  fun i s heof => exec_bind_keeps (hp i s heof) fun a t _ ht => ht.trans (hf a i t heof)

/-- What follows a parser takes its steps from where the parser ends. -/
theorem behind {f : α → Parse β} (hf : ∀ a, Stepwise (f a)) {i : Input} (s : State)
    (heof : i.eof.kind = .eof) : Steps i (exec p i s).2 (exec (p >>= f) i s).2 :=
  exec_bind_keeps .refl fun a t _ ht => ht.trans (hf a i t heof)

theorem ite {c : Prop} [Decidable c] {q : Parse α} (hp : Stepwise p) (hq : Stepwise q) :
    Stepwise (if c then p else q) := by
  split
  · exact hp
  · exact hq

theorem attempt (hp : Stepwise p) : Stepwise (attempt p) := by
  intro i s heof
  rw [exec_attempt_snd]
  exact hp i s heof

/-! ## Tokens -/

theorem advance : Stepwise advance := by
  intro i s _
  rw [exec_advance]
  cases hrest : s.rest with
  | nil => exact .refl
  | cons t rest =>
    dsimp only
    split
    next => exact .refl
    next hkind => exact .single (.take s t rest hrest hkind)

theorem eatBefore {kind : Token.Kind} (hkind : kind ≠ .eof) (ahead : Token → Token → Bool) :
    Stepwise (eatBefore kind ahead) := by
  intro i s heof
  rw [exec_eatBefore i s hkind heof]
  cases hrest : s.rest with
  | nil => exact .refl
  | cons t rest =>
    dsimp only
    split
    next h =>
      split
      next => exact .single (.take s t rest hrest (h ▸ hkind))
      next => exact .single (.retake s t rest hrest (h ▸ hkind))
    next => exact .refl

/-! ## The tree -/

theorem onTree {f : Tree.Builder → Tree.Builder} (hf : Tree.Builder.Edit f) :
    Stepwise (onTree f) :=
  .change fun _ s => .single (.edit s f hf)

theorem inNode (kind : Tree.Kind) (hp : Stepwise p) : Stepwise (inNode kind p) :=
  .bind (.onTree (.start kind)) fun _ => .bind hp fun _ => .bind (.onTree .finish) fun _ => .pure _

theorem inNodeAt (c : Option Tree.Checkpoint) (kind : Tree.Kind) (hp : Stepwise p) :
    Stepwise (inNodeAt c kind p) := by
  have hopen : Stepwise (openAt c kind) := by
    cases c with
    | none => exact .onTree (.start kind)
    | some c => exact .onTree (.startAt c kind)
  exact .bind hopen fun _ => .bind hp fun _ => .bind (.onTree .finish) fun _ => .pure _

/-! ## Bodies and recovery -/

theorem inBody (kind : String) (brace : Token) (hp : Stepwise p) :
    Stepwise (inBody kind brace p) :=
  .bind (.change fun _ _ => .single (.context ..)) fun _ => .bind hp fun _ =>
    .bind (.change fun _ _ => .single (.context ..)) fun _ => .pure _

theorem deeper (hp : Stepwise p) : Stepwise (deeper p) :=
  .bind (.change fun _ _ => .single (.context ..)) fun _ => .bind hp fun _ =>
    .bind (.change fun _ _ => .single (.context ..)) fun _ => .pure _

theorem concurrently (hp : Stepwise p) : Stepwise (concurrently p) := by
  refine .bind .get fun _ => .bind (.change fun _ _ => .single (.context ..)) fun _ =>
    .bind hp.attempt fun a => .bind (.change fun _ _ => .single (.context ..)) fun _ => ?_
  cases a with
  | none => exact .giveUp
  | some a => exact .pure a

/-- To go back to a place is to close nodes and to forget what was open. -/
theorem returnTo (place : Place) : Stepwise (modify (·.returnTo place)) := by
  refine .change fun i s => ?_
  have hunwind : Step i s (s.mapTree (·.unwind place.treeDepth)) := .edit s _ (.unwind _)
  exact .tail (.single hunwind) (.context ..)

theorem recover {skip : Bool → Parse Unit} (hskip : ∀ progress, Stepwise (skip progress))
    (place : Place) : Stepwise (recover skip place) := by
  refine .bind (.returnTo place) fun _ => .inNodeAt _ _ (.bind .get fun s => ?_)
  dsimp only
  split
  · exact .bind (.onTree (.markError _)) fun _ => .bind .get fun _ =>
      .ite (.bind .get fun _ => hskip _) (.pure _)
  · exact .bind .get fun _ => .ite (.bind .get fun _ => hskip _) (.pure _)

theorem recovering {skip : Bool → Parse Unit} (hskip : ∀ progress, Stepwise (skip progress))
    (hp : Stepwise p) : Stepwise (recovering skip p) :=
  .bind .get fun _ => .bind hp.attempt fun _ =>
    .ite (.bind (.recover hskip _) fun _ => .pure _) (.pure _)

end

end Stepwise

/-- A loop is a row of steps if every turn is. -/
theorem Stepwise.repeatUpTo {γ : Type} {turn : γ → Parse (γ × Bool)} (h : ∀ x, Stepwise (turn x))
    (bound : Nat) (x : γ) : Stepwise (repeatUpTo turn bound x) := by
  induction bound generalizing x with
  | zero => exact .bind (.change fun _ s => .single (.spend s)) fun _ => .pure x
  | succ bound ih => exact .bind (h x) fun ⟨y, _⟩ => .ite (ih y) (.pure y)

/-- A parser that is made of the operations is stepwise. -/
theorem Alike.stepwise {α : Type} {e : α → α} {p q : Parse α} (h : Alike e p q) : Stepwise p := by
  induction h with
  | pure a => exact .pure a
  | bind _ _ hp hf => exact .bind hp hf
  | giveUp => exact .giveUp
  | get _ _ hf => exact .bind .get hf
  | peekAt | checkpoint => exact fun _ _ _ => .refl
  | previous =>
    intro i s _
    rw [exec_previous]
  | advance => exact .advance
  | eatBefore hkind ahead => exact .eatBefore hkind ahead
  | reportAt t description =>
    intro i s _
    rw [exec_reportAt]
    exact .single (.report s t description none)
  | reportUnclosed description =>
    intro i s _
    rw [exec_reportUnclosed]
    exact .single (.report s _ description s.blocks.head?)
  | noteError | noteUnclosed => exact .change fun _ _ => .single (.context ..)
  | spend => exact .change fun _ s => .single (.spend s)
  | describe text => exact .onTree (.describe text)
  | markError text => exact .onTree (.markError text)
  | inNode kind _ hp => exact .inNode kind hp
  | inNodeAt c kind _ hp => exact .inNodeAt c kind hp
  | inBody kind brace _ hp => exact .inBody kind brace hp
  | deeper _ hp => exact .deeper hp
  | concurrently _ hp => exact .concurrently hp
  | recovering _ _ hskip hp => exact .recovering hskip hp

/-- To report something wrong with the next token is a step. -/
theorem Stepwise.reportUnclosed (description : String) : Stepwise (reportUnclosed description) :=
  fun _ s _ => .single (.report s _ description s.blocks.head?)

theorem Stepwise.fail {α : Type} (description : String) : Stepwise (fail description : Parse α) :=
  .bind (.bind Alike.peek.stepwise fun t _ s _ => .single (.report s t description none)) fun _ =>
    .giveUp

theorem Stepwise.consume (kind : Token.Kind) (description : String) :
    Stepwise (consume kind description) :=
  .bind (Alike.check kind).stepwise fun _ => .ite .advance (.fail description)

theorem Stepwise.consumeName (description : String) : Stepwise (consumeName description) :=
  .bind (.consume .identifier description) fun _ => .pure _

theorem Stepwise.consumeClose (kind : Token.Kind) (description : String) :
    Stepwise (consumeClose kind description) :=
  .bind (Alike.check kind).stepwise fun _ => .ite (.bind .advance fun _ => .pure _)
    (.bind (.reportUnclosed description) fun _ => .giveUp)

/-- To note or to report a missing brace is a row of steps. -/
theorem Stepwise.closeBlock (description : String) : Stepwise (closeBlock description) := by
  have hnote : ∀ {F : State → State}, (∀ i s, Step i s (F s)) → Stepwise (modify F) :=
    fun h => .change fun i s => .single (h i s)
  exact .bind (Alike.eat _).stepwise fun _ => .ite (.pure _) <|
    .bind Alike.peek.stepwise fun _ => .bind .get fun _ =>
      .ite (.bind (hnote fun _ _ => .context ..) fun _ => .pure _)
        (.bind (hnote fun _ _ => .context ..) fun _ => .bind (.reportUnclosed description) fun _ =>
          .pure _)

/-! ## Skipping -/

/-- Skips a token if nothing was read since a position, unless it is of a kind. -/
def skipUnlessMoved {α : Type} (close : Token.Kind) (before : Nat) (a : α) : Parse α := do
  if (← get).position = before && !(← check close) then
    let _ ← advance
  return a

theorem stepwise_skipUnlessMoved {α : Type} (close : Token.Kind) (before : Nat) (a : α) :
    Stepwise (skipUnlessMoved close before a) :=
  .bind .get fun _ => .bind (Alike.check _).stepwise fun _ =>
    .ite (.bind .advance fun _ => .pure _) (.pure _)

theorem exec_skipUnlessMoved {α : Type} {close : Token.Kind} {before : Nat} {a : α} {i : Input}
    {s : State} (h : s.position ≠ before) :
    exec (skipUnlessMoved close before a) i s = (.ok a, s) := by
  rw [skipUnlessMoved, exec_bind_ok _ (exec_get _ _), exec_bind_ok _ (exec_check _ _ _)]
  simp only [h, decide_false, Bool.false_and, Bool.false_eq_true, if_false]
  rfl

/-- Either something was read, or a token is skipped. -/
theorem position_lt_skipUnlessMoved {α : Type} {close : Token.Kind} {i : Input} {s t : State}
    (heof : i.eof.kind = .eof) (hsteps : Steps i s t)
    (hend : (s.rest[0]?.getD i.eof).kind ≠ .eof) (hclose : (s.rest[0]?.getD i.eof).kind ≠ close)
    (a : α) : s.position < (exec (skipUnlessMoved close s.position a) i t).2.position := by
  have hle := hsteps.position_le
  by_cases hmoved : t.position = s.position
  · -- nothing was read, so that the next token is still there
    have hadd := hsteps.position_add
    have hrest : t.rest = s.rest := hsteps.rest_suffix.eq_of_length (by omega)
    rw [← hrest] at hend hclose
    rw [skipUnlessMoved, exec_bind_ok i (exec_get i t), exec_bind_ok i (exec_check i t close),
      beq_false_of_ne hclose, hmoved]
    simp only [decide_true, Bool.not_false, Bool.and_self, if_true]
    rw [exec_bind, exec_advance]
    cases hnext : t.rest with
    | nil =>
      rw [hnext] at hend
      exact absurd heof hend
    | cons u rest =>
      rw [hnext] at hend
      have hkind : u.kind ≠ .eof := hend
      simp only [hkind, if_false]
      show s.position < (t.read.push u).size
      rw [Array.size_push]
      exact Nat.lt_succ_of_le hle
  · rw [exec_skipUnlessMoved hmoved]
    exact Nat.lt_of_le_of_ne hle (Ne.symm hmoved)

end LimitSyntax.Grammar
