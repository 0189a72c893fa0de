import LimitSyntax.Proofs.ContextRestored
import LimitSyntax.Proofs.Nodes
import LimitSyntax.Proofs.Rejects

/-!
# Syntax that meets a law

`Makes L H p`: under the hypothesis `H`, what the parser `p` yields meets the law `L` throughout,
unless a bound was met. There is a rule for each operation. The hypothesis grows with every value
that is yielded on the way: what follows may rely on it. What follows a look at the next token may
rely on its kind (`MakesAt`). A law for what stands outside of concurrency blocks is asked only where
tasks are not known; parsers leave that as they find it (`Tame`).
-/

namespace LimitSyntax.Grammar

open Ast

/-! ## Tame parsers -/

/-- The parser makes steps, and where it yields a value, tasks and workers are known if they were
known before. -/
structure Tame {α : Type} (p : Parse α) : Prop where
  steps : Stepwise p
  concurrent : ∀ {i : Input} {s t : State} {a : α}, exec p i s = (.ok a, t) →
    t.concurrent = s.concurrent

theorem Alike.tame {α : Type} {d : α → α} {p q : Parse α} (h : Alike d p q) : Tame p :=
  ⟨h.stepwise, fun hexec => (h.framed.ok hexec).concurrent⟩

namespace Tame

section
variable {α β : Type} {p : Parse α}

theorem pure (a : α) : Tame (Pure.pure a) := Alike.tame (d := id) (.pure a)

theorem get : Tame (MonadState.get : Parse State) :=
  ⟨.get, fun hexec => by cases hexec; rfl⟩

theorem change {f : State → State} (hsteps : ∀ i s, Steps i s (f s))
    (h : ∀ s, (f s).concurrent = s.concurrent) : Tame (modify f) where
  steps := .change hsteps
  concurrent {i s t a} hexec := by
    cases hexec
    exact h s

theorem bind {f : α → Parse β} (hp : Tame p) (hf : ∀ a, Tame (f a)) : Tame (p >>= f) where
  steps := .bind hp.steps fun a => (hf a).steps
  concurrent hexec := by
    obtain ⟨a, u, hfirst, hthen⟩ := exec_bind_eq_ok hexec
    exact ((hf a).concurrent hthen).trans (hp.concurrent hfirst)

theorem onTree {f : Tree.Builder → Tree.Builder} (hf : Tree.Builder.Edit f) : Tame (onTree f) :=
  .change (fun _ s => .single (.edit s f hf)) fun _ => rfl

theorem openAt (c : Option Tree.Checkpoint) (kind : Tree.Kind) : Tame (openAt c kind) := by
  cases c with
  | none => exact .onTree (.start kind)
  | some c => exact .onTree (.startAt c kind)

theorem inNodeAt {c : Option Tree.Checkpoint} {kind : Tree.Kind} (hp : Tame p) :
    Tame (inNodeAt c kind p) :=
  .bind (.openAt c kind) fun _ => .bind hp fun _ => .bind (.onTree .finish) fun _ => .pure _

/-- Around a concurrency block tasks are known as before. -/
theorem concurrently (hp : Tame p) : Tame (concurrently p) where
  steps := .concurrently hp.steps
  concurrent {i s t a} hexec := by
    rw [exec_concurrently] at hexec
    split at hexec <;> cases hexec
    rfl

/-- Recovery goes back to where tasks were known as before, and skips from there. -/
theorem recovering {skip skip' : Bool → Parse Unit}
    (hskip : ∀ progress, Alike id (skip progress) (skip' progress)) (hp : Tame p) :
    Tame (recovering skip p) where
  steps := .recovering (fun progress => (hskip progress).stepwise) hp.steps
  concurrent {i s t a} hexec := by
    rw [exec_recovering] at hexec
    rcases hrun : exec p i s with ⟨_ | b, u⟩ <;> rw [hrun] at hexec
    · obtain ⟨_, v, hrecover, hdone⟩ := exec_bind_eq_ok hexec
      obtain ⟨_, _, hreturn, hrest⟩ := exec_bind_eq_ok hrecover
      cases hreturn
      cases hdone
      have hskipping := Framed.skipping (fun progress => (hskip progress).framed) s.place
      exact ((hskipping.inNodeAt _ _).ok hrest).concurrent
    · cases hexec
      exact hp.concurrent hrun

end

end Tame

/-! ## The judgement -/

/-- The tokens are as the law asks, and tasks are not known if it is one for the outside. -/
structure Law.Admits (L : Law) (s : State) : Prop where
  tokens : L.tokens s.rest
  outside : L.outside = true → s.concurrent = false

/-- What a law admits it admits behind a tame parser. -/
theorem Law.Admits.behind {L : Law} {α : Type} {p : Parse α} (hp : Tame p) {i : Input}
    {s t : State} {a : α} (hs : L.Admits s) (heof : i.eof.kind = .eof)
    (hexec : exec p i s = (.ok a, t)) : L.Admits t where
  tokens := L.tokens_suffix (hp.steps.run heof hexec).rest_suffix hs.tokens
  outside houtside := (hp.concurrent hexec).trans (hs.outside houtside)

/-- If `H`, then the parser yields syntax that meets the law. -/
structure Makes {α : Type} [HasNodes α] (L : Law) (H : Prop) (p : Parse α) : Prop where
  tame : Tame p
  meets : H → ∀ {i : Input} {s t : State} {a : α}, i.eof.kind = .eof → L.Admits s →
    exec p i s = (.ok a, t) → t.spent = false → L.Meets a

namespace Makes

section
variable {α β : Type} [HasNodes α] [HasNodes β] {L : Law} {H : Prop} {p : Parse α}

/-! ## Parsers in a row -/

theorem pure {a : α} (h : H → L.Meets a) : Makes L H (Pure.pure a) where
  tame := .pure a
  meets hH _ _ _ _ _ _ hexec _ := by
    cases hexec
    exact h hH

theorem giveUp : Makes L H (giveUp : Parse α) where
  tame := Alike.tame (d := id) .giveUp
  meets _ _ _ _ _ _ _ hexec _ := nomatch hexec

/-- A hypothesis that is not needed. -/
theorem under {G : Prop} (hp : Makes L G p) (h : H → G) : Makes L H p where
  tame := hp.tame
  meets hH := hp.meets (h hH)

/-- What follows a parser that yields such values only. -/
theorem bindYields {Q : α → Prop} {f : α → Parse β} (hp : Makes L H p) (hq : Yields Q p)
    (hf : ∀ a, Makes L ((H ∧ L.Meets a) ∧ Q a) (f a)) : Makes L H (p >>= f) where
  tame := .bind hp.tame fun a => (hf a).tame
  meets hH i s t b heof hs hexec hspent := by
    obtain ⟨a, u, hfirst, hthen⟩ := exec_bind_eq_ok hexec
    have hsteps : Steps i u t := (hf a).tame.steps.run heof hthen
    have ha := hp.meets hH heof hs hfirst (hsteps.spent_eq_false hspent)
    have hgiven := And.intro (And.intro hH ha) (hq i s a u hfirst)
    exact (hf a).meets hgiven heof (hs.behind hp.tame heof hfirst) hthen hspent

/-- What follows a parser that yields a value. -/
theorem bind {f : α → Parse β} (hp : Makes L H p) (hf : ∀ a, Makes L (H ∧ L.Meets a) (f a)) :
    Makes L H (p >>= f) :=
  hp.bindYields (Q := fun _ => True) (fun _ _ _ _ _ => trivial) fun a => (hf a).under And.left

/-- What follows a tame parser. -/
theorem following {γ : Type} {q : Parse γ} {f : γ → Parse α} (hq : Tame q)
    (hf : ∀ c, Makes L H (f c)) : Makes L H (q >>= f) where
  tame := .bind hq fun c => (hf c).tame
  meets hH i s t a heof hs hexec hspent := by
    obtain ⟨c, u, hfirst, hthen⟩ := exec_bind_eq_ok hexec
    exact (hf c).meets hH heof (hs.behind hq heof hfirst) hthen hspent

/-- What follows a parser that yields no syntax. -/
theorem past {γ : Type} {d : γ → γ} {q q' : Parse γ} {f : γ → Parse α} (hq : Alike d q q')
    (hf : ∀ c, Makes L H (f c)) : Makes L H (q >>= f) :=
  .following hq.tame hf

/-- What follows a look at the state may rely on what the law admits. -/
theorem get {f : State → Parse α}
    (hf : ∀ s : State, Makes L (H ∧ (L.outside = true → s.concurrent = false)) (f s)) :
    Makes L H (get >>= f) where
  tame := .bind .get fun s => (hf s).tame
  meets hH _ s _ _ heof hs hexec hspent :=
    (hf s).meets ⟨hH, hs.outside⟩ heof hs hexec hspent

theorem ite {c : Prop} [Decidable c] {q : Parse α} (hp : Makes L H p) (hq : Makes L H q) :
    Makes L H (if c then p else q) := by
  split
  · exact hp
  · exact hq

/-- Two ways to a value, and what follows both. -/
theorem branch {c : Prop} [Decidable c] {q : Parse α} {f : α → Parse β} (hp : Makes L H p)
    (hq : Makes L H q) (hf : ∀ a, Makes L (H ∧ L.Meets a) (f a)) :
    Makes L H (if c then p >>= f else q >>= f) :=
  .ite (hp.bind hf) (hq.bind hf)

/-- Something done on a condition, and what follows in any case. -/
theorem guarded {γ : Type} {d : γ → γ} {c : Prop} [Decidable c] {q q' : Parse γ}
    (hq : Alike d q q') (hp : Makes L H p) : Makes L H (if c then q >>= fun _ => p else p) :=
  .ite (.past hq fun _ => hp) hp

theorem map {f : α → β} (hp : Makes L H p) (hf : ∀ {a}, L.Meets a → L.Meets (f a)) :
    Makes L H (f <$> p) := by
  rw [map_eq_pure_bind]
  exact hp.bind fun a => .pure fun h => hf h.2

theorem fail {description : String}
    (h : autoParam (description ≠ tooManyErrors) Rat.reduced._autoParam) :
    Makes L H (fail description : Parse α) where
  tame := Alike.tame (d := id) (.fail description h)
  meets _ _ _ _ _ _ _ hexec _ := by
    obtain ⟨_, _, _, hgive⟩ := exec_bind_eq_ok hexec
    cases hgive

/-! ## Nodes, bodies and recovery -/

/-- A parser between two changes of the state. -/
theorem between {γ δ : Type} {q : Parse γ} {r : Parse δ} (hq : Tame q) (hp : Makes L H p)
    (hr : Tame r) :
    Makes L H (q >>= fun _ => p >>= fun a => r >>= fun _ => Pure.pure a) :=
  .following hq fun _ => hp.bind fun _ => .following hr fun _ => .pure And.right

theorem inNode {kind : Tree.Kind} (hp : Makes L H p) : Makes L H (inNode kind p) :=
  between (.onTree (.start kind)) hp (.onTree .finish)

theorem inNodeAt {c : Option Tree.Checkpoint} {kind : Tree.Kind} (hp : Makes L H p) :
    Makes L H (inNodeAt c kind p) :=
  between (.openAt c kind) hp (.onTree .finish)

theorem inBody {kind : String} {brace : Token} (hp : Makes L H p) :
    Makes L H (inBody kind brace p) :=
  between (.change (fun _ _ => .single (.context ..)) fun _ => rfl) hp
    (.change (fun _ _ => .single (.context ..)) fun _ => rfl)

theorem deeper (hp : Makes L H p) : Makes L H (deeper p) :=
  between (.change (fun _ _ => .single (.context ..)) fun _ => rfl) hp
    (.change (fun _ _ => .single (.context ..)) fun _ => rfl)

/-- Tasks are known in a concurrency block: there a law for the outside does not count. -/
theorem concurrently (hp : Makes L H p) (houtside : L.outside = false) :
    Makes L H (concurrently p) where
  tame := .concurrently hp.tame
  meets hH i s t a heof hs hexec hspent := by
    rw [exec_concurrently] at hexec
    rcases hrun : exec p i { s with concurrent := true } with ⟨_ | b, u⟩ <;> rw [hrun] at hexec
    · cases hexec
    · cases hexec
      have hknown : L.Admits { s with concurrent := true } :=
        ⟨hs.tokens, fun h => nomatch houtside.symm.trans h⟩
      exact hp.meets hH heof hknown hrun hspent

theorem recovering {skip skip' : Bool → Parse Unit}
    (hskip : ∀ progress, Alike id (skip progress) (skip' progress)) (hp : Makes L H p) :
    Makes L H (recovering skip p) where
  tame := .recovering hskip hp.tame
  meets hH i s t a heof hs hexec hspent := by
    rw [exec_recovering] at hexec
    rcases hrun : exec p i s with ⟨_ | b, u⟩ <;> rw [hrun] at hexec
    · obtain ⟨_, _, _, hdone⟩ := exec_bind_eq_ok hexec
      cases hdone
      exact .none
    · cases hexec
      exact .some (hp.meets hH heof hs hrun hspent)

/-! ## Repetition -/

/-- A loop over such values that meet the law. -/
theorem repeatYields {Q : α → Prop} {turn : α → Parse (α × Bool)} {n : Nat} {a : α}
    (ha : H → L.Meets a ∧ Q a) (hturn : ∀ a, Makes L (L.Meets a ∧ Q a) (turn a))
    (hq : ∀ a, Q a → Yields (Q ·.1) (turn a)) : Makes L H (repeatUpTo turn n a) := by
  induction n generalizing a H with
  | zero => exact .past .spend fun _ => .pure fun hH => (ha hH).1
  | succ n ih =>
    have hkeep : Yields (fun r => Q a → Q r.1) (turn a) :=
      fun i s r t hexec hqa => hq a hqa i s r t hexec
    refine .bindYields ((hturn a).under ha) hkeep fun (b, more) => ?_
    refine .ite (ih fun h => ?_) (.pure fun h => h.1.2.fst)
    exact ⟨h.1.2.fst, h.2 (ha h.1.1).2⟩

/-- A loop over values that meet the law. -/
theorem repeatUpTo {turn : α → Parse (α × Bool)} {n : Nat} {a : α} (ha : H → L.Meets a)
    (hturn : ∀ a, Makes L (L.Meets a) (turn a)) : Makes L H (repeatUpTo turn n a) :=
  .repeatYields (Q := fun _ => True) (fun hH => ⟨ha hH, trivial⟩)
    (fun a => (hturn a).under And.left) fun _ _ _ _ _ _ _ => trivial

/-- A turn of a loop, and whether it goes on. -/
theorem turn {a : α} {more : Bool} (h : H → L.Meets a) : Makes L H (Pure.pure (a, more)) :=
  .pure fun hH => .pair (h hH) (.bare rfl)

theorem commaSeparated {rules : Rules} (hp : ∀ {G : Prop}, Makes L G p) :
    Makes L H (commaSeparated rules p) := by
  refine .bind hp fun first => .bind (.repeatUpTo (fun h => .cons h.2 .nil) fun items => ?_)
    fun _ => .pure fun h => h.2.reverse
  exact .past (.eat _) fun _ =>
    .ite (.bind hp fun _ => .turn fun h => .cons h.2 h.1) (.turn id)

theorem commaList {rules : Rules} {close : Token.Kind} (hp : ∀ {G : Prop}, Makes L G p) :
    Makes L H (commaList rules close p) := by
  refine .bind (.repeatUpTo (fun _ => .pair .nil (.bare rfl)) fun (items, comma) => ?_)
    fun (items, comma) => .pure fun h => .pair h.2.fst.reverse (.bare rfl)
  exact .past (.check _) fun _ => .past .atEnd fun _ =>
    .ite (.turn id) (.bind hp fun _ => .past (.eat _) fun _ =>
      .turn fun h => .pair (.cons h.2 h.1.fst) (.bare rfl))

theorem after {kind : Token.Kind} (hp : Makes L H p) : Makes L H (after kind p) :=
  .past (.eat _) fun _ =>
    .ite (hp.bind fun _ => .pure fun h => .some h.2) (.pure fun _ => .none)

end

end Makes

/-! ## Looking ahead -/

/-- Where the next token is of a kind, the parser yields syntax that meets the law. -/
structure MakesAt {α : Type} [HasNodes α] (L : Law) (H : Prop) (kind : Token.Kind) (p : Parse α) :
    Prop where
  tame : Tame p
  meets : H → ∀ {i : Input} {s t : State} {a : α}, i.eof.kind = .eof → L.Admits s →
    (s.rest[0]?.getD i.eof).kind = kind → exec p i s = (.ok a, t) → t.spent = false → L.Meets a

section
variable {α β : Type} [HasNodes α] [HasNodes β] {L : Law} {H : Prop} {kind : Token.Kind}

theorem MakesAt.always {p : Parse α} (h : Makes L H p) : MakesAt L H kind p :=
  ⟨h.tame, fun hH _ _ _ _ heof hs _ => h.meets hH heof hs⟩

/-- What follows a look at the next token may rely on its kind. -/
theorem Makes.peek {f : Token → Parse α} (h : ∀ t : Token, MakesAt L H t.kind (f t)) :
    Makes L H (peek >>= f) where
  tame := .bind Alike.peek.tame fun t => (h t).tame
  meets hH _ _ _ _ heof hs hexec hspent := (h _).meets hH heof hs rfl hexec hspent

theorem MakesAt.bind {p : Parse α} {f : α → Parse β} (hp : MakesAt L H kind p)
    (hf : ∀ a, Makes L (H ∧ L.Meets a) (f a)) : MakesAt L H kind (p >>= f) where
  tame := .bind hp.tame fun a => (hf a).tame
  meets hH i s t b heof hs hnext hexec hspent := by
    obtain ⟨a, u, hfirst, hthen⟩ := exec_bind_eq_ok hexec
    have hsteps : Steps i u t := (hf a).tame.steps.run heof hthen
    have ha := hp.meets hH heof hs hnext hfirst (hsteps.spent_eq_false hspent)
    exact (hf a).meets ⟨hH, ha⟩ heof (hs.behind hp.tame heof hfirst) hthen hspent

/-- A look at a later token leaves the next one where it is. -/
theorem MakesAt.peekAt {f : Token → Parse α} (h : ∀ t : Token, MakesAt L H kind (f t)) :
    MakesAt L H kind (Grammar.peekAt 1 >>= f) where
  tame := .bind (Alike.peekAt 1).tame fun t => (h t).tame
  meets hH _ _ _ _ heof hs hnext hexec hspent := (h _).meets hH heof hs hnext hexec hspent

theorem MakesAt.inNodeAt {p : Parse α} {c : Option Tree.Checkpoint} {node : Tree.Kind}
    (hp : MakesAt L H kind p) : MakesAt L H kind (inNodeAt c node p) where
  tame := .inNodeAt hp.tame
  meets hH i s t a heof hs hnext hexec hspent := by
    have hmade : MakesAt L H kind (p >>= fun a => do closeNode; return a) :=
      hp.bind fun _ => .following (.onTree .finish) fun _ => .pure And.right
    obtain ⟨_, u, hopen, hinner⟩ := exec_bind_eq_ok hexec
    have hrest : u.rest = s.rest := by
      cases c <;> cases hopen <;> rfl
    have hu : L.Admits u := hs.behind (.openAt c node) heof hopen
    exact hmade.meets hH heof hu (hrest ▸ hnext) hinner hspent

theorem MakesAt.inNode {p : Parse α} {node : Tree.Kind} (hp : MakesAt L H kind p) :
    MakesAt L H kind (inNode node p) :=
  hp.inNodeAt (c := none)

end

/-! ## Rules -/

/-- The law holds of the classes that are read with the rules. -/
def Rules.MakeClasses (rules : Rules) (L : Law) : Prop :=
  ∀ (mods : Modifiers) {i : Input} {s t : State} {c : ClassDecl}, i.eof.kind = .eof →
    L.Admits s → (s.rest[0]?.getD i.eof).kind = .kwClass →
      exec (classDeclaration rules mods) i s = (.ok c, t) → L.holds (.stmt (.classDecl c))

/-- Whatever the rules call meets the law. -/
structure Rules.Make (rules : Rules) (L : Law) : Prop where
  lawful : rules.Lawful
  expression : ∀ {H : Prop}, Makes L H (rules.call .expression)
  power : ∀ {H : Prop}, Makes L H (rules.call .power)
  unary : ∀ {H : Prop}, Makes L H (rules.call .unary)
  type : ∀ {H : Prop}, Makes L H (rules.call .type)
  basicType : ∀ {H : Prop}, Makes L H (rules.call .basicType)
  pattern : ∀ {H : Prop}, Makes L H (rules.call .pattern)
  ifStatement : ∀ {H : Prop}, Makes L H (rules.call .ifStatement)
  statement : ∀ {H : Prop}, Makes L H (rules.call .statement)
  declaration : ∀ {H : Prop}, Makes L H (rules.call .declaration)
  recovered : ∀ {H : Prop}, Makes L H (rules.call .recovered)

end LimitSyntax.Grammar
