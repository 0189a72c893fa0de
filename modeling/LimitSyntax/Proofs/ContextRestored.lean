import LimitSyntax.Proofs.ParseSteps
import LimitSyntax.Proofs.Productions
import Mathlib.Data.Option.Basic

/-!
# What a rule leaves as it found it

A rule enters bodies, counts those that hold declarations, makes tasks and workers known, and opens
nodes of the tree. If it yields a value, then it has put all of that back (`Grammar.Balanced`). If it
gives up, then it may leave bodies and nodes open, but it has closed none of those that it found open
(`Grammar.Nested`). So a declaration can always go back to where it started, however deep inside it
something went wrong.
-/

namespace LimitSyntax

/-! ## Open nodes -/

namespace Tree.Builder

/-- What is known of the open nodes inside the current one: its kind, and the nodes around it. -/
def outline (b : Builder) : Kind × List Frame := (b.top.kind, b.below)

@[simp] theorem outline_token (b : Builder) (t : Token) : (b.token t).outline = b.outline := rfl

@[simp] theorem outline_popToken (b : Builder) : b.popToken.outline = b.outline := by
  unfold popToken
  split <;> rfl

@[simp] theorem outline_describe (b : Builder) (text : String) :
    (b.describe text).outline = b.outline := rfl

@[simp] theorem outline_markError (b : Builder) (text : String) :
    (b.markError text).outline = b.outline := rfl

/-- A node was opened inside the current node of `b`. -/
def Opened (b b' : Builder) : Prop :=
  ∃ kind parent, parent.kind = b.top.kind ∧ b'.outline = (kind, parent :: b.below)

theorem opened_start (b : Builder) (kind : Kind) : b.Opened (b.start kind) :=
  ⟨kind, b.top, rfl, rfl⟩

theorem opened_startAt (b : Builder) (c : Checkpoint) (kind : Kind) :
    b.Opened (b.startAt c kind) := by
  obtain ⟨kept, adopted, -, heq⟩ := b.startAt_eq c kind
  exact ⟨kind, { b.top with elements := kept }, rfl, heq ▸ rfl⟩

/-- A node is closed into the node around it. -/
theorem finish_of_below {b : Builder} {parent : Frame} {below : List Frame}
    (h : b.below = parent :: below) : b.finish.below = below ∧ b.finish.top = { parent with
      elements := parent.elements.push (.node (b.top.node (b.top.span b.offset))) } := by
  unfold finish
  split
  next hnil => cases h.symm.trans hnil
  next hcons =>
    obtain ⟨rfl, rfl⟩ := List.cons.inj (h.symm.trans hcons)
    exact ⟨rfl, rfl⟩

/-- To close the node that was opened is to be back. -/
theorem Opened.finish {b b' : Builder} (h : b.Opened b') : b'.finish.outline = b.outline := by
  obtain ⟨kind, parent, hparent, houtline⟩ := h
  obtain ⟨hbelow, htop⟩ := finish_of_below (congrArg Prod.snd houtline)
  rw [outline, htop, hbelow, outline, ← hparent]

/-- The open nodes of `b'` are those of `b`, apart from the elements of the innermost of them, and
perhaps more inside. -/
def Within (b b' : Builder) : Prop :=
  ∃ inner f, b'.top :: b'.below = inner ++ f :: b.below ∧ f.kind = b.top.kind

theorem within_of_outline {b b' : Builder} (h : b'.outline = b.outline) : b.Within b' :=
  ⟨[], b'.top, congrArg (b'.top :: ·) (congrArg Prod.snd h), congrArg Prod.fst h⟩

theorem Within.of_outline {b c b' : Builder} (h : c.Within b') (hc : c.outline = b.outline) :
    b.Within b' := by
  obtain ⟨inner, f, happend, hkind⟩ := h
  have hkinds : c.top.kind = b.top.kind := congrArg Prod.fst hc
  have hbelow : c.below = b.below := congrArg Prod.snd hc
  exact ⟨inner, f, hbelow ▸ happend, hkind.trans hkinds⟩

theorem Within.of_opened {b c b' : Builder} (h : c.Within b') (hc : b.Opened c) : b.Within b' := by
  obtain ⟨inner, f, happend, -⟩ := h
  obtain ⟨kind, parent, hparent, houtline⟩ := hc
  have hbelow : c.below = parent :: b.below := congrArg Prod.snd houtline
  exact ⟨inner ++ [f], parent, by simp [happend, hbelow], hparent⟩

/-- Closing the nodes inside a node adds one element to it at most. -/
theorem finishMany_of_inner {n : Nat} {inner below : List Frame} {f : Frame} {b : Builder}
    (hn : inner.length = n) (h : b.top :: b.below = inner ++ f :: below) :
    ∃ more : Array Element, (b.finishMany n).below = below ∧
      (b.finishMany n).top = { f with elements := f.elements ++ more } := by
  induction n generalizing b inner f with
  | zero =>
    obtain rfl := List.length_eq_zero_iff.1 hn
    obtain ⟨rfl, rfl⟩ := List.cons.inj h
    exact ⟨#[], rfl, by simp [finishMany]⟩
  | succ n ih =>
    obtain ⟨g, inner, rfl⟩ := List.exists_cons_of_length_eq_add_one hn
    have hlength : inner.length = n := Nat.succ.inj hn
    have hbelow : b.below = inner ++ f :: below := (List.cons.inj h).2
    -- the node that is closed goes to the next one, which may be `f` itself
    rw [finishMany]
    cases inner with
    | nil =>
      obtain ⟨hnext, htop⟩ := finish_of_below hbelow
      obtain ⟨more, hbelow', htop'⟩ := ih hlength (congrArg₂ List.cons htop hnext)
      refine ⟨#[.node (b.top.node (b.top.span b.offset))] ++ more, hbelow', htop'.trans ?_⟩
      simp
    | cons g' inner =>
      obtain ⟨hnext, -⟩ := finish_of_below hbelow
      have hlength' : (b.finish.top :: inner).length = n := hlength
      exact ih hlength' (congrArg (b.finish.top :: ·) hnext)

/-- Closing nodes until as many are open as were around a node leads back to it. -/
theorem unwind_of_inner {inner below : List Frame} {f : Frame} {b : Builder}
    (h : b.top :: b.below = inner ++ f :: below) :
    ∃ more : Array Element, (b.unwind (below.length + 1)).below = below ∧
      (b.unwind (below.length + 1)).top = { f with elements := f.elements ++ more } := by
  have hlength : b.depth = inner.length + (below.length + 1) := by
    simpa [depth, Nat.add_assoc] using congrArg List.length h
  have hmax : max (below.length + 1) 1 = below.length + 1 := Nat.max_eq_left (Nat.le_add_left 1 _)
  rw [Builder.unwind, hmax, hlength, Nat.add_sub_cancel]
  exact finishMany_of_inner rfl h

/-- Closing the nodes inside leads back. -/
theorem Within.unwind {b b' : Builder} (h : b.Within b') :
    (b'.unwind b.depth).outline = b.outline := by
  obtain ⟨inner, f, happend, hkind⟩ := h
  obtain ⟨more, hbelow, htop⟩ := unwind_of_inner happend
  exact Prod.ext ((congrArg Frame.kind htop).trans hkind) hbelow

end Tree.Builder

namespace Grammar

open LimitSyntax.Tree (Builder)

/-! ## States -/

/-- What a rule has to put back. -/
structure Context where
  /-- The open bodies, innermost first. -/
  blocks : List OpenBlock
  /-- Number of open bodies that hold declarations. -/
  depth : Nat
  /-- Whether tasks and workers are known. -/
  concurrent : Bool
  /-- Number of open nodes of the tree. -/
  openNodes : Nat

/-- The context of a place in a parse. -/
def State.context (s : State) : Context :=
  ⟨s.blocks, s.depth, s.concurrent, (s.tree.map Builder.depth).getD 0⟩

/-- In `t` everything is open that is open in `s`, and nothing else. -/
structure Balanced (s t : State) : Prop where
  blocks : t.blocks = s.blocks
  depth : t.depth = s.depth
  concurrent : t.concurrent = s.concurrent
  tree : Option.Rel (fun b b' => b'.outline = b.outline) s.tree t.tree

/-- In `t` everything is open that is open in `s`, and perhaps more inside. -/
structure Nested (s t : State) : Prop where
  blocks : s.blocks <:+ t.blocks
  tree : Option.Rel Builder.Within s.tree t.tree

/-- Trees that are related in two steps. -/
theorem rel_trans {R S T : Builder → Builder → Prop} {x y z : Option Builder}
    (h : Option.Rel R x y) (h' : Option.Rel S y z) (hT : ∀ {a b c}, R a b → S b c → T a c) :
    Option.Rel T x z := by
  cases h with
  | none =>
    cases h'
    exact .none
  | some hab =>
    cases h' with
    | some hbc => exact .some (hT hab hbc)

/-- A tree that is changed. -/
theorem rel_map {R : Builder → Builder → Prop} {f : Builder → Builder} (hf : ∀ b, R b (f b))
    (x : Option Builder) : Option.Rel R x (x.map f) := by
  cases x with
  | none => exact .none
  | some b => exact .some (hf b)

theorem Balanced.refl (s : State) : Balanced s s :=
  ⟨rfl, rfl, rfl, by
    cases s.tree with
    | none => exact .none
    | some b => exact .some rfl⟩

theorem Balanced.trans {s t u : State} (h : Balanced s t) (h' : Balanced t u) : Balanced s u :=
  ⟨h'.blocks.trans h.blocks, h'.depth.trans h.depth, h'.concurrent.trans h.concurrent,
    rel_trans h.tree h'.tree fun hab hbc => hbc.trans hab⟩

theorem Balanced.nested {s t : State} (h : Balanced s t) : Nested s t where
  blocks := h.blocks ▸ List.suffix_rfl
  tree := rel_trans h.tree (Balanced.refl t).tree fun hab hbc =>
    Builder.within_of_outline (hbc.trans hab)

theorem Balanced.nested_trans {s t u : State} (h : Balanced s t) (h' : Nested t u) :
    Nested s u where
  blocks := h.blocks ▸ h'.blocks
  tree := rel_trans h.tree h'.tree fun hab hbc => hbc.of_outline hab

theorem Balanced.context {s t : State} (h : Balanced s t) : t.context = s.context := by
  have hdepth : (t.tree.map Builder.depth).getD 0 = (s.tree.map Builder.depth).getD 0 := by
    have htree := h.tree
    generalize s.tree = x, t.tree = y at htree
    cases htree with
    | none => rfl
    | some hb => exact congrArg (·.2.length + 1) hb
  simp only [State.context, h.blocks, h.depth, h.concurrent, hdepth]

/-- To go back to a place is to close what was opened since then. -/
theorem Nested.returnTo {s t : State} (h : Nested s t) : Balanced s (t.returnTo s.place) where
  blocks := (List.suffix_iff_eq_drop.1 h.blocks).symm
  depth := rfl
  concurrent := rfl
  tree := by
    have htree := h.tree
    simp only [State.returnTo, State.place]
    generalize s.tree = x, t.tree = y at htree
    cases htree with
    | none => exact .none
    | some hb => exact .some hb.unwind

theorem Balanced.report (i : Input) (s : State) (t : Token) (description : String)
    (block : Option OpenBlock) : Balanced s (s.report i t description block) := by
  obtain ⟨messages, reported, halted, heq⟩ := s.report_eq i t description block
  have hsame := Balanced.refl s
  rw [heq]
  exact ⟨rfl, rfl, rfl, hsame.tree⟩

/-! ## Runs -/

section
variable {α : Type} {p : Parse α} {i : Input} {s t : State}

/-- A parser between two changes of the state that yields a value. -/
theorem exec_around_eq_ok {f g : State → State} {a : α}
    (h : exec (modify f >>= fun _ => p >>= fun a => modify g >>= fun _ => pure a) i s =
      (.ok a, t)) : ∃ u, exec p i (f s) = (.ok a, u) ∧ g u = t := by
  obtain ⟨_, _, hbefore, hrest⟩ := exec_bind_eq_ok h
  obtain ⟨a', u, hrun, hafter⟩ := exec_bind_eq_ok hrest
  cases hbefore
  cases hafter
  exact ⟨u, hrun, rfl⟩

/-- A parser between two changes of the state that gives up: the second change is not made. -/
theorem exec_around_eq_error {f g : State → State} {e : Unit}
    (h : exec (modify f >>= fun _ => p >>= fun a => modify g >>= fun _ => pure a) i s =
      (.error e, t)) : exec p i (f s) = (.error e, t) := by
  rcases exec_bind_eq_error h with hbefore | ⟨_, _, hbefore, hrest⟩
  · cases hbefore
  cases hbefore
  rcases exec_bind_eq_error hrest with hrun | ⟨a, u, hrun, hafter⟩
  · exact hrun
  · cases hafter

/-- A parser inside a node that yields a value. -/
theorem exec_node_eq_ok {f : Builder → Builder} {a : α}
    (h : exec (onTree f >>= fun _ => p >>= fun a => closeNode >>= fun _ => pure a) i s =
      (.ok a, t)) :
    ∃ u, exec p i (s.mapTree f) = (.ok a, u) ∧ u.mapTree (·.finish) = t :=
  exec_around_eq_ok h

/-- A parser inside a node that gives up. -/
theorem exec_node_eq_error {f : Builder → Builder} {e : Unit}
    (h : exec (onTree f >>= fun _ => p >>= fun a => closeNode >>= fun _ => pure a) i s =
      (.error e, t)) : exec p i (s.mapTree f) = (.error e, t) :=
  exec_around_eq_error h

end

/-- What a parser that recovers comes to. -/
theorem exec_recovering {α : Type} (skip : Bool → Parse Unit) (p : Parse α) (i : Input) (s : State) :
    exec (recovering skip p) i s = match exec p i s with
      | (.ok a, t) => (.ok (some a), t)
      | (.error _, t) => exec (recover skip s.place >>= fun _ => Pure.pure none) i t := by
  have hattempt := exec_attempt i s p
  rw [recovering, exec_bind_ok i (exec_get i s)]
  rcases hexec : exec p i s with ⟨_ | a, t⟩ <;> rw [hexec] at hattempt
  all_goals
    rw [exec_bind_ok i hattempt]
    rfl

/-! ## Framed parsers -/

/-- The parser leaves everything as it found it if it yields a value, and otherwise may leave more
open than it found. -/
structure Framed {α : Type} (p : Parse α) : Prop where
  ok : ∀ {i s a t}, exec p i s = (.ok a, t) → Balanced s t
  error : ∀ {i s e t}, exec p i s = (.error e, t) → Nested s t

namespace Framed

section
variable {α β : Type} {p : Parse α}

/-- A parser that always yields a value. -/
theorem of_ok (h : ∀ i s, ∃ a t, exec p i s = (.ok a, t) ∧ Balanced s t) : Framed p where
  ok {i s a t} hexec := by
    obtain ⟨a', t', hexec', hbalanced⟩ := h i s
    obtain ⟨-, rfl⟩ := Prod.mk.inj (hexec.symm.trans hexec')
    exact hbalanced
  error {i s e t} hexec := by
    obtain ⟨a', t', hexec', -⟩ := h i s
    cases hexec.symm.trans hexec'

theorem pure (a : α) : Framed (Pure.pure a) := of_ok fun _ s => ⟨a, s, rfl, .refl s⟩

theorem change {f : State → State} (h : ∀ s, Balanced s (f s)) : Framed (modify f) :=
  of_ok fun _ s => ⟨(), f s, rfl, h s⟩

theorem giveUp : Framed (giveUp : Parse α) where
  ok hexec := by cases hexec
  error hexec := by
    cases hexec
    exact (Balanced.refl _).nested

theorem bind {f : α → Parse β} (hp : Framed p) (hf : ∀ a, Framed (f a)) : Framed (p >>= f) where
  ok hexec := by
    obtain ⟨a, s', hfirst, hsecond⟩ := exec_bind_eq_ok hexec
    exact (hp.ok hfirst).trans ((hf a).ok hsecond)
  error hexec := by
    rcases exec_bind_eq_error hexec with hfirst | ⟨a, s', hfirst, hsecond⟩
    · exact hp.error hfirst
    · exact (hp.ok hfirst).nested_trans ((hf a).error hsecond)

theorem ite {c : Prop} [Decidable c] {q : Parse α} (hp : Framed p) (hq : Framed q) :
    Framed (if c then p else q) := by
  split
  · exact hp
  · exact hq

/-! ## Tokens -/

theorem advance : Framed advance := by
  refine of_ok fun i s => ?_
  rw [exec_advance]
  cases s.rest with
  | nil => exact ⟨_, s, rfl, .refl s⟩
  | cons t rest =>
    refine ⟨t, _, rfl, ?_⟩
    split
    · exact .refl s
    · exact ⟨rfl, rfl, rfl, rel_map (fun b => b.outline_token t) s.tree⟩

theorem look {f : Input → State → α} (h : ∀ i s, exec p i s = (.ok (f i s), s)) : Framed p :=
  of_ok fun i s => ⟨f i s, s, h i s, .refl s⟩

theorem rewind : Framed rewind := by
  refine change fun s => ?_
  unfold State.back
  split
  · exact ⟨rfl, rfl, rfl, rel_map Builder.outline_popToken s.tree⟩
  · exact .refl s

theorem eatBefore (kind : Token.Kind) (ahead : Token → Token → Bool) :
    Framed (eatBefore kind ahead) := by
  have heat : Framed (eat kind) := .bind (look fun i s => exec_check i s kind) fun _ =>
    .ite (.bind .advance fun _ => .pure _) (.pure _)
  exact .bind heat fun _ => .ite (.bind (look fun i s => exec_peekAt i s 0) fun _ =>
    .bind (look fun i s => exec_peekAt i s 1) fun _ =>
      .ite (.pure _) (.bind .rewind fun _ => .pure _)) (.pure _)

/-! ## The tree -/

theorem onTree {f : Builder → Builder} (hf : ∀ b, (f b).outline = b.outline) :
    Framed (onTree f) :=
  change fun s => ⟨rfl, rfl, rfl, rel_map hf s.tree⟩

/-- A parser inside a node that was opened just before. -/
theorem node {f : Builder → Builder} (hf : ∀ b : Builder, b.Opened (f b)) (hp : Framed p) :
    Framed (Grammar.onTree f >>= fun _ => p >>= fun a => closeNode >>= fun _ => Pure.pure a) where
  ok {i s a t} hexec := by
    obtain ⟨u, hrun, rfl⟩ := exec_node_eq_ok hexec
    have hbalanced := hp.ok hrun
    refine ⟨hbalanced.blocks, hbalanced.depth, hbalanced.concurrent, ?_⟩
    have hopened := rel_trans (rel_map hf s.tree) hbalanced.tree
      (T := Builder.Opened) fun ⟨kind, parent, hparent, hb⟩ hc => ⟨kind, parent, hparent, hc.trans hb⟩
    exact rel_trans hopened (rel_map (R := fun b b' => b' = b.finish) (fun _ => rfl) u.tree)
      fun hb hc => hc ▸ hb.finish
  error {i s e t} hexec := by
    have hnested := hp.error (exec_node_eq_error hexec)
    exact ⟨hnested.blocks, rel_trans (rel_map hf s.tree) hnested.tree fun hb hc => hc.of_opened hb⟩

theorem inNode (kind : Tree.Kind) (hp : Framed p) : Framed (inNode kind p) :=
  .node (fun b => b.opened_start kind) hp

theorem inNodeAt (c : Option Tree.Checkpoint) (kind : Tree.Kind) (hp : Framed p) :
    Framed (inNodeAt c kind p) := by
  cases c with
  | none => exact .node (fun b => b.opened_start kind) hp
  | some c => exact .node (fun b => b.opened_startAt c kind) hp

/-! ## Bodies and recovery -/

theorem inBody (kind : String) (brace : Token) (hp : Framed p) :
    Framed (inBody kind brace p) where
  ok {i s a t} hexec := by
    obtain ⟨u, hrun, rfl⟩ := exec_around_eq_ok hexec
    have hbalanced := hp.ok hrun
    exact ⟨congrArg List.tail hbalanced.blocks, hbalanced.depth, hbalanced.concurrent,
      hbalanced.tree⟩
  error {i s e t} hexec := by
    have hnested := hp.error (exec_around_eq_error hexec)
    exact ⟨(List.suffix_cons ..).trans hnested.blocks, hnested.tree⟩

theorem deeper (hp : Framed p) : Framed (deeper p) where
  ok {i s a t} hexec := by
    obtain ⟨u, hrun, rfl⟩ := exec_around_eq_ok hexec
    have hbalanced := hp.ok hrun
    exact ⟨hbalanced.blocks, congrArg (· - 1) hbalanced.depth, hbalanced.concurrent,
      hbalanced.tree⟩
  error {i s e t} hexec := by
    have hnested := hp.error (exec_around_eq_error hexec)
    exact ⟨hnested.blocks, hnested.tree⟩

theorem concurrently (hp : Framed p) : Framed (concurrently p) where
  ok {i s a t} hexec := by
    rw [exec_concurrently] at hexec
    rcases hrun : exec p i { s with concurrent := true } with ⟨_ | a', u⟩ <;> rw [hrun] at hexec
    · cases hexec
    · cases hexec
      have hbalanced := hp.ok hrun
      exact ⟨hbalanced.blocks, hbalanced.depth, rfl, hbalanced.tree⟩
  error {i s e t} hexec := by
    rw [exec_concurrently] at hexec
    rcases hrun : exec p i { s with concurrent := true } with ⟨_ | a', u⟩ <;> rw [hrun] at hexec
    · cases hexec
      have hnested := hp.error hrun
      exact ⟨hnested.blocks, hnested.tree⟩
    · cases hexec

/-- What is done inside an error node. -/
theorem skipping {skip : Bool → Parse Unit} (hskip : ∀ progress, Framed (skip progress))
    (place : Place) : Framed (do
      if let some error := (← get).lastError then Grammar.onTree (·.markError error)
      if !(← get).halted then skip ((← get).position > place.position)) := by
  have hget : Framed (get : Parse State) := look fun _ _ => rfl
  refine .bind hget fun s => ?_
  dsimp only
  split
  · exact .bind (.onTree fun _ => rfl) fun _ => .bind hget fun _ =>
      .ite (.bind hget fun _ => hskip _) (.pure _)
  · exact .bind hget fun _ => .ite (.bind hget fun _ => hskip _) (.pure _)

/-- Skipping inside an error node, which is opened when all that was left open is closed. -/
theorem recovering {skip : Bool → Parse Unit} (hskip : ∀ progress, Framed (skip progress))
    (hp : Framed p) : Framed (recovering skip p) := by
  have hnode := fun place : Place => (skipping hskip place).inNodeAt place.checkpoint .errorNode
  constructor
  · intro i s a t hexec
    rw [exec_recovering] at hexec
    rcases hrun : exec p i s with ⟨_ | a', u⟩ <;> rw [hrun] at hexec
    · obtain ⟨_, v, hrecover, hdone⟩ := exec_bind_eq_ok hexec
      obtain ⟨_, _, hreturn, hrest⟩ := exec_bind_eq_ok hrecover
      cases hreturn
      cases hdone
      exact (hp.error hrun).returnTo.trans ((hnode _).ok hrest)
    · cases hexec
      exact hp.ok hrun
  · intro i s e t hexec
    rw [exec_recovering] at hexec
    rcases hrun : exec p i s with ⟨_ | a', u⟩ <;> rw [hrun] at hexec
    · rcases exec_bind_eq_error hexec with hrecover | ⟨_, v, hrecover, hdone⟩
      · rcases exec_bind_eq_error hrecover with hreturn | ⟨_, _, hreturn, hrest⟩
        · cases hreturn
        cases hreturn
        exact (hp.error hrun).returnTo.nested_trans ((hnode _).error hrest)
      · cases hdone
    · cases hexec

end

end Framed

/-- A parser that is made of the operations is framed. -/
theorem Alike.framed {α : Type} {e : α → α} {p q : Parse α} (h : Alike e p q) : Framed p := by
  induction h with
  | pure a => exact .pure a
  | bind _ _ hp hf => exact .bind hp hf
  | giveUp => exact .giveUp
  | get _ _ hf => exact .bind (.look fun _ _ => rfl) hf
  | checkpoint => exact .look fun _ _ => rfl
  | peekAt k => exact .look fun i s => exec_peekAt i s k
  | previous => exact .look fun i s => exec_previous i s
  | advance => exact .advance
  | @eatBefore kind _ ahead => exact .eatBefore kind ahead
  | reportAt t description =>
    exact .of_ok fun i s => ⟨(), _, exec_reportAt i s t description, .report ..⟩
  | reportUnclosed description =>
    exact .of_ok fun i s => ⟨(), _, exec_reportUnclosed i s description, .report ..⟩
  | noteError | noteUnclosed | spend =>
    exact .change fun s => ⟨rfl, rfl, rfl, (Balanced.refl s).tree⟩
  | describe text => exact .onTree fun _ => rfl
  | markError text => exact .onTree fun _ => rfl
  | inNode kind _ hp => exact .inNode kind hp
  | inNodeAt c kind _ hp => exact .inNodeAt c kind hp
  | inBody kind brace _ hp => exact .inBody kind brace hp
  | deeper _ hp => exact .deeper hp
  | concurrently _ hp => exact .concurrently hp
  | recovering _ _ hskip hp => exact .recovering hskip hp

/-! ## Parsers that never give up -/

/-- The parser always yields a value. -/
def Total {α : Type} (p : Parse α) : Prop := ∀ i s, ∃ a t, exec p i s = (.ok a, t)

namespace Total

section
variable {α β : Type} {p : Parse α}

theorem pure (a : α) : Total (Pure.pure a) := fun _ s => ⟨a, s, rfl⟩

theorem change (f : State → State) : Total (modify f) := fun _ s => ⟨(), f s, rfl⟩

theorem look {f : Input → State → α} (h : ∀ i s, exec p i s = (.ok (f i s), s)) : Total p :=
  fun i s => ⟨f i s, s, h i s⟩

theorem bind {f : α → Parse β} (hp : Total p) (hf : ∀ a, Total (f a)) : Total (p >>= f) := by
  intro i s
  obtain ⟨a, s', hexec⟩ := hp i s
  rw [exec_bind_ok i hexec]
  exact hf a i s'

theorem ite {c : Prop} [Decidable c] {q : Parse α} (hp : Total p) (hq : Total q) :
    Total (if c then p else q) := by
  split
  · exact hp
  · exact hq

theorem advance : Total advance := by
  intro i s
  rw [exec_advance]
  cases s.rest with
  | nil => exact ⟨_, s, rfl⟩
  | cons t rest => exact ⟨t, _, rfl⟩

theorem check (kind : Token.Kind) : Total (check kind) := look fun i s => exec_check i s kind

theorem repeatUpTo {σ : Type} {turn : σ → Parse (σ × Bool)} (h : ∀ x, Total (turn x))
    (bound : Nat) (x : σ) : Total (repeatUpTo turn bound x) := by
  induction bound generalizing x with
  | zero => exact .bind (.change _) fun _ => .pure x
  | succ bound ih => exact .bind (h x) fun ⟨y, _⟩ => .ite (ih y) (.pure y)

theorem inNodeAt (c : Option Tree.Checkpoint) (kind : Tree.Kind) (hp : Total p) :
    Total (inNodeAt c kind p) := by
  cases c with
  | none => exact .bind (.change _) fun _ => .bind hp fun _ => .bind (.change _) fun _ => .pure _
  | some c => exact .bind (.change _) fun _ => .bind hp fun _ => .bind (.change _) fun _ => .pure _

theorem synchronize (rules : Rules) (progress : Bool) : Total (synchronize rules progress) := by
  have hget : Total (get : Parse State) := look fun _ _ => rfl
  have hsynchronized : Total synchronized := .bind hget fun _ =>
    .bind (look fun i s => exec_peekAt i s 0) fun _ =>
      .bind (look fun i s => exec_previous i s) fun _ => .pure _
  have hskip : Total (Grammar.repeatUpTo (fun _ => do
      if (← atEnd) || (← synchronized) then return ((), false)
      let _ ← Grammar.advance
      return ((), true)) rules.bound ()) :=
    .repeatUpTo (fun _ => .bind (.check _) fun _ => .bind hsynchronized fun _ =>
      .ite (.pure _) (.bind .advance fun _ => .pure _)) _ _
  exact .bind hget fun _ => .bind (.check _) fun _ => .ite (.bind .advance fun _ => hskip) hskip

/-- A parser that recovers never gives up if skipping does not. -/
theorem recovering {skip : Bool → Parse Unit} (hskip : ∀ progress, Total (skip progress)) :
    Total (recovering skip p) := by
  have hget : Total (get : Parse State) := look fun _ _ => rfl
  have hrecover : ∀ place, Total (recover skip place) := by
    intro place
    refine .bind (.change _) fun _ => .inNodeAt _ _ (.bind hget fun s => ?_)
    dsimp only
    split
    · exact .bind (.change _) fun _ => .bind hget fun _ =>
        .ite (.bind hget fun _ => hskip _) (.pure _)
    · exact .bind hget fun _ => .ite (.bind hget fun _ => hskip _) (.pure _)
  intro i s
  rw [exec_recovering]
  rcases exec p i s with ⟨_ | a, t⟩
  · exact Total.bind (hrecover _) (fun _ => .pure none) i t
  · exact ⟨some a, t, rfl⟩

end

end Total

/-! ## Rules -/

/-- A declaration, whether or not it meets the grammar, leaves the open bodies, the number of those
that hold declarations, the tasks and workers that are known, and the open nodes of the tree as they
were, and so does every rule that yields a value. -/
theorem context_kept (n : Nat) (i : Input) (s : State) :
    (∃ stmt t, exec (recoveredRule (.upTo n)) i s = (.ok stmt, t) ∧ t.context = s.context) ∧
      ∀ {α : Type} {p : Parse α}, Production (.upTo n) p → ∀ {a t}, exec p i s = (.ok a, t) →
        t.context = s.context := by
  have hr : (Rules.upTo n).Lawful := Rules.lawful_upTo n
  constructor
  · obtain ⟨stmt, t, hexec⟩ : ∃ stmt t, exec (recoveredRule (.upTo n)) i s = (.ok stmt, t) :=
      Total.recovering (.synchronize _) i s
    exact ⟨stmt, t, hexec, ((Twin.recoveredRule hr).alike.framed.ok hexec).context⟩
  · intro α p hp a t hexec
    obtain ⟨q, halike⟩ := hp.alike hr
    exact (halike.framed.ok hexec).context

/-- In the body of an `if` statement, in front of a text. -/
def State.withinIf (text : String) : State where
  rest := (Scan.scan ⟨text, "a"⟩ .lossless {}).1.tokens
  tree := some {}
  errors := {}
  blocks := [⟨"if", .missing 0 1⟩]
  depth := 1

/-- In the body of an `if` statement, a class is given up inside its own body, and a task is read
inside a concurrency block. -/
theorem context_kept_bodies :
    (∃ t, exec (recoveredRule (.upTo 3)) ⟨⟨"", "a"⟩, .eof 1 1, 20⟩
        (.withinIf "class C \x7b fn \x7d") = (.ok none, t) ∧ t.read.size = 4 ∧
      t.context = ⟨[⟨"if", .missing 0 1⟩], 1, false, 1⟩) ∧
    ∃ stmt t, exec (statementRule (.upTo 4)) ⟨⟨"", "a"⟩, .eof 1 1, 20⟩
        (.withinIf "concurrent \x7b task \x7b\x7d \x7d") = (.ok stmt, t) ∧ t.read.size = 6 ∧
      t.context = ⟨[⟨"if", .missing 0 1⟩], 1, false, 1⟩ := by
  constructor
  · obtain ⟨outcome, t, hexec, hcontext⟩ :=
      (context_kept 3 ⟨⟨"", "a"⟩, .eof 1 1, 20⟩ (.withinIf "class C \x7b fn \x7d")).1
    have hrun : (exec (recoveredRule (.upTo 3)) ⟨⟨"", "a"⟩, .eof 1 1, 20⟩
          (.withinIf "class C \x7b fn \x7d")).1.map Option.isSome = .ok false ∧
        (exec (recoveredRule (.upTo 3)) ⟨⟨"", "a"⟩, .eof 1 1, 20⟩
          (.withinIf "class C \x7b fn \x7d")).2.read.size = 4 := by decide +kernel
    rw [hexec] at hrun
    obtain rfl : outcome = none := by simpa [Except.map] using hrun.1
    exact ⟨t, hexec, hrun.2, hcontext⟩
  · have hrun : (exec (statementRule (.upTo 4)) ⟨⟨"", "a"⟩, .eof 1 1, 20⟩
          (.withinIf "concurrent \x7b task \x7b\x7d \x7d")).1.isOk = true ∧
        (exec (statementRule (.upTo 4)) ⟨⟨"", "a"⟩, .eof 1 1, 20⟩
          (.withinIf "concurrent \x7b task \x7b\x7d \x7d")).2.read.size = 6 := by decide +kernel
    cases h : exec (statementRule (.upTo 4)) ⟨⟨"", "a"⟩, .eof 1 1, 20⟩
        (.withinIf "concurrent \x7b task \x7b\x7d \x7d") with
    | mk outcome t =>
      rw [h] at hrun
      cases outcome with
      | error => exact absurd hrun.1 Bool.false_ne_true
      | ok stmt =>
        exact ⟨stmt, t, rfl, hrun.2, (context_kept 4 _ _).2 (.rule .statement) h⟩

end Grammar

end LimitSyntax
