import LimitSyntax.Proofs.Accepts
import LimitSyntax.Proofs.ContextRestored
import LimitSyntax.Proofs.Progress
import LimitSyntax.Proofs.TandemPrograms

/-!
# Tokens read on their own and in the middle of a text

A row of tokens may be read on its own, with a few more behind it that show where it ends
(`Grammar.Completes`). The same rule then reads the same tokens in the middle of a text, and yields the
same value up to places (`Grammar.Completes.reads`). What a rule reads piece by piece is put together
from such facts (`Grammar.Parses`).
-/

namespace LimitSyntax.Grammar

/-- A parse of the tokens `ts` from their start. Tasks and workers are known or not. -/
def State.before (known : Bool) (ts : List Token) : State where
  rest := ts
  tree := none
  errors := {}
  concurrent := known

/-- Nothing was reported so far. -/
structure State.Quiet (known : Bool) (s : State) : Prop where
  errors : s.errors.messages = #[]
  going : s.halted = false
  concurrent : s.concurrent = known

/-- Where the tokens `ts` are to be read and nothing was reported so far, `p` reports nothing and
yields a value; `Q` holds of it and of the tokens that are left. -/
def Parses {α : Type} (known : Bool) (ts : List Token) (p : Parse α) (Q : α → List Token → Prop) :
    Prop :=
  ∀ i s, i.eof.kind = .eof → s.rest = ts → s.Quiet known →
    ∃ a t, exec p i s = (.ok a, t) ∧ t.Quiet known ∧ Q a t.rest

/-- On their own, with the tokens `next` behind them, the parser `p` reads just the tokens `ts`,
reports nothing and yields `a`. Tokens that were reported when they were scanned are not read. -/
structure Completes {α : Type} (known : Bool) (p : Parse α) (ts next : List Token) (a : α) : Prop where
  sound : ∀ t ∈ ts, t.kind ≠ .error
  run : ∃ i t, i.eof.kind = .eof ∧ exec p i (.before known (ts ++ next)) = (.ok a, t) ∧
    t.rest = next ∧ t.errors.messages = #[]

section
variable {α β : Type} {known : Bool} {ts us next : List Token} {p : Parse α} {f : α → Parse β} {a : α}
  {Q : α → List Token → Prop} {R : β → List Token → Prop}

namespace Parses

theorem pure (h : Q a ts) : Parses known ts (Pure.pure a) Q :=
  fun _ s _ hs hquiet => ⟨a, s, rfl, hquiet, hs ▸ h⟩

theorem bind (hp : Parses known ts p Q) (hf : ∀ a us, Q a us → Parses known us (f a) R) :
    Parses known ts (p >>= f) R := by
  intro i s heof hs hquiet
  obtain ⟨a, t, hexec, hquiet', hQ⟩ := hp i s heof hs hquiet
  obtain ⟨b, u, hexec', hquiet'', hR⟩ := hf a _ hQ i t heof rfl hquiet'
  exact ⟨b, u, by rw [exec_bind_ok i hexec, hexec'], hquiet'', hR⟩

/-- What is accepted anywhere. -/
theorem of_accepts (h : Accepts ts p Q) (hp : Framed p) : Parses known ts p Q := by
  intro i s _ hs hquiet
  obtain ⟨a, t, hexec, herrors, hgoing, hQ⟩ := h i s hs hquiet.going
  have hconcurrent := (hp.ok hexec).concurrent
  exact ⟨a, t, hexec, ⟨herrors ▸ hquiet.errors, hgoing, hconcurrent.trans hquiet.concurrent⟩, hQ⟩

/-- What follows a parser that is accepted anywhere. -/
theorem after (h : Accepts ts p Q) (hp : Framed p)
    (hf : ∀ a us, Q a us → Parses known us (f a) R) : Parses known ts (p >>= f) R :=
  (of_accepts h hp).bind hf

theorem inNode {kind : Tree.Kind} (hp : Parses known ts p Q) : Parses known ts (inNode kind p) Q := by
  have htree : ∀ {f : Tree.Builder → Tree.Builder} {us},
      Parses known us (Grammar.onTree f) fun _ vs => vs = us :=
    fun _ s _ hs hquiet => ⟨(), s.mapTree _, rfl, ⟨hquiet.errors, hquiet.going, hquiet.concurrent⟩, hs⟩
  refine htree.bind fun _ _ h => h ▸ hp.bind fun a us hQ => htree.bind fun _ _ h => ?_
  exact h ▸ .pure hQ

end Parses

/-! ## From a text of its own to another text -/

/-- If the right parse ends as well, then as many tokens are ahead of it. -/
theorem Pair.Ahead.length_eq {g : Pair} {ts ts' : List Token} (h : g.Ahead ts ts')
    (hmore : g.more.length = 1) : ts.length = ts'.length := by
  induction h with
  | ends e => exact hmore.symm
  | token _ _ _ _ _ ih => rw [List.length_cons, List.length_cons, ih]

/-- A parse that starts is abreast of one that has the same tokens ahead. -/
theorem Pair.Abreast.before {g : Pair} {s : State} (hahead : g.Ahead ts s.rest)
    (hquiet : s.Quiet known) (htotal : ts.length = g.total) (hlead : s.position = g.lead) :
    g.Abreast (.before known ts) s where
  ahead := hahead
  clean := rfl
  clean' := hquiet.errors
  going := rfl
  going' := hquiet.going
  closed := rfl
  concurrent := hquiet.concurrent.symm
  back _ ht := by simp [State.before] at ht
  count := by simpa [State.before, State.position] using htotal
  lead := by simpa [State.before, State.position] using hlead
  tree b hb := nomatch hb

namespace Completes

/-- Only the last token of a text is its end. -/
theorem kind_ne_eof (h : Completes known p ts next a) (hp : Stepwise p) :
    ∀ t ∈ ts, t.kind ≠ .eof := by
  obtain ⟨i, t, heof, hexec, hrest, -⟩ := h.run
  have hsteps := hp.run heof hexec
  have hread : t.read.toList = ts := by
    have htokens := hsteps.tokens_eq
    rw [hrest] at htokens
    exact List.append_cancel_right htokens
  have hkinds := hsteps.read_ne_eof fun u hu => nomatch hu
  rwa [hread] at hkinds

/-- What is read on its own in front of some tokens and the end is read elsewhere, too. -/
theorem reads {q : Parse α} [Comparable α] {ts' bs bs' : List Token} {e e' : Token}
    (h : Completes known p ts (bs ++ [e]) a)
    (hpq : ∀ g : Pair, Tandem True g .within (ts.length + bs.length + 1) p q (fun _ => .inner)
      (fun _ => ts.length + bs.length))
    (hq : Framed q) (hsteps : Stepwise q) (hsame : List.Forall₂ Token.Same ts ts')
    (hsame' : List.Forall₂ Token.Same bs bs')
    (hsound : ∀ b ∈ bs, b.kind ≠ .eof ∧ b.kind ≠ .error) (hend : e'.kind = .eof)
    (hends : e.Same e') :
    Parses known (ts' ++ (bs' ++ [e'])) q fun a' us => Agree a a' ∧ us = bs' ++ [e'] := by
  intro i' s' heof' hs' hquiet
  obtain ⟨i, t, heof, hexec, hrest, hclean⟩ := h.run
  have hp := (hpq (.closed i i e 0 0 heof heof (hends.kind.trans hend))).stepwise
  let g := Pair.closed i i' e' (ts.length + bs.length + 1) s'.position heof heof' hend
  have hkinds : ∀ u ∈ ts ++ bs, u.kind ≠ .eof ∧ u.kind ≠ .error := by
    intro u hu
    rcases List.mem_append.1 hu with hu | hu
    · exact ⟨h.kind_ne_eof hp u hu, h.sound u hu⟩
    · exact hsound u hu
  have hseam : g.seam = .eof := hend
  have hahead : g.Ahead ((ts ++ bs) ++ [e]) ((ts' ++ bs') ++ g.more) :=
    Pair.ahead_of_same (List.rel_append hsame hsame') hkinds (fun hne => absurd hseam hne)
      (hends.kind.trans hend) fun _ => hends
  rw [List.append_assoc, List.append_assoc] at hahead
  have habreast : g.Abreast (.before known (ts ++ (bs ++ [e]))) s' := by
    refine .before (hs' ▸ hahead) hquiet ?_ rfl
    simp [g, Pair.closed, Nat.add_assoc]
  have hleft : g.left = i := rfl
  have hfine : g.Fine (exec p g.left (.before known (ts ++ (bs ++ [e])))).2 := by
    rw [hleft, hexec]
    exact ⟨hclean, fun hjoins => by rw [hseam] at hjoins; cases hjoins⟩
  obtain ⟨_, a', _, t', hrun, hright, ht, -, -, hagree⟩ := (hpq g).meets trivial _ s' habreast
    (fun hat => hat.1 hseam) (by simp [State.before, Nat.add_assoc]) hfine
  rw [hleft, hexec] at hrun
  cases hrun
  refine ⟨a', t', hright, ⟨ht.clean', ht.going', (hq.ok hright).concurrent.trans hquiet.concurrent⟩,
    hagree, ?_⟩
  -- as many tokens are left as in the text of its own, and they are the last ones
  have hlength : t'.rest.length = (bs' ++ [e']).length := by
    rw [← ht.ahead.length_eq rfl, hrest, List.length_append, List.length_append,
      List.Forall₂.length_eq hsame']
    rfl
  have hsuffix : t'.rest <:+ ts' ++ (bs' ++ [e']) := hs' ▸ (hsteps.run heof' hright).rest_suffix
  exact (List.suffix_of_suffix_length_le hsuffix (List.suffix_append ..) hlength.le).eq_of_length
    hlength

end Completes

end

end LimitSyntax.Grammar
