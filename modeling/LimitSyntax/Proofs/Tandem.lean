import LimitSyntax.Proofs.Abreast
import Mathlib.Order.Nat

/-!
# Parsers in tandem

`Tandem H g σ n p q τ m` compares a parser `p` of the left parse with a parser `q` of the right one.
If the parses are abreast at the spot `σ`, with at most `n` tokens ahead, and the run of `p` reports
nothing, then both parsers yield values that agree. The parses are abreast again after them, at the
spot `τ` and with at most `m` tokens ahead. The rules of the grammar are compared piece by piece,
one lemma for each operation.

Side conditions are left to the tactics of binders in the library: to `rfl` as in `Std.Slice.Self.eq`,
to `omega` as in `Nat.dfold`, to `decide` as in `Rat.reduced`, and below a `∀` to `rfl` as in
`LinearOrder.min_def`.
-/

namespace LimitSyntax.Grammar

/-! ## The judgement -/

theorem Spot.le_refl (σ : Spot) : σ.le σ = true := by
  cases σ <;> simp [Spot.le]

section
variable {α β : Type} [Comparable α] [Comparable β]

theorem Spot.le_any (σ : Spot) : σ.le .any = true := by
  cases σ <;> rfl

/-- Two parsers run alike from parses that are abreast. -/
structure Tandem (H : Prop) (g : Pair) (σ : Spot) (n : Nat) (p q : Parse α) (τ : α → Spot)
    (m : α → Nat) : Prop where
  stepwise : Stepwise p
  meets : H → ∀ s s', g.Abreast s s' → σ.Holds g s → s.rest.length ≤ n →
    g.Fine (exec p g.left s).2 →
    ∃ a a' t t', exec p g.left s = (.ok a, t) ∧ exec q g.right s' = (.ok a', t') ∧
      g.Abreast t t' ∧ (τ a).Holds g t ∧ t.rest.length ≤ m a ∧ Agree a a'

namespace Tandem

variable {H : Prop} {g : Pair} {σ : Spot} {n : Nat} {p q : Parse α} {τ : α → Spot} {m : α → Nat}

theorem pure {a a' : α} (h : H → Agree a a')
    (hle : autoParam (σ.le (τ a) = true) Std.Slice.Self.eq._autoParam)
    (hn : autoParam (n ≤ m a) Nat.dfold._auto_1) :
    Tandem H g σ n (Pure.pure a) (Pure.pure a') τ m where
  stepwise := .pure a
  meets hH s s' hs hσ hlen _ :=
    ⟨a, a', s, s', rfl, rfl, hs, hσ.le hle, Nat.le_trans hlen hn, h hH⟩

/-- More is known about the values that occur. -/
theorem under {G : Prop} (hG : G → H) (h : Tandem H g σ n p q τ m) : Tandem G g σ n p q τ m :=
  ⟨h.stepwise, fun hH => h.meets (hG hH)⟩

/-- Anything that is needed may be assumed of the values, except for what the left parser does. -/
theorem assume (hp : Stepwise p) (h : H → Tandem H g σ n p q τ m) : Tandem H g σ n p q τ m :=
  ⟨hp, fun hH => (h hH).meets hH⟩

section
variable {f f' : α → Parse β} {τ' : β → Spot} {m' : β → Nat}

/-- One parser after another. Of the values of the first a relation is known in any case. That they
agree is added to what is known about the values. -/
theorem bindBy (R : α → α → Prop) (hrefl : ∀ a, R a a) (hR : ∀ {a a'}, Agree a a' → R a a')
    (hp : Tandem H g σ n p q τ m)
    (hf : ∀ {a a'}, R a a' → Tandem (H ∧ Agree a a') g (τ a) (m a) (f a) (f' a') τ' m') :
    Tandem H g σ n (p >>= f) (q >>= f') τ' m' where
  stepwise := .bind hp.stepwise fun a => (hf (hrefl a)).stepwise
  meets hH s s' hs hσ hlen hfine := by
    have hrest : Steps g.left (exec p g.left s).2 (exec (p >>= f) g.left s).2 :=
      Stepwise.behind (fun a => (hf (hrefl a)).stepwise) s g.eof_left
    obtain ⟨a, a', t, t', hexec, hexec', ht, hτ, hm, hagree⟩ :=
      hp.meets hH s s' hs hσ hlen (hfine.first hrest)
    rw [exec_bind_ok _ hexec] at hfine ⊢
    rw [exec_bind_ok _ hexec']
    exact (hf (hR hagree)).meets ⟨hH, hagree⟩ t t' ht hτ hm hfine

theorem bind (hp : Tandem H g σ n p q τ m)
    (hf : ∀ {a a'}, Tandem (H ∧ Agree a a') g (τ a) (m a) (f a) (f' a') τ' m') :
    Tandem H g σ n (p >>= f) (q >>= f') τ' m' :=
  .bindBy (fun _ _ => True) (fun _ => trivial) (fun _ => trivial) hp fun _ => hf

/-- One parser after another, by way of a spot. -/
theorem bindVia (ρ : Spot) (k : Nat) (hp : Tandem H g σ n p q (fun _ => ρ) (fun _ => k))
    (hf : ∀ {a a'}, Tandem (H ∧ Agree a a') g ρ k (f a) (f' a') τ' m') :
    Tandem H g σ n (p >>= f) (q >>= f') τ' m' :=
  hp.bind hf

/-- One parser after another, where values that agree are equal. -/
theorem bindEq [Strict α] (hp : Tandem H g σ n p q τ m)
    (hf : ∀ a, Tandem H g (τ a) (m a) (f a) (f' a) τ' m') :
    Tandem H g σ n (p >>= f) (q >>= f') τ' m' :=
  .bindBy Eq (fun _ => rfl) Strict.eq hp fun {a _} h => h ▸ (hf a).under And.left

/-- One parser after another, where the second does not depend on the first. -/
theorem andThen {r r' : Parse β} {ρ : Spot} {k : Nat}
    (hp : Tandem H g σ n p q (fun _ => ρ) (fun _ => k)) (hr : Tandem H g ρ k r r' τ' m') :
    Tandem H g σ n (p >>= fun _ => r) (q >>= fun _ => r') τ' m' :=
  hp.bind (hr.under And.left)

/-- One parser after another, where the first yields a token. -/
theorem bindToken {p q : Parse Token} {f f' : Token → Parse β} {τ : Token → Spot}
    {m : Token → Nat} (hp : Tandem H g σ n p q τ m)
    (hf : ∀ {t t'}, t.Same t' → Tandem H g (τ t) (m t) (f t) (f' t') τ' m') :
    Tandem H g σ n (p >>= f) (q >>= f') τ' m' :=
  .bindBy Token.Same (fun _ => .rfl) And.left hp fun h => (hf h).under And.left

end

/-- Less is known before, or more than needed after. -/
theorem weaken {ρ : Spot} {k : Nat} {τ' : α → Spot} {m' : α → Nat} (h : Tandem H g σ n p q τ m)
    (hσ : autoParam (ρ.le σ = true) Std.Slice.Self.eq._autoParam)
    (hn : autoParam (k ≤ n) Nat.dfold._auto_1)
    (hτ : autoParam (∀ a, (τ a).le (τ' a) = true) LinearOrder.min_def._autoParam)
    (hm : autoParam (∀ a, m a ≤ m' a) LinearOrder.min_def._autoParam) :
    Tandem H g ρ k p q τ' m' where
  stepwise := h.stepwise
  meets hH s s' hs hρ hlen hfine := by
    obtain ⟨a, a', t, t', hexec, hexec', ht, hspot, hcount, hagree⟩ :=
      h.meets hH s s' hs (hρ.le hσ) (Nat.le_trans hlen hn) hfine
    exact ⟨a, a', t, t', hexec, hexec', ht, hspot.le (hτ a), Nat.le_trans hcount (hm a), hagree⟩

/-- More is known about the spot before. -/
theorem fromSpot {ρ : Spot} (h : Tandem H g σ n p q τ m)
    (hσ : autoParam (ρ.le σ = true) Std.Slice.Self.eq._autoParam) :
    Tandem H g ρ n p q τ m :=
  h.weaken hσ le_rfl (fun _ => Spot.le_refl _) fun _ => le_rfl

/-- The spot before, as it is needed. -/
theorem enter {ρ : Spot} (σ : Spot) (h : Tandem H g σ n p q τ m)
    (hσ : autoParam (ρ.le σ = true) Std.Slice.Self.eq._autoParam) :
    Tandem H g ρ n p q τ m :=
  h.fromSpot hσ

/-- Less is said about the spot after. -/
theorem loosen {τ' : α → Spot} {m' : α → Nat} (h : Tandem H g σ n p q τ m)
    (hτ : autoParam (∀ a, (τ a).le (τ' a) = true) LinearOrder.min_def._autoParam)
    (hm : autoParam (∀ a, m a ≤ m' a) LinearOrder.min_def._autoParam) : Tandem H g σ n p q τ' m' :=
  h.weaken (Spot.le_refl σ) le_rfl hτ hm

theorem map {f : α → β} {ρ : Spot} {k : Nat}
    (hp : Tandem H g σ n p q (fun _ => ρ) (fun _ => k))
    (hf : ∀ {a a' : α}, Agree a a' → Agree (f a) (f a')) :
    Tandem H g σ n (f <$> p) (f <$> q) (fun _ => ρ) (fun _ => k) := by
  rw [map_eq_pure_bind, map_eq_pure_bind]
  exact hp.bind (.pure (fun h => hf h.2) (Spot.le_refl ρ) le_rfl)

/-- A value without any reading. -/
theorem value {a a' : α} (h : H → Agree a a') :
    Tandem H g σ n (Pure.pure a) (Pure.pure a') (fun _ => σ) (fun _ => n) :=
  .pure h (Spot.le_refl σ) le_rfl

theorem ite {c : Prop} [Decidable c] {p' q' : Parse α} (h : Tandem H g σ n p q τ m)
    (h' : Tandem H g σ n p' q' τ m) :
    Tandem H g σ n (if c then p else p') (if c then q else q') τ m := by
  split
  · exact h
  · exact h'

/-- A run of the left parse that reports something. -/
theorem doomed (hp : Stepwise p)
    (h : H → ∀ s s', g.Abreast s s' → σ.Holds g s → (exec p g.left s).2.errors.messages ≠ #[]) :
    Tandem H g σ n p q τ m :=
  ⟨hp, fun hH s s' hs hσ _ hfine => absurd hfine.1 (h hH s s' hs hσ)⟩

/-- At the seam the left parse is at its end, which is reported there. -/
theorem unlessEnded (h : Tandem H g .within n p q τ m) (hend : Rejects p .eof) :
    Tandem H g σ n p q τ m where
  stepwise := h.stepwise
  meets hH s s' hs _ hlen hfine := by
    rcases hs.peek with ⟨_, hseam, _⟩ | ⟨_, heof, _⟩
    · exact h.meets hH s s' hs hseam hlen hfine
    · exact absurd hfine.1 (hend g.left s g.eof_left hs.left_clean heof)

/-- A token that must be next, or else something is reported. -/
theorem expecting {kind : Token.Kind} (h : Tandem H g (.before kind) n p q τ m)
    (hreject : ∀ k, k ≠ kind → k ≠ .error → Rejects p k)
    (hkind : autoParam (kind ≠ .eof) Rat.reduced._autoParam) :
    Tandem H g σ n p q τ m where
  stepwise := h.stepwise
  meets hH s s' hs _ hlen hfine := by
    by_cases hnext : (s.rest[0]?.getD g.left.eof).kind = kind
    · refine h.meets hH s s' hs ⟨fun hseam => ?_, hnext⟩ hlen hfine
      rcases hs.peek with ⟨_, hnot, _⟩ | ⟨_, heof, _⟩
      · exact hnot hseam
      · exact hkind (hnext.symm.trans heof)
    · exact absurd hfine.1
        (hreject _ hnext hs.kind_ne_error g.left s g.eof_left hs.left_clean rfl)

/-- The number of tokens ahead, as it is. -/
theorem exactly (hp : Stepwise p) (h : ∀ k, 0 < k → k ≤ n → k ≤ g.total →
    Tandem H g σ k p q τ m) : Tandem H g σ n p q τ m where
  stepwise := hp
  meets hH s s' hs hσ hlen hfine := by
    have hcount := hs.count
    exact (h s.rest.length hs.ahead.length_pos hlen (by omega)).meets hH s s' hs hσ le_rfl hfine

/-! ## Looking -/

/-- To look at the state leaves the parses where they are. -/
theorem look {γ : Type} {look : Parse γ} {f f' : γ → Parse α} (R : γ → γ → Prop) (ρ : γ → Spot)
    (hlook : Stepwise look) (hrefl : ∀ x, R x x)
    (h : H → ∀ s s', g.Abreast s s' → σ.Holds g s → ∃ x x', exec look g.left s = (.ok x, s) ∧
      exec look g.right s' = (.ok x', s') ∧ R x x' ∧ (ρ x).Holds g s)
    (hf : ∀ x x', R x x' → Tandem H g (ρ x) n (f x) (f' x') τ m) :
    Tandem H g σ n (look >>= f) (look >>= f') τ m where
  stepwise := .bind hlook fun x => (hf x x (hrefl x)).stepwise
  meets hH s s' hs hσ hlen hfine := by
    obtain ⟨x, x', hexec, hexec', hR, hρ⟩ := h hH s s' hs hσ
    rw [exec_bind_ok _ hexec] at hfine ⊢
    rw [exec_bind_ok _ hexec']
    exact (hf x x' hR).meets hH s s' hs hρ hlen hfine

/-- What two parses need not have in common. -/
theorem glance {γ : Type} {look : Parse γ} {f f' : γ → Parse α} (hlook : Stepwise look)
    (h : ∀ i s, ∃ x, exec look i s = (.ok x, s))
    (hf : ∀ x x', Tandem H g σ n (f x) (f' x') τ m) :
    Tandem H g σ n (look >>= f) (look >>= f') τ m := by
  refine .look (fun _ _ => True) (fun _ => σ) hlook (fun _ => trivial) (fun _ s s' _ hσ => ?_)
    fun x x' _ => hf x x'
  obtain ⟨x, hx⟩ := h g.left s
  obtain ⟨x', hx'⟩ := h g.right s'
  exact ⟨x, x', hx, hx', trivial, hσ⟩

theorem checkpoint {f f' : Option Tree.Checkpoint → Parse α}
    (hf : ∀ c c', Tandem H g σ n (f c) (f' c') τ m) :
    Tandem H g σ n (Grammar.checkpoint >>= f) (Grammar.checkpoint >>= f') τ m :=
  .glance Alike.checkpoint.stepwise (fun _ _ => ⟨_, rfl⟩) hf

theorem startPos {f f' : Nat × Nat → Parse α}
    (hf : ∀ start line start' line', Tandem H g σ n (f (start, line)) (f' (start', line')) τ m) :
    Tandem H g σ n (Grammar.startPos >>= f) (Grammar.startPos >>= f') τ m :=
  .glance Alike.startPos.stepwise (fun _ _ => ⟨_, rfl⟩) fun x x' => hf x.1 x.2 x'.1 x'.2

theorem previous {f f' : Token → Parse α} (hf : ∀ t t', Tandem H g σ n (f t) (f' t') τ m) :
    Tandem H g σ n (Grammar.previous >>= f) (Grammar.previous >>= f') τ m :=
  .glance Alike.previous.stepwise (fun i s => ⟨_, exec_previous i s⟩) hf

/-- The last token read, if there is one. -/
theorem lastRead {f f' : Token → Parse α} (hn : n < g.total)
    (hf : ∀ t t', t.Same t' → Tandem H g σ n (f t) (f' t') τ m) :
    Tandem H g σ n (Grammar.previous >>= f) (Grammar.previous >>= f') τ m where
  stepwise := .bind Alike.previous.stepwise fun t => (hf t t .rfl).stepwise
  meets hH s s' hs hσ hlen hfine := by
    have hread : 0 < s.read.size := by
      have hcount := hs.count
      rw [State.position] at hcount
      omega
    obtain ⟨t, hback⟩ : ∃ t, s.read.back? = some t := by
      rw [Array.back?_eq_getElem?, Array.getElem?_eq_getElem (Nat.sub_lt hread Nat.one_pos)]
      exact ⟨_, rfl⟩
    obtain ⟨t', hback', hsame⟩ := hs.back t hback
    rw [exec_bind_ok _ (exec_previous _ _), hback] at hfine ⊢
    rw [exec_bind_ok _ (exec_previous _ _), hback']
    exact (hf _ _ hsame).meets hH s s' hs hσ hlen hfine

theorem spanFrom {f f' : Span → Parse α} {start start' : Nat}
    (hf : ∀ span span', Tandem H g σ n (f span) (f' span') τ m) :
    Tandem H g σ n (Grammar.spanFrom start >>= f) (Grammar.spanFrom start' >>= f') τ m := by
  have hspan : ∀ start i s, ∃ x, exec (Grammar.spanFrom start) i s = (.ok x, s) := by
    intro start i s
    rw [Grammar.spanFrom, exec_bind_ok i (exec_get i s)]
    split
    · exact ⟨_, rfl⟩
    · rw [exec_bind_ok i (exec_previous i s)]
      exact ⟨_, rfl⟩
  refine ⟨.bind (Alike.spanFrom start).stepwise fun x => (hf x x).stepwise,
    fun hH s s' hs hσ hlen hfine => ?_⟩
  obtain ⟨x, hx⟩ := hspan start g.left s
  obtain ⟨x', hx'⟩ := hspan start' g.right s'
  rw [exec_bind_ok _ hx] at hfine ⊢
  rw [exec_bind_ok _ hx']
  exact (hf x x').meets hH s s' hs hσ hlen hfine

/-- Both parses know alike whether tasks and workers are known. -/
theorem get {f f' : State → Parse α}
    (hf : ∀ s s', s.concurrent = s'.concurrent → Tandem H g σ n (f s) (f' s') τ m) :
    Tandem H g σ n (MonadState.get >>= f) (MonadState.get >>= f') τ m :=
  .look (fun s s' => s.concurrent = s'.concurrent) (fun _ => σ) .get (fun _ => rfl)
    (fun _ s s' hs hσ => ⟨s, s', rfl, rfl, hs.concurrent, hσ⟩) hf

/-- The next token. -/
theorem peek {f f' : Token → Parse α}
    (hf : ∀ kind t t', t.kind = kind → t.Same t' → Tandem H g (.before kind) n (f t) (f' t') τ m)
    (hσ : autoParam (σ.le .within = true) Std.Slice.Self.eq._autoParam) :
    Tandem H g σ n (Grammar.peek >>= f) (Grammar.peek >>= f') τ m :=
  .look Token.Same (fun t => .before t.kind) Alike.peek.stepwise (fun _ => .rfl)
    (fun _ _ _ hs h => ⟨_, _, rfl, rfl, hs.peek_of_not_atSeam (h.not_atSeam hσ),
      h.not_atSeam hσ, rfl⟩) fun t t' => hf t.kind t t' rfl

/-- The next token, of which no more is known than before. -/
theorem peekAgain {f f' : Token → Parse α}
    (hf : ∀ t t', t.Same t' → Tandem H g σ n (f t) (f' t') τ m)
    (hσ : autoParam (σ.le .within = true) Std.Slice.Self.eq._autoParam) :
    Tandem H g σ n (Grammar.peek >>= f) (Grammar.peek >>= f') τ m :=
  .look Token.Same (fun _ => σ) Alike.peek.stepwise (fun _ => .rfl)
    (fun _ _ _ hs h => ⟨_, _, rfl, rfl, hs.peek_of_not_atSeam (h.not_atSeam hσ), h⟩) hf

/-- The kind of the next token. At the seam the left parse sees the end. -/
theorem peekKind {f f' : Token → Parse α}
    (hf : ∀ t t' kind, t.kind = kind → t'.kind = kind →
      Tandem H g (.before kind) n (f t) (f' t') τ m)
    (hend : ∀ t t', t.kind = .eof → σ.meets t'.kind = true → Tandem H g σ n (f t) (f' t') τ m) :
    Tandem H g σ n (Grammar.peek >>= f) (Grammar.peek >>= f') τ m where
  stepwise := .bind Alike.peek.stepwise fun t => (hf t t t.kind rfl rfl).stepwise
  meets hH s s' hs hσ hlen hfine := by
    have hpeek : ∀ i s, exec Grammar.peek i s = (.ok (s.rest[0]?.getD i.eof), s) := fun _ _ => rfl
    rw [exec_bind_ok _ (hpeek _ _)] at hfine ⊢
    rw [exec_bind_ok _ (hpeek _ _)]
    rcases hs.peek with ⟨hsame, hseam, _⟩ | ⟨hseam, heof, hnext⟩
    · exact (hf _ _ _ rfl hsame.kind.symm).meets hH s s' hs ⟨hseam, rfl⟩ hlen hfine
    · exact (hend _ _ heof (hnext ▸ hσ.meets hseam)).meets hH s s' hs hσ hlen hfine

/-- The next two tokens. The second one is the same if the seam does not come before it. -/
theorem peekTwo {f f' : Token → Token → Parse α}
    (hf : ∀ kind t t' u u', t.kind = kind → t.Same t' → (isSolid t.kind = true → u.Same u') →
      Tandem H g (.beforeTwo kind u.kind) n (f t u) (f' t' u') τ m)
    (hσ : autoParam (σ.le .within = true) Std.Slice.Self.eq._autoParam) :
    Tandem H g σ n (Grammar.peek >>= fun t => peekAt 1 >>= fun u => f t u)
      (Grammar.peek >>= fun t => peekAt 1 >>= fun u => f' t u) τ m where
  stepwise := .bind Alike.peek.stepwise fun t => .bind (Alike.peekAt 1).stepwise fun u =>
    (hf _ t t u u rfl .rfl fun _ => .rfl).stepwise
  meets hH s s' hs h hlen hfine := by
    have hpeek : ∀ i s, exec Grammar.peek i s = (.ok (s.rest[0]?.getD i.eof), s) := fun _ _ => rfl
    rw [exec_bind_ok _ (hpeek _ _), exec_bind_ok _ (exec_peekAt _ _ _)] at hfine ⊢
    rw [exec_bind_ok _ (hpeek _ _), exec_bind_ok _ (exec_peekAt _ _ _)]
    have hseam := h.not_atSeam hσ
    exact (hf _ _ _ _ _ rfl (hs.peek_of_not_atSeam hseam) hs.ahead.peek_one).meets hH s s' hs
      ⟨hseam, rfl, rfl⟩ hlen hfine

/-- The token behind the next one. -/
theorem peekNext {kind : Token.Kind} {f f' : Token → Parse α}
    (hf : ∀ u u', u.Same u' → Tandem H g (.beforeTwo kind u.kind) n (f u) (f' u') τ m)
    (hkind : autoParam (isSolid kind = true) Std.Slice.Self.eq._autoParam) :
    Tandem H g (.before kind) n (peekAt 1 >>= f) (peekAt 1 >>= f') τ m :=
  .look Token.Same (fun u => .beforeTwo kind u.kind) (Alike.peekAt 1).stepwise (fun _ => .rfl)
    (fun _ _ _ hs h => ⟨_, _, rfl, rfl, hs.ahead.peek_one (h.2 ▸ hkind), h.1, h.2, rfl⟩) hf

/-- No token ahead is an error. -/
theorem noError (hp : Stepwise p) : Tandem H g (.before .error) n p q τ m :=
  ⟨hp, fun _ _ _ hs hσ _ _ => absurd hσ.2 hs.kind_ne_error⟩

/-- A token that the left parser rejects. -/
theorem rejected {kind : Token.Kind} (hp : Stepwise p) (h : Rejects p kind) :
    Tandem H g (.before kind) n p q τ m :=
  .doomed hp fun _ s _ hs hσ => h g.left s g.eof_left hs.left_clean hσ.2

/-- Something both parses tell alike about the tokens ahead. -/
theorem test {look : Parse Bool} {f f' : Bool → Parse α} (ρ : Bool → Spot)
    (hlook : Stepwise look)
    (h : H → ∀ s s', g.Abreast s s' → σ.Holds g s → ∃ b, exec look g.left s = (.ok b, s) ∧
      exec look g.right s' = (.ok b, s') ∧ (ρ b).Holds g s)
    (hf : ∀ b, Tandem H g (ρ b) n (f b) (f' b) τ m) :
    Tandem H g σ n (look >>= f) (look >>= f') τ m := by
  refine .look Eq ρ hlook (fun _ => rfl) (fun hH s s' hs hσ => ?_) fun b _ hb => hb ▸ hf b
  obtain ⟨b, hb, hb', hρ⟩ := h hH s s' hs hσ
  exact ⟨b, b, hb, hb', rfl, hρ⟩

theorem check {kind : Token.Kind} {f f' : Bool → Parse α}
    (htrue : Tandem H g (.before kind) n (f true) (f' true) τ m)
    (hfalse : Tandem H g σ n (f false) (f' false) τ m)
    (hmeets : autoParam (σ.meets kind = false) Std.Slice.Self.eq._autoParam)
    (hkind : autoParam (kind ≠ .eof) Rat.reduced._autoParam) :
    Tandem H g σ n (Grammar.check kind >>= f) (Grammar.check kind >>= f') τ m := by
  refine .test (fun b => if b then .before kind else σ) (Alike.check kind).stepwise
    (fun _ s s' hs hσ => ?_) (Bool.rec hfalse htrue)
  refine ⟨_, rfl, congrArg (fun b => (Except.ok b, s')) (hs.check hσ hkind hmeets).symm, ?_⟩
  split
  next hb =>
    have hnext : (s.rest[0]?.getD g.left.eof).kind = kind := eq_of_beq hb
    refine ⟨fun hseam => ?_, hnext⟩
    rcases hs.peek with ⟨_, hnot, _⟩ | ⟨_, heof, _⟩
    · exact hnot hseam
    · exact hkind (hnext.symm.trans heof)
  next => exact hσ

/-- A token that is known to be next. -/
theorem checkSure {kind : Token.Kind} {f f' : Bool → Parse α}
    (htrue : Tandem H g (.before kind) n (f true) (f' true) τ m) (hstep : Stepwise (f false)) :
    Tandem H g (.before kind) n (Grammar.check kind >>= f) (Grammar.check kind >>= f') τ m where
  stepwise := .bind (Alike.check kind).stepwise (Bool.rec hstep htrue.stepwise)
  meets hH s s' hs hσ hlen hfine := by
    have hsame := (hs.peek_of_not_atSeam hσ.1).kind
    rw [exec_bind_ok _ (exec_check _ _ _), hσ.2, beq_self_eq_true] at hfine ⊢
    rw [exec_bind_ok _ (exec_check _ _ _), ← hsame, hσ.2, beq_self_eq_true]
    exact htrue.meets hH s s' hs hσ hlen hfine

/-- Whether the token behind the next one is of a kind. -/
theorem checkNext {first second : Token.Kind} {f f' : Bool → Parse α}
    (htrue : Tandem H g (.beforeTwo first second) n (f true) (f' true) τ m)
    (hfalse : Tandem H g (.before first) n (f false) (f' false) τ m)
    (hsolid : autoParam (isSolid first = true) Std.Slice.Self.eq._autoParam) :
    Tandem H g (.before first) n (checkAt 1 second >>= f) (checkAt 1 second >>= f') τ m := by
  refine .test (fun b => if b then .beforeTwo first second else .before first)
    (Alike.checkAt 1 second).stepwise (fun _ s s' hs hσ => ?_) (Bool.rec hfalse htrue)
  refine ⟨(s.rest[1]?.getD g.left.eof).kind == second, rfl, ?_, ?_⟩
  · rw [(hs.ahead.peek_one (hσ.2 ▸ hsolid)).kind]
    rfl
  · split
    next hb => exact ⟨hσ.1, hσ.2, eq_of_beq hb⟩
    next => exact hσ

/-- Whether the next two tokens are of some kinds. -/
theorem checkTwo {first second : Token.Kind} {p' q' : Parse α}
    (htrue : Tandem H g (.beforeTwo first second) n p q τ m) (hfalse : Tandem H g σ n p' q' τ m)
    (hsolid : autoParam (isSolid first = true) Std.Slice.Self.eq._autoParam)
    (hσ : autoParam (σ.le .within = true) Std.Slice.Self.eq._autoParam) :
    Tandem H g σ n
      (Grammar.check first >>= fun a => checkAt 1 second >>= fun b =>
        if (a && b) = true then p else p')
      (Grammar.check first >>= fun a => checkAt 1 second >>= fun b =>
        if (a && b) = true then q else q') τ m := by
  have hlook : ∀ p p' : Parse α, (Grammar.check first >>= fun a => checkAt 1 second >>= fun b =>
      if (a && b) = true then p else p') =
      (do return (← Grammar.check first) && (← checkAt 1 second)) >>= fun c =>
        if c = true then p else p' := by
    intro p p'
    simp only [bind_assoc, pure_bind]
  rw [hlook, hlook]
  refine .test (fun c => if c then .beforeTwo first second else σ) ?_ (fun _ s s' hs h => ?_)
    (Bool.rec hfalse htrue)
  · exact .bind (Alike.check _).stepwise fun _ => .bind (Alike.checkAt _ _).stepwise fun _ => .pure _
  have hseam := h.not_atSeam hσ
  refine ⟨(s.rest[0]?.getD g.left.eof).kind == first && (s.rest[1]?.getD g.left.eof).kind == second,
    rfl, ?_, ?_⟩
  · refine congrArg (fun b => (Except.ok b, s')) ?_
    rw [← (hs.peek_of_not_atSeam hseam).kind]
    by_cases hfirst : (s.rest[0]?.getD g.left.eof).kind = first
    · rw [(hs.ahead.peek_one (hfirst ▸ hsolid)).kind]
    · rw [beq_false_of_ne hfirst, Bool.false_and, Bool.false_and]
  · split
    next hboth =>
      obtain ⟨hfirst, hsecond⟩ := Bool.and_eq_true_iff.1 hboth
      exact ⟨hseam, eq_of_beq hfirst, eq_of_beq hsecond⟩
    next => exact h

section
variable {γ : Type} [Comparable γ] {p₁ q₁ p₂ q₂ : Parse γ} {f f' : γ → Parse α} {ρ₁ ρ₂ : Spot}
  {k₁ k₂ : Nat} {kind : Token.Kind}

/-- Two ways to a value, and what follows both. -/
theorem checkThen (ρ : Spot)
    (h₁ : Tandem H g (.before kind) n p₁ q₁ (fun _ => ρ₁) (fun _ => k₁))
    (h₂ : Tandem H g σ n p₂ q₂ (fun _ => ρ₂) (fun _ => k₂))
    (hf : ∀ {x x' : γ}, Tandem (H ∧ Agree x x') g ρ n (f x) (f' x') τ m)
    (hmeets : autoParam (σ.meets kind = false) Std.Slice.Self.eq._autoParam)
    (hkind : autoParam (kind ≠ .eof) Rat.reduced._autoParam)
    (hρ₁ : autoParam (ρ₁.le ρ = true) Std.Slice.Self.eq._autoParam)
    (hρ₂ : autoParam (ρ₂.le ρ = true) Std.Slice.Self.eq._autoParam)
    (hk₁ : autoParam (k₁ ≤ n) Nat.dfold._auto_1) (hk₂ : autoParam (k₂ ≤ n) Nat.dfold._auto_1) :
    Tandem H g σ n (Grammar.check kind >>= fun b => if b = true then p₁ >>= f else p₂ >>= f)
      (Grammar.check kind >>= fun b => if b = true then q₁ >>= f' else q₂ >>= f') τ m := by
  refine .check (h₁.bind (hf.weaken hρ₁ hk₁ ?_ ?_)) (h₂.bind (hf.weaken hρ₂ hk₂ ?_ ?_)) hmeets hkind
  all_goals first | exact fun _ => Spot.le_refl _ | exact fun _ => le_rfl

end

/-- A parser that reads something, so that no token is skipped after it. -/
theorem unlessStuck {ρ : Spot} {close : Token.Kind}
    (hp : ∀ k, k ≤ n → Tandem H g σ k p q (fun _ => ρ) (fun _ => k - 1)) :
    Tandem H g σ n (MonadState.get >>= fun s => p >>= skipUnlessMoved close s.position)
      (MonadState.get >>= fun s => q >>= skipUnlessMoved close s.position)
      (fun _ => ρ) (fun _ => n - 1) := by
  refine ⟨.bind .get fun _ => .bind (hp n le_rfl).stepwise fun a => stepwise_skipUnlessMoved _ _ a,
    fun hH s s' hs hσ hlen hfine => ?_⟩
  rw [exec_bind_ok _ (exec_get _ s)] at hfine ⊢
  rw [exec_bind_ok _ (exec_get _ s')]
  have hrest : Steps g.left (exec p g.left s).2
      (exec (p >>= skipUnlessMoved close s.position) g.left s).2 :=
    Stepwise.behind (stepwise_skipUnlessMoved close s.position) s g.eof_left
  obtain ⟨a, a', t, t', hexec, hexec', ht, hρ, hm, hagree⟩ :=
    (hp s.rest.length hlen).meets hH s s' hs hσ le_rfl (hfine.first hrest)
  have hmoved : t.position ≠ s.position := by
    have := hs.count
    have := ht.count
    have := hs.ahead.length_pos
    omega
  have hmoved' : t'.position ≠ s'.position := by
    have := hs.lead
    have := ht.lead
    omega
  rw [exec_bind_ok _ hexec, exec_bind_ok _ hexec', exec_skipUnlessMoved hmoved,
    exec_skipUnlessMoved hmoved']
  exact ⟨a, a', t, t', rfl, rfl, ht, hρ, by omega, hagree⟩

/-! ## Reading -/

/-- Both parses read a token that is not the end. -/
theorem read {s s' : State} (hs : g.Abreast s s')
    (heof : (s.rest[0]?.getD g.left.eof).kind ≠ .eof) :
    ∃ t t' us us', s.rest = t :: us ∧ exec Grammar.advance g.left s = (.ok t, s.take t us) ∧
      exec Grammar.advance g.right s' = (.ok t', s'.take t' us') ∧ t.Same t' ∧ t.kind ≠ .error ∧
      (isSolid t.kind = true → ¬ g.AtSeam (s.take t us)) ∧
      g.Abreast (s.take t us) (s'.take t' us') := by
  obtain ⟨t, t', us, us', hrest, hrest', hsame, herror, hseam, hahead⟩ := hs.ahead.uncons heof
  have hkind : t.kind ≠ .eof := by simpa [hrest] using heof
  have hkind' : t'.kind ≠ .eof := hsame.kind ▸ hkind
  refine ⟨t, t', us, us', hrest, ?_, ?_, hsame, herror, hseam, hs.take hrest hsame hahead⟩
  · rw [exec_advance, hrest]
    simp [hkind]
  · rw [exec_advance, hrest']
    simp [hkind']

/-- A token that the seam does not follow. -/
theorem advance (hσ : autoParam (σ.le .solid = true) Std.Slice.Self.eq._autoParam) :
    Tandem H g σ n Grammar.advance Grammar.advance (fun _ => .within) (fun _ => n - 1) where
  stepwise := .advance
  meets _ s s' hs h hlen _ := by
    obtain ⟨_, hsolid⟩ := h.le hσ
    obtain ⟨t, t', us, us', hrest, hexec, hexec', hsame, herror, hseam, htake⟩ :=
      read hs (isSolid_iff.1 hsolid).1
    simp only [hrest, List.getElem?_cons_zero, Option.getD_some, List.length_cons] at hsolid hlen
    exact ⟨t, t', _, _, hexec, hexec', htake, hseam hsolid, Nat.le_sub_one_of_lt hlen,
      hsame, herror⟩

/-- A token of a known kind. -/
theorem advancePast {kind : Token.Kind} (hkind : kind ≠ .eof) :
    Tandem H g (.before kind) n Grammar.advance Grammar.advance (fun _ => .past kind)
      (fun _ => n - 1) where
  stepwise := .advance
  meets _ s s' hs h hlen _ := by
    obtain ⟨_, rfl⟩ := h
    obtain ⟨t, t', us, us', hrest, hexec, hexec', hsame, herror, hseam, htake⟩ := read hs hkind
    simp only [hrest, List.getElem?_cons_zero, Option.getD_some, List.length_cons] at hkind hlen ⊢
    refine ⟨t, t', _, _, hexec, hexec', htake, ?_, Nat.le_sub_one_of_lt hlen, hsame,
      herror⟩
    unfold Spot.past
    split
    · trivial
    next hsemi => exact hseam (isSolid_iff.2 ⟨hkind, hsemi⟩)

/-- The first of two tokens of known kinds. -/
theorem advanceTo {kind next : Token.Kind}
    (hkind : autoParam (isSolid kind = true) Std.Slice.Self.eq._autoParam) :
    Tandem H g (.beforeTwo kind next) n Grammar.advance Grammar.advance (fun _ => .before next)
      (fun _ => n - 1) where
  stepwise := .advance
  meets _ s s' hs h hlen _ := by
    obtain ⟨_, rfl, rfl⟩ := h
    obtain ⟨t, t', us, us', hrest, hexec, hexec', hsame, herror, hseam, htake⟩ :=
      read hs (isSolid_iff.1 hkind).1
    simp only [hrest, List.getElem?_cons_zero, Option.getD_some, List.length_cons] at hkind hlen ⊢
    exact ⟨t, t', _, _, hexec, hexec', htake, ⟨hseam hkind, rfl⟩, Nat.le_sub_one_of_lt hlen,
      hsame, herror⟩

theorem eat {kind : Token.Kind} {f f' : Bool → Parse α}
    (htrue : Tandem H g (.past kind) (n - 1) (f true) (f' true) τ m)
    (hfalse : Tandem H g σ n (f false) (f' false) τ m)
    (hmeets : autoParam (σ.meets kind = false) Std.Slice.Self.eq._autoParam)
    (hkind : autoParam (kind ≠ .eof) Rat.reduced._autoParam) :
    Tandem H g σ n (Grammar.eat kind >>= f) (Grammar.eat kind >>= f') τ m := by
  have heat : ∀ f : Bool → Parse α, Grammar.eat kind >>= f = Grammar.check kind >>= fun b =>
      if b = true then Grammar.advance >>= fun _ => f true else f false := by
    intro f
    rw [Grammar.eat, bind_assoc]
    refine bind_congr fun b => ?_
    cases b <;> simp
  rw [heat, heat]
  exact .check ((advancePast hkind).andThen htrue) hfalse hmeets hkind

/-- A token that is read if what is behind it meets a condition, which is one about the token
behind it and, if that is no place for the seam, the next one. -/
theorem eatBefore {kind : Token.Kind} {ahead : Token → Token → Bool} {f f' : Bool → Parse α}
    (next : Token.Kind) (hahead : ∀ t t' u u', t.Same t' → (isSolid t.kind = true → u.Same u') →
      ahead t u = ahead t' u') (hnext : ∀ t u, ahead t u = true → t.kind = next)
    (htrue : Tandem H g (.before next) (n - 1) (f true) (f' true) τ m)
    (hfalse : Tandem H g σ n (f false) (f' false) τ m)
    (hmeets : autoParam (σ.meets kind = false) Std.Slice.Self.eq._autoParam)
    (hsolid : autoParam (isSolid kind = true) Std.Slice.Self.eq._autoParam) :
    Tandem H g σ n (Grammar.eatBefore kind ahead >>= f) (Grammar.eatBefore kind ahead >>= f')
      τ m where
  stepwise := .bind (.eatBefore (isSolid_iff.1 hsolid).1 ahead) (Bool.rec hfalse.stepwise htrue.stepwise)
  meets hH s s' hs hσ hlen hfine := by
    have heof := (isSolid_iff.1 hsolid).1
    by_cases hkind : (s.rest[0]?.getD g.left.eof).kind = kind
    · have hexec := exec_eatBefore g.left s heof g.eof_left ahead
      have hexec' := exec_eatBefore g.right s' heof g.eof_right ahead
      obtain ⟨t, t', us, us', hrest, hrest', hsame, _, hseam, hahead'⟩ :=
        hs.ahead.uncons (hkind ▸ heof)
      have ht : t.kind = kind := by simpa [hrest] using hkind
      have hpeek := hahead'.peek.resolve_right fun h => hseam (ht ▸ hsolid) ⟨h.1, h.2.1⟩
      have hsame' := hahead _ _ _ _ hpeek.1 hahead'.peek_one
      simp only [hrest, ht, if_true] at hexec
      simp only [hrest', ← hsame.kind, ht, if_true, ← hsame'] at hexec'
      by_cases hcond : ahead (us[0]?.getD g.left.eof) (us[1]?.getD g.left.eof) = true
      · rw [if_pos hcond] at hexec hexec'
        rw [exec_bind_ok _ hexec] at hfine ⊢
        rw [exec_bind_ok _ hexec']
        exact htrue.meets hH _ _ (hs.take hrest hsame hahead')
          ⟨hseam (ht ▸ hsolid), hnext _ _ hcond⟩
          (by rw [hrest] at hlen; exact Nat.le_sub_one_of_lt hlen) hfine
      · rw [if_neg hcond] at hexec hexec'
        rw [exec_bind_ok _ hexec] at hfine ⊢
        rw [exec_bind_ok _ hexec']
        have hback : (s.take t us).back.rest = s.rest := by rw [State.back_take, hrest]
        have hagain : g.Abreast (s.take t us).back (s'.take t' us').back := by
          rw [State.back_take, State.back_take]
          refine hs.congr rfl hrest.symm rfl rfl rfl rfl hrest'.symm rfl rfl hs.concurrent ?_
          intro b hb
          obtain ⟨b', hb', rfl⟩ := Option.map_eq_some_iff.1 hb
          exact hs.tree b' hb'
        exact hfalse.meets hH _ _ hagain (hσ.congr hback) (by rwa [hback]) hfine
    · have hpass : ∀ i s, i.eof.kind = .eof → (s.rest[0]?.getD i.eof).kind ≠ kind →
          exec (Grammar.eatBefore kind ahead) i s = (.ok false, s) := by
        intro i s heof' hne
        rw [exec_eatBefore i s heof heof']
        cases hrest : s.rest with
        | nil => rfl
        | cons t us =>
          rw [hrest] at hne
          exact if_neg hne
      have hkind' : (s'.rest[0]?.getD g.right.eof).kind ≠ kind := by
        have hcheck := hs.check hσ heof hmeets
        rw [beq_false_of_ne hkind] at hcheck
        exact ne_of_beq_false hcheck.symm
      rw [exec_bind_ok _ (hpass _ _ g.eof_left hkind)] at hfine ⊢
      rw [exec_bind_ok _ (hpass _ _ g.eof_right hkind')]
      exact hfalse.meets hH s s' hs hσ hlen hfine

/-- Two ways to a value, and what follows both. -/
theorem eatThen {γ : Type} [Comparable γ] {p₁ q₁ p₂ q₂ : Parse γ} {f f' : γ → Parse α}
    {ρ₁ ρ₂ : Spot} {k₁ k₂ : Nat} {kind : Token.Kind} (ρ : Spot)
    (h₁ : Tandem H g (.past kind) (n - 1) p₁ q₁ (fun _ => ρ₁) (fun _ => k₁))
    (h₂ : Tandem H g σ n p₂ q₂ (fun _ => ρ₂) (fun _ => k₂))
    (hf : ∀ {x x' : γ}, Tandem (H ∧ Agree x x') g ρ n (f x) (f' x') τ m)
    (hmeets : autoParam (σ.meets kind = false) Std.Slice.Self.eq._autoParam)
    (hkind : autoParam (kind ≠ .eof) Rat.reduced._autoParam)
    (hρ₁ : autoParam (ρ₁.le ρ = true) Std.Slice.Self.eq._autoParam)
    (hρ₂ : autoParam (ρ₂.le ρ = true) Std.Slice.Self.eq._autoParam)
    (hk₁ : autoParam (k₁ ≤ n) Nat.dfold._auto_1) (hk₂ : autoParam (k₂ ≤ n) Nat.dfold._auto_1) :
    Tandem H g σ n (Grammar.eat kind >>= fun b => if b = true then p₁ >>= f else p₂ >>= f)
      (Grammar.eat kind >>= fun b => if b = true then q₁ >>= f' else q₂ >>= f') τ m := by
  refine .eat (h₁.bind (hf.weaken hρ₁ hk₁ ?_ ?_)) (h₂.bind (hf.weaken hρ₂ hk₂ ?_ ?_)) hmeets hkind
  all_goals first | exact fun _ => Spot.le_refl _ | exact fun _ => le_rfl

/-- A token that may be left out. -/
theorem eatOptional {kind : Token.Kind}
    (hmeets : autoParam (σ.meets kind = false) Std.Slice.Self.eq._autoParam)
    (hkind : autoParam (kind ≠ .eof) Rat.reduced._autoParam) :
    Tandem H g σ n (Grammar.eat kind) (Grammar.eat kind) (fun _ => .any) (fun _ => n) := by
  rw [← bind_pure (Grammar.eat kind)]
  exact .eat (.pure (fun _ => rfl) (Spot.le_any _)) (.pure (fun _ => rfl) (Spot.le_any _)) hmeets
    hkind

theorem after {kind : Token.Kind} {ρ : Spot} {k : Nat}
    (hp : Tandem H g (.past kind) (n - 1) p q (fun _ => ρ) (fun _ => k))
    (hρ : autoParam (σ.le ρ = true) Std.Slice.Self.eq._autoParam)
    (hk : autoParam (k ≤ n) Nat.dfold._auto_1)
    (hmeets : autoParam (σ.meets kind = false) Std.Slice.Self.eq._autoParam)
    (hkind : autoParam (kind ≠ .eof) Rat.reduced._autoParam) :
    Tandem H g σ n (Grammar.after kind p) (Grammar.after kind q) (fun _ => ρ) (fun _ => n) :=
  .eat (hp.bind (.pure (fun h => .some h.2) (Spot.le_refl _) hk))
    (.pure (fun _ => .none) hρ le_rfl) hmeets hkind

/-! ## Errors -/

theorem fail (description : String) : Tandem H g σ n (Grammar.fail description) q τ m :=
  .doomed (fun _ s _ => .single (.report s _ description none))
    fun _ _ _ hs _ => hs.left_clean.report g.left hs.kind_ne_error description none

/-- Something wrong with a token that was read. -/
theorem reportAt {t : Token} (description : String) {f : Unit → Parse α}
    (ht : H → t.kind ≠ .error) (hf : ∀ u, Stepwise (f u)) :
    Tandem H g σ n (Grammar.reportAt t description >>= f) q τ m := by
  have hstep : Stepwise (Grammar.reportAt t description) :=
    fun _ s _ => .single (.report s t description none)
  refine .doomed (.bind hstep hf) fun hH s s' hs _ hclean => ?_
  rw [exec_bind_ok _ (exec_reportAt _ _ _ _)] at hclean
  exact hs.left_clean.report g.left (ht hH) description none
    ((hf () _ _ g.eof_left).clean hclean)

theorem consume (kind : Token.Kind) (description description' : String)
    (hkind : autoParam (kind ≠ .eof) Rat.reduced._autoParam) :
    Tandem H g σ n (Grammar.consume kind description) (Grammar.consume kind description')
      (fun _ => .past kind) (fun _ => n - 1) :=
  .expecting (.check (advancePast hkind) (.fail description) rfl hkind)
    (fun _ hne herror => .consume hne herror description) hkind

theorem consumeName (description description' : String) :
    Tandem H g σ n (Grammar.consumeName description) (Grammar.consumeName description')
      (fun _ => .within) (fun _ => n - 1) :=
  .bind (.consume .identifier description description') (.pure fun h => h.2.1.lexeme)

/-- A token that must be next, and is not read yet. -/
theorem demand {kind : Token.Kind} (description : String) {p p' : Parse α}
    (hp : Tandem H g (.before kind) n p p' τ m)
    (hkind : autoParam (kind ≠ .eof) Rat.reduced._autoParam) :
    Tandem H g σ n
      (Grammar.check kind >>= fun b =>
        if (!b) = true then (Grammar.fail description : Parse Unit) >>= fun _ => p else p)
      (Grammar.check kind >>= fun b =>
        if (!b) = true then (Grammar.fail description : Parse Unit) >>= fun _ => p' else p') τ m := by
  refine .expecting (.check hp ?_ rfl hkind) (fun k hne herror => .check hne ?_) hkind
  · show Tandem H g (.before kind) n (Grammar.fail description) _ τ m
    exact .fail description
  · exact Rejects.fail herror description

theorem consumeClose (kind : Token.Kind) (description description' : String)
    (hkind : autoParam (kind ≠ .eof) Rat.reduced._autoParam) :
    Tandem H g σ n (Grammar.consumeClose kind description)
      (Grammar.consumeClose kind description') (fun _ => .past kind) (fun _ => n - 1) := by
  have hunclosed : Stepwise (reportUnclosed description >>= fun _ => (giveUp : Parse Unit)) :=
    fun _ s _ => .single (.report s _ description s.blocks.head?)
  refine .expecting (.check ?_ (.doomed hunclosed fun _ s s' hs _ => ?_) rfl hkind)
    (fun _ hne herror => .consumeClose hne herror description) hkind
  · exact (advancePast hkind).andThen (.pure (fun _ => rfl) (Spot.le_refl _) le_rfl)
  · exact hs.left_clean.report g.left hs.kind_ne_error description _

/-- The brace that closes a body is there, and what follows is told so. -/
theorem closeBlockThen (description description' : String) {f f' : Bool → Parse α}
    (hf : Tandem H g .within (n - 1) (f true) (f' true) τ m) (hstep : Stepwise (f false)) :
    Tandem H g σ n (Grammar.closeBlock description >>= f) (Grammar.closeBlock description' >>= f')
      τ m := by
  have hsteps : ∀ b, Stepwise (f b) := Bool.rec hstep hf.stepwise
  have hexec : ∀ (description : String) (f : Bool → Parse α) i s,
      (s.rest[0]?.getD i.eof).kind = .rightBrace →
      exec (Grammar.closeBlock description >>= f) i s =
        exec (Grammar.advance >>= fun _ => f true) i s := by
    intro description f i s hnext
    rw [Grammar.closeBlock, Grammar.eat, bind_assoc, bind_assoc,
      exec_bind_ok _ (exec_check i s .rightBrace), hnext]
    simp
  have hthere : Tandem H g (.before .rightBrace) n (Grammar.advance >>= fun _ => f true)
      (Grammar.advance >>= fun _ => f' true) τ m := .andThen .advance hf
  have hclosed : Tandem H g (.before .rightBrace) n (Grammar.closeBlock description >>= f)
      (Grammar.closeBlock description' >>= f') τ m := by
    refine ⟨.bind (.closeBlock description) hsteps, fun hH s s' hs hσ hlen hfine => ?_⟩
    have hsame := (hs.peek_of_not_atSeam hσ.1).kind
    rw [hexec _ _ _ _ hσ.2] at hfine ⊢
    rw [hexec _ _ _ _ (hsame ▸ hσ.2)]
    exact hthere.meets hH s s' hs hσ hlen hfine
  exact hclosed.expecting fun k hne herror =>
    (Rejects.closeBlock hne herror description).bind hsteps

theorem closeBlock (description description' : String) :
    Tandem H g σ n (Grammar.closeBlock description) (Grammar.closeBlock description')
      (fun _ => .within) (fun _ => n - 1) := by
  rw [← bind_pure (Grammar.closeBlock description), ← bind_pure (Grammar.closeBlock description')]
  exact .closeBlockThen description description' (.pure fun _ => rfl) (.pure _)

/-! ## The tree and open bodies -/

/-- A change of the states that reads nothing. -/
theorem change {F F' : State → State} (hstep : Stepwise (modify F))
    (h : ∀ s s', g.Abreast s s' → g.Abreast (F s) (F' s')) (hrest : ∀ s, (F s).rest = s.rest) :
    Tandem H g σ n (modify F) (modify F') (fun _ => σ) (fun _ => n) where
  stepwise := hstep
  meets _ s s' hs hσ hlen _ :=
    ⟨(), (), F s, F' s', rfl, rfl, h s s' hs, hσ.congr (hrest s), by rwa [hrest], rfl⟩

theorem mapTree {F F' : Tree.Builder → Tree.Builder} {s s' : State} (hs : g.Abreast s s')
    (hF : ∀ b : Tree.Builder, b.Whole → (F b).Whole) :
    g.Abreast (s.mapTree F) (s'.mapTree F') := by
  refine hs.congr rfl rfl rfl rfl rfl rfl rfl rfl rfl hs.concurrent fun b hb => ?_
  obtain ⟨b', hb', rfl⟩ := Option.map_eq_some_iff.1 hb
  exact hF b' (hs.tree b' hb')

theorem onTree {F F' : Tree.Builder → Tree.Builder} (hedit : Tree.Builder.Edit F)
    (hF : ∀ b : Tree.Builder, b.Whole → (F b).Whole) :
    Tandem H g σ n (Grammar.onTree F) (Grammar.onTree F') (fun _ => σ) (fun _ => n) :=
  .change (.onTree hedit) (fun _ _ hs => mapTree hs hF) fun _ => rfl

theorem describe (text text' : String) :
    Tandem H g σ n (Grammar.describe text) (Grammar.describe text') (fun _ => σ) (fun _ => n) :=
  .onTree (.describe text) fun _ hb => hb.describe text

/-- A parser and the end of the node it is in. -/
theorem closeNode (hp : Tandem H g σ n p q τ m) :
    Tandem H g σ n (p >>= fun a => Grammar.closeNode >>= fun _ => Pure.pure a)
      (q >>= fun a => Grammar.closeNode >>= fun _ => Pure.pure a) τ m :=
  hp.bind fun {a _} =>
    .andThen (.onTree .finish fun _ hb => hb.finish) (.pure And.right (Spot.le_refl (τ a)) le_rfl)

theorem inNode {kind : Tree.Kind} (hp : Tandem H g σ n p q τ m)
    (hkind : autoParam (kind.isRecovery = false) Std.Slice.Self.eq._autoParam) :
    Tandem H g σ n (Grammar.inNode kind p) (Grammar.inNode kind q) τ m :=
  .andThen (.onTree (.start kind) fun _ hb => hb.start hkind) hp.closeNode

theorem inNodeAt {kind : Tree.Kind} {c c' : Option Tree.Checkpoint}
    (hp : Tandem H g σ n p q τ m)
    (hkind : autoParam (kind.isRecovery = false) Std.Slice.Self.eq._autoParam) :
    Tandem H g σ n (Grammar.inNodeAt c kind p) (Grammar.inNodeAt c' kind q) τ m := by
  have hexec : ∀ (c : Option Tree.Checkpoint) i s, ∃ F, (∀ b : Tree.Builder, b.Whole → (F b).Whole) ∧
      exec (openAt c kind) i s = (.ok (), s.mapTree F) := by
    intro c i s
    cases c with
    | none => exact ⟨(·.start kind), fun _ hb => hb.start hkind, rfl⟩
    | some c => exact ⟨(·.startAt c kind), fun _ hb => hb.startAt c hkind, rfl⟩
  have hopen : Tandem H g σ n (openAt c kind) (openAt c' kind) (fun _ => σ) (fun _ => n) := by
    refine ⟨?_, fun _ s s' hs hσ hlen _ => ?_⟩
    · cases c with
      | none => exact .onTree (.start kind)
      | some c => exact .onTree (.startAt c kind)
    · obtain ⟨F, hF, hleft⟩ := hexec c g.left s
      obtain ⟨F', -, hright⟩ := hexec c' g.right s'
      exact ⟨(), (), _, _, hleft, hright, mapTree hs hF, hσ.congr rfl, hlen, rfl⟩
  exact hopen.andThen hp.closeNode

/-- What is open around a place does not matter to parses that are abreast. -/
theorem reopen {F F' : State → State}
    (hF : ∀ s, ∃ blocks depth, F s = { s with blocks, depth })
    (hF' : ∀ s, ∃ blocks depth, F' s = { s with blocks, depth }) :
    Tandem H g σ n (modify F) (modify F') (fun _ => σ) (fun _ => n) := by
  refine .change (.change fun i s => ?_) (fun s s' hs => ?_) fun s => ?_
  · obtain ⟨_, _, heq⟩ := hF s
    rw [heq]
    exact .single (.context ..)
  · obtain ⟨_, _, heq⟩ := hF s
    obtain ⟨_, _, heq'⟩ := hF' s'
    rw [heq, heq']
    exact hs.congr rfl rfl rfl rfl rfl rfl rfl rfl rfl hs.concurrent hs.tree
  · obtain ⟨_, _, heq⟩ := hF s
    rw [heq]

theorem inBody {kind kind' : String} {brace brace' : Token} (hp : Tandem H g σ n p q τ m) :
    Tandem H g σ n (Grammar.inBody kind brace p) (Grammar.inBody kind' brace' q) τ m :=
  .andThen (.reopen (fun _ => ⟨_, _, rfl⟩) fun _ => ⟨_, _, rfl⟩) <|
    hp.bind fun {a _} => .andThen (.reopen (fun _ => ⟨_, _, rfl⟩) fun _ => ⟨_, _, rfl⟩)
      (.pure And.right (Spot.le_refl (τ a)) le_rfl)

theorem deeper (hp : Tandem H g σ n p q τ m) :
    Tandem H g σ n (Grammar.deeper p) (Grammar.deeper q) τ m :=
  .andThen (.reopen (fun _ => ⟨_, _, rfl⟩) fun _ => ⟨_, _, rfl⟩) <|
    hp.bind fun {a _} => .andThen (.reopen (fun _ => ⟨_, _, rfl⟩) fun _ => ⟨_, _, rfl⟩)
      (.pure And.right (Spot.le_refl (τ a)) le_rfl)

theorem concurrently (hp : Tandem H g σ n p q τ m) :
    Tandem H g σ n (Grammar.concurrently p) (Grammar.concurrently q) τ m where
  stepwise := .concurrently hp.stepwise
  meets hH s s' hs hσ hlen hfine := by
    have hexec : ∀ (p : Parse α) i s, exec (Grammar.concurrently p) i s =
        ((exec p i { s with concurrent := true }).1,
          { (exec p i { s with concurrent := true }).2 with concurrent := s.concurrent }) := by
      intro p i s
      rw [Grammar.concurrently, exec_bind_ok i (exec_get i s), exec_bind_ok i (exec_modify i s _),
        exec_bind, exec_attempt]
      rcases exec p i { s with concurrent := true } with ⟨_ | a, t⟩ <;> rfl
    have hinside : g.Abreast { s with concurrent := true } { s' with concurrent := true } :=
      hs.congr rfl rfl rfl rfl rfl rfl rfl rfl rfl rfl hs.tree
    rw [hexec] at hfine ⊢
    rw [hexec]
    obtain ⟨a, a', t, t', hleft, hright, ht, hτ, hm, hagree⟩ :=
      hp.meets hH _ _ hinside (hσ.congr rfl) hlen hfine
    rw [hleft, hright]
    exact ⟨a, a', _, _, rfl, rfl,
      ht.congr rfl rfl rfl rfl rfl rfl rfl rfl rfl hs.concurrent ht.tree, hτ.congr rfl, hm, hagree⟩

/-- A parser that reports nothing needs no recovery. -/
theorem recovering {skip skip' : Bool → Parse Unit} (hskip : ∀ progress, Stepwise (skip progress))
    {ρ : Spot} {k : Nat} (hp : Tandem H g σ n p q (fun _ => ρ) (fun _ => k)) :
    Tandem H g σ n (Grammar.recovering skip p) (Grammar.recovering skip' q)
      (fun _ => ρ) (fun _ => k) where
  stepwise := .recovering hskip hp.stepwise
  meets hH s s' hs hσ hlen hfine := by
    have hexec : ∀ {skip : Bool → Parse Unit} {p : Parse α} {i s a t}, exec p i s = (.ok a, t) →
        exec (Grammar.recovering skip p) i s = (.ok (some a), t) := by
      intro skip p i s a t h
      have hattempt : exec (attempt p) i s = (.ok (some a), t) := by rw [exec_attempt, h]
      rw [Grammar.recovering, exec_bind_ok i (exec_get i s), exec_bind_ok i hattempt]
      rfl
    have hrest : Steps g.left (exec p g.left s).2 (exec (Grammar.recovering skip p) g.left s).2 := by
      rw [Grammar.recovering, exec_bind_ok _ (exec_get _ s), exec_bind, exec_attempt]
      rcases exec p g.left s with ⟨_ | a, t⟩
      · exact Stepwise.ite (.bind (.recover hskip _) fun _ => .pure _) (.pure _) _ t g.eof_left
      · exact .refl
    obtain ⟨a, a', t, t', hleft, hright, ht, hτ, hm, hagree⟩ :=
      hp.meets hH s s' hs hσ hlen (hfine.first hrest)
    exact ⟨some a, some a', t, t', hexec hleft, hexec hright, ht, hτ, hm, .some hagree⟩

/-! ## Repetition -/

/-- Something that depends on whether a loop goes on. -/
def ifMore {γ δ : Type} (again stop : δ) (r : γ × Bool) : δ := if r.2 then again else stop

/-- At least the end is ahead. -/
theorem starved (hp : Stepwise p) : Tandem H g σ 0 p q τ m :=
  ⟨hp, fun _ _ _ hs _ hlen => absurd hs.ahead.length_pos (by omega)⟩

section
variable {γ : Type} [Comparable γ] {ρ ρ' : Spot} {k k' : Nat} {x x' : γ}

theorem again (h : H → Agree x x') (hle : autoParam (σ.le ρ = true) Std.Slice.Self.eq._autoParam)
    (hn : autoParam (n ≤ k) Nat.dfold._auto_1) :
    Tandem H g σ n (Pure.pure (x, true)) (Pure.pure (x', true)) (ifMore ρ ρ') (ifMore k k') :=
  .pure (fun hH => ⟨h hH, rfl⟩) hle hn

theorem stop (h : H → Agree x x') (hle : autoParam (σ.le ρ' = true) Std.Slice.Self.eq._autoParam)
    (hn : autoParam (n ≤ k') Nat.dfold._auto_1) :
    Tandem H g σ n (Pure.pure (x, false)) (Pure.pure (x', false)) (ifMore ρ ρ') (ifMore k k') :=
  .pure (fun hH => ⟨h hH, rfl⟩) hle hn

/-- What is done after a turn of a loop: the next turns, or what follows the loop. -/
theorem afterTurn {go go' stop stop' : γ → Parse α} (hgo : ∀ y, Stepwise (go y))
    (hmore : ∀ {y y' : γ}, Tandem (H ∧ Agree y y') g ρ k (go y) (go' y') τ m)
    (hdone : ∀ {y y' : γ}, Tandem (H ∧ Agree y y') g ρ' k' (stop y) (stop' y') τ m)
    {r r' : γ × Bool} :
    Tandem (H ∧ Agree r r') g (ifMore ρ ρ' r) (ifMore k k' r)
      (if r.2 = true then go r.1 else stop r.1) (if r'.2 = true then go' r'.1 else stop' r'.1)
      τ m := by
  obtain ⟨y, more⟩ := r
  obtain ⟨y', more'⟩ := r'
  refine .assume (.ite (hgo y) (@hdone y y).stepwise) fun ⟨_, _, hmore'⟩ => ?_
  obtain rfl : more = more' := hmore'
  cases more with
  | true => exact hmore.under fun h => ⟨h.1, h.2.1⟩
  | false => exact hdone.under fun h => ⟨h.1, h.2.1⟩

/-- A loop, turn by turn. Every turn but the last one reads a token, so that both bounds are large
enough. -/
theorem repeatUpTo {turn turn' : γ → Parse (γ × Bool)} {bound bound' : Nat} (ρ : Spot)
    (hb : n ≤ bound) (hb' : n ≤ bound') (hx : H → Agree x x')
    (hturn : ∀ {x x' : γ} (k : Nat), k ≤ n →
      Tandem (H ∧ Agree x x') g σ k (turn x) (turn' x') (ifMore σ ρ) (ifMore (k - 1) k)) :
    Tandem H g σ n (Grammar.repeatUpTo turn bound x) (Grammar.repeatUpTo turn' bound' x')
      (fun _ => ρ) (fun _ => n) := by
  have hstep := Stepwise.repeatUpTo fun x => (@hturn x x 0 (Nat.zero_le n)).stepwise
  induction n generalizing H x x' bound bound' with
  | zero => exact .starved (hstep bound x)
  | succ n ih =>
    obtain ⟨bound, rfl⟩ : ∃ b, bound = b + 1 := ⟨bound - 1, by omega⟩
    obtain ⟨bound', rfl⟩ : ∃ b, bound' = b + 1 := ⟨bound' - 1, by omega⟩
    refine ((hturn (n + 1) le_rfl).under fun hH => ⟨hH, hx hH⟩).bind <|
      .afterTurn (hstep bound) (fun {y y'} => ?_) (.pure And.right (Spot.le_refl _) le_rfl)
    have hrest : Tandem (H ∧ Agree y y') g σ n (Grammar.repeatUpTo turn bound y)
        (Grammar.repeatUpTo turn' bound' y') (fun _ => ρ) (fun _ => n) :=
      ih (by omega) (by omega) And.right fun k hk =>
        (hturn k (by omega)).under fun h => ⟨h.1.1, h.2⟩
    exact hrest.weaken (Spot.le_refl _) le_rfl (fun _ => Spot.le_refl _) fun _ => Nat.le_succ n

/-- A loop over values that are equal if they agree. -/
theorem repeatEq [Strict γ] {turn turn' : γ → Parse (γ × Bool)} {bound bound' : Nat} (ρ : Spot)
    (hb : n ≤ bound) (hb' : n ≤ bound')
    (hturn : ∀ (x : γ) (k : Nat), k ≤ n →
      Tandem H g σ k (turn x) (turn' x) (ifMore σ ρ) (ifMore (k - 1) k))
    (hx : autoParam (Agree x x) Std.Slice.Self.eq._autoParam) :
    Tandem H g σ n (Grammar.repeatUpTo turn bound x) (Grammar.repeatUpTo turn' bound' x)
      (fun _ => ρ) (fun _ => n) := by
  refine .repeatUpTo ρ hb hb' (fun _ => hx) fun {x x'} k hk => ?_
  refine .assume (hturn x k hk).stepwise fun h => ?_
  obtain rfl : x = x' := Strict.eq h.2
  exact (hturn x k hk).under And.left

/-- A loop of which the first turn reads a token in any case. -/
theorem repeatFirst {turn turn' : γ → Parse (γ × Bool)} {bound bound' : Nat} (ρ' ρ : Spot)
    (hb : n ≤ bound) (hb' : n ≤ bound')
    (hfirst : Tandem H g σ n (turn x) (turn' x') (ifMore ρ' ρ) (ifMore (n - 1) (n - 1)))
    (hturn : ∀ {x x' : γ} (k : Nat), k ≤ n →
      Tandem (H ∧ Agree x x') g ρ' k (turn x) (turn' x') (ifMore ρ' ρ) (ifMore (k - 1) k)) :
    Tandem H g σ n (Grammar.repeatUpTo turn bound x) (Grammar.repeatUpTo turn' bound' x')
      (fun _ => ρ) (fun _ => n - 1) := by
  have hstep := Stepwise.repeatUpTo fun x => (@hturn x x 0 (Nat.zero_le n)).stepwise
  cases n with
  | zero => exact .starved (hstep bound x)
  | succ n =>
    obtain ⟨bound, rfl⟩ : ∃ b, bound = b + 1 := ⟨bound - 1, by omega⟩
    obtain ⟨bound', rfl⟩ : ∃ b, bound' = b + 1 := ⟨bound' - 1, by omega⟩
    refine hfirst.bind <| .afterTurn (hstep bound) ?_ (.pure And.right (Spot.le_refl _) le_rfl)
    exact .repeatUpTo ρ (by omega) (by omega) And.right fun k hk =>
      (hturn k (by omega)).under fun h => ⟨h.1.1, h.2⟩

/-- A loop that goes on until something ends it. At the seam the left parse stops, and what follows
the loop reports that. -/
theorem untilEnd {turn turn' : γ → Parse (γ × Bool)} {bound bound' : Nat}
    {f f' : γ → Parse α} (hb : n ≤ bound) (hb' : n ≤ bound') (hx : H → Agree x x')
    (hturn : ∀ {x x' : γ} (k : Nat), k ≤ n →
      Tandem (H ∧ Agree x x') g .within k (turn x) (turn' x') (ifMore .any .within)
        (ifMore (k - 1) k))
    (hend : ∀ x i s, i.eof.kind = .eof → (s.rest[0]?.getD i.eof).kind = .eof →
      exec (turn x) i s = (.ok (x, false), s))
    (hf : ∀ {x x' : γ}, Tandem (H ∧ Agree x x') g .within n (f x) (f' x') τ m)
    (hreject : ∀ x, Rejects (f x) .eof) :
    Tandem H g σ n (Grammar.repeatUpTo turn bound x >>= f)
      (Grammar.repeatUpTo turn' bound' x' >>= f') τ m := by
  have hstep : ∀ bound x, Stepwise (Grammar.repeatUpTo turn bound x >>= f) := fun bound x =>
    .bind (.repeatUpTo (fun x => (@hturn x x 0 (Nat.zero_le n)).stepwise)
      bound x) fun x => (@hf x x).stepwise
  induction n generalizing σ H x x' bound bound' with
  | zero => exact .starved (hstep bound x)
  | succ n ih =>
    obtain ⟨bound, rfl⟩ : ∃ b, bound = b + 1 := ⟨bound - 1, by omega⟩
    obtain ⟨bound', rfl⟩ : ∃ b, bound' = b + 1 := ⟨bound' - 1, by omega⟩
    have hunfold : ∀ (turn : γ → Parse (γ × Bool)) (f : γ → Parse α) bound x,
        Grammar.repeatUpTo turn (bound + 1) x >>= f = turn x >>= fun r =>
          if r.2 = true then Grammar.repeatUpTo turn bound r.1 >>= f else f r.1 := by
      intro turn f bound x
      rw [Grammar.repeatUpTo, bind_assoc]
      refine bind_congr fun r => ?_
      obtain ⟨y, more⟩ := r
      cases more <;> simp
    rw [hunfold, hunfold]
    have hrest : ∀ {y y' : γ}, Tandem (H ∧ Agree y y') g .any n
        (Grammar.repeatUpTo turn bound y >>= f) (Grammar.repeatUpTo turn' bound' y' >>= f') τ m := by
      refine ih (by omega) (by omega) And.right (fun k hk => ?_) ?_
      · exact (hturn k (by omega)).under fun h => ⟨h.1.1, h.2⟩
      · exact (hf.under fun h => ⟨h.1.1, h.2⟩).weaken rfl (Nat.le_succ n)
          (fun _ => Spot.le_refl _) fun _ => le_rfl
    refine .unlessEnded (((hturn (n + 1) le_rfl).under fun hH => ⟨hH, hx hH⟩).bind <|
      .afterTurn (hstep bound) hrest hf) ?_
    exact .after fun i s hs heof hnext => ⟨(x, false), s, hend x i s heof hnext, hs, rfl, hreject x⟩

end

/-- Whether the next token is of a kind, the end included. -/
theorem checkWithin {kind : Token.Kind} {f f' : Bool → Parse α}
    (hf : ∀ b, Tandem H g .within n (f b) (f' b) τ m)
    (hσ : autoParam (σ.le .within = true) Std.Slice.Self.eq._autoParam) :
    Tandem H g σ n (Grammar.check kind >>= f) (Grammar.check kind >>= f') τ m := by
  refine .test (fun _ => .within) (Alike.check kind).stepwise (fun _ s s' hs h => ?_) hf
  have hseam := h.not_atSeam hσ
  refine ⟨_, rfl, ?_, hseam⟩
  rw [exec_check, (hs.peek_of_not_atSeam hseam).kind]

/-- Whether a list ends here. -/
theorem listEnds {close : Token.Kind} {p' q' : Parse α} (htrue : Tandem H g .within n p q τ m)
    (hfalse : Tandem H g .within n p' q' τ m)
    (hσ : autoParam (σ.le .within = true) Std.Slice.Self.eq._autoParam) :
    Tandem H g σ n
      (Grammar.check close >>= fun a => Grammar.atEnd >>= fun b => if (a || b) = true then p else p')
      (Grammar.check close >>= fun a => Grammar.atEnd >>= fun b => if (a || b) = true then q else q')
      τ m :=
  .checkWithin (fun _ => .checkWithin fun _ => .ite htrue hfalse) hσ

/-- Whether a body ends here. Neither parse has halted. -/
theorem bodyEnds {p' q' : Parse α} (htrue : Tandem H g .within n p q τ m)
    (hfalse : Tandem H g .within n p' q' τ m)
    (hσ : autoParam (σ.le .within = true) Std.Slice.Self.eq._autoParam) :
    Tandem H g σ n (Grammar.bodyEnds >>= fun b => if b = true then p else p')
      (Grammar.bodyEnds >>= fun b => if b = true then q else q') τ m := by
  refine .test (fun _ => .within) Alike.bodyEnds.stepwise (fun _ s s' hs h => ?_) fun _ =>
    .ite htrue hfalse
  have hseam := h.not_atSeam hσ
  have hexec : ∀ i s, exec Grammar.bodyEnds i s = (.ok
    ((s.rest[0]?.getD i.eof).kind == .rightBrace || (s.rest[0]?.getD i.eof).kind == .eof ||
      s.halted), s) := fun _ _ => rfl
  refine ⟨_, hexec g.left s, ?_, hseam⟩
  rw [hexec, (hs.peek_of_not_atSeam hseam).kind, hs.going, hs.going']

omit [Comparable α] in
theorem exec_listEnds {close : Token.Kind} (p p' : Parse α) {i : Input} {s : State}
    (hend : (s.rest[0]?.getD i.eof).kind = .eof) :
    exec (Grammar.check close >>= fun a => atEnd >>= fun b => if (a || b) = true then p else p') i s =
      exec p i s := by
  have hatEnd : exec atEnd i s = (.ok ((s.rest[0]?.getD i.eof).kind == .eof), s) := rfl
  rw [exec_bind_ok _ (exec_check i s close), exec_bind_ok _ hatEnd, hend]
  simp

omit [Comparable α] in
theorem exec_bodyEnds (p p' : Parse α) {i : Input} {s : State}
    (hend : (s.rest[0]?.getD i.eof).kind = .eof) :
    exec (Grammar.bodyEnds >>= fun b => if b = true then p else p') i s = exec p i s := by
  have hexec : exec Grammar.bodyEnds i s = (.ok
    ((s.rest[0]?.getD i.eof).kind == .rightBrace || (s.rest[0]?.getD i.eof).kind == .eof ||
      s.halted), s) := rfl
  rw [exec_bind_ok _ hexec, hend]
  simp

/-- An item of a list that goes on if a comma follows. -/
theorem itemThenComma {γ : Type} [Comparable γ] {x x' : γ} {ρ : Spot} {k : Nat}
    (h : H → Agree x x') (hn : autoParam (n ≤ k - 1) Nat.dfold._auto_1)
    (hσ : autoParam (σ.le ρ = true) Std.Slice.Self.eq._autoParam) :
    Tandem H g σ n
      (Pure.pure x >>= fun x => Grammar.eat .comma >>= fun more => Pure.pure (x, more))
      (Pure.pure x' >>= fun x => Grammar.eat .comma >>= fun more => Pure.pure (x, more))
      (ifMore .within ρ) (ifMore (k - 1) k) :=
  .bind (.value h) <| .eat (.again And.right) (.stop And.right hσ) (Spot.meets_eq_false rfl)

section
variable {rules rules' : Rules} {ρ : Spot}

theorem commaSeparated (hb : n ≤ rules.bound) (hb' : n ≤ rules'.bound)
    (hp : ∀ {G : Prop} (k : Nat), k ≤ n →
      Tandem G g .within k p q (fun _ => ρ) (fun _ => k - 1))
    (hρ : autoParam (ρ.meets .comma = false) Std.Slice.Self.eq._autoParam)
    (hσ : autoParam (σ.le .within = true) Std.Slice.Self.eq._autoParam) :
    Tandem H g σ n (Grammar.commaSeparated rules p) (Grammar.commaSeparated rules' q)
      (fun _ => ρ) (fun _ => n - 1) := by
  refine ((hp n le_rfl).weaken hσ le_rfl (fun _ => Spot.le_refl ρ) fun _ => le_rfl).bind ?_
  refine .bind (.repeatUpTo ρ (by omega) (by omega) (fun h => .cons h.2 .nil) fun k hk => ?_)
    (.pure (fun h => h.2.reverse) (Spot.le_refl ρ) le_rfl)
  refine .eat ?_ (.stop And.right (Spot.le_refl ρ)) hρ
  exact (hp (k - 1) (by omega)).bind (.again (fun h => .cons h.2 h.1.2) (Spot.le_refl ρ))

theorem commaList (close : Token.Kind) (hb : n ≤ rules.bound) (hb' : n ≤ rules'.bound)
    (hp : ∀ {G : Prop} (k : Nat), k ≤ n →
      Tandem G g .within k p q (fun _ => ρ) (fun _ => k - 1))
    (hρ : autoParam (ρ.meets .comma = false) Std.Slice.Self.eq._autoParam)
    (hwithin : autoParam (Spot.within.le ρ = true) Std.Slice.Self.eq._autoParam)
    (hσ : autoParam (σ.le .within = true) Std.Slice.Self.eq._autoParam) :
    Tandem H g σ n (Grammar.commaList rules close p) (Grammar.commaList rules' close q)
      (fun _ => ρ) (fun _ => n) := by
  have hlist : Tandem H g .within n (Grammar.commaList rules close p)
      (Grammar.commaList rules' close q) (fun _ => ρ) (fun _ => n) := by
    refine .bind (.repeatUpTo ρ (by omega) (by omega) (fun _ => ?_) fun {x x'} k hk => ?_) ?_
    · exact ⟨.nil, rfl⟩
    · obtain ⟨items, comma⟩ := x
      obtain ⟨items', comma'⟩ := x'
      refine .listEnds (.stop And.right hwithin) ((hp k hk).bind (.eat ?_ ?_ hρ))
      · exact .again fun h => ⟨.cons h.2 h.1.2.1, rfl⟩
      · exact .stop (fun h => ⟨.cons h.2 h.1.2.1, rfl⟩) (Spot.le_refl ρ)
    · exact .pure (fun h => ⟨h.2.1.reverse, h.2.2⟩) (Spot.le_refl ρ) le_rfl
  exact hlist.weaken hσ le_rfl (fun _ => Spot.le_refl ρ) fun _ => le_rfl

end

end Tandem

end

end LimitSyntax.Grammar
