import LimitSyntax.Proofs.Marks
import LimitSyntax.Proofs.Rejects
import LimitSyntax.Proofs.Sparing

/-!
# Where the syntax stands that a parser makes

`Spans text row κ lo H p Q`: in a parse of a row of tokens, where the next token is such a `κ` and
starts at `lo` or behind it, what the parser `p` yields has the property `Q` from then on, unless
something is reported. So it does where `H` is known of the state and of all states that follow.
The property is a relation to the end of the last token read; mostly it says that what is yielded
stands in the range from `lo` to there (`Grammar.Stands`): it is within the range, its spans nest
and each of its pieces is marked.

There is a rule for each operation, and the hypothesis grows with every value that is yielded and
every token that is read on the way. A span that starts with the next token opens a range of its own
(`Grammar.Spans.startPos`), which is closed by `Grammar.Spans.piece`. What is read behind something
has a range that starts there (`Grammar.Spans.behind`).

Where something is reported, syntax need not stand in its place: an expression that was not found
starts behind the last token read. So this judgement is apart from the one for laws that all syntax
meets (`Grammar.Makes`).
-/

namespace LimitSyntax.Grammar

open Ast

/-! ## Tokens in a row -/

/-- The end of the last token read. -/
def State.edge (s : State) : Nat := (s.read.toList.getLast?.map (·.span.stop)).getD 0

theorem State.edge_congr {s t : State} (h : t.read.toList = s.read.toList) : t.edge = s.edge :=
  congrArg (fun ts : List Token => (ts.getLast?.map fun u : Token => u.span.stop).getD 0) h

theorem State.edge_of_none {s : State} (h : s.read.toList.getLast? = none) : s.edge = 0 :=
  congrArg (fun r : Option Token => (r.map fun u : Token => u.span.stop).getD 0) h

theorem State.edge_of_some {s : State} {t : Token} (h : s.read.toList.getLast? = some t) :
    s.edge = t.span.stop :=
  congrArg (fun r : Option Token => (r.map fun u : Token => u.span.stop).getD 0) h

/-- The tokens of a parse that has not halted stand in the text one behind the other. -/
structure Lined (text : String) (i : Input) (s : State) : Prop where
  eof : i.eof.kind = .eof
  stand : ∀ t ∈ s.read.toList ++ s.rest ++ [i.eof], t.span.start ≤ t.span.stop ∧
    String.Pos.Raw.IsValid text ⟨t.span.start⟩ ∧ String.Pos.Raw.IsValid text ⟨t.span.stop⟩
  order : (s.read.toList ++ s.rest ++ [i.eof]).Pairwise fun t u => t.span.stop ≤ u.span.start
  going : s.halted = false

/-- What was read in a row of steps. -/
theorem Steps.read_append {i : Input} {s t : State} (h : Steps i s t) :
    ∃ ts, s.rest = ts ++ t.rest ∧ t.read.toList = s.read.toList ++ ts := by
  obtain ⟨ts, hts⟩ := h.rest_suffix
  refine ⟨ts, hts.symm, ?_⟩
  have htokens := h.tokens_eq
  rw [← hts, ← List.append_assoc] at htokens
  exact List.append_cancel_right htokens

/-- A parse that has reported nothing goes on. -/
theorem Steps.going {i : Input} {s t : State} (h : Steps i s t) (hs : s.halted = false)
    (ht : t.errors.messages = #[]) : t.halted = false := by
  induction h with
  | refl => exact hs
  | @tail u v hsteps hstep ih =>
    have hu : u.errors.messages = #[] := Steps.clean (.single hstep) ht
    have hgoing := ih hu
    cases hstep with
    | take | edit | context | spend => exact hgoing
    | retake t rest =>
      rw [State.back_take]
      exact hgoing
    | report t description block =>
      by_cases hkind : t.kind = .error
      · simp [State.report, hgoing, hkind]
      · exact absurd ht (State.report_ne_empty hu hgoing i hkind description block)

namespace Lined

variable {text : String} {i : Input} {s t : State}

theorem steps (h : Lined text i s) (hsteps : Steps i s t) (hclean : t.errors.messages = #[]) :
    Lined text i t where
  eof := h.eof
  stand := hsteps.tokens_eq ▸ h.stand
  order := hsteps.tokens_eq ▸ h.order
  going := hsteps.going h.going hclean

theorem next_mem (i : Input) (s : State) : i.next s ∈ s.rest ++ [i.eof] := by
  unfold Input.next
  cases s.rest with
  | nil => exact List.mem_singleton_self _
  | cons t rest => exact List.mem_cons_self

theorem stand_next (h : Lined text i s) : (i.next s).span.start ≤ (i.next s).span.stop ∧
    String.Pos.Raw.IsValid text ⟨(i.next s).span.start⟩ ∧
      String.Pos.Raw.IsValid text ⟨(i.next s).span.stop⟩ := by
  refine h.stand _ ?_
  rw [List.append_assoc]
  exact List.mem_append_right _ (next_mem i s)

/-- All that is to be read starts behind what was read. -/
theorem edge_le (h : Lined text i s) {u : Token} (hu : u ∈ s.rest ++ [i.eof]) :
    s.edge ≤ u.span.start := by
  have horder := h.order
  rw [List.append_assoc, List.pairwise_append] at horder
  cases hlast : s.read.toList.getLast? with
  | none => exact State.edge_of_none hlast ▸ Nat.zero_le _
  | some r =>
    rw [State.edge_of_some hlast]
    exact horder.2.2 r (List.mem_of_getLast? hlast) u hu

theorem edge_le_next (h : Lined text i s) : s.edge ≤ (i.next s).span.start := h.edge_le (next_mem i s)

theorem isValid_edge (h : Lined text i s) : String.Pos.Raw.IsValid text ⟨s.edge⟩ := by
  cases hlast : s.read.toList.getLast? with
  | none => exact State.edge_of_none hlast ▸ String.Pos.Raw.isValid_zero
  | some r =>
    rw [State.edge_of_some hlast]
    refine (h.stand r ?_).2.2
    rw [List.append_assoc]
    exact List.mem_append_left _ (List.mem_of_getLast? hlast)

/-- What was read does not shrink. -/
theorem edge_mono (h : Lined text i s) (hsteps : Steps i s t) : s.edge ≤ t.edge := by
  obtain ⟨ts, hrest, hread⟩ := hsteps.read_append
  rcases List.eq_nil_or_concat ts with rfl | ⟨us, u, rfl⟩
  · rw [List.append_nil] at hread
    exact (State.edge_congr hread).ge
  · have hu : u ∈ s.rest ++ [i.eof] := by simp [hrest]
    have hstand := h.stand u (by
      rw [List.append_assoc]
      exact List.mem_append_right _ hu)
    have hedge : t.edge = u.span.stop := State.edge_of_some (by simp [hread])
    rw [hedge]
    exact Nat.le_trans (h.edge_le hu) hstand.1

/-- What is to be read does not go back. -/
theorem next_mono (h : Lined text i s) (hsteps : Steps i s t) :
    (i.next s).span.start ≤ (i.next t).span.start := by
  have hmem : i.next t ∈ s.rest ++ [i.eof] := by
    rcases List.mem_append.1 (next_mem i t) with hin | hend
    · exact List.mem_append_left _ (hsteps.rest_suffix.subset hin)
    · exact List.mem_append_right _ hend
  have horder := h.order
  rw [List.append_assoc, List.pairwise_append] at horder
  have hafter := horder.2.1
  have hnext := h.stand_next.1
  unfold Input.next at hmem hnext ⊢
  cases hrest : s.rest with
  | nil =>
    rw [hrest, List.nil_append, List.mem_singleton] at hmem
    rw [hmem]
    exact Nat.le_refl _
  | cons u us =>
    rw [hrest] at hmem hnext hafter
    rw [List.cons_append, List.pairwise_cons] at hafter
    rcases List.mem_cons.1 hmem with heq | hlater
    · rw [heq]
      exact Nat.le_refl _
    · exact Nat.le_trans hnext (hafter.1 _ hlater)

end Lined

/-- A parse of the tokens of the row, in which no name is empty. -/
structure OnRow (text : String) (row : List Token) (i : Input) (s : State) : Prop where
  lined : Lined text i s
  tokens : s.read.toList ++ s.rest ++ [i.eof] = row
  named : ∀ t ∈ row, t.kind = .identifier → t.span.start < t.span.stop

namespace OnRow

variable {text : String} {row : List Token} {i : Input} {s t : State}

theorem eof (h : OnRow text row i s) : i.eof.kind = .eof := h.lined.eof

theorem steps (h : OnRow text row i s) (hsteps : Steps i s t) (hclean : t.errors.messages = #[]) :
    OnRow text row i t :=
  ⟨h.lined.steps hsteps hclean, hsteps.tokens_eq ▸ h.tokens, h.named⟩

theorem next_mem (h : OnRow text row i s) : i.next s ∈ row := by
  rw [← h.tokens, List.append_assoc]
  exact List.mem_append_right _ (Lined.next_mem i s)

/-- A change of the tree leaves the tokens as they are. -/
theorem mapTree (h : OnRow text row i s) (f : Tree.Builder → Tree.Builder) :
    OnRow text row i (s.mapTree f) :=
  ⟨⟨h.eof, h.lined.stand, h.lined.order, h.lined.going⟩, h.tokens, h.named⟩

end OnRow

/-- The token was read behind an offset. -/
structure Took (text : String) (row : List Token) (lo : Nat) (t : Token) (s : State) : Prop where
  lies : t.span.Lies text lo s.edge
  mem : t ∈ row

/-- A range starts with a token behind an offset, and on its line. -/
structure Start (text : String) (row : List Token) (κ : Token → Prop) (lo start line : Nat) :
    Prop where
  le : lo ≤ start
  valid : String.Pos.Raw.IsValid text ⟨start⟩
  token : ∃ t ∈ row, κ t ∧ t.span.start = start ∧ t.line = line

section
variable {text : String} {row : List Token} {κ : Token → Prop} {lo : Nat} {i : Input} {s u : State}
  {t : Token}

theorem Start.at {start line : Nat} (h : Start text row κ lo start line) :
    StartsAt row start line := by
  obtain ⟨t, hmem, -, hstart, hline⟩ := h.token
  exact ⟨t, hmem, hstart, hline⟩

theorem Start.self {start line : Nat} (h : Start text row κ lo start line) :
    Start text row κ start start line := ⟨Nat.le_refl _, h.valid, h.token⟩

theorem Start.eq {first : Token} {start line : Nat} (h : Start text row (· = first) lo start line) :
    first.span.start = start ∧ StartsAt row first.span.start line := by
  obtain ⟨_, hmem, rfl, hstart, hline⟩ := h.token
  exact ⟨hstart, _, hmem, rfl, hline⟩

theorem Took.le (h : Took text row lo t s) : lo ≤ s.edge := h.lies.le

theorem Took.start (h : Took text row lo t s) :
    Start text row (fun _ => True) lo t.span.start t.line :=
  ⟨h.lies.lower, h.lies.validStart, t, h.mem, trivial, rfl, rfl⟩

/-- The token that is read comes next. -/
theorem took_of_advance (hs : OnRow text row i s) (hnext : (i.next s).kind ≠ .eof)
    (hlo : lo ≤ (i.next s).span.start) (hexec : exec advance i s = (.ok t, u)) :
    t = i.next s ∧ u = s.take t u.rest ∧ Took text row lo t u := by
  have hstand := hs.lined.stand_next
  have hmem := hs.next_mem
  unfold Input.next at hnext hlo hstand hmem ⊢
  rw [exec_advance] at hexec
  cases hrest : s.rest with
  | nil =>
    rw [hrest] at hnext
    exact absurd hs.eof hnext
  | cons v rest =>
    rw [hrest] at hexec hnext hlo hstand hmem
    have hkind : v.kind ≠ .eof := hnext
    simp only [hkind, if_false] at hexec
    cases hexec
    have hedge : (s.take t rest).edge = t.span.stop := State.edge_of_some (by simp [State.take])
    exact ⟨rfl, rfl, ⟨hlo, hstand.1, hedge.ge, hstand.2.1, hstand.2.2⟩, hmem⟩

/-- A token that was read stays read. -/
theorem Took.steps (h : Took text row lo t s) (hs : Lined text i s) (hsteps : Steps i s u) :
    Took text row lo t u where
  lies := h.lies.mono (Nat.le_refl _) (hs.edge_mono hsteps)
  mem := h.mem

end

/-! ## The judgement -/

/-- Where `H` is known from now on, and nothing is reported, what the parser yields has the property
from then on, if the next token is one of `κ` and does not start in front of `lo`. -/
structure Spans {α : Type} (text : String) (row : List Token) (κ : Token → Prop) (lo : Nat)
    (H : State → Prop) (p : Parse α) (Q : Nat → α → Prop) : Prop where
  steps : Stepwise p
  holds : ∀ {i : Input} {s t : State} {a : α}, OnRow text row i s → κ (i.next s) →
    lo ≤ (i.next s).span.start → (∀ u, Steps i s u → H u) → exec p i s = (.ok a, t) →
      t.errors.messages = #[] → ∀ u, Steps i t u → Q u.edge a

/-- None of the tokens is the end. -/
abbrev Inland (κ : Token → Prop) : Prop := ∀ t, κ t → t.kind ≠ .eof

theorem Inland.of_eq {t : Token} (h : t.kind ≠ .eof) : Inland (· = t) := by
  rintro _ rfl
  exact h

theorem Inland.of_kind {kind : Token.Kind} (h : kind ≠ .eof) : Inland (·.kind = kind) := by
  rintro _ rfl
  exact h

namespace Spans

section
variable {α β : Type} {text : String} {row : List Token} {κ : Token → Prop} {lo : Nat}
  {H : State → Prop} {p : Parse α} {Q : Nat → α → Prop} {R : Nat → β → Prop}

/-! ## Parsers in a row -/

theorem pure {a : α} (h : ∀ u, H u → Q u.edge a) : Spans text row κ lo H (Pure.pure a) Q where
  steps := .pure a
  holds _ _ _ hH hexec _ u hu := by
    cases hexec
    exact h u (hH u hu)

theorem giveUp : Spans text row κ lo H (giveUp : Parse α) Q where
  steps := .giveUp
  holds _ _ _ _ hexec := nomatch hexec

/-- More is known of the next token than is needed. -/
theorem ofNext {κ' : Token → Prop} (hp : Spans text row κ' lo H p Q) (h : ∀ t, κ t → κ' t) :
    Spans text row κ lo H p Q where
  steps := hp.steps
  holds hs hκ := hp.holds hs (h _ hκ)

theorem here (hp : Spans text row (fun _ => True) lo H p Q) : Spans text row κ lo H p Q :=
  hp.ofNext fun _ _ => trivial

/-- Whatever the next token is. -/
theorem anywhere (hp : ∀ first, Spans text row (· = first) lo H p Q) :
    Spans text row κ lo H p Q where
  steps := (hp (.eof 0 0)).steps
  holds hs _ := (hp _).holds hs rfl

/-- A hypothesis that is not needed. -/
theorem under {G : State → Prop} (hp : Spans text row κ lo G p Q) (h : ∀ u, H u → G u) :
    Spans text row κ lo H p Q where
  steps := hp.steps
  holds hs hκ hlo hH := hp.holds hs hκ hlo fun u hu => h u (hH u hu)

/-- A consequence of what is known. -/
theorem weaken {Q' : Nat → α → Prop} (hp : Spans text row κ lo H p Q)
    (h : ∀ {u a}, H u → Q u.edge a → Q' u.edge a) : Spans text row κ lo H p Q' where
  steps := hp.steps
  holds hs hκ hlo hH hexec hclean u hu :=
    h (hH u ((hp.steps.run hs.eof hexec).trans hu)) (hp.holds hs hκ hlo hH hexec hclean u hu)

theorem and {Q' : Nat → α → Prop} (hp : Spans text row κ lo H p Q)
    (hp' : Spans text row κ lo H p Q') : Spans text row κ lo H p fun e a => Q e a ∧ Q' e a where
  steps := hp.steps
  holds hs hκ hlo hH hexec hclean u hu :=
    ⟨hp.holds hs hκ hlo hH hexec hclean u hu, hp'.holds hs hκ hlo hH hexec hclean u hu⟩

/-- What is read behind something that was read has a range that starts there. -/
theorem behind {lo' : Nat} (hle : ∀ u, H u → lo' ≤ u.edge) (hp : Spans text row κ lo' H p Q) :
    Spans text row κ lo H p Q where
  steps := hp.steps
  holds hs hκ _ hH hexec hclean :=
    hp.holds hs hκ (Nat.le_trans (hle _ (hH _ .refl)) hs.lined.edge_le_next) hH hexec hclean

/-- As `behind`, for the end of the last token read and what is known of it. -/
theorem behindEdge {K : Nat → Prop} (hK : ∀ u, H u → K u.edge)
    (hp : ∀ e, Spans text row κ e (fun u => H u ∧ K e ∧ e ≤ u.edge) p Q) :
    Spans text row κ lo H p Q where
  steps := (hp 0).steps
  holds {_ s _ _} hs hκ _ hH hexec hclean :=
    (hp s.edge).holds hs hκ hs.lined.edge_le_next
      (fun u hu => ⟨hH u hu, hK s (hH s .refl), hs.lined.edge_mono hu⟩) hexec hclean

/-- What follows a parser that yields a value. -/
theorem bind {f : α → Parse β} (hp : Spans text row κ lo H p Q)
    (hf : ∀ a, Spans text row (fun _ => True) lo (fun u => H u ∧ Q u.edge a) (f a) R) :
    Spans text row κ lo H (p >>= f) R where
  steps := .bind hp.steps fun a => (hf a).steps
  holds {i s t b} hs hκ hlo hH hexec hclean := by
    obtain ⟨a, u, hfirst, hthen⟩ := exec_bind_eq_ok hexec
    have hsteps := hp.steps.run hs.eof hfirst
    have hclean' := Steps.clean ((hf a).steps.run hs.eof hthen) hclean
    have ha := hp.holds hs hκ hlo hH hfirst hclean'
    exact (hf a).holds (hs.steps hsteps hclean') trivial
      (Nat.le_trans hlo (hs.lined.next_mono hsteps))
      (fun v hv => ⟨hH v (hsteps.trans hv), ha v hv⟩) hthen hclean

/-- What follows a row of steps. -/
theorem following {γ : Type} {q : Parse γ} {f : γ → Parse α} (hq : Stepwise q)
    (hf : ∀ c, Spans text row (fun _ => True) lo H (f c) Q) :
    Spans text row κ lo H (q >>= f) Q where
  steps := .bind hq fun c => (hf c).steps
  holds hs _ hlo hH hexec hclean := by
    obtain ⟨c, u, hfirst, hthen⟩ := exec_bind_eq_ok hexec
    have hsteps := hq.run hs.eof hfirst
    have hu := hs.steps hsteps (Steps.clean ((hf c).steps.run hs.eof hthen) hclean)
    exact (hf c).holds hu trivial (Nat.le_trans hlo (hs.lined.next_mono hsteps))
      (fun v hv => hH v (hsteps.trans hv)) hthen hclean

/-- What follows a parser that yields no syntax. -/
theorem past {γ : Type} {d : γ → γ} {q q' : Parse γ} {f : γ → Parse α} (hq : Alike d q q')
    (hf : ∀ c, Spans text row (fun _ => True) lo H (f c) Q) : Spans text row κ lo H (q >>= f) Q :=
  .following hq.stepwise hf

/-- What follows a parser that changes nothing. -/
theorem look {γ : Type} {q : Parse γ} {f : γ → Parse α} (hq : Sparing.Looks q)
    (hf : ∀ c, Spans text row κ lo H (f c) Q) : Spans text row κ lo H (q >>= f) Q where
  steps := .bind (fun i s _ => by
    obtain ⟨c, hexec⟩ := hq i s
    rw [hexec]) fun c => (hf c).steps
  holds {i s t a} hs hκ hlo hH hexec hclean := by
    obtain ⟨c, hlook⟩ := hq i s
    rw [exec_bind_ok i hlook] at hexec
    exact (hf c).holds hs hκ hlo hH hexec hclean

theorem ite {c : Prop} [Decidable c] {q : Parse α} (hp : c → Spans text row κ lo H p Q)
    (hq : ¬ c → Spans text row κ lo H q Q) : Spans text row κ lo H (if c then p else q) Q := by
  split
  next h => exact hp h
  next h => exact hq h

/-- Two ways to a value, and what follows both. -/
theorem branch {c : Prop} [Decidable c] {q : Parse α} {f : α → Parse β}
    (hp : Spans text row κ lo H p Q) (hq : Spans text row κ lo H q Q)
    (hf : ∀ a, Spans text row (fun _ => True) lo (fun u => H u ∧ Q u.edge a) (f a) R) :
    Spans text row κ lo H (if c then p >>= f else q >>= f) R :=
  .ite (fun _ => hp.bind hf) fun _ => hq.bind hf

/-- Something done on a condition, and what follows in any case. -/
theorem guarded {γ : Type} {d : γ → γ} {c : Prop} [Decidable c] {q q' : Parse γ}
    (hq : Alike d q q') (hp : Spans text row (fun _ => True) lo H p Q) :
    Spans text row κ lo H (if c then q >>= fun _ => p else p) Q :=
  .ite (fun _ => .past hq fun _ => hp) fun _ => hp.here

theorem map {f : α → β} (hp : Spans text row κ lo H p Q)
    (hf : ∀ {u : State} {a}, H u → Q u.edge a → R u.edge (f a)) :
    Spans text row κ lo H (f <$> p) R := by
  rw [map_eq_pure_bind]
  exact hp.bind fun a => .pure fun _ h => hf h.1 h.2

/-! ## Looking ahead -/

/-- What follows a look at the next token may rely on it, and on what is known of it. -/
theorem peekOf {f : Token → Parse α}
    (hf : ∀ t, Spans text row (· = t) lo (fun u => H u ∧ κ t) (f t) Q) :
    Spans text row κ lo H (peek >>= f) Q where
  steps := .bind Alike.peek.stepwise fun t => (hf t).steps
  holds hs hκ hlo hH hexec hclean :=
    (hf _).holds hs rfl hlo (fun u hu => ⟨hH u hu, hκ⟩) hexec hclean

theorem peek {f : Token → Parse α} (hf : ∀ t, Spans text row (· = t) lo H (f t) Q) :
    Spans text row κ lo H (peek >>= f) Q :=
  .peekOf fun t => (hf t).under fun _ => And.left

theorem check {kind : Token.Kind} {f : Bool → Parse α}
    (htrue : Spans text row (·.kind = kind) lo H (f true) Q)
    (hfalse : Spans text row (fun t => κ t ∧ t.kind ≠ kind) lo H (f false) Q) :
    Spans text row κ lo H (check kind >>= f) Q where
  steps := .bind (Alike.check kind).stepwise fun b => by
    cases b with
    | true => exact htrue.steps
    | false => exact hfalse.steps
  holds {i s t a} hs hκ hlo hH hexec hclean := by
    rw [exec_bind_ok i (exec_check i s kind)] at hexec
    by_cases hnext : (i.next s).kind = kind
    · rw [beq_iff_eq.2 hnext] at hexec
      exact htrue.holds hs hnext hlo hH hexec hclean
    · rw [beq_false_of_ne hnext] at hexec
      exact hfalse.holds hs ⟨hκ, hnext⟩ hlo hH hexec hclean

/-- No token is such a one. -/
theorem nowhere (hκ : ∀ t, ¬ κ t) (hp : Stepwise p) : Spans text row κ lo H p Q where
  steps := hp
  holds _ hnext := absurd hnext (hκ _)

/-! ## Reading -/

/-- What follows the reading of a token may rely on the one behind it. -/
theorem advanceTo {f : Token → Parse α} (hκ : Inland κ)
    (hf : ∀ t second, Spans text row (· = second) lo
      (fun u => H u ∧ Took text row lo t u ∧ κ t ∧
        ∃ before after, row = before ++ t :: second :: after) (f t) Q) :
    Spans text row κ lo H (advance >>= f) Q where
  steps := .bind .advance fun t => (hf t t).steps
  holds {i s t a} hs hnext hlo hH hexec hclean := by
    obtain ⟨v, u, hfirst, hthen⟩ := exec_bind_eq_ok hexec
    have hsteps := Stepwise.advance.run hs.eof hfirst
    have hu := hs.steps hsteps (Steps.clean ((hf v v).steps.run hs.eof hthen) hclean)
    obtain ⟨rfl, htake, htook⟩ := took_of_advance hs (hκ _ hnext) hlo hfirst
    have hrow : ∃ before after, row = before ++ i.next s :: i.next u :: after := by
      refine ⟨s.read.toList, (u.rest ++ [i.eof]).tail, ?_⟩
      rw [← hu.tokens, htake]
      unfold Input.next
      cases u.rest <;> simp [State.take]
    exact (hf _ _).holds hu rfl (Nat.le_trans hlo (hs.lined.next_mono hsteps))
      (fun w hw => ⟨hH w (hsteps.trans hw), htook.steps hu.lined hw, hnext, hrow⟩) hthen hclean

theorem advance {f : Token → Parse α} (hκ : Inland κ)
    (hf : ∀ t, Spans text row (fun _ => True) lo (fun u => H u ∧ Took text row lo t u) (f t) Q) :
    Spans text row κ lo H (advance >>= f) Q :=
  .advanceTo hκ fun t _ => ((hf t).under fun _ h => ⟨h.1, h.2.1⟩).here

/-- A parser that gives up yields nothing. -/
theorem fail {description : String} : Spans text row κ lo H (fail description : Parse α) Q where
  steps := .fail description
  holds _ _ _ _ hexec _ := by
    obtain ⟨_, _, _, hgive⟩ := exec_bind_eq_ok hexec
    cases hgive

theorem consume {kind : Token.Kind} {description : String} {f : Token → Parse α}
    (hkind : kind ≠ .eof)
    (hf : ∀ t, Spans text row (fun _ => True) lo (fun u => H u ∧ Took text row lo t u) (f t) Q) :
    Spans text row κ lo H (consume kind description >>= f) Q where
  steps := .bind (.consume kind description) fun t => (hf t).steps
  holds {i s t a} hs _ hlo hH hexec hclean := by
    obtain ⟨v, u, hfirst, hthen⟩ := exec_bind_eq_ok hexec
    obtain ⟨hnext, hadvance⟩ := exec_consume_eq_ok hfirst
    have hrun : exec (Grammar.advance >>= f) i s = (.ok a, t) := by
      rw [exec_bind_ok i hadvance, hthen]
    exact (advance (.of_kind hkind) hf).holds hs hnext hlo hH hrun hclean

/-- A name is not empty. -/
theorem consumeName {description : String} :
    Spans text row κ lo H (consumeName description) fun e _ => lo < e where
  steps := .consumeName description
  holds {i s t a} hs _ hlo _ hexec hclean u hu := by
    obtain ⟨v, w, hconsume, hpure⟩ := exec_bind_eq_ok hexec
    cases hpure
    obtain ⟨hnext, hadvance⟩ := exec_consume_eq_ok hconsume
    have hkind : (i.next s).kind = .identifier := hnext
    obtain ⟨rfl, -, htook⟩ := took_of_advance hs (hkind ▸ by decide) hlo hadvance
    have hnamed := hs.named _ hs.next_mem hkind
    have hsteps := Stepwise.advance.run hs.eof hadvance
    have hstop := (htook.steps (hs.steps hsteps hclean).lined hu).lies.upper
    exact Nat.lt_of_le_of_lt hlo (Nat.lt_of_lt_of_le hnamed hstop)

/-- A token that may be the end; if it is, it is not read. -/
theorem glance {f : Token → Parse α}
    (hf : ∀ t, Spans text row (fun _ => True) lo
      (fun u => H u ∧ (t.kind ≠ .eof → Took text row lo t u)) (f t) Q) :
    Spans text row κ lo H (Grammar.advance >>= f) Q where
  steps := .bind .advance fun t => (hf t).steps
  holds {i s t a} hs _ hlo hH hexec hclean := by
    obtain ⟨v, u, hfirst, hthen⟩ := exec_bind_eq_ok hexec
    have hsteps := Stepwise.advance.run hs.eof hfirst
    have hu := hs.steps hsteps (Steps.clean ((hf v).steps.run hs.eof hthen) hclean)
    refine (hf v).holds hu trivial (Nat.le_trans hlo (hs.lined.next_mono hsteps))
      (fun w hw => ⟨hH w (hsteps.trans hw), fun hv => ?_⟩) hthen hclean
    by_cases hnext : (i.next s).kind = .eof
    · refine absurd ?_ hv
      rw [← hnext]
      unfold Input.next at hnext ⊢
      rw [exec_advance] at hfirst
      cases hrest : s.rest with
      | nil =>
        rw [hrest] at hfirst
        cases hfirst
        rfl
      | cons x rest =>
        rw [hrest] at hfirst
        cases hfirst
        rfl
    · exact (took_of_advance hs hnext hlo hfirst).2.2.steps hu.lined hw

/-! ## Reports -/

/-- Where something is reported, nothing is claimed. -/
theorem reported {f : Unit → Parse α} {t : Token} {description : String} (ht : t.kind ≠ .error)
    (hf : Stepwise (f ())) : Spans text row κ lo H (reportAt t description >>= f) Q where
  steps := .bind (fun _ s _ => .single (.report s t description none)) fun _ => hf
  holds {i s u a} hs _ _ _ hexec hclean := by
    rw [exec_bind_ok i (exec_reportAt i s t description)] at hexec
    have hreported := Steps.clean (hf.run hs.eof hexec) hclean
    have hclean' := Steps.clean (.single (.report s t description none)) hreported
    exact absurd hreported (State.report_ne_empty hclean' hs.lined.going i ht description none)

theorem reportedHere {f : Unit → Parse α} {description : String}
    (hκ : ∀ t, κ t → t.kind ≠ .error) (hf : Stepwise (f ())) :
    Spans text row κ lo H (reportHere description >>= f) Q where
  steps := .bind (fun _ s _ => .single (.report s _ description none)) fun _ => hf
  holds hs hnext hlo hH hexec hclean :=
    (reported (hκ _ hnext) hf).holds hs hnext hlo hH hexec hclean

/-! ## Spans -/

/-- What is read from the next token on has a range of its own. -/
theorem startPos {f : Nat × Nat → Parse α}
    (hf : ∀ start line, Spans text row κ start
      (fun u => H u ∧ Start text row κ lo start line) (f (start, line)) Q) :
    Spans text row κ lo H (startPos >>= f) Q where
  steps := .bind Alike.startPos.stepwise fun c => (hf c.1 c.2).steps
  holds hs hκ hlo hH hexec hclean :=
    (hf _ _).holds hs hκ (Nat.le_refl _)
      (fun u hu => ⟨hH u hu, hlo, hs.lined.stand_next.2.1, _, hs.next_mem, hκ, rfl, rfl⟩) hexec
      hclean

/-- Syntax in a range of its own stands behind the start of that around it. -/
theorem ranged [HasPieces α] {f : Nat × Nat → Parse α}
    (hf : ∀ start line, Spans text row κ start (fun u => H u ∧ Start text row κ start start line)
      (f (start, line)) (Stands text row start)) :
    Spans text row κ lo H (Grammar.startPos >>= f) (Stands text row lo) :=
  .startPos fun start line => .weaken ((hf start line).under fun _ h => ⟨h.1, h.2.self⟩)
    fun h ha => ha.mono h.2.le (Nat.le_refl _)

/-- Once something was read behind its start, a span ends where the last token does. -/
theorem exec_spanFrom_edge {i : Input} {s : State} (hlo : lo ≤ s.edge) :
    exec (Grammar.spanFrom lo) i s = (.ok ⟨lo, s.edge⟩, s) := by
  rw [exec_spanFrom, ← Array.getLast?_toList]
  by_cases hzero : s.position = 0
  · have hread : s.read.toList = [] := List.eq_nil_of_length_eq_zero hzero
    have hedge : s.edge = 0 := State.edge_of_none (List.getLast?_eq_none_iff.2 hread)
    rw [hedge] at hlo ⊢
    rw [if_pos hzero, Nat.le_zero.1 hlo]
    rfl
  · obtain ⟨t, ht⟩ : ∃ t, s.read.toList.getLast? = some t :=
      Option.ne_none_iff_exists'.1 fun hnone => hzero
        (congrArg List.length (List.getLast?_eq_none_iff.1 hnone))
    rw [State.edge_of_some ht] at hlo ⊢
    rw [ht, if_neg hzero]
    exact congrArg (fun n => (Except.ok (Span.mk lo n), s)) (max_eq_left hlo)

/-- A piece whose inside was read from the start of the range on, and a property that it has. -/
theorem pieceWith [HasPieces α] {C : α → Prop} {κ' : Token → Prop} {lo' line : Nat} {g : Span → α}
    (hstart : ∀ u, H u → Start text row κ' lo' lo line) (hle : ∀ u, H u → lo ≤ u.edge)
    (hg : ∀ u, H u → (Span.mk lo u.edge).Lies text lo' u.edge →
      C (g ⟨lo, u.edge⟩) ∧ Stands text row lo' u.edge (g ⟨lo, u.edge⟩)) :
    Spans text row κ lo H (spanFrom lo >>= fun span => Pure.pure (g span))
      fun e a => C a ∧ Stands text row lo' e a where
  steps := .bind (Alike.spanFrom lo).stepwise fun _ => .pure _
  holds {i s t a} hs _ _ hH hexec _ u hu := by
    have hs' := hH s .refl
    have hle := hle s hs'
    rw [exec_bind_ok i (exec_spanFrom_edge hle)] at hexec
    cases hexec
    have hlies : (Span.mk lo s.edge).Lies text lo' s.edge :=
      ⟨(hstart s hs').le, hle, Nat.le_refl _, (hstart s hs').valid, hs.lined.isValid_edge⟩
    exact (hg s hs' hlies).imp_right fun ha => ha.mono (Nat.le_refl _) (hs.lined.edge_mono hu)

theorem piece [HasPieces α] {κ' : Token → Prop} {lo' line : Nat} {g : Span → α}
    (hstart : ∀ u, H u → Start text row κ' lo' lo line) (hle : ∀ u, H u → lo ≤ u.edge)
    (hg : ∀ u, H u → (Span.mk lo u.edge).Lies text lo' u.edge →
      Stands text row lo' u.edge (g ⟨lo, u.edge⟩)) :
    Spans text row κ lo H (spanFrom lo >>= fun span => Pure.pure (g span)) (Stands text row lo') :=
  .weaken (.pieceWith (C := fun _ => True) hstart hle fun u h hlies => ⟨trivial, hg u h hlies⟩)
    fun _ h => h.2

/-- A piece, and what follows it. -/
theorem spanning [HasPieces α] {κ' : Token → Prop} {lo' line : Nat} {g : Span → α}
    {f : α → Parse β} (hstart : ∀ u, H u → Start text row κ' lo' lo line)
    (hle : ∀ u, H u → lo ≤ u.edge)
    (hg : ∀ u, H u → (Span.mk lo u.edge).Lies text lo' u.edge →
      Stands text row lo' u.edge (g ⟨lo, u.edge⟩))
    (hf : ∀ a, Spans text row (fun _ => True) lo
      (fun u => H u ∧ Stands text row lo' u.edge a) (f a) R) :
    Spans text row κ lo H (spanFrom lo >>= fun span => f (g span)) R := by
  have hpiece := (piece (κ := κ) hstart hle hg).bind hf
  simpa only [bind_assoc, pure_bind] using hpiece

/-! ## Nodes, bodies and recovery -/

/-- A change of the tree leaves the tokens as they are. -/
theorem editing {f : Tree.Builder → Tree.Builder} (hf : Tree.Builder.Edit f)
    (hp : Spans text row κ lo H p Q) : Spans text row κ lo H (onTree f >>= fun _ => p) Q where
  steps := .bind (.onTree hf) fun _ => hp.steps
  holds {_ s _ _} hs hκ hlo hH hexec hclean :=
    hp.holds (hs.mapTree f) hκ hlo (fun u hu => hH u (.head (.edit s f hf) hu)) hexec hclean

/-- A parser between two changes of the state. -/
theorem between {γ δ : Type} {q : Parse γ} {r : Parse δ} (hq : Stepwise q)
    (hp : Spans text row (fun _ => True) lo H p Q) (hr : Stepwise r) :
    Spans text row κ lo H (q >>= fun _ => p >>= fun a => r >>= fun _ => Pure.pure a) Q :=
  .following hq fun _ => hp.bind fun _ => .following hr fun _ => .pure fun _ h => h.2

theorem inNode {kind : Tree.Kind} (hp : Spans text row κ lo H p Q) :
    Spans text row κ lo H (inNode kind p) Q :=
  .editing (.start kind) (hp.bind fun _ => .following (.onTree .finish) fun _ => .pure fun _ h => h.2)

theorem inNodeAt {c : Option Tree.Checkpoint} {kind : Tree.Kind} (hp : Spans text row κ lo H p Q) :
    Spans text row κ lo H (inNodeAt c kind p) Q := by
  have hrest : Spans text row κ lo H (p >>= fun a => do closeNode; return a) Q :=
    hp.bind fun _ => .following (.onTree .finish) fun _ => .pure fun _ h => h.2
  cases c with
  | none => exact .editing (.start kind) hrest
  | some c => exact .editing (.startAt c kind) hrest

theorem inBody {kind : String} {brace : Token} (hp : Spans text row (fun _ => True) lo H p Q) :
    Spans text row κ lo H (inBody kind brace p) Q :=
  between (.change fun _ _ => .single (.context ..)) hp (.change fun _ _ => .single (.context ..))

theorem deeper (hp : Spans text row (fun _ => True) lo H p Q) :
    Spans text row κ lo H (deeper p) Q :=
  between (.change fun _ _ => .single (.context ..)) hp (.change fun _ _ => .single (.context ..))

theorem attempt (hp : Spans text row κ lo H p Q) :
    Spans text row κ lo H (attempt p) fun e r => ∀ a ∈ r, Q e a where
  steps := .attempt hp.steps
  holds {i s t r} hs hκ hlo hH hexec hclean u hu a ha := by
    rw [exec_attempt] at hexec
    rcases hrun : exec p i s with ⟨_ | b, v⟩
    · rw [hrun] at hexec
      cases hexec
      cases ha
    · rw [hrun] at hexec
      cases hexec
      cases ha
      exact hp.holds hs hκ hlo hH hrun hclean u hu

theorem concurrently (hp : Spans text row (fun _ => True) lo H p Q) :
    Spans text row κ lo H (concurrently p) Q := by
  refine .look .get fun _ => .following (.change fun _ _ => .single (.context ..)) fun _ =>
    hp.attempt.bind fun a => .following (.change fun _ _ => .single (.context ..)) fun _ => ?_
  cases a with
  | none => exact .giveUp
  | some a => exact .pure fun _ h => h.2 a rfl

theorem recovering {skip : Bool → Parse Unit} (hskip : ∀ progress, Stepwise (skip progress))
    (hp : Spans text row κ lo H p Q) :
    Spans text row κ lo H (recovering skip p) fun e r => ∀ a ∈ r, Q e a :=
  .look .get fun _ => hp.attempt.bind fun _ => .ite
    (fun _ => .following (.recover hskip _) fun _ => .pure fun _ h => h.2)
    fun _ => .pure fun _ h => h.2

/-! ## Repetition -/

/-- What is known before a loop is known in every turn. -/
theorem repeatKnowing {turn : α → Parse (α × Bool)} {n : Nat} {a : α} (ha : ∀ u, H u → Q u.edge a)
    (hturn : ∀ a, Spans text row (fun _ => True) lo (fun u => H u ∧ Q u.edge a) (turn a)
      fun e r => Q e r.1) :
    Spans text row κ lo H (repeatUpTo turn n a) Q := by
  induction n generalizing a H κ with
  | zero => exact .past .spend fun _ => .pure ha
  | succ n ih =>
    refine .bind (.here ((hturn a).under fun u h => ⟨h, ha u h⟩)) fun (b, more) => ?_
    refine .ite (fun _ => ih (fun _ h => h.2) fun a => ?_) fun _ => .pure fun _ h => h.2
    exact (hturn a).under fun _ h => ⟨h.1.1, h.2⟩

theorem repeatUpTo {turn : α → Parse (α × Bool)} {n : Nat} {a : α} (ha : ∀ u, H u → Q u.edge a)
    (hturn : ∀ a, Spans text row (fun _ => True) lo (fun u => Q u.edge a) (turn a)
      fun e r => Q e r.1) :
    Spans text row κ lo H (repeatUpTo turn n a) Q :=
  .repeatKnowing ha fun a => (hturn a).under fun _ h => h.2

section
variable [HasPieces α]

theorem commaSeparated {rules : Rules}
    (hp : ∀ {G : State → Prop}, Spans text row (fun _ => True) lo G p (Stands text row lo)) :
    Spans text row κ lo H (commaSeparated rules p) (Stands text row lo) := by
  refine .bind (.here hp) fun first => .bind (.repeatUpTo (Q := Stands text row lo)
    (fun _ h => .cons h.2 (.nil h.2.le)) fun items => ?_) fun _ => .pure fun _ h => h.2.reverse
  exact .past (.eat _) fun _ => .ite
    (fun _ => .bind hp fun _ => .pure fun _ h => .cons h.2 h.1) fun _ => .pure fun _ h => h

theorem commaList {rules : Rules} {close : Token.Kind} (hle : ∀ u, H u → lo ≤ u.edge)
    (hp : ∀ {G : State → Prop}, Spans text row (fun _ => True) lo G p (Stands text row lo)) :
    Spans text row κ lo H (commaList rules close p) fun e r => Stands text row lo e r.1 := by
  refine .bind (.repeatUpTo (Q := fun e r => Stands text row lo e r.1) (fun u h => .nil (hle u h))
    fun (items, comma) => ?_) fun (items, comma) => .pure fun _ h => h.2.reverse
  exact .past (.check _) fun _ => .past .atEnd fun _ => .ite (fun _ => .pure fun _ h => h)
    fun _ => .bind hp fun _ => .past (.eat _) fun _ => .pure fun _ h => .cons h.2 h.1

theorem after {kind : Token.Kind} (hle : ∀ u, H u → lo ≤ u.edge)
    (hp : Spans text row (fun _ => True) lo H p (Stands text row lo)) :
    Spans text row κ lo H (after kind p) (Stands text row lo) :=
  .past (.eat _) fun _ => .ite (fun _ => hp.bind fun _ => .pure fun _ h => .some h.2)
    fun _ => .pure fun u h => .none (hle u h)

end

end

end Spans

/-! ## Rules -/

/-- Whatever the rules call stands in its place. A type starts with the token that is next. -/
structure Rules.Spans (rules : Rules) (text : String) (row : List Token) : Prop where
  lawful : rules.Lawful
  bound : 0 < rules.bound
  expression : ∀ {κ lo H},
    Grammar.Spans text row κ lo H (rules.call .expression) (Stands text row lo)
  power : ∀ {κ lo H}, Grammar.Spans text row κ lo H (rules.call .power) (Stands text row lo)
  unary : ∀ {κ lo H}, Grammar.Spans text row κ lo H (rules.call .unary) (Stands text row lo)
  typeFrom : ∀ {first lo H}, Grammar.Spans text row (· = first) lo H (rules.call .type)
    fun e t => t.span.start = first.span.start ∧ Stands text row lo e t
  basicType : ∀ {κ lo H}, Grammar.Spans text row κ lo H (rules.call .basicType) (Stands text row lo)
  pattern : ∀ {κ lo H}, Grammar.Spans text row κ lo H (rules.call .pattern) (Stands text row lo)
  ifStatement : ∀ {κ lo H}, Inland κ →
    Grammar.Spans text row κ lo H (rules.call .ifStatement) (StandsStmt text row lo)
  statement : ∀ {κ lo H}, Grammar.Spans text row κ lo H (rules.call .statement) (Stands text row lo)
  declaration : ∀ {κ lo H},
    Grammar.Spans text row κ lo H (rules.call .declaration) (Stands text row lo)
  recovered : ∀ {κ lo H}, (∀ u, H u → lo ≤ u.edge) →
    Grammar.Spans text row κ lo H (rules.call .recovered) (Stands text row lo)

theorem Rules.Spans.type {rules : Rules} {text : String} {row : List Token}
    (hr : rules.Spans text row) {κ : Token → Prop} {lo : Nat} {H : State → Prop} :
    Grammar.Spans text row κ lo H (rules.call .type) (Stands text row lo) :=
  .anywhere fun _ => hr.typeFrom.weaken fun _ h => h.2

end LimitSyntax.Grammar
