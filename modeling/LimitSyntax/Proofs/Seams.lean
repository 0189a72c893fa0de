import LimitSyntax.Proofs.ParseSteps

/-!
# What stands behind a part of a text

A part of a text may be complete in front of a closing parenthesis. Where a comma, an equals sign or
another parenthesis stands in its place, a parser runs alike (`Grammar.Settles`), unless the part ends
in something that goes on there (`Grammar.Joins`): in error types, in a condition, in what is printed
or in the names of an import.

How far that goes depends on what may be next where the parser stops (`Grammar.Outlook`). A parser
that stops inside the part sees the same token either way, and so do all parsers that come before it.
Hence most rules need no argument of their own. What a rule asks of the second token is settled where
it asks.
-/

namespace LimitSyntax.Grammar

/-- A token that is read was of the kind. -/
theorem exec_eat_eq_true {i : Input} {s t : State} {kind : Token.Kind} (hkind : kind ≠ .eof)
    (heof : i.eof.kind = .eof) (hexec : exec (eat kind) i s = (.ok true, t)) :
    ∃ x rest, s.rest = x :: rest ∧ x.kind = kind ∧ t = s.take x rest := by
  rw [exec_eat i s hkind heof] at hexec
  split at hexec
  next x rest hrest =>
    split at hexec
    next hx =>
      cases hexec
      exact ⟨x, rest, hrest, hx, rfl⟩
    next => cases hexec
  next => cases hexec

theorem exec_eat_eq_false {i : Input} {s t : State} {kind : Token.Kind} (hkind : kind ≠ .eof)
    (heof : i.eof.kind = .eof) (hexec : exec (eat kind) i s = (.ok false, t)) :
    t = s ∧ ∀ x ∈ s.rest.head?, x.kind ≠ kind := by
  rw [exec_eat i s hkind heof] at hexec
  split at hexec
  next x rest hrest =>
    split at hexec
    next => cases hexec
    next hx =>
      cases hexec
      refine ⟨rfl, fun y hy => ?_⟩
      rw [hrest] at hy
      cases hy
      exact hx
  next hrest =>
    cases hexec
    exact ⟨rfl, fun y hy => by rw [hrest] at hy; cases hy⟩

/-! ## Sober runs -/

/-- Nothing was reported, the parse has not halted, and no bound was met. -/
structure State.Sober (s : State) : Prop where
  errors : s.errors.messages = #[]
  going : s.halted = false
  unspent : s.spent = false

theorem Steps.sober {i : Input} {s t : State} (h : Steps i s t) (ht : t.Sober) : s.Sober where
  errors := h.clean ht.errors
  going := by
    cases hs : s.halted with
    | false => rfl
    | true => exact absurd ht.going (by rw [(h.halted hs).1]; decide)
  unspent := h.spent_eq_false ht.unspent

/-- Whether a tree is built does not change. -/
theorem Steps.tree_eq_none {i : Input} {s t : State} (h : Steps i s t) (hs : s.tree = none) :
    t.tree = none := by
  induction h with
  | refl => exact hs
  | tail _ hstep ih =>
    cases hstep with
    | take | edit => simp [State.take, State.mapTree, ih]
    | retake => simp [State.back_take, ih]
    | context | spend => exact ih
    | report t description block =>
      obtain ⟨_, _, _, heq⟩ := State.report_eq _ _ t description block
      rw [heq]
      exact ih

/-! ## Open ends -/

/-- Names with commas between them. -/
inductive NameRow : List Token → Prop where
  | one {t : Token} (ht : t.kind = .identifier) : NameRow [t]
  | more {t comma : Token} {ts : List Token} (ht : t.kind = .identifier)
      (hcomma : comma.kind = .comma) (hts : NameRow ts) : NameRow (t :: comma :: ts)

theorem NameRow.concat {ts : List Token} {comma t : Token} (h : NameRow ts)
    (hcomma : comma.kind = .comma) (ht : t.kind = .identifier) : NameRow (ts ++ [comma, t]) := by
  induction h with
  | one hu => exact .more hu hcomma (.one ht)
  | more hu hcomma' _ ih => exact .more hu hcomma' ih

/-- Somewhere in a text the parser reads the tokens `ts` up to the tokens `stop`. -/
def ReadsUpTo {α : Type} (p : Parse α) (ts stop : List Token) : Prop :=
  ∃ i s a t, i.eof.kind = .eof ∧ s.rest = ts ++ stop ∧ exec p i s = (.ok a, t) ∧ t.rest = stop ∧
    t.Sober

/-- What the tokens `ts` end in may end in front of the tokens `stop`, but goes on with the tokens
`behind`. -/
inductive Joins (stop : List Token) : (ts behind : List Token) → Prop where
  /-- Error types go on with a name that no colon follows. -/
  | errorTypes {us names more : List Token} {question comma name : Token}
      (hquestion : question.kind = .question) (hnames : NameRow names)
      (hcomma : comma.kind = .comma) (hname : name.kind = .identifier)
      (hmore : ∀ t ∈ more.head?, t.kind ≠ .colon) :
      Joins stop (us ++ question :: names) (comma :: name :: more)
  /-- The condition of a type goes on with what is assigned in it. -/
  | condition {us vs more : List Token} {keyword equal : Token} {n : Nat}
      (hkeyword : keyword.kind = .kwWhere) (hvs : ReadsUpTo (Rule.call n .expression) vs stop)
      (hequal : equal.kind = .equal) : Joins stop (us ++ keyword :: vs) (equal :: more)
  /-- What is printed goes on with one more expression, unless it stands in parentheses. -/
  | print {us vs more : List Token} {keyword comma : Token} {n : Nat}
      (hkeyword : keyword.kind = .kwPrint) (hopen : ∀ t ∈ vs.head?, t.kind ≠ .leftParen)
      (hvs : ReadsUpTo (commaSeparated (.upTo n) (Rule.call n .expression)) vs stop)
      (hcomma : comma.kind = .comma) : Joins stop (us ++ keyword :: vs) (comma :: more)
  /-- So do the names that an import takes or leaves out. -/
  | importFilter {us names more : List Token} {keyword comma : Token}
      (hkeyword : keyword.kind = .kwShow ∨ keyword.kind = .kwHide) (hnames : NameRow names)
      (hcomma : comma.kind = .comma) : Joins stop (us ++ keyword :: names) (comma :: more)

/-! ## Seams -/

/-- What may be next where a parser stops, if it stops where a part ends. -/
inductive Outlook where
  /-- It does not stop there. -/
  | within
  /-- A parenthesis. -/
  | row
  /-- A parenthesis or a comma. -/
  | value
  /-- A parenthesis, a comma or an equals sign. -/
  | type

namespace Outlook

/-- Whether a token of the kind may be next where a part ends. -/
def sees : Outlook → Token.Kind → Bool
  | .within, _ => false
  | .row, kind => kind == .rightParen
  | .value, kind => kind == .rightParen || kind == .comma
  | .type, kind => kind == .rightParen || kind == .comma || kind == .equal

/-- The first outlook is the narrower one. -/
def le : Outlook → Outlook → Bool
  | .within, _ | .row, .row | .row, .value | .row, .type | .value, .value | .value, .type
  | .type, .type => true
  | _, _ => false

variable {o o' : Outlook}

theorem sees_of_le (hle : o.le o' = true) {kind : Token.Kind} (h : o.sees kind = true) :
    o'.sees kind = true := by
  cases o <;> cases o' <;> simp_all [sees, le]

theorem le_type (o : Outlook) : o.le .type = true := by
  cases o <;> rfl

theorem within_le (o : Outlook) : Outlook.le .within o = true := by
  cases o <;> rfl

/-- What is not seen under the widest outlook is not seen at all. -/
theorem sees_eq_false {kind : Token.Kind} (h : Outlook.type.sees kind = false) :
    o.sees kind = false := by
  rw [← Bool.not_eq_true] at h ⊢
  exact fun ho => h (sees_of_le o.le_type ho)

/-- A token that is never next is of another kind. -/
theorem ne_of_sees {kind other : Token.Kind} (h : o.sees kind = true)
    (hother : o.sees other = false) : kind ≠ other := by
  rintro rfl
  rw [h] at hother
  cases hother

end Outlook

/-- A part of a text, in front of a closing parenthesis and the end, or of other tokens that it does
not go on with. -/
structure Seam where
  part : List Token
  close : Token
  last : Token
  next : Token
  more : List Token
  some : part ≠ []
  sound : ∀ t ∈ part, t.kind ≠ .error
  close_kind : close.kind = .rightParen
  last_kind : last.kind = .eof
  sees_next : Outlook.type.sees next.kind = true
  span : next.span = close.span
  line : next.line = close.line
  apart : ¬ Joins [close, last] part (next :: more)

namespace Seam

variable (g : Seam) {ts us vs : List Token} {i : Input} {s t : State}

/-- Tokens in front of the parenthesis. -/
def left (ts : List Token) : List Token := ts ++ [g.close, g.last]

/-- Tokens in front of the other tokens. -/
def right (ts : List Token) : List Token := ts ++ g.next :: g.more

theorem sees_close : Outlook.type.sees g.close.kind = true := by
  rw [g.close_kind]
  rfl

variable {g}

theorem left_inj (h : g.left ts = g.left us) : ts = us := List.append_cancel_right h

theorem left_append : g.left (ts ++ us) = ts ++ g.left us := List.append_assoc ..

/-- Behind the parenthesis there is no seam. -/
theorem left_ne_singleton {u : Token} : [u] ≠ g.left us := by
  intro h
  have hlength := congrArg List.length h
  simp [left] at hlength

variable (g) in
/-- A parse of the part, without a tree, with the tokens `ts` of it left to read. -/
structure At (s : State) (ts : List Token) : Prop where
  rest : s.rest = g.left ts
  tokens : s.read.toList ++ ts = g.part
  bare : s.tree = none

/-- A place on the way to a place in front of the seam. -/
theorem At.between (h : g.At s ts) {u : State} (hsteps : Steps i s u) (hsteps' : Steps i u t)
    (ht : t.rest = g.left us) : ∃ vs, g.At u (vs ++ us) := by
  obtain ⟨vs, hvs⟩ := hsteps'.rest_suffix
  have hrest : u.rest = g.left (vs ++ us) := by rw [← hvs, ht, left_append]
  refine ⟨vs, hrest, ?_, hsteps.tree_eq_none h.bare⟩
  have htokens := hsteps.tokens_eq
  rw [hrest, h.rest, left, left, ← List.append_assoc, ← List.append_assoc s.read.toList,
    h.tokens] at htokens
  exact List.append_cancel_right htokens

theorem At.suffix (h : g.At s ts) (hsteps : Steps i s t) (ht : t.rest = g.left us) :
    ∃ vs, ts = vs ++ us := by
  obtain ⟨vs, hvs⟩ := h.between .refl hsteps ht
  exact ⟨vs, left_inj (h.rest.symm.trans hvs.rest)⟩

end Seam

/-- A parser with the outlook may stop in front of the tokens `us` and the seam. -/
def Outlook.Admits (o : Outlook) (g : Seam) (us : List Token) : Prop :=
  us = [] → o.sees g.close.kind = true ∧ o.sees g.next.kind = true

section
variable {α β : Type} {g : Seam} {o o' : Outlook} {i : Input} {s t u : State}
  {r : Except Unit α} {ts us rest : List Token}

theorem Outlook.Admits.row (h : Outlook.value.Admits g []) (hcomma : g.next.kind ≠ .comma) :
    Outlook.row.Admits g [] := by
  intro _
  obtain ⟨hclose, hnext⟩ := h rfl
  simp only [sees, Bool.or_eq_true, beq_iff_eq] at hnext ⊢
  exact ⟨g.close_kind, hnext.resolve_right hcomma⟩

theorem Outlook.admits_value (h : g.next.kind ≠ .equal) : Outlook.value.Admits g [] := by
  intro _
  have hnext := g.sees_next
  rw [g.close_kind]
  simp only [sees, Bool.or_eq_true, beq_iff_eq] at hnext ⊢
  exact ⟨.inl trivial, hnext.resolve_right h⟩

theorem Outlook.Admits.type (h : Outlook.type.Admits g []) :
    g.next.kind = .rightParen ∨ g.next.kind = .comma ∨ g.next.kind = .equal := by
  have hnext := (h rfl).2
  simpa only [sees, Bool.or_eq_true, beq_iff_eq, or_assoc] using hnext

theorem Outlook.Admits.value (h : Outlook.value.Admits g []) :
    g.next.kind = .rightParen ∨ g.next.kind = .comma := by
  have hnext := (h rfl).2
  simpa only [sees, Bool.or_eq_true, beq_iff_eq] using hnext

theorem Outlook.Admits.le (h : o.Admits g us) (hle : o.le o' = true) : o'.Admits g us :=
  fun hus => ⟨Outlook.sees_of_le hle (h hus).1, Outlook.sees_of_le hle (h hus).2⟩

/-- What may be in front of the seam may be farther in front of it. -/
theorem Outlook.Admits.append (h : o.Admits g us) : o.Admits g (ts ++ us) :=
  fun hnil => h (List.append_eq_nil_iff.1 hnil).2

variable (g o) in
/-- A run ends in front of the seam, where the outlook admits it, and reports nothing. -/
structure Seam.Stops (r : Except Unit α) (t : State) (us : List Token) : Prop where
  rest : t.rest = g.left us
  sober : t.Sober
  admits : o.Admits g us
  /-- At the seam itself it yields a value. -/
  yields : us = [] → ∃ a, r = .ok a

theorem Seam.Stops.le (h : g.Stops o r t us) (hle : o.le o' = true) : g.Stops o' r t us :=
  ⟨h.rest, h.sober, h.admits.le hle, h.yields⟩

/-! ## The judgement -/

/-- A run of the parser that stops in front of the seam, from in front of the tokens `ts` of the
part, is the same with the other tokens behind. -/
structure Settles (g : Seam) (o : Outlook) (ts : List Token) (p : Parse α) : Prop where
  run : ∀ {i : Input} {s t : State} {r : Except Unit α} {us : List Token}, i.eof.kind = .eof →
    g.At s ts → exec p i s = (r, t) → g.Stops o r t us →
      exec p i (s.onto (g.right ts)) = (r, t.onto (g.right us))

/-- No run of the parser from in front of the tokens `ts` stops in front of the seam. -/
structure Stuck (g : Seam) (o : Outlook) (ts : List Token) (p : Parse α) : Prop where
  run : ∀ {i : Input} {s t : State} {r : Except Unit α} {us : List Token}, i.eof.kind = .eof →
    g.At s ts → exec p i s = (r, t) → ¬ g.Stops o r t us

theorem Stuck.settles {p : Parse α} (h : Stuck g o ts p) : Settles g o ts p :=
  ⟨fun heof hs hexec ht => absurd ht (h.run heof hs hexec)⟩

/-- Under the narrowest outlook nothing stops at the seam. -/
theorem Stuck.within_nil {p : Parse α} (hp : Stepwise p) : Stuck g .within [] p where
  run {i s t r us} heof hs hexec ht := by
    obtain ⟨vs, hvs⟩ := hs.suffix (hp.run heof hexec) ht.rest
    exact nomatch (ht.admits (List.append_eq_nil_iff.1 hvs.symm).2).1

/-- If two parsers in a row stop in front of the seam, then so does the first. -/
theorem Seam.Stops.first {p : Parse α} {f : α → Parse β} {r : Except Unit β} (hs : g.At s ts)
    (heof : i.eof.kind = .eof) (hp : Stepwise p) (hf : ∀ a, Stepwise (f a))
    (hexec : exec (p >>= f) i s = (r, t)) (ht : g.Stops o r t us) :
    (∃ e, r = .error e ∧ exec p i s = (.error e, t) ∧ us ≠ []) ∨
      ∃ a u vs, exec p i s = (.ok a, u) ∧ g.At u (vs ++ us) ∧ g.Stops o (.ok a) u (vs ++ us) ∧
        exec (f a) i u = (r, t) := by
  rw [exec_bind] at hexec
  rcases hfirst : exec p i s with ⟨e | a, u⟩
  · rw [hfirst] at hexec
    cases hexec
    refine .inl ⟨e, rfl, rfl, fun hus => ?_⟩
    obtain ⟨_, hok⟩ := ht.yields hus
    cases hok
  · rw [hfirst] at hexec
    have hsteps := (hf a).run heof hexec
    obtain ⟨vs, hu⟩ := hs.between (hp.run heof hfirst) hsteps ht.rest
    exact .inr ⟨a, u, vs, rfl, hu, ⟨hu.rest, hsteps.sober ht.sober, ht.admits.append,
      fun _ => ⟨a, rfl⟩⟩, hexec⟩

namespace Settles

variable {p : Parse α} {f : α → Parse β}

/-! ## Parsers in a row -/

theorem le (h : Settles g o' ts p) (hle : o.le o' = true) : Settles g o ts p :=
  ⟨fun heof hs hexec ht => h.run heof hs hexec (ht.le hle)⟩

/-- A parser that reads and changes nothing. -/
theorem look {v : Input → State → α} (hexec : ∀ i s, exec p i s = (.ok (v i s), s))
    (hv : ∀ {i s}, g.At s ts → o.Admits g ts → v i (s.onto (g.right ts)) = v i s) :
    Settles g o ts p where
  run {i s t r us} _ hs hrun ht := by
    rw [hexec] at hrun
    cases hrun
    obtain rfl : ts = us := Seam.left_inj (hs.rest.symm.trans ht.rest)
    rw [hexec, hv hs ht.admits]

/-- A change of anything but the tokens. -/
theorem change {f : State → State} (hrest : ∀ s, (f s).rest = s.rest)
    (honto : ∀ s ts, f (s.onto ts) = (f s).onto ts) : Settles g o ts (modify f) where
  run {i s t r us} _ hs hrun ht := by
    rw [exec_modify] at hrun ⊢
    cases hrun
    obtain rfl : ts = us := Seam.left_inj (hs.rest.symm.trans ((hrest s).symm.trans ht.rest))
    rw [honto]

theorem pure (a : α) : Settles g o ts (Pure.pure a) :=
  .look (v := fun _ _ => a) (fun _ _ => rfl) fun _ _ => rfl

theorem giveUp : Settles g o ts (giveUp : Parse α) where
  run {i s t r us} _ hs hrun ht := by
    cases hrun
    obtain rfl : ts = us := Seam.left_inj (hs.rest.symm.trans ht.rest)
    rfl

/-- What follows a parser need only settle where the parser ends. -/
theorem bindAt (hp : Settles g o ts p) (hf : ∀ {i s a u us}, i.eof.kind = .eof → g.At s ts →
      exec p i s = (.ok a, u) → g.At u us → Settles g o us (f a))
    (hp' : Stepwise p) (hf' : ∀ a, Stepwise (f a)) : Settles g o ts (p >>= f) where
  run {i s t r us} heof hs hexec ht := by
    rcases ht.first hs heof hp' hf' hexec with
      ⟨e, rfl, hfirst, hus⟩ | ⟨a, u, vs, hfirst, hu, hstop, hrest⟩
    · have hright := hp.run heof hs hfirst
        ⟨ht.rest, ht.sober, ht.admits, fun hnil => absurd hnil hus⟩
      rw [exec_bind, hright]
    · rw [exec_bind_ok i (hp.run heof hs hfirst hstop)]
      exact (hf heof hs hfirst hu).run heof hu hrest ht

theorem bind (hp : Settles g o ts p) (hf : ∀ a us, Settles g o us (f a)) (hp' : Stepwise p)
    (hf' : ∀ a, Stepwise (f a)) : Settles g o ts (p >>= f) :=
  hp.bindAt (fun _ _ _ _ => hf _ _) hp' hf'

/-- A wider outlook will do if the narrower one admits the seam wherever the parser reads so far. -/
theorem widen (h : Settles g o' ts p)
    (hseam : o.Admits g [] → ReadsUpTo p ts [g.close, g.last] → o'.Admits g []) :
    Settles g o ts p where
  run {i s t r us} heof hs hexec ht := by
    refine h.run heof hs hexec ⟨ht.rest, ht.sober, fun hus => ?_, ht.yields⟩
    subst hus
    obtain ⟨a, rfl⟩ := ht.yields rfl
    exact hseam ht.admits ⟨i, s, a, t, heof, hs.rest, hexec, ht.rest, ht.sober⟩ rfl

/-- To look at something comes first. Unless nothing stops then, what follows is the same. -/
theorem glance {v : Input → State → α} (hexec : ∀ i s, exec p i s = (.ok (v i s), s))
    (hf : ∀ a, Stepwise (f a))
    (h : ∀ {i s}, i.eof.kind = .eof → g.At s ts → o.Admits g ts → Stuck g o ts (f (v i s)) ∨
      f (v i (s.onto (g.right ts))) = f (v i s) ∧ Settles g o ts (f (v i s))) :
    Settles g o ts (p >>= f) where
  run {i s t r us} heof hs hrun ht := by
    rw [exec_bind_ok i (hexec i s)] at hrun
    rw [exec_bind_ok i (hexec i _)]
    obtain ⟨vs, rfl⟩ := hs.suffix ((hf _).run heof hrun) ht.rest
    rcases h (i := i) heof hs ht.admits.append with hstuck | ⟨heq, hsettles⟩
    · exact absurd ht (hstuck.run heof hs hrun)
    · rw [heq]
      exact hsettles.run heof hs hrun ht

/-- To look at the state, apart from the tokens ahead. -/
theorem get {f : State → Parse α} (hblind : ∀ s ts, f (s.onto ts) = f s)
    (hf : ∀ s, Settles g o ts (f s)) (hf' : ∀ s, Stepwise (f s)) :
    Settles g o ts (MonadState.get >>= f) :=
  .glance (v := fun _ s => s) (fun _ _ => rfl) hf' fun _ _ _ => .inr ⟨hblind _ _, hf _⟩

theorem ite {c : Prop} [Decidable c] {q : Parse α} (hp : Settles g o ts p)
    (hq : Settles g o ts q) : Settles g o ts (if c then p else q) := by
  split
  · exact hp
  · exact hq

end Settles

namespace Stuck

variable {p : Parse α} {f : α → Parse β}

theorem bind (h : Stuck g o ts p) (hp : Stepwise p) (hf : ∀ a, Stepwise (f a)) :
    Stuck g o ts (p >>= f) where
  run {i s t r us} heof hs hexec ht := by
    rcases ht.first hs heof hp hf hexec with
      ⟨e, rfl, hfirst, hus⟩ | ⟨a, u, vs, hfirst, -, hu, -⟩
    · exact h.run heof hs hfirst ⟨ht.rest, ht.sober, ht.admits, fun hnil => absurd hnil hus⟩
    · exact h.run heof hs hfirst hu

/-- At the seam a parser comes first, which reads nothing there. -/
theorem behind {Q : α → Prop} (hQ : Yields Q p) (hp : Stepwise p) (hf : ∀ a, Stepwise (f a))
    (h : ∀ a, Q a → Stuck g o [] (f a)) : Stuck g o [] (p >>= f) where
  run {i s t r us} heof hs hexec ht := by
    rcases ht.first hs heof hp hf hexec with
      ⟨e, rfl, hfirst, hus⟩ | ⟨a, u, vs, hfirst, hu, -, hrest⟩
    · obtain ⟨vs, hvs⟩ := hs.suffix (hp.run heof hfirst) ht.rest
      exact hus (List.append_eq_nil_iff.1 hvs.symm).2
    · obtain ⟨ws, hws⟩ := hs.suffix (hp.run heof hfirst) hu.rest
      rw [(List.append_eq_nil_iff.1 hws.symm).2] at hu
      exact (h a (hQ i s a u hfirst)).run heof hu hrest ht

/-- A parser comes first that stops at the seam only. -/
theorem before (h : Stuck g .within ts p) (hf : ∀ a, Stuck g o [] (f a)) (hp : Stepwise p)
    (hf' : ∀ a, Stepwise (f a)) : Stuck g o ts (p >>= f) where
  run {i s t r us} heof hs hexec ht := by
    rcases ht.first hs heof hp hf' hexec with
      ⟨e, rfl, hfirst, hus⟩ | ⟨a, u, vs, hfirst, hu, hstop, hrest⟩
    · exact h.run heof hs hfirst
        ⟨ht.rest, ht.sober, fun hnil => absurd hnil hus, fun hnil => absurd hnil hus⟩
    · by_cases hnil : vs ++ us = []
      · rw [hnil] at hu
        exact (hf a).run heof hu hrest ht
      · exact h.run heof hs hfirst
          ⟨hstop.rest, hstop.sober, fun hus => absurd hus hnil, hstop.yields⟩

/-- Something that reads the tokens `ts` up to the tokens `us` comes first. -/
theorem past (h : ∀ {i s}, i.eof.kind = .eof → g.At s ts → ∃ a u us, exec p i s = (.ok a, u) ∧
      g.At u us ∧ Stuck g o us (f a)) : Stuck g o ts (p >>= f) where
  run {i s t r vs} heof hs hexec ht := by
    obtain ⟨a, u, us, hfirst, hu, hf⟩ := h heof hs
    rw [exec_bind_ok i hfirst] at hexec
    exact hf.run heof hu hexec ht

/-- At the seam nothing gives up. -/
theorem of_error (h : ∀ {i s}, i.eof.kind = .eof → g.At s [] → ∃ e u, exec p i s = (.error e, u))
    (hp : Stepwise p) : Stuck g o [] p where
  run {i s t r us} heof hs hexec ht := by
    obtain ⟨vs, hvs⟩ := hs.suffix (hp.run heof hexec) ht.rest
    obtain ⟨a, rfl⟩ := ht.yields (List.append_eq_nil_iff.1 hvs.symm).2
    obtain ⟨e, u, herror⟩ := h heof hs
    rw [herror] at hexec
    cases hexec

theorem inNodeAt (h : Stuck g o ts p) (hp : Stepwise p) (c : Option Tree.Checkpoint)
    (kind : Tree.Kind) : Stuck g o ts (inNodeAt c kind p) := by
  have hopen : ∀ {s}, g.At s ts → ∃ u, (∀ i, exec (openAt c kind) i s = (.ok (), u)) ∧ g.At u ts := by
    intro s hs
    cases c with
    | none | some c => exact ⟨_, fun _ => rfl, hs.rest, hs.tokens, by simp [State.mapTree, hs.bare]⟩
  refine .past fun {i s} _ hs => ?_
  obtain ⟨u, hexec, hu⟩ := hopen hs
  exact ⟨(), u, ts, hexec i, hu, h.bind hp fun _ => .bind (.onTree .finish) fun _ => .pure _⟩

/-- Nor does anything read on. -/
theorem advance : Stuck g o [] advance where
  run {i s t r us} heof hs hexec ht := by
    have hrest : s.rest = [g.close, g.last] := hs.rest
    have hkind : g.close.kind ≠ .eof := by
      rw [g.close_kind]
      decide
    rw [exec_advance, hrest] at hexec
    simp only [hkind, if_false] at hexec
    cases hexec
    exact Seam.left_ne_singleton ht.rest

end Stuck

/-! ## The next token -/

theorem Seam.At.next_cons {x : Token} (h : g.At s (x :: ts)) (i : Input) :
    s.rest[0]?.getD i.eof = x := by
  rw [h.rest]
  rfl

theorem Seam.At.next_nil (h : g.At s []) (i : Input) : s.rest[0]?.getD i.eof = g.close := by
  rw [h.rest]
  rfl

/-- The next token of the part is read. -/
theorem Seam.At.take {x : Token} (h : g.At s (x :: ts)) : g.At (s.take x (g.left ts)) ts where
  rest := rfl
  tokens := by
    rw [← h.tokens, State.take, Array.toList_push, List.append_assoc, List.singleton_append]
  bare := by
    rw [State.take, h.bare]
    rfl

/-- Behind the only token left the parenthesis is next. -/
theorem Seam.At.exec_checkNext {x : Token} (h : g.At s [x]) (i : Input) (kind : Token.Kind) :
    exec (checkAt 1 kind) i s = (.ok (g.close.kind == kind), s) := by
  have hnext : exec (checkAt 1 kind) i s = (.ok ((s.rest[1]?.getD i.eof).kind == kind), s) := rfl
  rw [hnext, h.rest]
  rfl

theorem Seam.At.exec_advance {x : Token} (h : g.At s (x :: ts)) (hx : x.kind ≠ .eof) (i : Input) :
    exec advance i s = (.ok x, s.take x (g.left ts)) := by
  rw [Grammar.exec_advance, h.rest]
  simp only [Seam.left, List.cons_append, hx, if_false]

theorem Seam.At.eq_of_advance {x y : Token} (h : g.At s (x :: ts)) (hx : x.kind ≠ .eof)
    (hexec : exec advance i s = (.ok y, u)) (hu : g.At u us) : ts = us := by
  rw [h.exec_advance hx] at hexec
  cases hexec
  exact Seam.left_inj hu.rest

/-- A token of another kind is not read. -/
theorem Seam.At.exec_eat_ne {x : Token} {kind : Token.Kind} (h : g.At s (x :: ts))
    (hx : x.kind ≠ kind) (i : Input) : exec (eat kind) i s = (.ok false, s) := by
  have hnext : exec (check kind) i s = (.ok false, s) := by
    rw [exec_check, h.next_cons, beq_false_of_ne hx]
  rw [eat, exec_bind_ok i hnext]
  rfl

theorem Seam.At.exec_eat_eq {x : Token} {kind : Token.Kind} (h : g.At s (x :: ts))
    (hx : x.kind = kind) (hkind : kind ≠ .eof) (i : Input) :
    exec (eat kind) i s = (.ok true, s.take x (g.left ts)) := by
  have hnext : exec (check kind) i s = (.ok true, s) := by
    rw [exec_check, h.next_cons, beq_iff_eq.2 hx]
  rw [eat, exec_bind_ok i hnext, if_pos rfl, exec_bind_ok i (h.exec_advance (hx ▸ hkind) i)]
  rfl

theorem Seam.At.unique (h : g.At s ts) (h' : g.At s us) : ts = us :=
  Seam.left_inj (h.rest.symm.trans h'.rest)

/-- One token of the part was read. -/
theorem Seam.At.eq_cons {x : Token} (h : g.At s ts) (hu : g.At (s.take x rest) us) :
    ts = x :: us := by
  have htokens := hu.tokens
  rw [State.take, Array.toList_push, List.append_assoc, List.singleton_append, ← h.tokens] at htokens
  exact (List.append_cancel_left htokens).symm

/-- A token of the part is no error token. -/
theorem Seam.At.sound {x : Token} (h : g.At s (x :: ts)) : x.kind ≠ .error := by
  refine g.sound x ?_
  rw [← h.tokens]
  exact List.mem_append_right _ (List.mem_cons_self ..)

/-- The next token is no error token. -/
theorem Seam.At.next_sound (h : g.At s ts) (i : Input) : (s.rest[0]?.getD i.eof).kind ≠ .error := by
  cases ts with
  | nil =>
    rw [h.next_nil, g.close_kind]
    decide
  | cons x ts =>
    rw [h.next_cons]
    exact h.sound

namespace Stuck

/-- Behind the only token left nothing of the part is left. -/
theorem advance_one {x : Token} (hx : x.kind ≠ .eof) : Stuck g .within [x] Grammar.advance where
  run {i s t r us} _ hs hexec ht := by
    rw [hs.exec_advance hx] at hexec
    cases hexec
    obtain rfl : [] = us := Seam.left_inj ht.rest
    exact nomatch (ht.admits rfl).1

theorem reportHere (description : String) : Stuck g o ts (reportHere description) where
  run {i s t r us} heof hs hexec ht := by
    have hreport : exec (Grammar.reportHere description) i s =
      (.ok (), s.report i (s.rest[0]?.getD i.eof) description none) := rfl
    rw [hreport] at hexec
    cases hexec
    have hsteps : Steps i s (s.report i (s.rest[0]?.getD i.eof) description none) :=
      .single (.report ..)
    have hs' := hsteps.sober ht.sober
    exact State.report_ne_empty hs'.errors hs'.going i (hs.next_sound i) description _
      ht.sober.errors

theorem reportUnclosed (description : String) : Stuck g o ts (reportUnclosed description) where
  run {i s t r us} heof hs hexec ht := by
    rw [exec_reportUnclosed] at hexec
    cases hexec
    have hsteps : Steps i s
      (s.report i (s.rest[0]?.getD i.eof) description s.blocks.head?) := .single (.report ..)
    have hs' := hsteps.sober ht.sober
    exact State.report_ne_empty hs'.errors hs'.going i (hs.next_sound i) description _
      ht.sober.errors

theorem fail (description : String) : Stuck g o ts (fail description : Parse α) :=
  (Stuck.reportHere description).bind
    (.bind (fun _ _ _ => .refl) fun t _ s _ => .single (.report s t description none)) fun _ => .giveUp

end Stuck

/-- At the seam the parenthesis is next. -/
theorem Stuck.peek {f : Token → Parse α} (h : Stuck g o [] (f g.close)) :
    Stuck g o [] (peek >>= f) :=
  .past fun {i s} _ hs => ⟨g.close, s, [], by rw [← hs.next_nil i]; exact exec_peekAt i s 0, hs, h⟩

namespace Settles

variable {p : Parse α} {f : α → Parse β}

/-! ## Looking -/

/-- The next token, where it is known. -/
theorem peek_cons {f : Token → Parse α} {x : Token} (h : Settles g o (x :: ts) (f x))
    (hf : ∀ t, Stepwise (f t)) : Settles g o (x :: ts) (peek >>= f) := by
  refine .glance (fun i s => exec_peekAt i s 0) hf fun {i s} _ hs _ => .inr ?_
  rw [hs.next_cons]
  exact ⟨rfl, h⟩

/-- The next token at the seam, where what follows does not tell the one from the other. -/
theorem peek_nil {f : Token → Parse α} (h : o.Admits g [] → f g.next = f g.close)
    (hclose : Settles g o [] (f g.close)) (hf : ∀ t, Stepwise (f t)) :
    Settles g o [] (peek >>= f) := by
  refine .glance (fun i s => exec_peekAt i s 0) hf fun {i s} _ hs hadmits => .inr ?_
  rw [hs.next_nil]
  exact ⟨h hadmits, hclose⟩

/-- The second token, of which nothing is asked at the seam unless nothing stops then. -/
theorem second {f : Token → Parse α} {x : Token} (h : ∀ y, Settles g o (x :: ts) (f y))
    (hseam : ts = [] → Stuck g o [x] (f g.close) ∨ f g.next = f g.close)
    (hf : ∀ t, Stepwise (f t)) : Settles g o (x :: ts) (peekAt 1 >>= f) := by
  refine .glance (fun i s => exec_peekAt i s 1) hf fun {i s} _ hs _ => ?_
  cases ts with
  | cons y ts =>
    rw [hs.rest]
    exact .inr ⟨rfl, h y⟩
  | nil =>
    rw [hs.rest]
    exact (hseam rfl).imp id fun heq => ⟨heq, h g.close⟩

/-- Something that does not matter. -/
theorem ignored (hexec : ∀ i s, ∃ a, exec p i s = (.ok a, s)) {q : Parse β}
    (hf : ∀ a, f a = q) (hq : Settles g o ts q) : Settles g o ts (p >>= f) where
  run {i s t r us} heof hs hrun ht := by
    obtain ⟨a, ha⟩ := hexec i s
    obtain ⟨b, hb⟩ := hexec i (s.onto (g.right ts))
    rw [exec_bind_ok i ha, hf] at hrun
    rw [exec_bind_ok i hb, hf]
    exact hq.run heof hs hrun ht

theorem check_cons (kind : Token.Kind) {x : Token} : Settles g o (x :: ts) (check kind) :=
  .peek_cons (.pure _) fun _ => .pure _

/-- What follows knows the next token if it is of the kind. -/
theorem checkThen {kind : Token.Kind} {f : Bool → Parse α} (hkind : o.sees kind = false)
    (htrue : ∀ x us, ts = x :: us → x.kind = kind → Settles g o ts (f true))
    (hfalse : Settles g o ts (f false)) (hf : ∀ b, Stepwise (f b)) :
    Settles g o ts (Grammar.check kind >>= f) := by
  refine .glance (fun i s => exec_check i s kind) hf fun {i s} _ hs hadmits => .inr ?_
  cases ts with
  | nil =>
    obtain ⟨hclose, hnext⟩ := hadmits rfl
    have hright : ((s.onto (g.right [])).rest[0]?.getD i.eof).kind = g.next.kind := rfl
    rw [hright, hs.next_nil, beq_false_of_ne (Outlook.ne_of_sees hclose hkind),
      beq_false_of_ne (Outlook.ne_of_sees hnext hkind)]
    exact ⟨rfl, hfalse⟩
  | cons x ts =>
    rw [hs.next_cons]
    by_cases hx : x.kind = kind
    · rw [beq_iff_eq.2 hx]
      exact ⟨congrArg f (beq_iff_eq.2 hx), htrue x ts rfl hx⟩
    · rw [beq_false_of_ne hx]
      exact ⟨congrArg f (beq_false_of_ne hx), hfalse⟩

theorem check {kind : Token.Kind} (hkind : o.sees kind = false) :
    Settles g o ts (check kind) := by
  have hcheck : Settles g o ts (Grammar.check kind >>= Pure.pure) :=
    .checkThen hkind (fun _ _ _ _ => .pure _) (.pure _) fun _ => .pure _
  rwa [bind_pure] at hcheck

theorem checkAt_one {kind : Token.Kind} (hkind : Outlook.type.sees kind = false) {x : Token} :
    Settles g o (x :: ts) (checkAt 1 kind) := by
  refine .second (fun _ => .pure _) (fun _ => .inr ?_) fun _ => .pure _
  rw [beq_false_of_ne (Outlook.ne_of_sees g.sees_close hkind),
    beq_false_of_ne (Outlook.ne_of_sees g.sees_next hkind)]

/-- The first token, and the second if the first is of the kind. -/
theorem checkTwo {kind kind' : Token.Kind} {f : Bool → Bool → Parse α}
    (hkind : o.sees kind = false) (h : ∀ b c us, Settles g o us (f b c))
    (hfalse : ∀ c, f false c = f false false)
    (hsecond : ∀ x : Token, x.kind = kind →
      Stuck g o [x] (f true (g.close.kind == kind')) ∨ Outlook.type.sees kind' = false)
    (hf : ∀ b c, Stepwise (f b c)) :
    Settles g o ts (Grammar.check kind >>= fun b => Grammar.checkAt 1 kind' >>= fun c => f b c) := by
  have hlater : ∀ b, Stepwise (Grammar.checkAt 1 kind' >>= fun c => f b c) := fun b =>
    .bind (Alike.checkAt 1 kind').stepwise (hf b)
  refine .checkThen hkind (fun x us hts hx => ?_) (.ignored (fun _ _ => ⟨_, rfl⟩) hfalse (h ..)) hlater
  subst hts
  refine .glance (fun _ _ => rfl) (hf true) fun {i s} _ hs _ => ?_
  rw [hs.rest]
  cases us with
  | cons y ts => exact .inr ⟨rfl, h ..⟩
  | nil =>
    refine (hsecond x hx).imp id fun hkind' => ⟨?_, h ..⟩
    show f true (g.next.kind == kind') = f true (g.close.kind == kind')
    rw [beq_false_of_ne (Outlook.ne_of_sees g.sees_close hkind'),
      beq_false_of_ne (Outlook.ne_of_sees g.sees_next hkind')]

theorem startPos : Settles g o ts startPos := by
  cases ts with
  | cons x ts => exact .peek_cons (.pure _) fun _ => .pure _
  | nil =>
    refine .peek_nil (fun _ => ?_) (.pure _) fun _ => .pure _
    rw [g.span, g.line]

/-- Behind the part something was read. -/
theorem previous : Settles g o ts previous := by
  refine .look (v := fun i s => s.read.back?.getD (s.rest[0]?.getD i.eof)) exec_previous
    fun {i s} hs _ => ?_
  cases ts with
  | cons x ts =>
    rw [hs.next_cons]
    rfl
  | nil =>
    have hread : s.read.toList ≠ [] := by
      rw [← List.append_nil s.read.toList, hs.tokens]
      exact g.some
    obtain ⟨x, hx⟩ : ∃ x, s.read.back? = some x := by
      rw [← Array.getLast?_toList]
      exact ⟨_, List.getLast?_eq_some_getLast hread⟩
    show (s.read.back?).getD _ = _
    rw [hx]
    rfl

theorem spanFrom (start : Nat) : Settles g o ts (spanFrom start) :=
  .get (fun _ _ => rfl) (fun _ => .ite (.pure _) (.bind .previous (fun _ _ => .pure _)
    Alike.previous.stepwise fun _ => .pure _)) fun _ => .ite (.pure _)
      (.bind Alike.previous.stepwise fun _ => .pure _)

/-! ## Reading -/

theorem advance : Settles g o ts advance := by
  cases ts with
  | nil => exact Stuck.advance.settles
  | cons x ts =>
    constructor
    intro i s t r us heof hs hexec ht
    have hright : (s.onto (g.right (x :: ts))).rest = x :: g.right ts := rfl
    rw [exec_advance, hs.rest] at hexec
    rw [exec_advance, hright]
    simp only [Seam.left, List.cons_append] at hexec
    by_cases hkind : x.kind = .eof
    · simp only [hkind, if_true] at hexec ⊢
      cases hexec
      obtain rfl : x :: ts = us := Seam.left_inj (hs.rest.symm.trans ht.rest)
      rfl
    · simp only [hkind, if_false] at hexec ⊢
      cases hexec
      obtain rfl : ts = us := Seam.left_inj ht.rest
      rfl

theorem eat {kind : Token.Kind} (hkind : o.sees kind = false ∨ kind = .rightParen) :
    Settles g o ts (eat kind) := by
  have hread : Stepwise (do let _ ← Grammar.advance; return true) :=
    .bind .advance fun _ => .pure _
  have hrun : Settles g o ts (do let _ ← Grammar.advance; return true) :=
    .bind .advance (fun _ _ => .pure _) .advance fun _ => .pure _
  have hstep : ∀ b, Stepwise (if b = true then (do let _ ← Grammar.advance; return true)
    else return false) := fun _ => .ite hread (.pure _)
  refine .glance (fun i s => exec_check i s kind) hstep fun {i s} _ hs hadmits => ?_
  cases ts with
  | cons x ts =>
    rw [hs.next_cons]
    exact .inr ⟨rfl, .ite hrun (.pure _)⟩
  | nil =>
    rw [hs.next_nil]
    rcases hkind with hkind | rfl
    · obtain ⟨hclose, hnext⟩ := hadmits rfl
      have hright : ((s.onto (g.right [])).rest[0]?.getD i.eof).kind = g.next.kind := rfl
      rw [hright, beq_false_of_ne (Outlook.ne_of_sees hclose hkind),
        beq_false_of_ne (Outlook.ne_of_sees hnext hkind)]
      exact .inr ⟨rfl, .ite hrun (.pure _)⟩
    · rw [g.close_kind]
      exact .inl (Stuck.advance.bind .advance fun _ => .pure _)

end Settles

namespace Stuck

variable {p : Parse α} {f : α → Parse β}

/-- To look at something comes first. -/
theorem look {v : Input → State → α} (hexec : ∀ i s, exec p i s = (.ok (v i s), s))
    (hf : ∀ a, Stuck g o ts (f a)) : Stuck g o ts (p >>= f) :=
  .past fun _ hs => ⟨_, _, _, hexec _ _, hs, hf _⟩

theorem consume (kind : Token.Kind) (description : String) :
    Stuck g o [] (consume kind description) := by
  refine .look (fun i s => exec_check i s kind) fun b => ?_
  cases b with
  | true => exact .advance
  | false => exact .fail description

/-- A name alone is no more than the part. -/
theorem consumeName (description : String) (hts : ts.length ≤ 1) :
    Stuck g .within ts (consumeName description) := by
  refine Stuck.bind ?_ (.consume _ description) fun _ => .pure _
  match ts with
  | [] => exact .consume _ description
  | [x] =>
    refine .past fun {i s} _ hs => ⟨_, s, _, exec_check i s _, hs, ?_⟩
    rw [hs.next_cons]
    split
    next hx => exact .advance_one (by rw [beq_iff_eq.1 hx]; decide)
    next => exact .fail description

theorem consumeClose (kind : Token.Kind) (description : String) :
    Stuck g o [] (consumeClose kind description) := by
  refine .look (fun i s => exec_check i s kind) fun b => ?_
  cases b with
  | true => exact Stuck.advance.bind .advance fun _ => .pure _
  | false => exact (Stuck.reportUnclosed description).bind (.reportUnclosed description) fun _ =>
      .giveUp

/-- A brace that is missing has something to close behind it. -/
theorem closeBlock {f : Bool → Parse α} (description : String) (hf : ∀ b, Stepwise (f b))
    (h : Stuck g o [] (f false)) : Stuck g o [] (closeBlock description >>= f) := by
  have heat : ∀ {i s}, i.eof.kind = .eof → g.At s [] →
      exec (eat .rightBrace) i s = (.ok false, s) := by
    intro i s heof hs
    rw [exec_eat i s (by decide) heof, hs.rest]
    exact if_neg (by rw [g.close_kind]; decide)
  rw [Grammar.closeBlock, bind_assoc]
  refine .past fun heof hs => ⟨false, _, [], heat heof hs, hs, ?_⟩
  simp only [Bool.false_eq_true, if_false, bind_assoc]
  refine .peek <| .past fun {i s} _ hs => ⟨s, s, [], exec_get i s, hs, ?_⟩
  split
  · rw [bind_assoc]
    exact .past fun {i s} _ hs => ⟨(), _, [], exec_modify i s _, ⟨hs.rest, hs.tokens, hs.bare⟩, h⟩
  · rw [bind_assoc]
    refine .past fun {i s} _ hs => ⟨(), _, [], exec_modify i s _, ⟨hs.rest, hs.tokens, hs.bare⟩, ?_⟩
    rw [bind_assoc]
    exact (Stuck.reportUnclosed description).bind (.reportUnclosed description) fun _ => hf false

end Stuck

namespace Settles

variable {p : Parse α} {f : α → Parse β}

theorem consume (kind : Token.Kind) (description : String) :
    Settles g o ts (consume kind description) := by
  cases ts with
  | nil => exact (Stuck.consume kind description).settles
  | cons x ts =>
    exact .bind (.check_cons kind) (fun _ _ => .ite .advance (Stuck.fail description).settles)
      (Alike.check kind).stepwise fun _ => .ite .advance (.fail description)

theorem consumeClose (kind : Token.Kind) (description : String) :
    Settles g o ts (consumeClose kind description) := by
  cases ts with
  | nil => exact (Stuck.consumeClose kind description).settles
  | cons x ts =>
    have hmissing : ∀ us, Stuck g o us (do
        reportUnclosed description
        (Grammar.giveUp : Parse Unit)) := fun _ =>
      (Stuck.reportUnclosed description).bind (.reportUnclosed description) fun _ => .giveUp
    exact .bind (.check_cons kind) (fun _ us => .ite
        (.bind .advance (fun _ _ => .pure _) .advance fun _ => .pure _) (hmissing us).settles)
      (Alike.check kind).stepwise fun _ => .ite (.bind .advance fun _ => .pure _)
        (.bind (.reportUnclosed description) fun _ => .giveUp)

theorem reportAt (t : Token) (description : String) : Settles g o ts (reportAt t description) where
  run {i s t' r us} _ hs hexec ht := by
    rw [exec_reportAt] at hexec ⊢
    cases hexec
    have hrest : (s.report i t description none).rest = s.rest := by
      obtain ⟨_, _, _, heq⟩ := s.report_eq i t description none
      rw [heq]
    obtain rfl : ts = us := Seam.left_inj (hs.rest.symm.trans (hrest.symm.trans ht.rest))
    rw [State.report_onto]

end Settles

/-- What is done about a closing brace that is missing in front of an offset. -/
abbrev missBrace (description : String) (offset : Nat) : Parse Bool := do
  if (← get).unclosedAt = some offset then
    modify ({ · with lastError := some description })
  else
    modify ({ · with unclosedAt := some offset })
    reportUnclosed description
  return false

theorem Stepwise.missBrace (description : String) (offset : Nat) :
    Stepwise (missBrace description offset) :=
  .bind .get fun _ => .ite (.bind (Alike.noteError description).stepwise fun _ => .pure _)
    (.bind (Alike.noteUnclosed offset).stepwise fun _ =>
      .bind (.reportUnclosed description) fun _ => .pure _)

namespace Settles

variable {p : Parse α} {f : α → Parse β}

theorem missBrace (description : String) (offset : Nat) :
    Settles g o ts (missBrace description offset) := by
  refine .get (fun _ _ => rfl) (fun _ => .ite ?_ ?_) fun _ => ?_
  · exact .bind (.change (fun _ => rfl) fun _ _ => rfl) (fun _ _ => .pure _)
      (Alike.noteError description).stepwise fun _ => .pure _
  · exact .bind (.change (fun _ => rfl) fun _ _ => rfl)
      (fun _ _ => .bind (Stuck.reportUnclosed description).settles (fun _ _ => .pure _)
        (.reportUnclosed description) fun _ => .pure _)
      (Alike.noteUnclosed offset).stepwise fun _ => .bind (.reportUnclosed description) fun _ =>
        .pure _
  · exact .ite (.bind (Alike.noteError description).stepwise fun _ => .pure _)
      (.bind (Alike.noteUnclosed offset).stepwise fun _ => .bind (.reportUnclosed description)
        fun _ => .pure _)

/-- A brace that is missing where a part ends is reported there, or was before. -/
theorem closeBlock (description : String) : Settles g o ts (closeBlock description) := by
  have hmiss (t : Token) : Stepwise (Grammar.missBrace description t.span.start) :=
    .missBrace description _
  refine .bind (.eat (.inl (Outlook.sees_eq_false rfl))) (fun _ us => .ite (.pure _) ?_)
    (Alike.eat _).stepwise fun _ => .ite (.pure _) (.bind Alike.peek.stepwise hmiss)
  cases us with
  | nil => exact .peek_nil (fun _ => by simp only [g.span]) (.missBrace description _) hmiss
  | cons x us => exact .peek_cons (.missBrace description _) hmiss

/-! ## Loops and what closes them -/

/-- What cannot be at the seam comes last. -/
theorem closing {Q : α → Prop} (hQ : Yields Q p) (hp : Settles g .within ts p)
    (hf : ∀ a us, Q a → Settles g o us (f a)) (hstuck : ∀ a, Q a → Stuck g o [] (f a))
    (hp' : Stepwise p) (hf' : ∀ a, Stepwise (f a)) : Settles g o ts (p >>= f) where
  run {i s t r us} heof hs hexec ht := by
    rcases ht.first hs heof hp' hf' hexec with
      ⟨e, rfl, hfirst, hus⟩ | ⟨a, u, vs, hfirst, hu, hstop, hrest⟩
    · have hright := hp.run heof hs hfirst
        ⟨ht.rest, ht.sober, fun hnil => absurd hnil hus, fun hnil => absurd hnil hus⟩
      rw [exec_bind, hright]
    · have ha := hQ i s a u hfirst
      have hne : vs ++ us ≠ [] := fun hnil => (hstuck a ha).run heof (hnil ▸ hu) hrest ht
      rw [exec_bind_ok i (hp.run heof hs hfirst
        ⟨hstop.rest, hstop.sober, fun hnil => absurd hnil hne, hstop.yields⟩)]
      exact (hf a _ ha).run heof hu hrest ht

theorem spend : Settles g o ts spend := .change (fun _ => rfl) fun _ _ => rfl

theorem repeatUpTo {σ : Type} {turn : σ → Parse (σ × Bool)} (h : ∀ x us, Settles g o us (turn x))
    (h' : ∀ x, Stepwise (turn x)) (bound : Nat) (x : σ) :
    Settles g o ts (repeatUpTo turn bound x) := by
  induction bound generalizing x ts with
  | zero => exact .bind .spend (fun _ _ => .pure x) Alike.spend.stepwise fun _ => .pure x
  | succ bound ih =>
    exact .bind (h x ts) (fun (y, _) _ => .ite (ih y) (.pure y)) (h' x) fun (y, _) =>
      .ite (.repeatUpTo h' bound y) (.pure y)

theorem bodyEnds : Settles g o ts bodyEnds := by
  have hlast : ∀ a b : Bool, Stepwise (do return a || b || (← MonadState.get).halted) := fun _ _ =>
    .bind .get fun _ => .pure _
  have hend : ∀ us, Settles g o us atEnd := fun _ => .check (Outlook.sees_eq_false rfl)
  exact .bind (.check (Outlook.sees_eq_false rfl)) (fun _ us => .bind (hend us) (fun _ _ =>
      .get (fun _ _ => rfl) (fun _ => .pure _) fun _ => .pure _) Alike.atEnd.stepwise (hlast _))
    (Alike.check _).stepwise fun _ => .bind Alike.atEnd.stepwise (hlast _)

end Settles

/-- One turn of the reading of a body, and whether it goes on. -/
abbrev turnOf {σ : Type} (next : σ → Parse (σ × Bool)) (x : σ) : Parse (σ × Bool) := do
  if ← bodyEnds then return (x, false)
  next x

theorem Stepwise.turnOf {σ : Type} {next : σ → Parse (σ × Bool)} (h : ∀ x, Stepwise (next x))
    (x : σ) : Stepwise (turnOf next x) :=
  .bind Alike.bodyEnds.stepwise fun _ => .ite (.pure _) (h x)

/-- The loop over the parts of a body does not stop at the seam. -/
theorem Stuck.bodyLoop {σ : Type} {next : σ → Parse (σ × Bool)}
    (hnext : ∀ x, Yields (fun r => r.2 = true) (next x)) (h : ∀ x, Stepwise (next x)) (bound : Nat)
    (x : σ) : Stuck g o [] (repeatUpTo (turnOf next) bound x) := by
  induction bound generalizing x with
  | zero =>
    constructor
    intro i s t r us _ hs hexec ht
    cases hexec
    exact nomatch ht.sober.unspent
  | succ bound ih =>
    have hmore : ∀ r : σ × Bool, r.2 = true → Stuck g o [] (if r.2 = true then
        repeatUpTo (turnOf next) bound r.1 else return r.1) := fun r hr => by
      rw [if_pos hr]
      exact ih r.1
    have hmore' : ∀ r : σ × Bool, Stepwise (if r.2 = true then
        repeatUpTo (turnOf next) bound r.1 else return r.1) := fun r =>
      .ite (.repeatUpTo (.turnOf h) bound r.1) (.pure _)
    constructor
    intro i s t r us heof hs hexec ht
    have hsteps : Steps i s t := (Stepwise.repeatUpTo (.turnOf h) _ x).run heof hexec
    have hends : exec bodyEnds i s = (.ok ((s.rest[0]?.getD i.eof).kind == .rightBrace ||
      (s.rest[0]?.getD i.eof).kind == .eof || s.halted), s) := rfl
    rw [repeatUpTo, turnOf, bind_assoc, exec_bind_ok i hends, hs.next_nil, g.close_kind,
      (hsteps.sober ht.sober).going] at hexec
    exact (Stuck.behind (hnext x) (h x) hmore' hmore).run heof hs hexec ht

namespace Settles

variable {p : Parse α} {f : α → Parse β}

/-- A loop over the parts of a body, which stops in front of its brace. -/
theorem bodyLoop {σ : Type} {next : σ → Parse (σ × Bool)}
    (hnext : ∀ x, Yields (fun r => r.2 = true) (next x))
    (h : ∀ x us, Settles g .within us (next x)) (h' : ∀ x, Stepwise (next x)) (bound : Nat)
    (x : σ) : Settles g o ts (Grammar.repeatUpTo (turnOf next) bound x) := by
  induction bound generalizing x ts with
  | zero => exact .bind .spend (fun _ _ => .pure x) Alike.spend.stepwise fun _ => .pure x
  | succ bound ih =>
    have hmore' : ∀ r : σ × Bool, Stepwise (if r.2 = true then
        Grammar.repeatUpTo (turnOf next) bound r.1 else return r.1) := fun r =>
      .ite (.repeatUpTo (.turnOf h') bound r.1) (.pure _)
    rw [Grammar.repeatUpTo, turnOf, bind_assoc]
    refine .bind .bodyEnds (fun ends us => ?_) Alike.bodyEnds.stepwise fun ends => ?_
    · cases ends with
      | true => exact .pure x
      | false =>
        refine .closing (hnext x) (h x us) (fun r us hr => ?_) (fun r hr => ?_) (h' x) hmore'
        · exact .ite (ih r.1) (.pure _)
        · obtain ⟨y, _⟩ := r
          cases hr
          exact .bodyLoop hnext h' bound y
    · cases ends with
      | true => exact .pure x
      | false => exact .bind (h' x) hmore'

/-! ## The tree, bodies and recovery -/

theorem onTree (f : Tree.Builder → Tree.Builder) : Settles g o ts (onTree f) :=
  .change (fun _ => rfl) fun _ _ => rfl

/-- A change of anything but the tokens comes first. -/
theorem changed {f : State → State} {q : Parse β}
    (hf : ∀ s, (f s).rest = s.rest ∧ (f s).read = s.read ∧ (s.tree = none → (f s).tree = none))
    (honto : ∀ s ts, f (s.onto ts) = (f s).onto ts) (hq : Settles g o ts q) :
    Settles g o ts (modify f >>= fun _ => q) where
  run {i s t r us} heof hs hexec ht := by
    obtain ⟨hrest, hread, hbare⟩ := hf s
    rw [exec_bind_ok i (exec_modify i s f)] at hexec
    rw [exec_bind_ok i (exec_modify i _ f), honto]
    exact hq.run heof ⟨hrest.trans hs.rest, hread ▸ hs.tokens, hbare hs.bare⟩ hexec ht

/-- A change of the tree comes first. -/
theorem edited {q : Parse β} (f : Tree.Builder → Tree.Builder) (hq : Settles g o ts q) :
    Settles g o ts (Grammar.onTree f >>= fun _ => q) :=
  .changed (fun s => ⟨rfl, rfl, fun hs => by simp [State.mapTree, hs]⟩) (fun _ _ => rfl) hq

theorem inNode (hp : Settles g o ts p) (hp' : Stepwise p) (kind : Tree.Kind) :
    Settles g o ts (inNode kind p) :=
  .edited _ (.bind hp (fun _ _ => .bind (.onTree _) (fun _ _ => .pure _) (.onTree .finish) fun _ =>
    .pure _) hp' fun _ => .bind (.onTree .finish) fun _ => .pure _)

theorem inNodeAt (hp : Settles g o ts p) (hp' : Stepwise p) (c : Option Tree.Checkpoint)
    (kind : Tree.Kind) : Settles g o ts (inNodeAt c kind p) := by
  cases c with
  | none => exact .inNode hp hp' kind
  | some c =>
    exact .edited _ (.bind hp (fun _ _ => .bind (.onTree _) (fun _ _ => .pure _) (.onTree .finish)
      fun _ => .pure _) hp' fun _ => .bind (.onTree .finish) fun _ => .pure _)

theorem inBody (hp : Settles g o ts p) (hp' : Stepwise p) (kind : String) (brace : Token) :
    Settles g o ts (inBody kind brace p) :=
  .changed (fun _ => ⟨rfl, rfl, id⟩) (fun _ _ => rfl) <| .bind hp (fun _ _ =>
    .bind (.change (fun _ => rfl) fun _ _ => rfl) (fun _ _ => .pure _)
      (.change fun _ _ => .single (.context ..)) fun _ => .pure _) hp' fun _ =>
    .bind (.change fun _ _ => .single (.context ..)) fun _ => .pure _

theorem deeper (hp : Settles g o ts p) (hp' : Stepwise p) : Settles g o ts (deeper p) :=
  .changed (fun _ => ⟨rfl, rfl, id⟩) (fun _ _ => rfl) <| .bind hp (fun _ _ =>
    .bind (.change (fun _ => rfl) fun _ _ => rfl) (fun _ _ => .pure _)
      (.change fun _ _ => .single (.context ..)) fun _ => .pure _) hp' fun _ =>
    .bind (.change fun _ _ => .single (.context ..)) fun _ => .pure _

/-- If the parser gives up then so does the whole. -/
theorem concurrently (hp : Settles g o ts p) : Settles g o ts (concurrently p) where
  run {i s t r us} heof hs hexec ht := by
    have hs' : g.At { s with concurrent := true } ts := ⟨hs.rest, hs.tokens, hs.bare⟩
    rw [exec_concurrently] at hexec ⊢
    rcases hrun : exec p i { s with concurrent := true } with ⟨e | a, u⟩
    all_goals
      rw [hrun] at hexec
      cases hexec
      have hright : exec p i { s.onto (g.right ts) with concurrent := true } =
          (_, u.onto (g.right us)) :=
        hp.run heof hs' hrun ⟨ht.rest, ⟨ht.sober.errors, ht.sober.going, ht.sober.unspent⟩,
          ht.admits, ht.yields⟩
      rw [hright]
      rfl

theorem attempt (hp : Settles g .within ts p) : Settles g .within ts (attempt p) where
  run {i s t r us} heof hs hexec ht := by
    have hne : us ≠ [] := fun hus => nomatch (ht.admits hus).1
    rw [exec_attempt] at hexec ⊢
    rcases hrun : exec p i s with ⟨e | a, u⟩
    all_goals
      rw [hrun] at hexec
      cases hexec
      rw [hp.run heof hs hrun ⟨ht.rest, ht.sober, ht.admits, fun hus => absurd hus hne⟩]

/-- To go back to a place comes first. -/
theorem returned {q : Parse β} (place : Place) (hq : Settles g o ts q) :
    Settles g o ts ((modify (·.returnTo place) : Parse Unit) >>= fun _ => q) :=
  .changed (fun s => ⟨rfl, rfl, fun hs => by simp [State.returnTo, hs]⟩) (fun _ _ => rfl) hq

theorem recover {skip : Bool → Parse Unit}
    (hskip : ∀ progress us, Settles g o us (skip progress))
    (hskip' : ∀ progress, Stepwise (skip progress)) (place : Place) :
    Settles g o ts (recover skip place) := by
  have hrest : ∀ us, Settles g o us (do if !(← MonadState.get).halted then
      skip ((← MonadState.get).position > place.position)) := fun _ =>
    .get (fun _ _ => rfl) (fun _ => .ite (.get (fun _ _ => rfl) (fun _ => hskip ..) fun _ =>
      hskip' _) (.pure _)) fun _ => .ite (.bind .get fun _ => hskip' _) (.pure _)
  have hrest' : Stepwise (do if !(← MonadState.get).halted then
      skip ((← MonadState.get).position > place.position)) :=
    .bind .get fun _ => .ite (.bind .get fun _ => hskip' _) (.pure _)
  refine .returned place (.inNodeAt (.get (fun _ _ => rfl) (fun s => ?_) fun s => ?_)
    (.bind .get fun s => ?_) _ _)
  all_goals
    dsimp only
    split
  · exact .edited _ (hrest ts)
  · exact hrest ts
  all_goals
  · first
    | exact .bind (.onTree (.markError _)) fun _ => hrest'
    | exact hrest'

theorem recovering {skip : Bool → Parse Unit}
    (hskip : ∀ progress us, Settles g .within us (skip progress))
    (hskip' : ∀ progress, Stepwise (skip progress)) (hp : Settles g .within ts p)
    (hp' : Stepwise p) : Settles g .within ts (recovering skip p) :=
  .get (fun _ _ => rfl) (fun _ => .bind (.attempt hp) (fun _ _ =>
      .ite (.bind (.recover hskip hskip' _) (fun _ _ => .pure _) (.recover hskip' _) fun _ => .pure _)
        (.pure _)) hp'.attempt fun _ => .ite (.bind (.recover hskip' _) fun _ => .pure _) (.pure _))
    fun _ => .bind hp'.attempt fun _ => .ite (.bind (.recover hskip' _) fun _ => .pure _) (.pure _)

end Settles

end

end LimitSyntax.Grammar
