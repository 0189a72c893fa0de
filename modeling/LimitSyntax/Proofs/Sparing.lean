import LimitSyntax.Proofs.ParseSteps

/-!
# Runs that meet no bound

Calls are nested and loops are repeated up to bounds only, which are there so that every parser is a
total function. A run that meets no bound is a row of moves (`Grammar.Move`): a step that leaves
`spent` alone, and that reports a token only if it is the next one or was read before.

`Sparing K n p c` says that `p`, started at a place `K` with at most `n` tokens left, makes such a
run, and that it has read a token if it yields a value `a` with `c a`. A rule calls another one
through `Rules`, and a loop takes another turn, only after a token was read. So `n` goes down with
every call, and is at last too small for a token to be there.
-/

namespace LimitSyntax.Grammar

open Relation

/-- A step that meets no bound and cites a token at hand. -/
inductive Move (i : Input) : State → State → Prop where
  | take (s : State) (t : Token) (rest : List Token) (hrest : s.rest = t :: rest)
      (hkind : t.kind ≠ .eof) : Move i s (s.take t rest)
  | retake (s : State) (t : Token) (rest : List Token) (hrest : s.rest = t :: rest)
      (hkind : t.kind ≠ .eof) : Move i s (s.take t rest).back
  | edit (s : State) (f : Tree.Builder → Tree.Builder) (hf : Tree.Builder.Edit f) :
      Move i s (s.mapTree f)
  | report (s : State) (t : Token) (description : String) (block : Option OpenBlock)
      (ht : t ∈ s.read.toList ∨ t = s.rest[0]?.getD i.eof) :
      Move i s (s.report i t description block)
  | context (s : State) (blocks : List OpenBlock) (depth : Nat) (concurrent : Bool)
      (lastError : Option String) (unclosedAt : Option Nat) :
      Move i s { s with blocks, depth, concurrent, lastError, unclosedAt }

/-- Any number of moves. -/
abbrev Moves (i : Input) : State → State → Prop := ReflTransGen (Move i)

section
variable {i : Input} {s t : State}

theorem Move.step (h : Move i s t) : Step i s t := by
  cases h with
  | take u rest hrest hkind => exact .take s u rest hrest hkind
  | retake u rest hrest hkind => exact .retake s u rest hrest hkind
  | edit f hf => exact .edit s f hf
  | report u description block => exact .report s u description block
  | context blocks depth concurrent lastError unclosedAt =>
    exact .context s blocks depth concurrent lastError unclosedAt

theorem Moves.steps (h : Moves i s t) : Steps i s t := by
  induction h with
  | refl => exact .refl
  | tail _ hmove ih => exact .tail ih hmove.step

theorem Moves.length_le (h : Moves i s t) : t.rest.length ≤ s.rest.length :=
  h.steps.rest_suffix.length_le

theorem Move.spent_eq (h : Move i s t) : t.spent = s.spent := by
  cases h with
  | take | edit | context => rfl
  | retake u rest hrest => rw [State.back_take]
  | report u description block =>
    obtain ⟨_, _, _, heq⟩ := s.report_eq i u description block
    rw [heq]

/-- No move meets a bound. -/
theorem Moves.spent_eq (h : Moves i s t) : t.spent = s.spent := by
  induction h with
  | refl => rfl
  | tail _ hmove ih => exact hmove.spent_eq.trans ih

theorem Move.read_subset (h : Move i s t) : s.read.toList ⊆ t.read.toList := by
  intro u hu
  cases h with
  | take => simp_all [State.take]
  | retake => simpa [State.back_take] using hu
  | edit | context => exact hu
  | report v description block =>
    obtain ⟨_, _, _, heq⟩ := s.report_eq i v description block
    rwa [heq]

/-- What was read stays read. -/
theorem Moves.read_subset (h : Moves i s t) : s.read.toList ⊆ t.read.toList := by
  induction h with
  | refl => exact List.Subset.refl _
  | tail _ hmove ih => exact List.Subset.trans ih hmove.read_subset

/-- What is kept of the messages by every report that cites a token of the source is kept by
moves. -/
theorem Moves.keeps {T : Token → Prop} {Q : Diagnostic.Collector → Prop} (h : Moves i s t)
    (htokens : ∀ u ∈ s.read.toList ++ s.rest, T u) (heof : T i.eof)
    (hreport : ∀ (v : State) (u : Token) (description : String) (block : Option OpenBlock),
      T u → Q v.errors → Q (v.report i u description block).errors)
    (hs : Q s.errors) : Q t.errors := by
  induction h with
  | refl => exact hs
  | @tail v _ hmoves hmove ih =>
    -- a row of moves has the tokens it starts with, some of them read by now
    rw [← (Moves.steps hmoves).tokens_eq] at htokens
    cases hmove with
    | take | edit | context => exact ih
    | retake =>
      rw [State.back_take]
      exact ih
    | report u description block hu =>
      refine hreport v u description block ?_ ih
      rcases hu with hread | rfl
      · exact htokens u (List.mem_append_left _ hread)
      · cases hrest : v.rest with
        | nil => exact heof
        | cons w rest => exact htokens w (by simp [hrest])

end

/-! ## The judgement -/

/-- The token that is read next. -/
abbrev Input.next (i : Input) (s : State) : Token := s.rest[0]?.getD i.eof

/-- The next token is of such a kind. -/
def Before (κ : Token.Kind → Prop) (i : Input) (s : State) : Prop :=
  κ (s.rest[0]?.getD i.eof).kind

/-- Any place. -/
abbrev Anywhere : Input → State → Prop := Before fun _ => True

/-- Any place but the end. -/
abbrev NotAtEnd : Input → State → Prop := Before (· ≠ .eof)

/-- From such a place, with at most `n` tokens left, the parser meets no bound, and reads a token if
it yields such a value. -/
structure Sparing {α : Type} (K : Input → State → Prop) (n : Nat) (p : Parse α) (c : α → Bool) :
    Prop where
  run : ∀ i s, i.eof.kind = .eof → K i s → s.rest.length ≤ n →
    Moves i s (exec p i s).2 ∧
      ∀ a t, exec p i s = (.ok a, t) → t.rest.length + (c a).toNat ≤ s.rest.length

/-- The rules meet no bound inside a rule that starts with at most `n` tokens left. -/
structure Rules.Sparing (n : Nat) (rules : Rules) : Prop where
  bound : n < rules.bound
  call : ∀ {α : Type} (r : Rule α) {k : Nat}, autoParam (k < n) Nat.dfold._auto_1 →
    Grammar.Sparing Anywhere k (rules.call r) fun _ => false

namespace Sparing

section
variable {α β : Type} {K : Input → State → Prop} {κ : Token.Kind → Prop} {n : Nat} {p q : Parse α}
  {c : α → Bool} {f : α → Parse β} {e : β → Bool}

/-! ## Values -/

theorem pure {a : α} (h : autoParam (c a = false) Std.Slice.Self.eq._autoParam) :
    Sparing K n (Pure.pure a) c := by
  refine ⟨fun i s _ _ _ => ?_⟩
  refine ⟨.refl, fun a' t hexec => ?_⟩
  cases hexec
  rw [show c a = false from h]
  exact Nat.le_refl _

theorem giveUp : Sparing K n (giveUp : Parse α) c :=
  ⟨fun _ _ _ _ _ => ⟨.refl, fun _ _ hexec => by cases hexec⟩⟩

theorem mono {m : Nat} (h : Sparing K n p c) (hm : m ≤ n) : Sparing K m p c :=
  ⟨fun i s heof hK hlen => h.run i s heof hK (Nat.le_trans hlen hm)⟩

/-- What holds at more places. -/
theorem at' {K' : Input → State → Prop} (h : Sparing K n p c) (hK : ∀ {i s}, K' i s → K i s) :
    Sparing K' n p c := ⟨fun i s heof hK' hlen => h.run i s heof (hK hK') hlen⟩

theorem here (h : Sparing Anywhere n p c) : Sparing K n p c := h.at' fun _ => trivial

/-- At a token that is known not to be the end. -/
theorem sure {kind : Token.Kind} (h : Sparing NotAtEnd n p c)
    (hkind : autoParam (kind ≠ .eof) Rat.reduced._autoParam) :
    Sparing (Before (· = kind)) n p c := by
  refine h.at' fun {i s} hnext => ?_
  have heq : (s.rest[0]?.getD i.eof).kind = kind := hnext
  intro heof
  exact hkind (heq.symm.trans heof)

/-- Whether a token was read may be left open. -/
theorem any (h : Sparing K n p c) : Sparing K n p fun _ => false := by
  refine ⟨fun i s heof hK hlen => ?_⟩
  obtain ⟨hmoves, -⟩ := h.run i s heof hK hlen
  refine ⟨hmoves, fun a t hexec => ?_⟩
  rw [hexec] at hmoves
  exact hmoves.length_le

/-! ## Sequences -/

/-- `V` is known of a value and of the place where it is yielded. If the value tells that a token
was read, fewer tokens are left behind it. -/
theorem seq (V : α → Input → State → Prop) (hp : Sparing K n p c)
    (hV : ∀ {i s a t}, i.eof.kind = .eof → K i s → s.rest.length ≤ n → exec p i s = (.ok a, t) →
      V a i t)
    (hread : ∀ a, c a = true → ∀ k, k < n → Sparing (V a) k (f a) fun _ => false)
    (hnone : ∀ a, c a = false → Sparing (V a) n (f a) e) : Sparing K n (p >>= f) e := by
  refine ⟨fun i s heof hK hlen => ?_⟩
  obtain ⟨hmoves, hless⟩ := hp.run i s heof hK hlen
  rcases hexec : exec p i s with ⟨_ | a, t⟩
  · rw [exec_bind, hexec]
    rw [hexec] at hmoves
    exact ⟨hmoves, fun _ _ herror => by cases herror⟩
  rw [exec_bind_ok i hexec]
  rw [hexec] at hmoves
  have hle : t.rest.length ≤ s.rest.length := hmoves.length_le
  cases hc : c a with
  | false =>
    obtain ⟨hmoves', hless'⟩ :=
      (hnone a hc).run i t heof (hV heof hK hlen hexec) (Nat.le_trans hle hlen)
    exact ⟨hmoves.trans hmoves', fun b u hrun => Nat.le_trans (hless' b u hrun) hle⟩
  | true =>
    have hone : t.rest.length + 1 ≤ s.rest.length := by
      have := hless a t hexec
      rwa [hc] at this
    obtain ⟨hmoves', hless'⟩ :=
      (hread a hc t.rest.length (by omega)).run i t heof (hV heof hK hlen hexec) (Nat.le_refl _)
    refine ⟨hmoves.trans hmoves', fun b u hrun => ?_⟩
    have hle' : u.rest.length + 0 ≤ t.rest.length := hless' b u hrun
    have htwo := Bool.toNat_le (e b)
    omega

theorem bindTo (V : α → Input → State → Prop) (hp : Sparing K n p c)
    (hV : ∀ {i s a t}, i.eof.kind = .eof → K i s → s.rest.length ≤ n → exec p i s = (.ok a, t) →
      V a i t)
    (hf : ∀ a, Sparing (V a) n (f a) e) : Sparing K n (p >>= f) e :=
  hp.seq V hV (fun a _ _ hk => ((hf a).mono (Nat.le_of_lt hk)).any) fun a _ => hf a

theorem bind (hp : Sparing K n p c) (hf : ∀ a, Sparing Anywhere n (f a) e) :
    Sparing K n (p >>= f) e :=
  hp.bindTo (fun _ => Anywhere) (fun _ _ _ _ => trivial) hf

/-- A value that is at hand. -/
theorem given {a : α} (h : Sparing K n (f a) e) : Sparing K n (Pure.pure a >>= f) e :=
  ⟨fun i s heof hK hlen => h.run i s heof hK hlen⟩

theorem pastTo (V : α → Input → State → Prop) (hp : Sparing K n p fun _ => true)
    (hV : ∀ {i s a t}, i.eof.kind = .eof → K i s → s.rest.length ≤ n → exec p i s = (.ok a, t) →
      V a i t)
    (hf : ∀ k, k < n → ∀ a, Sparing (V a) k (f a) fun _ => false) : Sparing K n (p >>= f) e :=
  hp.seq V hV (fun a _ k hk => hf k hk a) fun _ hfalse => by cases hfalse

/-- Behind a token fewer tokens are left. -/
theorem past (hp : Sparing K n p fun _ => true)
    (hf : ∀ k, k < n → ∀ a, Sparing Anywhere k (f a) fun _ => false) : Sparing K n (p >>= f) e :=
  hp.pastTo (fun _ => Anywhere) (fun _ _ _ _ => trivial) hf

/-- A parser that tells whether it has read a token. -/
theorem whether {p : Parse Bool} {f : Bool → Parse β} (hp : Sparing K n p id)
    (htrue : ∀ k, k < n → Sparing Anywhere k (f true) fun _ => false)
    (hfalse : Sparing Anywhere n (f false) e) : Sparing K n (p >>= f) e := by
  refine hp.seq (fun _ => Anywhere) (fun _ _ _ _ => trivial) (fun b hb k hk => ?_) fun b hb => ?_
  · cases hb
    exact htrue k hk
  · cases hb
    exact hfalse

/-- A parser that has read a token if it yields something. -/
theorem whetherSome {p : Parse (Option α)} {f : Option α → Parse β}
    (hp : Sparing K n p Option.isSome)
    (hsome : ∀ k, k < n → ∀ a, Sparing Anywhere k (f (some a)) fun _ => false)
    (hnone : Sparing Anywhere n (f none) e) : Sparing K n (p >>= f) e := by
  refine hp.seq (fun _ => Anywhere) (fun _ _ _ _ => trivial) (fun o ho k hk => ?_) fun o ho => ?_
  · cases o with
    | none => cases ho
    | some a => exact hsome k hk a
  · cases o with
    | none => exact hnone
    | some a => cases ho

theorem ite {P : Prop} [Decidable P] (hp : P → Sparing K n p c) (hq : ¬ P → Sparing K n q c) :
    Sparing K n (if P then p else q) c := by
  split
  next h => exact hp h
  next h => exact hq h

/-- One of two parsers, and what follows both. -/
theorem branch {P : Prop} [Decidable P] (hp : Sparing K n p c) (hq : Sparing K n q fun _ => false)
    (hf : ∀ a, Sparing Anywhere n (f a) e) : Sparing K n (if P then p >>= f else q >>= f) e :=
  .ite (fun _ => hp.bind hf) fun _ => hq.bind hf

/-- A parser that runs only if something holds. -/
theorem guarded {P : Prop} [Decidable P] {q : Parse β} (hp : Sparing K n p fun _ => false)
    (hq : Sparing Anywhere n q e) : Sparing K n (if P then p >>= fun _ => q else q) e :=
  .ite (fun _ => .bind hp fun _ => hq) fun _ => hq.here

theorem map {g : α → β} (h : Sparing K n p c) : Sparing K n (g <$> p) fun _ => false := by
  rw [map_eq_pure_bind]
  exact h.bind fun _ => .pure

theorem mapPast {g : α → β} (h : Sparing K n p fun _ => true) : Sparing K n (g <$> p) e := by
  rw [map_eq_pure_bind]
  exact h.past fun _ _ _ => .pure

/-! ## Looking -/

/-- The parser changes nothing. -/
def Looks (p : Parse α) : Prop := ∀ i s, ∃ a, exec p i s = (.ok a, s)

theorem look (hp : Looks p) (hf : ∀ a, Sparing K n (f a) e) : Sparing K n (p >>= f) e := by
  refine ⟨fun i s heof hK hlen => ?_⟩
  obtain ⟨a, hexec⟩ := hp i s
  rw [exec_bind_ok i hexec]
  exact (hf a).run i s heof hK hlen

theorem Looks.bind {f : α → Parse β} (hp : Looks p) (hf : ∀ a, Looks (f a)) : Looks (p >>= f) := by
  intro i s
  obtain ⟨a, hexec⟩ := hp i s
  obtain ⟨b, hrest⟩ := hf a i s
  exact ⟨b, (exec_bind_ok i hexec f).trans hrest⟩

theorem Looks.pure (a : α) : Looks (Pure.pure a) := fun _ _ => ⟨a, rfl⟩

theorem Looks.peekAt (k : Nat) : Looks (peekAt k) := fun i s => ⟨_, exec_peekAt i s k⟩

theorem Looks.checkAt (k : Nat) (kind : Token.Kind) : Looks (checkAt k kind) :=
  .bind (.peekAt k) fun _ => .pure _

theorem Looks.get : Looks get := fun i s => ⟨_, exec_get i s⟩

theorem Looks.checkpoint : Looks checkpoint := fun _ _ => ⟨_, rfl⟩

theorem Looks.startPos : Looks startPos := fun _ _ => ⟨_, rfl⟩

theorem Looks.previous : Looks previous := fun i s => ⟨_, exec_previous i s⟩

theorem Looks.spanFrom (start : Nat) : Looks (spanFrom start) := by
  refine .bind .get fun s => ?_
  split
  · exact .pure _
  · exact .bind .previous fun _ => .pure _

/-- What is seen says that this is not the end. -/
theorem lookFor {p : Parse Bool} {f : Bool → Parse β} (hp : Looks p)
    (hseen : ∀ i s, exec p i s = (.ok true, s) → NotAtEnd i s)
    (htrue : Sparing NotAtEnd n (f true) e) (hfalse : Sparing K n (f false) e) :
    Sparing K n (p >>= f) e := by
  refine ⟨fun i s heof hK hlen => ?_⟩
  obtain ⟨b, hexec⟩ := hp i s
  rw [exec_bind_ok i hexec]
  cases b with
  | false => exact hfalse.run i s heof hK hlen
  | true => exact htrue.run i s heof (hseen i s hexec) hlen

theorem peek {f : Token → Parse β} (hf : ∀ t, κ t.kind → Sparing (Before (· = t.kind)) n (f t) e) :
    Sparing (Before κ) n (peek >>= f) e :=
  ⟨fun i s heof hK hlen => (hf _ hK).run i s heof rfl hlen⟩

theorem check {kind : Token.Kind} {f : Bool → Parse β} (htrue : Sparing NotAtEnd n (f true) e)
    (hfalse : Sparing (Before κ) n (f false) e)
    (hkind : autoParam (kind ≠ .eof) Rat.reduced._autoParam) :
    Sparing (Before κ) n (check kind >>= f) e := by
  refine ⟨fun i s heof hK hlen => ?_⟩
  rw [exec_bind_ok i (exec_check i s kind)]
  by_cases hnext : (s.rest[0]?.getD i.eof).kind = kind
  · rw [beq_iff_eq.2 hnext]
    exact htrue.run i s heof (fun hend => hkind (hnext.symm.trans hend)) hlen
  · rw [beq_false_of_ne hnext]
    exact hfalse.run i s heof hK hlen

/-- A loop goes on only before the end. -/
theorem atEnd {f : Bool → Parse β} (htrue : Sparing Anywhere n (f true) e)
    (hfalse : Sparing (Before fun k => κ k ∧ k ≠ .eof) n (f false) e) :
    Sparing (Before κ) n (atEnd >>= f) e := by
  refine ⟨fun i s heof hK hlen => ?_⟩
  have hatEnd : exec Grammar.atEnd i s = (.ok ((s.rest[0]?.getD i.eof).kind == .eof), s) := rfl
  rw [exec_bind_ok i hatEnd]
  by_cases hend : (s.rest[0]?.getD i.eof).kind = .eof
  · rw [beq_iff_eq.2 hend]
    exact htrue.run i s heof trivial hlen
  · rw [beq_false_of_ne hend]
    exact hfalse.run i s heof ⟨hK, hend⟩ hlen

/-! ## Reading -/

theorem advance : Sparing NotAtEnd n advance fun _ => true := by
  refine ⟨fun i s heof hK _ => ?_⟩
  have hnext : (s.rest[0]?.getD i.eof).kind ≠ .eof := hK
  rw [exec_advance]
  cases hrest : s.rest with
  | nil =>
    rw [hrest] at hnext
    exact absurd heof hnext
  | cons t rest =>
    rw [hrest] at hnext
    have hkind : t.kind ≠ .eof := hnext
    simp only [hkind, if_false]
    refine ⟨.single (.take s t rest hrest hkind), fun a u hexec => ?_⟩
    cases hexec
    exact Nat.le_refl _

/-- At the end nothing is read. -/
theorem advanceIfAny : Sparing K n Grammar.advance fun _ => false := by
  refine ⟨fun i s heof _ _ => ?_⟩
  by_cases hend : (s.rest[0]?.getD i.eof).kind = .eof
  · have hexec : (exec Grammar.advance i s).2 = s := by
      rw [exec_advance]
      cases hrest : s.rest with
      | nil => rfl
      | cons t rest =>
        rw [hrest] at hend
        exact if_pos hend
    refine ⟨by rw [hexec], fun a t hrun => ?_⟩
    rw [hrun] at hexec
    rw [← hexec]
    exact Nat.le_refl _
  · exact (advance (n := s.rest.length)).any.run i s heof hend (Nat.le_refl _)

theorem eat {kind : Token.Kind} {f : Bool → Parse β}
    (htrue : ∀ k, k < n → Sparing Anywhere k (f true) fun _ => false)
    (hfalse : Sparing (Before κ) n (f false) e)
    (hkind : autoParam (kind ≠ .eof) Rat.reduced._autoParam) :
    Sparing (Before κ) n (eat kind >>= f) e := by
  have heat : Grammar.eat kind >>= f = Grammar.check kind >>= fun b =>
      if b = true then Grammar.advance >>= fun _ => f true else f false := by
    rw [Grammar.eat, bind_assoc]
    refine congrArg _ (funext fun b => ?_)
    cases b <;> simp
  rw [heat]
  exact .check (.past .advance fun k hk _ => htrue k hk) hfalse hkind

/-- A token that may be left out. -/
theorem eatIfAny (kind : Token.Kind) (hkind : autoParam (kind ≠ .eof) Rat.reduced._autoParam) :
    Sparing (Before κ) n (Grammar.eat kind) fun _ => false := by
  have heat : Sparing (Before κ) n (Grammar.eat kind >>= Pure.pure) fun _ => false :=
    .eat (fun _ _ => .pure) .pure hkind
  rwa [bind_pure] at heat

/-- A token is read if the next ones meet a condition. -/
theorem eatBefore {kind : Token.Kind} (ahead : Token → Token → Bool)
    (hkind : autoParam (kind ≠ .eof) Rat.reduced._autoParam) :
    Sparing K n (eatBefore kind ahead) id := by
  refine ⟨fun i s heof _ _ => ?_⟩
  rw [exec_eatBefore i s hkind heof]
  cases hrest : s.rest with
  | nil =>
    refine ⟨.refl, fun a t hexec => ?_⟩
    cases hexec
    rw [hrest]
    exact Nat.le_refl _
  | cons t rest =>
    dsimp only
    split
    next hkind' =>
      have hne : t.kind ≠ .eof := hkind' ▸ hkind
      split
      · refine ⟨.single (.take s t rest hrest hne), fun a u hexec => ?_⟩
        cases hexec
        exact Nat.le_refl _
      · refine ⟨.single (.retake s t rest hrest hne), fun a u hexec => ?_⟩
        cases hexec
        rw [State.back_take]
        exact Nat.le_refl _
    next =>
      refine ⟨.refl, fun a u hexec => ?_⟩
      cases hexec
      rw [hrest]
      exact Nat.le_refl _

/-! ## Errors -/

/-- The token was read or is the next one. -/
def AtHand (t : Token) (i : Input) (s : State) : Prop :=
  t ∈ s.read.toList ∨ t = s.rest[0]?.getD i.eof

/-- The token was read. -/
def Taken (t : Token) (_ : Input) (s : State) : Prop := t ∈ s.read.toList

theorem reportAt (t : Token) (description : String) :
    Sparing (AtHand t) n (reportAt t description) fun _ => false := by
  refine ⟨fun i s _ ht _ => ?_⟩
  have hmove : Moves i s (exec (Grammar.reportAt t description) i s).2 :=
    .single (.report s t description none ht)
  refine ⟨hmove, fun a u hexec => ?_⟩
  rw [hexec] at hmove
  exact hmove.length_le

/-- A token that was read is still read behind what follows it. -/
theorem holding {t : Token} (hp : Sparing Anywhere n p c)
    (hf : ∀ a, Sparing (Taken t) n (f a) e) : Sparing (Taken t) n (p >>= f) e := by
  refine .bindTo (fun _ => Taken t) (hp.here) (fun {i s a u} heof ht hlen hexec => ?_) hf
  obtain ⟨hmoves, -⟩ := hp.run i s heof trivial hlen
  rw [hexec] at hmoves
  exact hmoves.read_subset ht

theorem reportTaken (t : Token) (description : String) :
    Sparing (Taken t) n (Grammar.reportAt t description) fun _ => false :=
  (reportAt t description).at' .inl

theorem taken_of_advance {i : Input} {s u : State} {t : Token} (heof : i.eof.kind = .eof)
    (hnext : NotAtEnd i s) (hexec : exec Grammar.advance i s = (.ok t, u)) : Taken t i u := by
  have hnext : (s.rest[0]?.getD i.eof).kind ≠ .eof := hnext
  rw [exec_advance] at hexec
  cases hrest : s.rest with
  | nil =>
    rw [hrest] at hnext
    exact absurd heof hnext
  | cons v rest =>
    rw [hrest] at hexec hnext
    have hkind : v.kind ≠ .eof := hnext
    simp only [hkind, if_false] at hexec
    cases hexec
    simp [Taken, State.take]

theorem atHand_of_advance {i : Input} {s u : State} {t : Token}
    (hexec : exec Grammar.advance i s = (.ok t, u)) : AtHand t i u := by
  rw [exec_advance] at hexec
  cases hrest : s.rest with
  | nil =>
    rw [hrest] at hexec
    cases hexec
    right
    rw [hrest]
    rfl
  | cons v rest =>
    rw [hrest] at hexec
    dsimp only at hexec
    split at hexec
    next =>
      cases hexec
      right
      rw [hrest]
      rfl
    next =>
      cases hexec
      left
      simp [State.take]

/-- The token read, or the end, is known right behind it. -/
theorem glancing {f : Token → Parse β} (hf : ∀ t, Sparing (AtHand t) n (f t) e) :
    Sparing K n (Grammar.advance >>= f) e :=
  advanceIfAny.bindTo AtHand (fun _ _ _ hexec => atHand_of_advance hexec) hf

/-- The token read is known from then on. -/
theorem taking {f : Token → Parse β} (hf : ∀ t, Sparing (Taken t) n (f t) e) :
    Sparing NotAtEnd n (Grammar.advance >>= f) e :=
  advance.bindTo Taken (fun heof hnext _ hexec => taken_of_advance heof hnext hexec) hf

theorem reportHere (description : String) : Sparing K n (reportHere description) fun _ => false := by
  refine ⟨fun i s _ _ _ => ?_⟩
  have hmove : Moves i s (exec (Grammar.reportHere description) i s).2 :=
    .single (.report s _ description none (.inr rfl))
  refine ⟨hmove, fun a u hexec => ?_⟩
  rw [hexec] at hmove
  exact hmove.length_le

theorem reportUnclosed (description : String) :
    Sparing K n (reportUnclosed description) fun _ => false := by
  refine ⟨fun i s _ _ _ => ?_⟩
  have hmove : Moves i s (exec (Grammar.reportUnclosed description) i s).2 :=
    .single (.report s _ description s.blocks.head? (.inr rfl))
  refine ⟨hmove, fun a u hexec => ?_⟩
  rw [hexec] at hmove
  exact hmove.length_le

theorem fail (description : String) : Sparing K n (fail description : Parse α) c :=
  .bind (.reportHere description) fun _ => .giveUp

/-- A change of the state that is a row of moves. -/
theorem change {F : State → State} (h : ∀ i s, Moves i s (F s)) :
    Sparing K n (modify F) fun _ => false := by
  refine ⟨fun i s _ _ _ => ?_⟩
  have hmoves := h i s
  refine ⟨hmoves, fun a t hexec => ?_⟩
  cases hexec
  exact hmoves.length_le

theorem consume (kind : Token.Kind) (description : String)
    (hkind : autoParam (kind ≠ .eof) Rat.reduced._autoParam) :
    Sparing (Before κ) n (consume kind description) fun _ => true :=
  .check .advance (.fail description) hkind

/-- The token read by `consume` is known from then on. -/
theorem consuming {kind : Token.Kind} {description : String} {f : Token → Parse β}
    (hf : ∀ k, k < n → ∀ t, Sparing (Taken t) k (f t) fun _ => false)
    (hkind : autoParam (kind ≠ .eof) Rat.reduced._autoParam) :
    Sparing (Before κ) n (Grammar.consume kind description >>= f) e := by
  refine (consume kind description hkind).pastTo Taken (fun {i s t u} heof _ _ hexec => ?_) hf
  rw [Grammar.consume, exec_bind_ok i (exec_check i s kind)] at hexec
  by_cases hnext : (s.rest[0]?.getD i.eof).kind = kind
  · rw [beq_iff_eq.2 hnext] at hexec
    exact taken_of_advance heof (fun hend => hkind (hnext.symm.trans hend)) hexec
  · rw [beq_false_of_ne hnext] at hexec
    cases hexec

theorem consumeName (description : String) :
    Sparing (Before κ) n (consumeName description) fun _ => true :=
  .past (.consume _ description) fun _ _ _ => .pure

theorem consumeClose (kind : Token.Kind) (description : String)
    (hkind : autoParam (kind ≠ .eof) Rat.reduced._autoParam) :
    Sparing (Before κ) n (consumeClose kind description) fun _ => true :=
  .check (.past .advance fun _ _ _ => .pure) (.bind (.reportUnclosed description) fun _ => .giveUp)
    hkind

theorem closeBlock (description : String) :
    Sparing (Before κ) n (closeBlock description) fun _ => false := by
  have hnote : ∀ {F : State → State}, (∀ i s, Move i s (F s)) →
      Sparing Anywhere n (modify F) fun _ => false := fun h => .change fun i s => .single (h i s)
  exact .bind (.eatIfAny _) fun _ => .ite (fun _ => .pure) fun _ => .look (.peekAt 0) fun _ =>
    .look .get fun _ => .ite (fun _ => .bind (hnote fun _ _ => .context ..) fun _ => .pure)
      fun _ => .bind (hnote fun _ _ => .context ..) fun _ =>
        .bind (.reportUnclosed description) fun _ => .pure

/-! ## Nodes and bodies -/

/-- A parser between two changes that leave the tokens alone. -/
theorem between {F G : State → State} (hF : ∀ i s, Moves i s (F s))
    (hrest : ∀ s, (F s).rest = s.rest) (hG : ∀ i s, Moves i s (G s))
    (hp : Sparing (Before κ) n p c) :
    Sparing (Before κ) n (modify F >>= fun _ => p >>= fun a => modify G >>= fun _ => Pure.pure a)
      c := by
  refine ⟨fun i s heof hK hlen => ?_⟩
  have hK' : Before κ i (F s) := by
    rw [Before, hrest]
    exact hK
  obtain ⟨hmoves, hread⟩ := hp.run i (F s) heof hK' (by rwa [hrest])
  rw [exec_bind_ok i (exec_modify i s F)]
  rcases hexec : exec p i (F s) with ⟨_ | a, t⟩
  · rw [exec_bind, hexec]
    rw [hexec] at hmoves
    exact ⟨(hF i s).trans hmoves, fun _ _ herror => by cases herror⟩
  · rw [exec_bind_ok i hexec, exec_bind_ok i (exec_modify i t G)]
    have hless := hread a t hexec
    have hle := (hG i t).length_le
    rw [hexec] at hmoves
    rw [hrest] at hless
    refine ⟨((hF i s).trans hmoves).trans (hG i t), fun b u hdone => ?_⟩
    cases hdone
    omega

theorem inNode (kind : Tree.Kind) (hp : Sparing (Before κ) n p c) :
    Sparing (Before κ) n (inNode kind p) c :=
  between (fun _ s => .single (.edit s _ (.start kind))) (fun _ => rfl)
    (fun _ s => .single (.edit s _ .finish)) hp

theorem inNodeAt (mark : Option Tree.Checkpoint) (kind : Tree.Kind)
    (hp : Sparing (Before κ) n p c) : Sparing (Before κ) n (inNodeAt mark kind p) c := by
  cases mark with
  | none =>
    exact between (fun _ s => .single (.edit s _ (.start kind))) (fun _ => rfl)
      (fun _ s => .single (.edit s _ .finish)) hp
  | some mark =>
    exact between (fun _ s => .single (.edit s _ (.startAt mark kind))) (fun _ => rfl)
      (fun _ s => .single (.edit s _ .finish)) hp

theorem describe (text : String) : Sparing K n (describe text) fun _ => false :=
  .change fun _ s => .single (.edit s _ (.describe text))

theorem inBody (kind : String) (brace : Token) (hp : Sparing (Before κ) n p c) :
    Sparing (Before κ) n (inBody kind brace p) c :=
  between (fun _ _ => .single (.context ..)) (fun _ => rfl) (fun _ _ => .single (.context ..)) hp

theorem deeper (hp : Sparing (Before κ) n p c) : Sparing (Before κ) n (deeper p) c :=
  between (fun _ _ => .single (.context ..)) (fun _ => rfl) (fun _ _ => .single (.context ..)) hp

/-- A parser that may give up, after which one goes on in any case. -/
theorem attempt (hp : Sparing K n p c) : Sparing K n (attempt p) fun _ => false := by
  refine ⟨fun i s heof hK hlen => ?_⟩
  obtain ⟨hmoves, -⟩ := hp.run i s heof hK hlen
  rw [exec_attempt]
  rcases hexec : exec p i s with ⟨_ | a, t⟩
  all_goals
    rw [hexec] at hmoves
    refine ⟨hmoves, fun b u hdone => ?_⟩
    cases hdone
    exact hmoves.length_le

theorem concurrently (hp : Sparing Anywhere n p c) :
    Sparing Anywhere n (concurrently p) fun _ => false := by
  refine .look .get fun s => .bind (.change fun _ _ => .single (.context ..)) fun _ =>
    .bind hp.attempt fun a => .bind (.change fun _ _ => .single (.context ..)) fun _ => ?_
  cases a with
  | none => exact .giveUp
  | some a => exact .pure

/-- After recovery one goes on as well. -/
theorem recovering {skip : Bool → Parse Unit}
    (hskip : ∀ progress, Sparing Anywhere n (skip progress) fun _ => false)
    (hp : Sparing Anywhere n p c) : Sparing Anywhere n (recovering skip p) fun _ => false := by
  have hreturn : ∀ place : Place,
      Sparing Anywhere n (modify (·.returnTo place)) fun _ => false := by
    refine fun place => .change fun i s => ?_
    have hunwind : Move i s (s.mapTree (·.unwind place.treeDepth)) := .edit s _ (.unwind _)
    exact .tail (.single hunwind) (.context ..)
  have hrecover : ∀ place, Sparing Anywhere n (recover skip place) fun _ => false := by
    refine fun place => .bind (hreturn place) fun _ => .inNodeAt _ _ (.look .get fun s => ?_)
    dsimp only
    split
    · exact .bind (.change fun _ s => .single (.edit s _ (.markError _))) fun _ =>
        .look .get fun _ => .ite (fun _ => .look .get fun _ => hskip _) fun _ => .pure
    · exact .look .get fun _ => .ite (fun _ => .look .get fun _ => hskip _) fun _ => .pure
  exact .look .get fun _ => .bind hp.attempt fun _ =>
    .ite (fun _ => .bind (hrecover _) fun _ => .pure) fun _ => .pure

/-- A parser after which a token is skipped if it has read none. -/
theorem unlessStuck {close : Token.Kind} (hp : Sparing Anywhere n p c) :
    Sparing (Before fun k => k ≠ .eof ∧ k ≠ close) n
      (MonadState.get >>= fun s => p >>= skipUnlessMoved close s.position) fun _ => true := by
  refine ⟨fun i s heof hK hlen => ?_⟩
  obtain ⟨hend, hclose⟩ := hK
  obtain ⟨hmoves, -⟩ := hp.run i s heof trivial hlen
  rw [exec_bind_ok i (exec_get i s)]
  rcases hexec : exec p i s with ⟨_ | a, t⟩
  · rw [exec_bind, hexec]
    rw [hexec] at hmoves
    exact ⟨hmoves, fun _ _ herror => by cases herror⟩
  · rw [exec_bind_ok i hexec]
    rw [hexec] at hmoves
    have hskip : Sparing Anywhere n (skipUnlessMoved close s.position a) fun _ => false :=
      .look .get fun _ => .look (.checkAt 0 _) fun _ => .guarded .advanceIfAny .pure
    obtain ⟨hmoves', -⟩ := hskip.run i t heof trivial (Nat.le_trans hmoves.length_le hlen)
    refine ⟨hmoves.trans hmoves', fun b u hrun => ?_⟩
    have hlt := position_lt_skipUnlessMoved heof hmoves.steps hend hclose a
    rw [hrun] at hmoves' hlt
    have hsteps : Steps i s u := hmoves.steps.trans (Moves.steps hmoves')
    have hadd := hsteps.position_add
    have hlt : s.position < u.position := hlt
    have hone : u.rest.length + 1 ≤ s.rest.length := by omega
    exact hone

/-! ## Loops -/

/-- Whether the loop goes on, in which case the turn has read a token. -/
theorem repeatUpTo {σ : Type} {turn : σ → Parse (σ × Bool)} {bound : Nat} (hbound : n < bound)
    (hturn : ∀ x, Sparing Anywhere n (turn x) Prod.snd) (x : σ) :
    Sparing Anywhere n (repeatUpTo turn bound x) fun _ => false := by
  induction bound generalizing n x with
  | zero => exact absurd hbound (Nat.not_lt_zero n)
  | succ bound ih =>
    refine ⟨fun i s heof hK hlen => ?_⟩
    obtain ⟨hmoves, hread⟩ := (hturn x).run i s heof hK hlen
    rw [Grammar.repeatUpTo]
    rcases hexec : exec (turn x) i s with ⟨_ | ⟨y, more⟩, t⟩
    · rw [exec_bind, hexec]
      rw [hexec] at hmoves
      exact ⟨hmoves, fun _ _ herror => by cases herror⟩
    · rw [exec_bind_ok i hexec]
      rw [hexec] at hmoves
      have hle : t.rest.length ≤ s.rest.length := hmoves.length_le
      cases more with
      | false =>
        refine ⟨hmoves, fun b u hdone => ?_⟩
        cases hdone
        exact hle
      | true =>
        have hless : t.rest.length + 1 ≤ s.rest.length := hread (y, true) t hexec
        obtain ⟨hmoves', hread'⟩ := ih (n := t.rest.length) (by omega)
          (fun z => (hturn z).mono (by omega)) y |>.run i t heof trivial (Nat.le_refl _)
        exact ⟨hmoves.trans hmoves', fun b u hrun => Nat.le_trans (hread' b u hrun) hle⟩

variable {rules : Rules} {N : Nat}

theorem loop {σ : Type} {turn : σ → Parse (σ × Bool)} (hr : rules.Sparing N)
    (hturn : ∀ x, Sparing Anywhere n (turn x) Prod.snd) (x : σ)
    (hn : autoParam (n ≤ N) Nat.dfold._auto_1) :
    Sparing Anywhere n (Grammar.repeatUpTo turn rules.bound x) fun _ => false :=
  repeatUpTo (Nat.lt_of_le_of_lt hn hr.bound) hturn x

theorem commaSeparated (hr : rules.Sparing N) (h : Sparing Anywhere n p c)
    (hn : autoParam (n ≤ N) Nat.dfold._auto_1) :
    Sparing Anywhere n (commaSeparated rules p) fun _ => false := by
  refine .bind h fun first => .bind (.loop hr (fun items => ?_) [first]) fun _ => .pure
  exact .eat (fun _ hk => .bind (h.mono (Nat.le_of_lt hk)) fun _ => .pure) .pure

/-- A list goes on only before its end. -/
theorem listEnds {close : Token.Kind} {q : Parse β} {d : β}
    (hq : Sparing (Before fun k => True ∧ k ≠ .eof) n q e)
    (hd : autoParam (e d = false) Std.Slice.Self.eq._autoParam)
    (hclose : autoParam (close ≠ .eof) Rat.reduced._autoParam) :
    Sparing Anywhere n (Grammar.check close >>= fun b => Grammar.atEnd >>= fun b' =>
      if (b || b') = true then Pure.pure d else q) e :=
  .check (.look (.checkAt 0 .eof) fun _ => .pure hd) (.atEnd (.pure hd) hq) hclose

theorem commaList {close : Token.Kind} (hr : rules.Sparing N) (h : Sparing Anywhere n p c)
    (hn : autoParam (n ≤ N) Nat.dfold._auto_1)
    (hclose : autoParam (close ≠ .eof) Rat.reduced._autoParam) :
    Sparing Anywhere n (commaList rules close p) fun _ => false := by
  refine .bind (.loop hr (fun ⟨items, comma⟩ => ?_) _) fun ⟨_, _⟩ => .pure
  exact .listEnds (.bind h.here fun _ => .eat (fun _ _ => .pure) .pure) rfl hclose

theorem after {kind : Token.Kind} (h : ∀ k, k < n → Sparing Anywhere k p c)
    (hkind : autoParam (kind ≠ .eof) Rat.reduced._autoParam) :
    Sparing Anywhere n (after kind p) fun _ => false :=
  .eat (fun k hk => .bind (h k hk) fun _ => .pure) .pure hkind

/-- A body goes on only before its end and its brace. -/
theorem bodyEnds {q : Parse β} {d : β}
    (hq : Sparing (Before fun k => k ≠ .eof ∧ k ≠ .rightBrace) n q e)
    (hd : autoParam (e d = false) Std.Slice.Self.eq._autoParam) :
    Sparing Anywhere n (Grammar.bodyEnds >>= fun b => if b = true then Pure.pure d else q) e := by
  refine ⟨fun i s heof _ hlen => ?_⟩
  have hexec : exec Grammar.bodyEnds i s = (.ok ((s.rest[0]?.getD i.eof).kind == .rightBrace ||
    (s.rest[0]?.getD i.eof).kind == .eof || s.halted), s) := rfl
  rw [exec_bind_ok i hexec]
  split
  next => exact (Sparing.pure (K := Anywhere) hd).run i s heof trivial hlen
  next hmore =>
    simp only [Bool.or_eq_true, beq_iff_eq, not_or] at hmore
    exact hq.run i s heof ⟨hmore.1.2, hmore.1.1⟩ hlen

end

end Sparing

end LimitSyntax.Grammar
