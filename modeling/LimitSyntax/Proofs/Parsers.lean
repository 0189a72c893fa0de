import LimitSyntax.Grammar.Program
import Mathlib.Logic.Basic

/-!
# Parsers and their twins

Every rule of the grammar is made of a few operations: to look at the next three tokens and at the
state, to read a token, to report, to give up, and to run a parser inside a node, a body or a list of
declarations.
`Alike e p q` says so of a parser `p` and its twin `q`, which is made of the same operations for
tokens without trivia and without a tree: what is a value `a` in `p` is `e a` in `q`. A statement
about all rules is then proved by induction, one case for each operation.
-/

namespace LimitSyntax

/-! ## Without trivia -/

/-- A token without the trivia around it. -/
def Token.bare (t : Token) : Token := { t with leading := [], trailing := [] }

namespace Grammar

/-- The input of a parse that sees no trivia. -/
def Input.bare (i : Input) : Input := { i with eof := i.eof.bare }

/-- A body whose brace has no trivia. -/
def OpenBlock.bare (b : OpenBlock) : OpenBlock := { b with brace := b.brace.bare }

/-- The state of a parse that sees no trivia and builds no tree. -/
def State.bare (s : State) : State :=
  { s with
    read := s.read.map Token.bare
    rest := s.rest.map Token.bare
    tree := none
    blocks := s.blocks.map OpenBlock.bare }

@[simp] theorem State.position_bare (s : State) : s.bare.position = s.position :=
  Array.size_map ..

/-- The same place in a parse with other tokens ahead. -/
def State.onto (s : State) (ts : List Token) : State := { s with rest := ts }

/-! ## Runs -/

/-- What a parser yields, and the state it leaves. -/
def exec {α : Type} (p : Parse α) (i : Input) (s : State) : Except Unit α × State := p i s

section
variable {α β : Type} (i : Input) (s : State)

theorem exec_bind (p : Parse α) (f : α → Parse β) :
    exec (p >>= f) i s = match exec p i s with
      | (.ok a, s') => exec (f a) i s'
      | (.error e, s') => (.error e, s') := by
  simp only [exec, bind, ReaderT.bind, ExceptT.bind, ExceptT.mk, ExceptT.bindCont, StateT.bind]
  rcases p i s with ⟨_ | a, s'⟩ <;> rfl

/-- What follows a parser that yields a value. -/
theorem exec_bind_ok {p : Parse α} {s s' : State} {a : α} (h : exec p i s = (.ok a, s'))
    (f : α → Parse β) : exec (p >>= f) i s = exec (f a) i s' := by
  rw [exec_bind, h]

/-- What is known of two parsers in a row that yield a value. -/
theorem exec_bind_eq_ok {i : Input} {s t : State} {p : Parse α} {f : α → Parse β} {b : β}
    (h : exec (p >>= f) i s = (.ok b, t)) :
    ∃ a u, exec p i s = (.ok a, u) ∧ exec (f a) i u = (.ok b, t) := by
  rw [exec_bind] at h
  rcases hexec : exec p i s with ⟨_ | a, u⟩
  · rw [hexec] at h
    cases h
  · rw [hexec] at h
    exact ⟨a, u, rfl, h⟩

/-- Of two parsers in a row that give up, the first does or the second. -/
theorem exec_bind_eq_error {i : Input} {s t : State} {p : Parse α} {f : α → Parse β} {e : Unit}
    (h : exec (p >>= f) i s = (.error e, t)) :
    exec p i s = (.error e, t) ∨ ∃ a u, exec p i s = (.ok a, u) ∧ exec (f a) i u = (.error e, t) := by
  rw [exec_bind] at h
  rcases hexec : exec p i s with ⟨_ | a, u⟩
  · rw [hexec] at h
    cases h
    exact .inl rfl
  · rw [hexec] at h
    exact .inr ⟨a, u, rfl, h⟩

/-- What holds where the first of two parsers in a row ends, and is kept by the second, holds where
both end. -/
theorem exec_bind_keeps {P : State → Prop} {i : Input} {s : State} {p : Parse α} {f : α → Parse β}
    (hp : P (exec p i s).2)
    (hf : ∀ a t, exec p i s = (.ok a, t) → P t → P (exec (f a) i t).2) :
    P (exec (p >>= f) i s).2 := by
  rw [exec_bind]
  rcases hexec : exec p i s with ⟨_ | a, t⟩
  · rwa [hexec] at hp
  · rw [hexec] at hp
    exact hf a t hexec hp

theorem exec_get : exec get i s = (.ok s, s) := rfl

theorem exec_modify (f : State → State) : exec (modify f) i s = (.ok (), f s) := rfl

theorem exec_attempt (p : Parse α) :
    exec (attempt p) i s = match exec p i s with
      | (.ok a, s') => (.ok (some a), s')
      | (.error _, s') => (.ok none, s') := by
  have htry : exec (attempt p) i s = match exec (some <$> p) i s with
      | (.ok a, s') => (.ok a, s')
      | (.error _, s') => (.ok none, s') := by
    simp only [attempt, exec, tryCatch, tryCatchThe, MonadExceptOf.tryCatch, ExceptT.tryCatch,
      ExceptT.mk]
    simp only [bind, StateT.bind]
    rcases (some <$> p) i s with ⟨_ | a, s'⟩ <;> rfl
  rw [htry, map_eq_pure_bind, exec_bind]
  rcases exec p i s with ⟨_ | a, s'⟩ <;> rfl

theorem exec_attempt_snd (p : Parse α) : (exec (attempt p) i s).2 = (exec p i s).2 := by
  rw [exec_attempt]
  rcases exec p i s with ⟨_ | a, s'⟩ <;> rfl

theorem exec_peekAt (k : Nat) : exec (peekAt k) i s = (.ok (s.rest[k]?.getD i.eof), s) := rfl

theorem exec_previous :
    exec previous i s = (.ok (s.read.back?.getD (s.rest[0]?.getD i.eof)), s) := by
  rw [previous, exec_bind_ok i (exec_get i s)]
  split
  next t h => rw [h]; rfl
  next h => rw [h]; rfl

theorem exec_spanFrom (start : Nat) :
    exec (spanFrom start) i s = (.ok (if s.position = 0 then .empty start
      else ⟨start, max (s.read.back?.getD (s.rest[0]?.getD i.eof)).span.stop start⟩), s) := by
  rw [spanFrom, exec_bind_ok i (exec_get i s)]
  split
  · rfl
  · rw [exec_bind_ok i (exec_previous i s)]
    rfl

theorem exec_advance :
    exec advance i s = match s.rest with
      | t :: rest => (.ok t, if t.kind = .eof then s else s.take t rest)
      | [] => (.ok i.eof, s) := by
  rw [advance, exec_bind_ok i (exec_get i s)]
  cases s.rest with
  | nil => rfl
  | cons t rest =>
    by_cases hkind : t.kind = .eof
    · simp only [hkind, bne_self_eq_false, Bool.false_eq_true, if_false, if_true]
      rfl
    · simp only [hkind, bne_iff_ne.2 hkind, if_true, if_false]
      rfl

theorem exec_check (kind : Token.Kind) :
    exec (check kind) i s = (.ok ((s.rest[0]?.getD i.eof).kind == kind), s) := rfl

/-- A token that is consumed was the next one. -/
theorem exec_consume_eq_ok {i : Input} {s u : State} {kind : Token.Kind} {description : String}
    {t : Token} (hexec : exec (consume kind description) i s = (.ok t, u)) :
    (s.rest[0]?.getD i.eof).kind = kind ∧ exec advance i s = (.ok t, u) := by
  rw [consume, exec_bind_ok i (exec_check i s kind)] at hexec
  by_cases hnext : (s.rest[0]?.getD i.eof).kind = kind
  · rw [beq_iff_eq.2 hnext] at hexec
    exact ⟨hnext, hexec⟩
  · rw [beq_false_of_ne hnext] at hexec
    cases hexec

/-- A token of the kind is read, unless it is the end. -/
theorem exec_eat {kind : Token.Kind} (hkind : kind ≠ .eof) (heof : i.eof.kind = .eof) :
    exec (eat kind) i s = match s.rest with
      | t :: rest => if t.kind = kind then (.ok true, s.take t rest) else (.ok false, s)
      | [] => (.ok false, s) := by
  rw [eat, exec_bind_ok i (exec_check i s kind)]
  cases hrest : s.rest with
  | nil =>
    have hne : (i.eof.kind == kind) = false := beq_false_of_ne (heof ▸ hkind.symm)
    simp only [List.getElem?_nil, Option.getD_none, hne, Bool.false_eq_true, if_false]
    rfl
  | cons t rest =>
    by_cases h : t.kind = kind
    · have hadvance : exec advance i s = (.ok t, s.take t rest) := by
        rw [exec_advance, hrest]
        simp only [h ▸ hkind, if_false]
      simp only [List.getElem?_cons_zero, Option.getD_some, h, beq_self_eq_true, if_true]
      rw [exec_bind_ok i hadvance]
      rfl
    · have hne : (t.kind == kind) = false := beq_false_of_ne h
      simp only [List.getElem?_cons_zero, Option.getD_some, hne, h, Bool.false_eq_true, if_false]
      rfl

/-- A token is read, or read and given back, or it is not of the kind. -/
theorem exec_eatBefore {kind : Token.Kind} (hkind : kind ≠ .eof) (heof : i.eof.kind = .eof)
    (ahead : Token → Token → Bool) :
    exec (eatBefore kind ahead) i s = match s.rest with
      | t :: rest =>
        if t.kind = kind then
          if ahead (rest[0]?.getD i.eof) (rest[1]?.getD i.eof) then (.ok true, s.take t rest)
          else (.ok false, (s.take t rest).back)
        else (.ok false, s)
      | [] => (.ok false, s) := by
  have heat := exec_eat i s hkind heof
  rw [eatBefore]
  cases hrest : s.rest with
  | nil =>
    rw [hrest] at heat
    rw [exec_bind_ok i heat]
    rfl
  | cons t rest =>
    rw [hrest] at heat
    by_cases h : t.kind = kind
    · simp only [h, if_true] at heat ⊢
      rw [exec_bind_ok i heat, if_pos rfl]
      have hpeek : exec peek i (s.take t rest) = (.ok (rest[0]?.getD i.eof), s.take t rest) := rfl
      have hahead : exec (peekAt 1) i (s.take t rest) =
        (.ok (rest[1]?.getD i.eof), s.take t rest) := rfl
      rw [exec_bind_ok i hpeek, exec_bind_ok i hahead]
      split <;> rfl
    · simp only [h, if_false] at heat ⊢
      rw [exec_bind_ok i heat]
      rfl

/-- A parser where tasks and workers are known, and what comes of it outside. -/
theorem exec_concurrently (p : Parse α) :
    exec (concurrently p) i s = match exec p i { s with concurrent := true } with
      | (.ok a, t) => (.ok a, { t with concurrent := s.concurrent })
      | (.error e, t) => (.error e, { t with concurrent := s.concurrent }) := by
  have hattempt := exec_attempt i { s with concurrent := true } p
  rw [concurrently, exec_bind_ok i (exec_get i s), exec_bind_ok i (exec_modify i s _)]
  rcases hexec : exec p i { s with concurrent := true } with ⟨_ | a, t⟩ <;> rw [hexec] at hattempt
  all_goals
    rw [exec_bind_ok i hattempt]
    rfl

theorem exec_concurrently_snd (p : Parse α) :
    (exec (concurrently p) i s).2 =
      { (exec p i { s with concurrent := true }).2 with concurrent := s.concurrent } := by
  rw [exec_concurrently]
  rcases exec p i { s with concurrent := true } with ⟨_ | a, t⟩ <;> rfl

theorem exec_reportAt (t : Token) (description : String) :
    exec (reportAt t description) i s = (.ok (), s.report i t description none) := rfl

theorem exec_reportUnclosed (description : String) :
    exec (reportUnclosed description) i s =
      (.ok (), s.report i (s.rest[0]?.getD i.eof) description s.blocks.head?) := rfl

end

/-! ## Values -/

/-- Every value that the parser yields is such. -/
def Yields {α : Type} (Q : α → Prop) (p : Parse α) : Prop :=
  ∀ i s a t, exec p i s = (.ok a, t) → Q a

namespace Yields

variable {α β : Type} {Q Q' : α → Prop} {p : Parse α}

theorem pure {a : α} (h : Q a) : Yields Q (Pure.pure a) := by
  intro i s a' t hexec
  cases hexec
  exact h

theorem giveUp : Yields Q (giveUp : Parse α) := by
  intro i s a t hexec
  cases hexec

theorem bind {p : Parse β} {f : β → Parse α} (h : ∀ b, Yields Q (f b)) : Yields Q (p >>= f) := by
  intro i s a t hexec
  obtain ⟨b, u, -, hrest⟩ := exec_bind_eq_ok hexec
  exact h b i u a t hrest

/-- What is yielded behind a value that is known to be such. -/
theorem chain {R : β → Prop} {p : Parse β} {f : β → Parse α} (hp : Yields R p)
    (hf : ∀ b, R b → Yields Q (f b)) : Yields Q (p >>= f) := by
  intro i s a t hexec
  obtain ⟨b, u, hfirst, hrest⟩ := exec_bind_eq_ok hexec
  exact hf b (hp i s b u hfirst) i u a t hrest

theorem ite {c : Prop} [Decidable c] {q : Parse α} (hp : Yields Q p) (hq : Yields Q q) :
    Yields Q (if c then p else q) := by
  split
  · exact hp
  · exact hq

/-- Two ways to a value, and what follows both. -/
theorem branch {R : β → Prop} {c : Prop} [Decidable c] {p q : Parse β} {f : β → Parse α}
    (hp : Yields R p) (hq : Yields R q) (hf : ∀ b, R b → Yields Q (f b)) :
    Yields Q (if c then p >>= f else q >>= f) :=
  .ite (hp.chain hf) (hq.chain hf)

theorem mono (hp : Yields Q p) (h : ∀ a, Q a → Q' a) : Yields Q' p :=
  fun i s a t hexec => h a (hp i s a t hexec)

theorem map {R : β → Prop} {f : β → α} {p : Parse β} (hp : Yields R p)
    (h : ∀ b, R b → Q (f b)) : Yields Q (f <$> p) := by
  rw [map_eq_pure_bind]
  exact hp.chain fun b hb => .pure (h b hb)

theorem inNode {kind : Tree.Kind} (hp : Yields Q p) : Yields Q (inNode kind p) :=
  .bind fun _ => hp.chain fun _ ha => .bind fun _ => .pure ha

theorem inNodeAt {c : Option Tree.Checkpoint} {kind : Tree.Kind} (hp : Yields Q p) :
    Yields Q (inNodeAt c kind p) :=
  .bind fun _ => hp.chain fun _ ha => .bind fun _ => .pure ha

theorem inBody {kind : String} {brace : Token} (hp : Yields Q p) :
    Yields Q (inBody kind brace p) :=
  .bind fun _ => hp.chain fun _ ha => .bind fun _ => .pure ha

/-- What every turn keeps holds of the value of a loop. -/
theorem repeatUpTo {turn : α → Parse (α × Bool)} {n : Nat} {a : α} (ha : Q a)
    (hturn : ∀ a, Q a → Yields (fun r => Q r.1) (turn a)) : Yields Q (repeatUpTo turn n a) := by
  induction n generalizing a with
  | zero => exact .bind fun _ => .pure ha
  | succ n ih =>
    refine (hturn a ha).chain fun (b, more) hb => ?_
    exact .ite (ih hb) (.pure hb)

end Yields

/-! ## Wordings -/

/-- A text that starts unlike the note after the last report. The condition is left to `decide`, as
that of `Rat.reduced` is. -/
theorem append_ne_tooManyErrors {start rest : String}
    (h : autoParam (¬ start.toList <+: tooManyErrors.toList) Rat.reduced._autoParam) :
    start ++ rest ≠ tooManyErrors := by
  intro heq
  rw [← heq, String.toList_append] at h
  exact h (List.prefix_append ..)

theorem append_append_ne_tooManyErrors {start middle rest : String}
    (h : autoParam (¬ start.toList <+: tooManyErrors.toList) Rat.reduced._autoParam) :
    start ++ middle ++ rest ≠ tooManyErrors := by
  rw [String.append_assoc]
  exact append_ne_tooManyErrors h

/-! ## Twins -/

/-- `p` and `q` are made of the same operations, `q` for tokens without trivia and without a tree.
Where `p` yields `a`, `q` yields `e a`. -/
inductive Alike : {α : Type} → (α → α) → Parse α → Parse α → Prop where
  | pure {α : Type} {e : α → α} (a : α) : Alike e (Pure.pure a) (Pure.pure (e a))
  | bind {α β : Type} {d : α → α} {e : β → β} {p q : Parse α} {f g : α → Parse β}
      (hp : Alike d p q) (hf : ∀ a, Alike e (f a) (g (d a))) : Alike e (p >>= f) (q >>= g)
  | giveUp {α : Type} {e : α → α} : Alike e giveUp giveUp
  -- looking
  /-- What follows looks at anything but the tokens ahead. -/
  | get {α : Type} {e : α → α} {f g : State → Parse α} (hblind : ∀ s ts, f (s.onto ts) = f s)
      (hf : ∀ s, Alike e (f s) (g s.bare)) :
      Alike e (MonadState.get >>= f) (MonadState.get >>= g)
  | peekAt (k : Nat) (hk : autoParam (k < 3) Rat.reduced._autoParam) :
      Alike Token.bare (peekAt k) (peekAt k)
  | previous : Alike Token.bare previous previous
  | checkpoint : Alike (fun _ => none) checkpoint checkpoint
  -- reading
  | advance : Alike Token.bare advance advance
  | eatBefore {kind : Token.Kind} (hkind : kind ≠ .eof) (ahead : Token → Token → Bool)
      (h : ∀ t u, ahead t.bare u.bare = ahead t u) :
      Alike id (eatBefore kind ahead) (eatBefore kind ahead)
  -- errors
  | reportAt (t : Token) (description : String)
      (h : autoParam (description ≠ tooManyErrors) Rat.reduced._autoParam) :
      Alike id (reportAt t description) (reportAt t.bare description)
  | reportUnclosed (description : String)
      (h : autoParam (description ≠ tooManyErrors) Rat.reduced._autoParam) :
      Alike id (reportUnclosed description) (reportUnclosed description)
  | noteError (description : String) :
      Alike id (modify ({ · with lastError := some description }))
        (modify ({ · with lastError := some description }))
  | noteUnclosed (offset : Nat) :
      Alike id (modify ({ · with unclosedAt := some offset }))
        (modify ({ · with unclosedAt := some offset }))
  | spend : Alike id spend spend
  -- the tree
  | describe (text : String) : Alike id (describe text) (describe text)
  | markError (text : String) : Alike id (onTree (·.markError text)) (onTree (·.markError text))
  | inNode {α : Type} {e : α → α} {p q : Parse α} (kind : Tree.Kind) (hp : Alike e p q) :
      Alike e (inNode kind p) (inNode kind q)
  | inNodeAt {α : Type} {e : α → α} {p q : Parse α} (c : Option Tree.Checkpoint) (kind : Tree.Kind)
      (hp : Alike e p q) : Alike e (inNodeAt c kind p) (inNodeAt none kind q)
  -- bodies and recovery
  | inBody {α : Type} {e : α → α} {p q : Parse α} (kind : String) (brace : Token)
      (hp : Alike e p q) : Alike e (inBody kind brace p) (inBody kind brace.bare q)
  | deeper {α : Type} {e : α → α} {p q : Parse α} (hp : Alike e p q) :
      Alike e (deeper p) (deeper q)
  | concurrently {α : Type} {e : α → α} {p q : Parse α} (hp : Alike e p q) :
      Alike e (concurrently p) (concurrently q)
  | recovering {α : Type} {p q : Parse α} {skip skip' : Bool → Parse Unit}
      (hskip : ∀ progress, Alike id (skip progress) (skip' progress)) (hp : Alike id p q) :
      Alike id (recovering skip p) (recovering skip' q)

/-- A parser that is its own twin. -/
abbrev Regular {α : Type} (p : Parse α) : Prop := Alike id p p

namespace Alike

section
variable {α β : Type} {e : α → α} {p q p' q' : Parse α}

theorem ite {c : Prop} [Decidable c] (h : Alike e p q) (h' : Alike e p' q') :
    Alike e (if c then p else p') (if c then q else q') := by
  split
  · exact h
  · exact h'

/-- Something done on a condition, and what follows in any case. -/
theorem guarded {d : β → β} {c : Prop} [Decidable c] {p q : Parse β} {k k' : Parse α}
    (h : Alike d p q) (hk : Alike e k k') :
    Alike e (if c then p >>= fun _ => k else k) (if c then q >>= fun _ => k' else k') :=
  .ite (h.bind fun _ => hk) hk

theorem map {f : α → β} (h : Alike id p q) : Alike id (f <$> p) (f <$> q) := by
  rw [map_eq_pure_bind, map_eq_pure_bind]
  exact h.bind fun a => .pure (f a)

end

/-! ## Operations made of others -/

section
variable {α : Type} {p q : Parse α}

theorem peek : Alike Token.bare peek peek := .peekAt 0

theorem checkAt (k : Nat) (kind : Token.Kind)
    (hk : autoParam (k < 3) Rat.reduced._autoParam) : Regular (checkAt k kind) :=
  .bind (.peekAt k hk) fun _ => .pure _

theorem check (kind : Token.Kind) : Regular (check kind) := checkAt 0 kind

theorem atEnd : Regular atEnd := check .eof

theorem eat (kind : Token.Kind) : Regular (eat kind) :=
  .bind (check kind) fun _ => .ite (.bind .advance fun _ => .pure _) (.pure _)

theorem startPos : Regular startPos := .bind .peek fun _ => .pure _

theorem spanFrom (start : Nat) : Regular (spanFrom start) := by
  refine .get (fun _ _ => rfl) fun s => ?_
  rw [State.position_bare]
  exact .ite (.pure _) (.bind .previous fun _ => .pure _)

theorem bodyEnds : Regular bodyEnds :=
  .bind (check .rightBrace) fun _ => .bind .atEnd fun _ => .get (fun _ _ => rfl) fun _ => .pure _

section
variable (description : String)
  (h : autoParam (description ≠ tooManyErrors) Rat.reduced._autoParam)
include h

theorem reportHere : Regular (reportHere description) :=
  .bind .peek fun t => .reportAt t description h

theorem fail {e : α → α} : Alike e (fail description) (fail description) :=
  .bind (.reportHere description h) fun _ => .giveUp

theorem consume (kind : Token.Kind) :
    Alike Token.bare (consume kind description) (consume kind description) :=
  .bind (check kind) fun _ => .ite .advance (.fail description h)

theorem consumeClose (kind : Token.Kind) : Regular (consumeClose kind description) :=
  .bind (check kind) fun _ => .ite (.bind .advance fun _ => .pure _)
    (.bind (.reportUnclosed description h) fun _ => .giveUp)

theorem consumeName : Regular (consumeName description) :=
  .bind (.consume description h _) fun _ => .pure _

theorem closeBlock : Regular (closeBlock description) :=
  .bind (eat .rightBrace) fun _ => .ite (.pure _) <| .bind .peek fun t =>
    .get (fun _ _ => rfl) fun _ => .ite (.bind (.noteError description) fun _ => .pure _)
      (.bind (.noteUnclosed t.span.start) fun _ => .bind (.reportUnclosed description h) fun _ =>
        .pure _)

end

/-- A loop, turn by turn. -/
theorem repeatUpTo {σ : Type} {turn turn' : σ → Parse (σ × Bool)}
    (h : ∀ x, Alike id (turn x) (turn' x)) (bound : Nat) (x : σ) :
    Alike id (repeatUpTo turn bound x) (repeatUpTo turn' bound x) := by
  induction bound generalizing x with
  | zero => exact .bind .spend fun _ => .pure x
  | succ bound ih => exact .bind (h x) fun ⟨y, _⟩ => .ite (ih y) (.pure y)

theorem commaSeparated (rules : Rules) (h : Alike id p q) :
    Alike id (commaSeparated rules p) (commaSeparated rules q) := by
  refine .bind h fun first => .bind (.repeatUpTo (fun items => ?_) rules.bound [first]) fun _ =>
    .pure _
  exact .bind (eat .comma) fun _ => .ite (.bind h fun _ => .pure _) (.pure _)

theorem commaList (rules : Rules) (close : Token.Kind) (h : Alike id p q) :
    Alike id (commaList rules close p) (commaList rules close q) := by
  refine .bind (.repeatUpTo (fun ⟨items, comma⟩ => ?_) rules.bound _) fun ⟨_, _⟩ => .pure _
  exact .bind (check close) fun _ => .bind .atEnd fun _ =>
    .ite (.pure _) (.bind h fun _ => .bind (eat .comma) fun _ => .pure _)

theorem after (kind : Token.Kind) (h : Alike id p q) : Alike id (after kind p) (after kind q) :=
  .bind (eat kind) fun _ => .ite (.bind h fun _ => .pure _) (.pure _)

end

end Alike

end Grammar

end LimitSyntax
