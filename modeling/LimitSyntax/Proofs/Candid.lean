import LimitSyntax.Proofs.Rows
import LimitSyntax.Proofs.Sparing
import LimitSyntax.Proofs.TreeNotes
import LimitSyntax.Token.Stretch

/-!
# How parsers report

`Alike` says that a rule is made of the operations; where it reports something, and about which
token, it leaves open. `Grammar.Reports` says that too: a parser reports the next token, or one that
was the next when nothing had been reported behind it; the only thing it says of a token further
back is that it cannot be assigned to. What it says stands on one line, if the words and numbers it
quotes do. Before it gives up it has noted what is wrong. What it notes at a node of the tree is the
name that it has just read, or what was found wrong. And it says that the closing brace of a body is
missing only at the end of that body, which was entered behind its opening brace.

What is kept where nothing is reported and by each of these reports (`Grammar.Upheld`) is kept by
the parser (`Grammar.Reports.keeps`).
-/

namespace LimitSyntax.Grammar

open Ast Diagnostic
open LimitSyntax.Tree (Note)

/-! ## Notes -/

/-- What was noted in a parse: the last thing found wrong, and all that is noted at nodes. -/
def State.notes (s : State) : List Note :=
  s.lastError.toList.map .error ++ (s.tree.map Tree.Builder.notes).getD []

namespace State

variable {s t : State}

theorem mem_notes {n : Note} : n ∈ s.notes ↔ (∃ e, s.lastError = some e ∧ n = .error e) ∨
    ∃ b, s.tree = some b ∧ n ∈ b.notes := by
  unfold notes
  cases s.lastError <;> cases s.tree <;> simp

/-- The tree is changed in a way that notes nothing. -/
theorem notes_of_map {f : Tree.Builder → Tree.Builder} (hf : ∀ b, (f b).notes ⊆ b.notes)
    (herror : t.lastError = s.lastError) (htree : t.tree = s.tree.map f) : t.notes ⊆ s.notes := by
  intro n hn
  rw [mem_notes, herror, htree] at hn
  refine mem_notes.2 (hn.imp id fun ⟨b', hb', hmem⟩ => ?_)
  obtain ⟨b, hb, rfl⟩ := Option.map_eq_some_iff.1 hb'
  exact ⟨b, hb, hf b hmem⟩

theorem notes_take (s : State) (t : Token) (rest : List Token) : (s.take t rest).notes ⊆ s.notes :=
  notes_of_map (f := (·.token t)) (fun b => by rw [b.notes_token]; exact List.Subset.refl _) rfl rfl

theorem notes_back_take (s : State) (t : Token) (rest : List Token) :
    (s.take t rest).back.notes ⊆ s.notes := by
  rw [back_take]
  exact notes_of_map (f := fun b => { b with offset := t.fullSpan.start })
    (fun _ => List.Subset.refl _) rfl rfl

/-- The tree is changed in a way that notes one thing. -/
theorem mem_notes_mapTree {f : Tree.Builder → Tree.Builder} {note n : Note}
    (hf : ∀ {b : Tree.Builder} {n : Note}, n ∈ (f b).notes → n ∈ b.notes ∨ n = note)
    (hn : n ∈ (s.mapTree f).notes) : n ∈ s.notes ∨ n = note := by
  rcases mem_notes.1 hn with herror | ⟨b', hb', hmem⟩
  · exact .inl (mem_notes.2 (.inl herror))
  · obtain ⟨b, hb, rfl⟩ := Option.map_eq_some_iff.1 hb'
    exact (hf hmem).imp_left fun hbefore => mem_notes.2 (.inr ⟨b, hb, hbefore⟩)

end State

/-! ## Quiet parsers -/

/-- The same place in a parse where other errors were collected. -/
def State.withErrors (s : State) (c : Collector) : State := { s with errors := c }

/-- The parser yields a value. It reports nothing and notes nothing, and what was reported makes no
difference to it. -/
structure Quiet {α : Type} (p : Parse α) : Prop where
  stepwise : Stepwise p
  run : ∀ (i : Input) (s : State), i.eof.kind = .eof → ∃ (a : α) (t : State),
    t.errors = s.errors ∧ ∀ c, exec p i (s.withErrors c) = (.ok a, t.withErrors c)
  notes : ∀ (i : Input) (s : State), i.eof.kind = .eof → (exec p i s).2.notes ⊆ s.notes

namespace Quiet

section
variable {α β : Type} {p : Parse α}

/-- The run of a quiet parser under the errors that were collected. -/
theorem exec_eq_ok (h : Quiet p) {i : Input} (heof : i.eof.kind = .eof) (s : State) :
    ∃ a t, exec p i s = (.ok a, t) ∧ t.errors = s.errors := by
  obtain ⟨a, t, herrors, hexec⟩ := h.run i s heof
  have hsame := hexec s.errors
  have ht : t.withErrors s.errors = t := by rw [State.withErrors, ← herrors]
  rw [ht] at hsame
  exact ⟨a, t, hsame, herrors⟩

theorem look {f : Input → State → α} (h : ∀ i s, exec p i s = (.ok (f i s), s))
    (hblind : ∀ i s c, f i (s.withErrors c) = f i s) : Quiet p where
  stepwise i s _ := by rw [h]
  run i s _ := ⟨f i s, s, rfl, fun c => by rw [h, hblind]⟩
  notes i s _ := by
    rw [h]
    exact List.Subset.refl _

theorem pure (a : α) : Quiet (Pure.pure a) := .look (fun _ _ => rfl) fun _ _ _ => rfl

/-- A change that has nothing to do with the errors leaves them as they are. -/
theorem errors_of_blind {f : State → State}
    (hblind : ∀ s c, f (s.withErrors c) = (f s).withErrors c) (s : State) :
    (f s).errors = s.errors := by
  have hsame : f s = (f s).withErrors s.errors := hblind s s.errors
  exact (congrArg State.errors hsame).trans rfl

theorem change {f : State → State} (hsteps : ∀ i s, Steps i s (f s))
    (hblind : ∀ s c, f (s.withErrors c) = (f s).withErrors c)
    (hnotes : ∀ s, (f s).notes ⊆ s.notes) : Quiet (modify f) where
  stepwise := .change hsteps
  run i s _ := ⟨(), f s, errors_of_blind hblind s, fun c => by rw [exec_modify, hblind]⟩
  notes _ s _ := hnotes s

theorem bind {f : α → Parse β} (hp : Quiet p) (hf : ∀ a, Quiet (f a)) : Quiet (p >>= f) where
  stepwise := .bind hp.stepwise fun a => (hf a).stepwise
  run i s heof := by
    obtain ⟨a, t, ht, hfirst⟩ := hp.run i s heof
    obtain ⟨b, u, hu, hsecond⟩ := (hf a).run i t heof
    exact ⟨b, u, hu.trans ht, fun c => by rw [exec_bind_ok i (hfirst c), hsecond]⟩
  notes i s heof := by
    obtain ⟨a, t, hexec, -⟩ := hp.exec_eq_ok heof s
    have hfirst := hp.notes i s heof
    rw [hexec] at hfirst
    rw [exec_bind_ok i hexec]
    exact List.Subset.trans ((hf a).notes i t heof) hfirst

/-- What follows looks at anything but the errors. -/
theorem get {f : State → Parse α} (hblind : ∀ s c, f (s.withErrors c) = f s)
    (hf : ∀ s, Quiet (f s)) : Quiet (MonadState.get >>= f) where
  stepwise := .bind .get fun s => (hf s).stepwise
  run i s heof := by
    obtain ⟨a, t, ht, hexec⟩ := (hf s).run i s heof
    exact ⟨a, t, ht, fun c => by rw [exec_bind_ok i (exec_get i _), hblind, hexec]⟩
  notes i s heof := (hf s).notes i s heof

theorem ite {P : Prop} [Decidable P] {q : Parse α} (hp : Quiet p) (hq : Quiet q) :
    Quiet (if P then p else q) := by
  split
  · exact hp
  · exact hq

end

/-! ## Tokens -/

theorem peekAt (k : Nat) : Quiet (peekAt k) :=
  .look (fun i s => exec_peekAt i s k) fun _ _ _ => rfl

theorem peek : Quiet peek := .peekAt 0

theorem previous : Quiet previous := .look (fun i s => exec_previous i s) fun _ _ _ => rfl

theorem checkpoint : Quiet checkpoint :=
  .look (f := fun _ s => s.tree.map (·.checkpoint)) (fun _ _ => rfl) fun _ _ _ => rfl

theorem checkAt (k : Nat) (kind : Token.Kind) : Quiet (checkAt k kind) :=
  .bind (.peekAt k) fun _ => .pure _

theorem check (kind : Token.Kind) : Quiet (check kind) := .checkAt 0 kind

theorem atEnd : Quiet atEnd := .check .eof

theorem startPos : Quiet startPos := .bind .peek fun _ => .pure _

theorem spanFrom (start : Nat) : Quiet (spanFrom start) :=
  .get (fun _ _ => rfl) fun _ => .ite (.pure _) (.bind .previous fun _ => .pure _)

theorem bodyEnds : Quiet bodyEnds :=
  .bind (.check _) fun _ => .bind .atEnd fun _ => .get (fun _ _ => rfl) fun _ => .pure _

theorem advance : Quiet advance where
  stepwise := .advance
  run i s _ := by
    cases hrest : s.rest with
    | nil =>
      refine ⟨i.eof, s, rfl, fun c => ?_⟩
      have hrest' : (s.withErrors c).rest = [] := hrest
      rw [exec_advance, hrest']
    | cons t rest =>
      refine ⟨t, if t.kind = .eof then s else s.take t rest, by split <;> rfl, fun c => ?_⟩
      have hrest' : (s.withErrors c).rest = t :: rest := hrest
      rw [exec_advance, hrest']
      dsimp only
      split <;> rfl
  notes i s _ := by
    rw [exec_advance]
    cases s.rest with
    | nil => exact List.Subset.refl _
    | cons t rest =>
      dsimp only
      split
      · exact List.Subset.refl _
      · exact s.notes_take t rest

theorem eat (kind : Token.Kind) : Quiet (eat kind) :=
  .bind (.check _) fun _ => .ite (.bind .advance fun _ => .pure _) (.pure _)

theorem eatBefore {kind : Token.Kind} (hkind : kind ≠ .eof) (ahead : Token → Token → Bool) :
    Quiet (eatBefore kind ahead) where
  stepwise := .eatBefore hkind ahead
  run i s heof := by
    have hexec := fun c => exec_eatBefore i (s.withErrors c) hkind heof ahead
    have hrest : ∀ c, (s.withErrors c).rest = s.rest := fun _ => rfl
    simp only [hrest] at hexec
    cases hcase : s.rest with
    | nil =>
      simp only [hcase] at hexec
      exact ⟨false, s, rfl, hexec⟩
    | cons t rest =>
      simp only [hcase] at hexec
      by_cases h : t.kind = kind
      · simp only [h, if_true] at hexec
        by_cases hahead : ahead (rest[0]?.getD i.eof) (rest[1]?.getD i.eof) = true
        · simp only [hahead, if_true] at hexec
          exact ⟨true, s.take t rest, rfl, hexec⟩
        · simp only [hahead, Bool.false_eq_true, if_false] at hexec
          refine ⟨false, (s.take t rest).back, by rw [State.back_take], fun c => ?_⟩
          rw [hexec c, State.back_take, State.back_take]
          rfl
      · simp only [h, if_false] at hexec
        exact ⟨false, s, rfl, hexec⟩
  notes i s heof := by
    rw [exec_eatBefore i s hkind heof ahead]
    cases s.rest with
    | nil => exact List.Subset.refl _
    | cons t rest =>
      dsimp only
      split
      · split
        · exact s.notes_take t rest
        · exact s.notes_back_take t rest
      · exact List.Subset.refl _

/-! ## The tree and the place -/

theorem onTree {f : Tree.Builder → Tree.Builder} (hf : Tree.Builder.Edit f)
    (hnotes : ∀ b, (f b).notes ⊆ b.notes) : Quiet (onTree f) :=
  .change (fun _ s => .single (.edit s f hf)) (fun _ _ => rfl) fun _ =>
    State.notes_of_map hnotes rfl rfl

theorem openNode (kind : Tree.Kind) : Quiet (openNode kind) :=
  .onTree (.start kind) fun b => b.notes_start kind

theorem openAt (c : Option Tree.Checkpoint) (kind : Tree.Kind) : Quiet (openAt c kind) := by
  cases c with
  | none => exact .openNode kind
  | some c => exact .onTree (.startAt c kind) fun b => b.notes_startAt c kind

theorem closeNode : Quiet closeNode := .onTree .finish Tree.Builder.notes_finish

theorem returnTo (place : Place) : Quiet (modify (·.returnTo place)) where
  stepwise := .returnTo place
  run _ s _ := ⟨(), s.returnTo place, rfl, fun _ => rfl⟩
  notes _ _ _ := State.notes_of_map (f := (·.unwind place.treeDepth))
    (fun b => b.notes_unwind place.treeDepth) rfl rfl

/-- Only what is known about the place changes. -/
theorem context {f : State → State} (hblind : ∀ s c, f (s.withErrors c) = (f s).withErrors c)
    (h : ∀ s, ∃ blocks depth concurrent unclosedAt,
      f s = { s with blocks, depth, concurrent, unclosedAt }) : Quiet (modify f) := by
  refine .change (fun i s => ?_) hblind fun s => ?_
  all_goals
    obtain ⟨_, _, _, _, heq⟩ := h s
    rw [heq]
  · exact .single (.context ..)
  · exact List.Subset.refl _

theorem spend : Quiet spend :=
  .change (fun _ s => .single (.spend s)) (fun _ _ => rfl) fun _ => List.Subset.refl _

end Quiet

/-! ## Bodies -/

/-- What is said of a body whose closing brace is missing. -/
def unclosedBodies : List String :=
  ["Expected '\x7d' after block.", "Expected '\x7d' after class body.",
   "Expected '\x7d' after enum body.", "Expected '\x7d' after match cases.",
   "Expected '\x7d' after trait body.", "Expected '\x7d' after interface body.",
   "Expected '\x7d' after module body."]

/-- A text of one line that is neither the note after the last report nor said of a body. -/
structure Remark (description : String) : Prop where
  capless : description ≠ tooManyErrors
  apart : description ∉ unclosedBodies
  oneLine : Text.OneLine description

/-- All that is said of bodies starts like this. -/
def unclosedBody : String := "Expected '\x7d' after "

theorem unclosedBody_begins : ∀ d ∈ unclosedBodies, unclosedBody.toList <+: d.toList := by decide

theorem remark_ofList {cs : List Char} :
    ((cs[0]? ≠ some 'T' ∨ String.ofList cs ≠ tooManyErrors) ∧
      (cs[10]? ≠ some '\x7d' ∨ String.ofList cs ∉ unclosedBodies) ∧ '\n' ∉ cs) ↔
      Remark (String.ofList cs) := by
  refine ⟨fun ⟨hcap, hbody, hline⟩ => ⟨fun h => ?_, fun hmem => ?_, ?_⟩, fun h =>
    ⟨.inr h.capless, .inr h.apart, by simpa [Text.OneLine] using h.oneLine⟩⟩
  · refine hcap.elim (fun hfirst => hfirst ?_) fun hne => hne h
    rw [← String.toList_ofList (l := cs), h]
    decide
  · refine hbody.elim (fun hbrace => hbrace ?_) fun hne => hne hmem
    obtain ⟨rest, hrest⟩ := unclosedBody_begins _ hmem
    rw [String.toList_ofList] at hrest
    rw [← hrest, List.getElem?_append_left (by decide)]
    decide
  · rwa [Text.OneLine, String.toList_ofList]

/-- The characters tell, and nearly always three of them do. -/
instance (cs : List Char) : Decidable (Remark (String.ofList cs)) :=
  decidable_of_iff _ remark_ofList

/-- The bodies of the grammar: what each of them belongs to, what is said of it if its closing brace
is missing, and how what stands between its braces is read. -/
inductive Body (rules : Rules) : {α : Type} → String → String → Parse α → Prop where
  | block (kind : String) : Body rules kind "Expected '\x7d' after block." (do
      modify fun s => { s with depth := s.depth + 1 }
      declarations rules)
  | classBody (c : ClassDecl) : Body rules "class" "Expected '\x7d' after class body."
      (repeatUpTo (fun c => do
        if ← bodyEnds then return (c, false)
        return (← classMember rules c, true)) rules.bound c)
  | enumBody : Body rules "enum" "Expected '\x7d' after enum body."
      (commaList rules .rightBrace (enumVariant rules))
  | matchCases : Body rules "match" "Expected '\x7d' after match cases."
      (repeatUpTo (fun cases => do
        if ← bodyEnds then return (cases, false)
        return ((← matchCase rules) :: cases, true)) rules.bound [])
  | traitBody (keyword : String) (h : keyword = "trait" ∨ keyword = "interface") :
      Body rules keyword ("Expected '\x7d' after " ++ keyword ++ " body.")
        (repeatUpTo (fun methods => do
          if ← bodyEnds then return (methods, false)
          if !(← check .kwFn) then fail ("Expected method declaration in " ++ keyword ++ ".")
          let method ← inNode .functionDeclaration (functionDeclaration rules {})
          return (method :: methods, true)) rules.bound [])
  | moduleBody : Body rules "module" "Expected '\x7d' after module body."
      (deeper (repeatUpTo (moduleTurn rules) rules.bound {}))

theorem Body.capless {rules : Rules} {α : Type} {kind description : String} {inside : Parse α}
    (h : Body rules kind description inside) : description ≠ tooManyErrors := by
  cases h with
  | traitBody => exact append_append_ne_tooManyErrors
  | _ => decide

/-- What the bodies of the grammar are told stands on one line. -/
theorem Body.oneLine {rules : Rules} {α : Type} {kind description : String} {inside : Parse α}
    (h : Body rules kind description inside) : Text.OneLine description := by
  cases h with
  | traitBody keyword hkeyword => rcases hkeyword with rfl | rfl <;> decide
  | _ => decide

/-! ## Places -/

/-- Behind the opening brace of a body. -/
def Behind (brace : Token) (_ : Input) (s : State) : Prop :=
  s.read.back? = some brace ∧ brace.kind = .leftBrace

/-- Behind a word, a number or a piece of punctuation. -/
def Written (t : Token) (_ : Input) (s : State) : Prop :=
  t ∈ s.read.toList ++ s.rest ∧ t.kind.isPlain = true

/-- The words, the numbers and the punctuation of the parse stand on one line each. -/
def State.Tidy (s : State) : Prop :=
  ∀ t ∈ s.read.toList ++ s.rest, t.kind.isPlain = true → Text.OneLine t.lexeme

theorem Written.oneLine {t : Token} {i : Input} {s : State} (h : Written t i s) (hs : s.Tidy) :
    Text.OneLine t.lexeme := hs t h.1 h.2

/-- In a parse of these tokens, a description stands on one line, and so does what is wrong unless it
quotes an error token. -/
inductive NeatNote (tokens : List Token) : Note → Prop where
  | description {text : String} (h : Text.OneLine text) : NeatNote tokens (.description text)
  | error {text : String} (h : Text.OneLine text) : NeatNote tokens (.error text)
  | unexpected {t : Token} (ht : t ∈ tokens) (hkind : t.kind = .error) :
      NeatNote tokens (.error ("Unexpected token '" ++ t.lexeme ++ "'"))

/-- Whatever is noted on the way is neat, if the words and numbers that it quotes are. -/
def State.NotesNeatly (s t : State) : Prop :=
  s.Tidy → ∀ n ∈ t.notes, n ∈ s.notes ∨ NeatNote (s.read.toList ++ s.rest) n

theorem State.NotesNeatly.of_subset {s t : State} (h : t.notes ⊆ s.notes) : s.NotesNeatly t :=
  fun _ _ hn => .inl (h hn)

/-- One thing more is found wrong. -/
theorem State.NotesNeatly.of_lastError {s t : State} {error : String} (htree : t.tree = s.tree)
    (herror : t.lastError = some error)
    (hneat : s.Tidy → NeatNote (s.read.toList ++ s.rest) (.error error)) : s.NotesNeatly t := by
  intro hs n hn
  rw [mem_notes, herror, htree] at hn
  rcases hn with ⟨_, heq, rfl⟩ | hbefore
  · cases heq
    exact .inr (hneat hs)
  · exact .inl (mem_notes.2 (.inr hbefore))

/-- What is reported is noted. -/
theorem State.NotesNeatly.report (s : State) (i : Input) (t : Token) {description : String}
    (block : Option OpenBlock) (hline : s.Tidy → Text.OneLine description) :
    s.NotesNeatly (s.report i t description block) := by
  obtain ⟨_, _, _, heq⟩ := s.report_eq i t description block
  rw [heq]
  exact .of_lastError rfl rfl fun hs => .error (hline hs)

/-- Behind a token that was the next one once. -/
def Passed (t : Token) (i : Input) (s : State) : Prop := ∃ s₀, t = i.next s₀ ∧ Steps i s₀ s

/-- What is wrong was noted, or a bound was met. -/
def Noted (_ : Input) (s : State) : Prop := s.lastError.isSome ∨ s.spent = true

theorem noted_report (i : Input) (s : State) (t : Token) (description : String)
    (block : Option OpenBlock) : Noted i (s.report i t description block) := by
  obtain ⟨_, _, _, heq⟩ := s.report_eq i t description block
  rw [heq]
  exact .inl rfl

/-- Once come to, the place is not left. -/
def Lasting (K : Input → State → Prop) : Prop := ∀ {i s t}, Steps i s t → K i s → K i t

theorem lasting_anywhere : Lasting Anywhere := fun _ _ => trivial

theorem lasting_written (t : Token) : Lasting (Written t) := by
  intro i s u hsteps hword
  rw [Written, hsteps.tokens_eq]
  exact hword

/-- The parser yields the token that was the next one, and reports nothing on the way. -/
def YieldsNext (p : Parse Token) : Prop :=
  ∀ i s t u, i.eof.kind = .eof → exec p i s = (.ok t, u) → t = i.next s ∧ u.errors = s.errors

/-- If the parser yields a value then it has reported nothing. -/
def Silent {α : Type} (p : Parse α) : Prop :=
  ∀ i s a t, i.eof.kind = .eof → exec p i s = (.ok a, t) → t.errors = s.errors

/-- The next token is of the kind that was looked for. -/
theorem before_of_check {kind : Token.Kind} {i : Input} {s t : State} {b : Bool}
    (hexec : exec (check kind) i s = (.ok b, t)) (hb : b = true) : Before (· = kind) i t := by
  cases hexec
  exact beq_iff_eq.1 hb

theorem YieldsNext.silent {p : Parse Token} (h : YieldsNext p) : Silent p :=
  fun i s t u heof hexec => (h i s t u heof hexec).2

theorem Quiet.silent {α : Type} {p : Parse α} (h : Quiet p) : Silent p := by
  intro i s a t heof hexec
  obtain ⟨a', t', hexec', herrors⟩ := h.exec_eq_ok heof s
  cases hexec.symm.trans hexec'
  exact herrors

/-! ## The judgement -/

/-- From a place `K`, the parser reports as a rule should. If a token is given, then it was the next
one at some place, and nothing was reported since then. -/
inductive Reports : {α : Type} → Option Token → (Input → State → Prop) → Parse α → Prop where
  | weaken {α : Type} {o : Option Token} {K K' : Input → State → Prop} {p : Parse α}
      (h : Reports o K p) (hK : ∀ {i s}, K' i s → K i s) : Reports o K' p
  | forget {α : Type} {t : Token} {K : Input → State → Prop} {p : Parse α}
      (h : Reports none K p) : Reports (some t) K p
  | quiet {α : Type} {o : Option Token} {K : Input → State → Prop} {p : Parse α} (h : Quiet p) :
      Reports o K p
  /-- What follows looks at anything but the errors. -/
  | getAt {α : Type} {o : Option Token} {K : Input → State → Prop} {f : State → Parse α}
      (hblind : ∀ s c, f (s.withErrors c) = f s)
      (hf : ∀ s, Reports o (fun i t => K i t ∧ t = s) (f s)) : Reports o K (MonadState.get >>= f)
  /-- Something is noted, and nothing reported. -/
  | note {o : Option Token} {K : Input → State → Prop} {f : State → State}
      (hsteps : ∀ i s, Steps i s (f s)) (hblind : ∀ s c, f (s.withErrors c) = (f s).withErrors c)
      (hneat : ∀ {i s}, i.eof.kind = .eof → K i s → s.NotesNeatly (f s)) : Reports o K (modify f)
  -- sequences
  | bindTo {α β : Type} {o : Option Token} {K : Input → State → Prop} {p : Parse α}
      {f : α → Parse β} (V : α → Input → State → Prop) (hp : Reports o K p)
      (hV : ∀ {i s a t}, i.eof.kind = .eof → K i s → exec p i s = (.ok a, t) → V a i t)
      (hf : ∀ a, Reports none (V a) (f a)) : Reports o K (p >>= f)
  /-- The token that is yielded is known from then on. -/
  | remember {β : Type} {o : Option Token} {K : Input → State → Prop} {p : Parse Token}
      {f : Token → Parse β} (V : Token → Input → State → Prop) (hp : Reports o K p)
      (hyields : YieldsNext p)
      (hV : ∀ {i s t u}, i.eof.kind = .eof → K i s → exec p i s = (.ok t, u) → V t i u)
      (hf : ∀ t, Reports (some t) (V t) (f t)) : Reports o K (p >>= f)
  /-- Nothing is reported in between. -/
  | keep {α β : Type} {t : Token} {K : Input → State → Prop} {p : Parse α} {f : α → Parse β}
      (V : α → Input → State → Prop) (hp : Reports (some t) K p) (hsilent : Silent p)
      (hV : ∀ {i s a u}, i.eof.kind = .eof → K i s → exec p i s = (.ok a, u) → V a i u)
      (hf : ∀ a, Reports (some t) (V a) (f a)) : Reports (some t) K (p >>= f)
  -- reports
  | giveUp {α : Type} {o : Option Token} : Reports o Noted (giveUp : Parse α)
  | reportAt {K : Input → State → Prop} (t : Token) (description : String)
      (h : description ∉ unclosedBodies)
      (hline : ∀ {i s}, K i s → s.Tidy → Text.OneLine description) :
      Reports (some t) K (reportAt t description)
  /-- The one report that comes late. -/
  | reportLate {o : Option Token} (t : Token) :
      Reports o (Passed t) (reportAt t "Invalid assignment target.")
  | reportUnclosed {o : Option Token} {K : Input → State → Prop} (description : String)
      (h : Remark description) : Reports o K (reportUnclosed description)
  -- bodies and recovery
  | attempt {α : Type} {o : Option Token} {K : Input → State → Prop} {p : Parse α}
      (hp : Reports none Anywhere p) : Reports o K (attempt p)
  | concurrently {α : Type} {o : Option Token} {K : Input → State → Prop} {p : Parse α}
      (hp : Reports none Anywhere p) : Reports o K (concurrently p)
  | body {α β : Type} {o : Option Token} {fuel : Nat} {kind description : String} {brace : Token}
      {inside : Parse α} {rest : α → Bool → Parse β}
      (hbody : Body (.upTo fuel) kind description inside) (hinside : Reports none Anywhere inside)
      (hrest : ∀ a closed, Reports none (fun i s => closed = false → Noted i s) (rest a closed)) :
      Reports o (Behind brace) (inBody kind brace do
        let a ← inside
        rest a (← closeBlock description))

/-- From any place, whatever was reported before, the parser reports as a rule should. -/
abbrev Candid {α : Type} (p : Parse α) : Prop := Reports none Anywhere p

/-- Where a rule is called: that for conditionals in front of their keyword. -/
def Rule.place {α : Type} : Rule α → Input → State → Prop
  | .ifStatement => Before fun kind => kind = .kwIf ∨ kind = .kwElif
  | _ => Anywhere

/-! ## What every run does -/

/-- A closing brace is read, or it was found missing here before, or it is reported as missing. -/
theorem closeBlock_cases {i : Input} (heof : i.eof.kind = .eof) (s : State) (description : String) :
    (∃ t rest, s.rest = t :: rest ∧ t.kind = .rightBrace ∧
      exec (closeBlock description) i s = (.ok true, s.take t rest)) ∨
    exec (closeBlock description) i s = (.ok false, { s with lastError := some description }) ∨
    exec (closeBlock description) i s =
      (.ok false, { s with unclosedAt := some (i.next s).span.start }.report i (i.next s)
        description s.blocks.head?) := by
  have heat := exec_eat i s (by decide : Token.Kind.rightBrace ≠ .eof) heof
  have hmissing (hfalse : exec (eat .rightBrace) i s = (.ok false, s)) :
      exec (closeBlock description) i s = (.ok false, { s with lastError := some description }) ∨
      exec (closeBlock description) i s =
        (.ok false, { s with unclosedAt := some (i.next s).span.start }.report i (i.next s)
          description s.blocks.head?) := by
    have hpeek : exec peek i s = (.ok (i.next s), s) := rfl
    rw [closeBlock, exec_bind_ok i hfalse, if_neg Bool.false_ne_true, exec_bind_ok i hpeek,
      exec_bind_ok i (exec_get i s)]
    by_cases hbefore : s.unclosedAt = some (i.next s).span.start
    · rw [if_pos hbefore]
      exact .inl rfl
    · rw [if_neg hbefore]
      exact .inr rfl
  obtain hrest | ⟨t, rest, hrest⟩ : s.rest = [] ∨ ∃ t rest, s.rest = t :: rest := by
    cases s.rest <;> simp
  · rw [hrest] at heat
    exact .inr (hmissing heat)
  · rw [hrest] at heat
    by_cases hkind : t.kind = .rightBrace
    · simp only [hkind, if_true] at heat
      refine .inl ⟨t, rest, hrest, hkind, ?_⟩
      rw [closeBlock, exec_bind_ok i heat, if_pos rfl]
      rfl
    · simp only [hkind, if_false] at heat
      exact .inr (hmissing heat)

/-- To close a block is to yield whether its brace was there, and to note what is wrong if not. -/
theorem exec_closeBlock_eq_ok {i : Input} (heof : i.eof.kind = .eof) (s : State)
    (description : String) : ∃ closed t, exec (closeBlock description) i s = (.ok closed, t) ∧
      (closed = false → Noted i t) := by
  rcases closeBlock_cases heof s description with ⟨t, rest, -, -, h⟩ | h | h
  · exact ⟨true, _, h, fun hfalse => by cases hfalse⟩
  · exact ⟨false, _, h, fun _ => .inl rfl⟩
  · exact ⟨false, _, h, fun _ => noted_report ..⟩

/-- A parser inside a body. -/
theorem exec_inBody {α : Type} (kind : String) (brace : Token) (p : Parse α) (i : Input)
    (s : State) :
    exec (inBody kind brace p) i s =
      match exec p i { s with blocks := ⟨kind, brace⟩ :: s.blocks } with
      | (.ok a, t) => (.ok a, { t with blocks := t.blocks.tail })
      | (.error e, t) => (.error e, t) := by
  rw [inBody, enterBlock, exec_bind_ok i (exec_modify i s _), exec_bind]
  rcases exec p i { s with blocks := ⟨kind, brace⟩ :: s.blocks } with ⟨_ | a, t⟩ <;> rfl

/-- To leave a body reports nothing. -/
theorem errors_inBody {α : Type} (kind : String) (brace : Token) (p : Parse α) (i : Input)
    (s : State) :
    (exec (inBody kind brace p) i s).2.errors =
      (exec p i { s with blocks := ⟨kind, brace⟩ :: s.blocks }).2.errors := by
  rw [exec_inBody]
  rcases exec p i { s with blocks := ⟨kind, brace⟩ :: s.blocks } with ⟨_ | a, t⟩ <;> rfl

/-- The parser only takes steps. -/
theorem Reports.stepwise {α : Type} {o : Option Token} {K : Input → State → Prop} {p : Parse α}
    (h : Reports o K p) : Stepwise p := by
  induction h with
  | weaken _ _ ih | forget _ ih => exact ih
  | quiet h => exact h.stepwise
  | getAt _ _ ih => exact .bind .get ih
  | note hsteps => exact .change hsteps
  | bindTo _ _ _ _ hp hf => exact .bind hp hf
  | remember _ _ _ _ _ hp hf | keep _ _ _ _ _ hp hf => exact .bind hp hf
  | giveUp => exact .giveUp
  | reportAt t description | reportLate t =>
    intro i s _
    exact .single (.report s t _ none)
  | reportUnclosed description =>
    intro i s _
    exact .single (.report s _ description s.blocks.head?)
  | attempt _ hp => exact .attempt hp
  | concurrently _ hp => exact .concurrently hp
  | body _ _ _ hinside hrest =>
    exact .inBody _ _ (.bind hinside fun a => .bind (.closeBlock _) fun closed => hrest a closed)

/-- A parser that gives up has noted what is wrong, unless a bound was met. -/
theorem Reports.noted {α : Type} {o : Option Token} {K : Input → State → Prop} {p : Parse α}
    (h : Reports o K p) {i : Input} {s t : State} {e : Unit} (heof : i.eof.kind = .eof)
    (hK : K i s) (hexec : exec p i s = (.error e, t)) : Noted i t := by
  induction h generalizing s t with
  | weaken _ hweak ih => exact ih (hweak hK) hexec
  | forget _ ih => exact ih hK hexec
  | quiet h =>
    obtain ⟨a, u, hok, -⟩ := h.exec_eq_ok heof s
    cases hok.symm.trans hexec
  | getAt _ _ ih => exact ih s ⟨hK, rfl⟩ hexec
  | note => cases hexec
  | bindTo _ _ hV _ hp hf | remember _ _ _ hV _ hp hf | keep _ _ _ hV _ hp hf =>
    rcases exec_bind_eq_error hexec with hfirst | ⟨a, u, hfirst, hsecond⟩
    · exact hp hK hfirst
    · exact hf a (hV heof hK hfirst) hsecond
  | giveUp =>
    cases hexec
    exact hK
  | reportAt | reportLate | reportUnclosed => cases hexec
  | @attempt _ _ _ p =>
    rw [exec_attempt] at hexec
    rcases hrun : exec p i s with ⟨_ | a, u⟩
    all_goals
      rw [hrun] at hexec
      cases hexec
  | @concurrently _ _ _ p _ hp =>
    rw [exec_concurrently] at hexec
    rcases hrun : exec p i { s with concurrent := true } with ⟨e' | a, u⟩
    · rw [hrun] at hexec
      cases hexec
      have hnoted : Noted i u := hp trivial hrun
      exact hnoted
    · rw [hrun] at hexec
      cases hexec
  | @body _ _ _ _ kind description brace inside rest _ _ _ hinside hrest =>
    rw [exec_inBody] at hexec
    split at hexec
    next => cases hexec
    next e' u hrun =>
      cases hexec
      rcases exec_bind_eq_error hrun with hfails | ⟨a, v, -, hclose⟩
      · exact hinside trivial hfails
      obtain ⟨closed, w, hclosed, hnoted⟩ := exec_closeBlock_eq_ok heof v description
      rw [exec_bind_ok i hclosed] at hclose
      exact hrest a closed hnoted hclose

/-! ## Invariants -/

/-- An invariant that is kept where nothing is reported and whatever is noted is neat, and by every
report that a rule may make. The next token is fresh, and it stays so until something is reported. -/
structure Upheld (i : Input) (Fresh : Token → State → Prop) (I : State → Prop) : Prop where
  silent : ∀ {s t}, I s → Steps i s t → t.errors = s.errors → s.NotesNeatly t → I t
  next : ∀ {s}, I s → Fresh (i.next s) s
  stays : ∀ {token s t}, I s → Fresh token s → Steps i s t → t.errors = s.errors → Fresh token t
  report : ∀ {token s description}, I s → Fresh token s → (s.Tidy → Text.OneLine description) →
    I (s.report i token description none)
  reportLate : ∀ {s₀ s}, I s → Steps i s₀ s →
    I (s.report i (i.next s₀) "Invalid assignment target." none)
  reportUnclosed : ∀ {s description}, I s → Text.OneLine description →
    I (s.report i (i.next s) description s.blocks.head?)

section
variable {i : Input} {Fresh : Token → State → Prop} {I : State → Prop} {s : State}

/-- Only what is known about the place changes. -/
theorem Upheld.context (h : Upheld i Fresh I) (hs : I s) (blocks : List OpenBlock) (depth : Nat)
    (concurrent : Bool) (unclosedAt : Option Nat) :
    I { s with blocks, depth, concurrent, unclosedAt } :=
  h.silent hs (.single (.context ..)) rfl (.of_subset (List.Subset.refl _))

/-- That the closing brace of a body is missing is reported about the next token. -/
theorem Upheld.closeBlock (h : Upheld i Fresh I) (heof : i.eof.kind = .eof) (hs : I s)
    {description : String} (hline : Text.OneLine description) :
    I (exec (closeBlock description) i s).2 := by
  rcases closeBlock_cases heof s description with
    ⟨brace, rest, hrest, hkind, hexec⟩ | hexec | hexec
  all_goals rw [hexec]
  · exact h.silent hs (.single (.take s brace rest hrest (by rw [hkind]; decide))) rfl
      (.of_subset (s.notes_take brace rest))
  · exact h.silent hs (.single (.context ..)) rfl
      (.of_lastError rfl rfl fun _ => .error hline)
  · have hmarked : I { s with unclosedAt := some (i.next s).span.start } :=
      h.context hs ..
    exact h.reportUnclosed hmarked hline

/-- A parser that reports as a rule should keeps such an invariant. -/
theorem Reports.keeps {α : Type} {o : Option Token} {K : Input → State → Prop} {p : Parse α}
    (h : Reports o K p) (hinv : Upheld i Fresh I) (heof : i.eof.kind = .eof) (hK : K i s)
    (ho : ∀ token, o = some token → Fresh token s) (hs : I s) : I (exec p i s).2 := by
  have hforget {t : State} (token : Token) (hnone : none = some token) : Fresh token t := by
    cases hnone
  induction h generalizing s with
  | weaken _ hweak ih => exact ih (hweak hK) ho hs
  | forget _ ih => exact ih hK hforget hs
  | quiet h =>
    obtain ⟨a, t, hexec, herrors⟩ := h.exec_eq_ok heof s
    rw [hexec]
    have hnotes := h.notes i s heof
    rw [hexec] at hnotes
    exact hinv.silent hs (h.stepwise.run heof hexec) herrors (.of_subset hnotes)
  | getAt _ _ ih => exact ih s ⟨hK, rfl⟩ ho hs
  | note hsteps hblind hneat =>
    exact hinv.silent hs (hsteps i s) (Quiet.errors_of_blind hblind s) (hneat heof hK)
  | bindTo _ _ hV _ hp hf =>
    exact exec_bind_keeps (hp hK ho hs) fun a t hexec ht => hf a (hV heof hK hexec) hforget ht
  | remember _ hreads hyields hV _ hp hf =>
    refine exec_bind_keeps (hp hK ho hs) fun token t hexec ht => ?_
    obtain ⟨rfl, herrors⟩ := hyields i s token t heof hexec
    refine hf _ (hV heof hK hexec) (fun _ htoken => ?_) ht
    cases htoken
    exact hinv.stays hs (hinv.next hs) (hreads.stepwise.run heof hexec) herrors
  | @keep _ _ token _ p f _ hkeep hsilent hV _ hp hf =>
    refine exec_bind_keeps (hp hK ho hs) fun a t hexec ht =>
      hf a (hV heof hK hexec) (fun _ htoken => ?_) ht
    cases htoken
    exact hinv.stays hs (ho token rfl) (hkeep.stepwise.run heof hexec) (hsilent i s a t heof hexec)
  | giveUp => exact hs
  | reportAt token _ _ hline => exact hinv.report hs (ho token rfl) (hline hK)
  | reportLate token =>
    obtain ⟨s₀, rfl, hsteps⟩ := hK
    exact hinv.reportLate hs hsteps
  | reportUnclosed description h => exact hinv.reportUnclosed hs h.oneLine
  | attempt _ hp =>
    rw [exec_attempt_snd]
    exact hp trivial hforget hs
  | concurrently _ hp =>
    have hinside : I { s with concurrent := true } := hinv.context hs ..
    rw [exec_concurrently_snd]
    exact hinv.context (hp trivial hforget hinside) ..
  | @body _ _ _ _ kind description brace inside rest hbody _ _ hinside hrest =>
    have hentered : I { s with blocks := ⟨kind, brace⟩ :: s.blocks } := hinv.context hs ..
    have hrun : I (exec (do
        let a ← inside
        rest a (← closeBlock description)) i
          { s with blocks := ⟨kind, brace⟩ :: s.blocks }).2 := by
      refine exec_bind_keeps (hinside trivial hforget hentered) fun a t _ ht => ?_
      obtain ⟨closed, u, hclosed, hnoted⟩ := exec_closeBlock_eq_ok heof t description
      have hclosing := hinv.closeBlock heof ht hbody.oneLine
      rw [hclosed] at hclosing
      rw [exec_bind_ok i hclosed]
      exact hrest a closed hnoted hforget hclosing
    rw [exec_inBody]
    split
    all_goals
      next hexec =>
        rw [hexec] at hrun
        exact hinv.context hrun ..

end

/-! ## Operations made of others -/

/-- A text that starts unlike all that is said of bodies. The condition is left to `decide`, as that
of `Rat.reduced` is. -/
theorem append_not_mem_unclosedBodies {start rest : String}
    (h : autoParam (¬ start.toList <+: unclosedBody.toList ∧ ¬ unclosedBody.toList <+: start.toList)
      Rat.reduced._autoParam) :
    start ++ rest ∉ unclosedBodies := by
  intro hmem
  have hstart : start.toList <+: (start ++ rest).toList := by
    rw [String.toList_append]
    exact List.prefix_append ..
  rcases List.prefix_or_prefix_of_prefix hstart (unclosedBody_begins _ hmem) with hpre | hpre
  exacts [h.1 hpre, h.2 hpre]

theorem append_append_not_mem_unclosedBodies {start middle rest : String}
    (h : autoParam (¬ start.toList <+: unclosedBody.toList ∧ ¬ unclosedBody.toList <+: start.toList)
      Rat.reduced._autoParam) :
    start ++ middle ++ rest ∉ unclosedBodies := by
  rw [String.append_assoc]
  exact append_not_mem_unclosedBodies h

/-- One line around one line. The condition is left to `decide` again. -/
theorem oneLine_around {start middle rest : String}
    (h : autoParam (Text.OneLine start ∧ Text.OneLine rest) Rat.reduced._autoParam)
    (hmiddle : Text.OneLine middle) : Text.OneLine (start ++ middle ++ rest) :=
  .append (.append h.1 hmiddle) h.2

/-! ### Tokens -/

theorem yields_peek : YieldsNext peek := by
  intro i s t u _ hexec
  cases hexec
  exact ⟨rfl, rfl⟩

theorem yields_advance : YieldsNext advance := by
  intro i s t u heof hexec
  refine ⟨?_, Quiet.advance.silent i s t u heof hexec⟩
  rw [exec_advance] at hexec
  cases hrest : s.rest with
  | nil =>
    rw [hrest] at hexec
    cases hexec
    simp [Input.next, hrest]
  | cons v rest =>
    rw [hrest] at hexec
    cases hexec
    simp [Input.next, hrest]

theorem yields_consume (kind : Token.Kind) (description : String) :
    YieldsNext (consume kind description) :=
  fun i s t u heof hexec => yields_advance i s t u heof (exec_consume_eq_ok hexec).2

/-- A token that is read is the last one read behind it. -/
theorem back?_of_advance {i : Input} {s u : State} {t : Token} (heof : i.eof.kind = .eof)
    (hnext : (i.next s).kind ≠ .eof) (hexec : exec advance i s = (.ok t, u)) :
    u.read.back? = some t ∧ t = i.next s := by
  refine ⟨?_, (yields_advance i s t u heof hexec).1⟩
  rw [exec_advance] at hexec
  cases hrest : s.rest with
  | nil =>
    rw [Input.next, hrest] at hnext
    exact absurd heof hnext
  | cons v rest =>
    rw [Input.next, hrest] at hnext
    rw [hrest] at hexec
    have hkind : v.kind ≠ .eof := hnext
    simp only [hkind, if_false] at hexec
    cases hexec
    exact Array.back?_push ..

/-- The opening brace of a body is the last token read behind it. -/
theorem behind_of_advance {i : Input} {s u : State} {brace : Token} (heof : i.eof.kind = .eof)
    (hnext : (i.next s).kind = .leftBrace) (hexec : exec advance i s = (.ok brace, u)) :
    Behind brace i u := by
  obtain ⟨hback, rfl⟩ := back?_of_advance heof (by rw [hnext]; decide) hexec
  exact ⟨hback, hnext⟩

theorem written_of_advance {i : Input} {s u : State} {t : Token} (heof : i.eof.kind = .eof)
    (hnext : (i.next s).kind.isPlain = true) (hexec : exec advance i s = (.ok t, u)) :
    Written t i u := by
  have hkind : (i.next s).kind ≠ .eof := by
    intro hend
    rw [hend] at hnext
    cases hnext
  obtain ⟨hback, rfl⟩ := back?_of_advance heof hkind hexec
  exact ⟨List.mem_append_left _ (Array.mem_toList_iff.2 (Array.mem_of_back? hback)), hnext⟩

theorem isPlain_of_isNumber {kind : Token.Kind} (h : kind.isNumber = true) :
    kind.isPlain = true := by
  cases kind <;> first | rfl | cases h

theorem behind_of_consume {i : Input} {s u : State} {description : String} {brace : Token}
    (heof : i.eof.kind = .eof)
    (hexec : exec (consume .leftBrace description) i s = (.ok brace, u)) :
    Behind brace i u := by
  obtain ⟨hnext, hadvance⟩ := exec_consume_eq_ok hexec
  exact behind_of_advance heof hnext hadvance

theorem written_of_consume {i : Input} {s u : State} {kind : Token.Kind} {description : String}
    {t : Token} (hkind : kind.isPlain = true) (heof : i.eof.kind = .eof)
    (hexec : exec (consume kind description) i s = (.ok t, u)) : Written t i u := by
  obtain ⟨hnext, hadvance⟩ := exec_consume_eq_ok hexec
  exact written_of_advance heof (by rw [hnext]; exact hkind) hadvance

namespace Reports

section
variable {α β : Type} {p : Parse α} {o : Option Token} {K : Input → State → Prop}

/-- What is candid is so at any place, whatever was the next token before. -/
theorem here (h : Candid p) : Reports o K p := by
  cases o with
  | none => exact h.weaken fun _ => trivial
  | some t => exact .forget (h.weaken fun _ => trivial)

theorem bind {f : α → Parse β} (hp : Reports o K p) (hf : ∀ a, Candid (f a)) :
    Reports o K (p >>= f) :=
  .bindTo (fun _ => Anywhere) hp (fun _ _ _ => trivial) hf

theorem ite {c : Prop} [Decidable c] {q : Parse α} (hp : Reports o K p) (hq : Reports o K q) :
    Reports o K (if c then p else q) := by
  split
  · exact hp
  · exact hq

/-! ### Reports -/

section
variable {description : String} (h : description ∉ unclosedBodies)
  (hline : ∀ {i s}, K i s → s.Tidy → Text.OneLine description)
include h hline

theorem reportHere : Reports o K (reportHere description) := by
  refine .remember (fun _ => K) (.quiet .peek) yields_peek (fun _ hK hexec => ?_) fun t =>
    .reportAt t description h hline
  cases hexec
  exact hK

theorem fail : Reports o K (fail description : Parse α) := by
  refine .bindTo (fun _ => Noted) (reportHere h hline) (fun _ _ hexec => ?_) fun _ => .giveUp
  cases hexec
  exact noted_report ..

theorem consume (kind : Token.Kind) : Reports o K (consume kind description) := by
  refine .bindTo (fun _ => K) (.quiet (.check kind)) (fun _ hK hexec => ?_) fun b => ?_
  · cases hexec
    exact hK
  · cases b with
    | true => exact .quiet .advance
    | false => exact .fail h hline

end

theorem consumeClose (kind : Token.Kind) {description : String} (h : Remark description) :
    Reports o K (consumeClose kind description) := by
  refine .bind (.quiet (.check kind)) fun b => ?_
  cases b with
  | true => exact .quiet (.bind .advance fun _ => .pure _)
  | false =>
    refine .bindTo (fun _ => Noted) (.reportUnclosed _ h) (fun _ _ hexec => ?_) fun _ => .giveUp
    cases hexec
    exact noted_report ..

/-! ### Notes, nodes and recovery -/

/-- A change of the tree that notes one thing: it was noted before, or it is neat. -/
theorem onTree {f : Tree.Builder → Tree.Builder} {note : Note} (hf : Tree.Builder.Edit f)
    (hnotes : ∀ {b : Tree.Builder} {n : Note}, n ∈ (f b).notes → n ∈ b.notes ∨ n = note)
    (hneat : ∀ {i s}, K i s → s.Tidy → note ∈ s.notes ∨ NeatNote (s.read.toList ++ s.rest) note) :
    Reports o K (onTree f) := by
  refine .note (fun _ s => .single (.edit s f hf)) (fun _ _ => rfl) fun _ hK htidy n hn => ?_
  rcases State.mem_notes_mapTree hnotes hn with hbefore | rfl
  · exact .inl hbefore
  · exact hneat hK htidy

/-- A parser between two quiet changes, the first of which leaves the place alone. -/
theorem between {enter leave : State → State} (henter : Quiet (modify enter))
    (hK : ∀ {i s}, K i s → K i (enter s)) (hp : Reports none K p) (hleave : Quiet (modify leave)) :
    Reports o K
      (modify enter >>= fun _ => p >>= fun a => modify leave >>= fun _ => Pure.pure a) := by
  refine .bindTo (fun _ => K) (.quiet henter) (fun _ hplace hexec => ?_) fun _ =>
    .bind hp fun a => .bind (.quiet hleave) fun _ => .quiet (.pure a)
  cases hexec
  exact hK hplace

/-- A node that starts at a place which has nothing to do with the tree. -/
theorem inNodeAt (hK : ∀ {i s f}, K i s → K i (s.mapTree f)) (c : Option Tree.Checkpoint)
    (kind : Tree.Kind) (hp : Reports none K p) : Reports o K (inNodeAt c kind p) := by
  cases c with
  | none => exact between (.openNode kind) hK hp .closeNode
  | some c => exact between (.openAt (some c) kind) hK hp .closeNode

theorem deeper (hp : Candid p) : Candid (deeper p) :=
  between (.context (fun _ _ => rfl) fun _ => ⟨_, _, _, _, rfl⟩) id hp
    (.context (fun _ _ => rfl) fun _ => ⟨_, _, _, _, rfl⟩)

theorem recovering {skip : Bool → Parse Unit} (hskip : ∀ progress, Candid (skip progress))
    (hp : Candid p) : Candid (recovering skip p) := by
  have hrecover : ∀ place, Candid (recover skip place) := by
    refine fun place => .bind (.quiet (.returnTo place)) fun _ =>
      .inNodeAt id _ _ (.getAt (fun _ _ => rfl) fun s => ?_)
    have hrest : Candid (do
        if !(← MonadState.get).halted then
          skip ((← MonadState.get).position > place.position)) := by
      refine .getAt (fun _ _ => rfl) fun s => ?_
      split
      · exact .getAt (fun _ _ => rfl) fun _ => .here (hskip _)
      · exact .quiet (.pure _)
    dsimp only
    split
    next error herror =>
      -- what is noted at the node was noted before
      refine .bind (.onTree (.markError error) Tree.Builder.mem_notes_markError
        fun ⟨_, hs⟩ _ => .inl ?_) fun _ => hrest
      rw [hs]
      exact State.mem_notes.2 (.inl ⟨error, herror, rfl⟩)
    · exact .here hrest
  refine .getAt (fun _ _ => rfl) fun _ => .bind (.attempt hp) fun r => ?_
  split
  · exact .bind (hrecover _) fun _ => .quiet (.pure _)
  · exact .quiet (.pure _)

/-- A loop, turn by turn, at a place that is not left. -/
theorem repeatUpTo {σ : Type} (hK : Lasting K) {turn : σ → Parse (σ × Bool)}
    (h : ∀ x, Reports none K (turn x)) (bound : Nat) (x : σ) :
    Reports none K (repeatUpTo turn bound x) := by
  induction bound generalizing x with
  | zero => exact .bind (.quiet .spend) fun _ => .quiet (.pure x)
  | succ bound ih =>
    refine .bindTo (fun _ => K) (h x) (fun heof hs hexec => hK ((h x).stepwise.run heof hexec) hs)
      fun ⟨y, more⟩ => ?_
    cases more with
    | true => exact ih y
    | false => exact .quiet (.pure y)

/-- What a body counts as open may be put back before or behind its closing brace. -/
theorem deeper_closing (inside : Parse α) (description : String) :
    (Grammar.deeper do
      let a ← inside
      let _ ← closeBlock description
      return a) = do
    let a ← (do
      modify fun s => { s with depth := s.depth + 1 }
      inside)
    let _ ← closeBlock description
    modify fun s => { s with depth := s.depth - 1 }
    return a := by
  simp only [Grammar.deeper, bind_assoc, pure_bind]

/-- A body inside of which another one is counted as open. -/
theorem deepBody {fuel : Nat} {kind description : String} {brace : Token} {inside : Parse α}
    (hbody : Body (.upTo fuel) kind description do
      modify fun s => { s with depth := s.depth + 1 }
      inside)
    (hinside : Candid inside) :
    Reports o (Behind brace) (inBody kind brace (Grammar.deeper do
      let a ← inside
      let _ ← closeBlock description
      return a)) := by
  rw [deeper_closing]
  exact .body hbody (.bind (.quiet (.context (fun _ _ => rfl) fun _ => ⟨_, _, _, _, rfl⟩)) fun _ =>
    hinside) fun a _ => .here (.bind (.quiet (.context (fun _ _ => rfl) fun _ =>
      ⟨_, _, _, _, rfl⟩)) fun _ => .quiet (.pure a))

end

end Reports

end LimitSyntax.Grammar
