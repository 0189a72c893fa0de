import LimitSyntax.Proofs.ParseModes

/-!
# The limit of reports

Parses of one stream under a large and under a small limit are in the same state until the small
limit is reached (`Grammar.Follows`). From there on they are parted: the one under the small limit
has halted with a note and reports nothing more, the other one only adds messages
(`Grammar.Parted`).
-/

namespace LimitSyntax

/-! ## Messages that are kept -/

namespace Diagnostic.Collector

variable {c : Collector} {m : Message}

theorem complete_line (c : Collector) (m : Message) (source : Option String) :
    (c.complete m source).line = m.line := by
  unfold complete
  split
  · split <;> rfl
  · rfl

theorem complete_column (c : Collector) (m : Message) (source : Option String) :
    (c.complete m source).column = m.column := by
  unfold complete
  split
  · split <;> rfl
  · rfl

theorem complete_block (c : Collector) (m : Message) (source : Option String) :
    (c.complete m source).block = m.block := by
  unfold complete
  split
  · split <;> rfl
  · rfl

theorem messages_report_of_not_seen (h : c.seen m = false) (source : Option String) :
    (c.report m source).messages = c.messages.push (c.complete m source) := by
  rw [report_eq_ite, h]
  rfl

/-- What nobody said was not reported. -/
theorem not_seen (h : ∀ n ∈ c.messages, n.description ≠ m.description) : c.seen m = false := by
  rw [Bool.eq_false_iff]
  intro hseen
  obtain ⟨n, hn, hkey⟩ := (c.mem_keys m.key).1 (List.contains_iff_mem.1 hseen)
  exact h n hn (congrArg Key.description hkey)

end Diagnostic.Collector

namespace Grammar

open Diagnostic

/-- The same input under another limit. -/
def Input.upTo (i : Input) (limit : Nat) : Input := { i with limit }

/-! ## Parted parses -/

/-- The first `limit` messages, and a note at the place of the last of them. -/
def Capped (limit : Nat) (messages errors : List Message) : Prop :=
  ∃ last note, messages[limit - 1]? = some last ∧ errors = messages.take limit ++ [note] ∧
    note.description = tooManyErrors ∧ note.line = last.line ∧ note.column = last.column

theorem Capped.mono {limit : Nat} {messages messages' errors : List Message}
    (h : Capped limit messages errors) (hpre : messages <+: messages') :
    Capped limit messages' errors := by
  obtain ⟨last, note, hlast, rfl, hnote⟩ := h
  obtain ⟨more, rfl⟩ := hpre
  have hlen : limit - 1 < messages.length := (List.getElem?_eq_some_iff.1 hlast).1
  refine ⟨last, note, ?_, ?_, hnote⟩
  · rwa [List.getElem?_append_left hlen]
  · rw [List.take_append_of_le_length (by omega)]

/-- A parse under a small limit has halted, or one under a large limit has reached it. -/
inductive Parted (large small : Nat) (s t : State) : Prop where
  | beyond (h : large ≤ s.errors.messages.toList.length)
  | capped (halted : t.halted = true)
      (h : Capped small s.errors.messages.toList t.errors.messages.toList)

theorem Parted.steps {i j : Input} {large small : Nat} {s s' t t' : State}
    (h : Parted large small s t) (hs : Steps i s s') (ht : Steps j t t') :
    Parted large small s' t' := by
  have hpre := hs.errors_prefix
  cases h with
  | beyond h => exact .beyond (Nat.le_trans h hpre.length_le)
  | capped halted h =>
    obtain ⟨hhalted, herrors⟩ := ht.halted halted
    exact .capped hhalted (herrors ▸ h.mono hpre)

/-! ## Parses in the same state -/

/-- A parse of which every message so far is a report below the limit. -/
structure State.Below (limit : Nat) (s : State) : Prop where
  going : s.halted = false
  counted : s.reported = s.errors.messages.toList.length
  below : s.reported < limit
  worded : ∀ m ∈ s.errors.messages, m.description ≠ tooManyErrors

/-- A change that touches no report. -/
theorem State.Below.congr {limit : Nat} {s s' : State} (h : s.Below limit)
    (halted : s'.halted = s.halted) (reported : s'.reported = s.reported)
    (errors : s'.errors = s.errors) : s'.Below limit where
  going := halted ▸ h.going
  counted := by rw [reported, errors]; exact h.counted
  below := reported ▸ h.below
  worded := errors ▸ h.worded

/-- Under either limit a report is passed over, or adds the same message; the limit only decides
whether a note follows. -/
theorem State.report_cases (s : State) (i : Input) (t : Token) (description : String)
    (block : Option OpenBlock) (hs : s.halted = false) :
    (∀ limit, s.report (i.upTo limit) t description block =
      { s with lastError := some description }) ∨
    ∃ m : Message, m.description = description ∧ m.line = (i.message t tooManyErrors).line ∧
      m.column = (i.message t tooManyErrors).column ∧ m.block = block.map (·.context i.source) ∧
      s.errors.seen m = false ∧ ∀ limit, s.report (i.upTo limit) t description block =
        if s.reported + 1 < limit then { s with
          lastError := some description
          errors := s.errors.report m (some i.source.text)
          reported := s.reported + 1 }
        else { s with
          lastError := some description
          errors := (s.errors.report m (some i.source.text)).report (i.message t tooManyErrors)
            (some i.source.text)
          reported := s.reported + 1
          halted := true } := by
  by_cases hkind : t.kind = .error
  · exact .inl fun limit => by simp [State.report, hkind]
  have hreport : ∃ m : Message, m.description = description ∧
      m.line = (i.message t tooManyErrors).line ∧ m.column = (i.message t tooManyErrors).column ∧
      m.block = block.map (·.context i.source) ∧
      ∀ limit, s.report (i.upTo limit) t description block =
        if s.errors.seen m then { s with lastError := some description }
        else if s.reported + 1 < limit then { s with
          lastError := some description
          errors := s.errors.report m (some i.source.text)
          reported := s.reported + 1 }
        else { s with
          lastError := some description
          errors := (s.errors.report m (some i.source.text)).report (i.message t tooManyErrors)
            (some i.source.text)
          reported := s.reported + 1
          halted := true } := by
    cases block with
    | none =>
      refine ⟨(i.message t description).onToken t.lexeme, rfl, rfl, rfl, rfl, fun limit => ?_⟩
      simp only [State.report_eq_ite, hs, beq_false_of_ne hkind, Bool.or_self, Bool.false_eq_true,
        if_false]
      rfl
    | some b =>
      refine ⟨((i.message t description).onToken t.lexeme).inBlock (b.context i.source), rfl, rfl,
        rfl, rfl, fun limit => ?_⟩
      simp only [State.report_eq_ite, hs, beq_false_of_ne hkind, Bool.or_self, Bool.false_eq_true,
        if_false]
      rfl
  obtain ⟨m, hdescription, hline, hcolumn, hblock, heq⟩ := hreport
  cases hseen : s.errors.seen m with
  | true => exact .inl fun limit => by rw [heq, hseen, if_pos rfl]
  | false =>
    refine .inr ⟨m, hdescription, hline, hcolumn, hblock, hseen, fun limit => ?_⟩
    rw [heq, hseen, if_neg Bool.false_ne_true]

/-- A report keeps two parses in the same state, unless it is the last under one of the limits. -/
theorem State.Below.report {large small : Nat} {s : State} (h : s.Below small) (i : Input)
    (t : Token) (description : String) (block : Option OpenBlock)
    (hd : description ≠ tooManyErrors) :
    (s.report (i.upTo large) t description block = s.report (i.upTo small) t description block ∧
      (s.report (i.upTo small) t description block).Below small) ∨
    Parted large small (s.report (i.upTo large) t description block)
      (s.report (i.upTo small) t description block) := by
  rcases s.report_cases i t description block h.going with heq | ⟨m, hm, hline, hcolumn, -, hnew, heq⟩
  · exact .inl ⟨by rw [heq, heq], by rw [heq]; exact h.congr rfl rfl rfl⟩
  have hpush := Collector.messages_report_of_not_seen hnew (some i.source.text)
  have hlen : (s.errors.report m (some i.source.text)).messages.toList.length =
      s.reported + 1 := by
    rw [hpush, h.counted]
    simp
  have hworded : ∀ n ∈ (s.errors.report m (some i.source.text)).messages,
      n.description ≠ tooManyErrors := by
    rw [hpush]
    intro n hn
    rcases Array.mem_push.1 hn with hn | rfl
    · exact h.worded n hn
    · rw [Collector.complete_description, hm]
      exact hd
  rw [heq large, heq small]
  by_cases hlarge : s.reported + 1 < large
  · rw [if_pos hlarge]
    by_cases hsmall : s.reported + 1 < small
    · rw [if_pos hsmall]
      exact .inl ⟨rfl, h.going, hlen.symm, hsmall, hworded⟩
    · -- the message that reaches the small limit
      rw [if_neg hsmall]
      have hcounted := h.counted
      have hlast : small = s.errors.messages.toList.length + 1 := by
        have := h.below
        omega
      refine .inr (.capped rfl ⟨s.errors.complete m (some i.source.text),
        (s.errors.report m (some i.source.text)).complete (i.message t tooManyErrors)
          (some i.source.text), ?_, ?_, ?_, ?_, ?_⟩)
      · simp [hpush, hlast]
      · dsimp only
        rw [Collector.messages_report_of_not_seen (Collector.not_seen hworded), Array.toList_push,
          hlast, List.take_of_length_le (by omega)]
      · rw [Collector.complete_description]
        rfl
      · rw [Collector.complete_line, Collector.complete_line, hline]
      · rw [Collector.complete_column, Collector.complete_column, hcolumn]
  · rw [if_neg hlarge]
    refine .inr (.beyond ?_)
    have hmore := (Collector.prefix_report (s.errors.report m (some i.source.text))
      (i.message t tooManyErrors) (some i.source.text)).length_le
    rw [hlen] at hmore
    dsimp only
    omega

/-- Runs of the parser under two limits end alike, or parted. -/
structure Follows {α : Type} (p : Parse α) : Prop where
  stepwise : Stepwise p
  agrees : ∀ (i : Input) (large small : Nat) (s : State), i.eof.kind = .eof → s.Below small →
    (exec p (i.upTo large) s = exec p (i.upTo small) s ∧
      (exec p (i.upTo small) s).2.Below small) ∨
    Parted large small (exec p (i.upTo large) s).2 (exec p (i.upTo small) s).2

namespace Follows

section
variable {α β : Type} {p : Parse α}

/-- A parser that looks at the state and leaves it alone. -/
theorem look (hstep : Stepwise p)
    (h : ∀ i limit s, exec p (Input.upTo i limit) s = ((exec p i s).1, s)) : Follows p where
  stepwise := hstep
  agrees i large small s _ hs := .inl ⟨by rw [h, h], by rw [h]; exact hs⟩

theorem pure (a : α) : Follows (Pure.pure a) := .look (.pure a) fun _ _ _ => rfl

theorem giveUp : Follows (giveUp : Parse α) := .look .giveUp fun _ _ _ => rfl

theorem get : Follows get := .look .get fun _ _ _ => rfl

/-- A change of the state that touches no report. -/
theorem change {f : State → State} (hstep : Stepwise (modify f))
    (halted : ∀ s, (f s).halted = s.halted) (reported : ∀ s, (f s).reported = s.reported)
    (errors : ∀ s, (f s).errors = s.errors) : Follows (modify f) where
  stepwise := hstep
  agrees i large small s _ hs := by
    rw [exec_modify, exec_modify]
    exact .inl ⟨rfl, hs.congr (halted s) (reported s) (errors s)⟩

theorem bind {f : α → Parse β} (hp : Follows p) (hf : ∀ a, Follows (f a)) :
    Follows (p >>= f) where
  stepwise := .bind hp.stepwise fun a => (hf a).stepwise
  agrees i large small s heof hs := by
    have hrest : ∀ limit, Steps (i.upTo limit) (exec p (i.upTo limit) s).2
        (exec (p >>= f) (i.upTo limit) s).2 := fun _ =>
      Stepwise.behind (fun a => (hf a).stepwise) s heof
    rcases hp.agrees i large small s heof hs with ⟨heq, hbelow⟩ | hparted
    · rw [exec_bind, exec_bind, heq]
      rcases hexec : exec p (i.upTo small) s with ⟨_ | a, s'⟩
      · rw [hexec] at hbelow
        exact .inl ⟨rfl, hbelow⟩
      · rw [hexec] at hbelow
        exact (hf a).agrees i large small s' heof hbelow
    · exact .inr (hparted.steps (hrest large) (hrest small))

theorem ite {c : Prop} [Decidable c] {q : Parse α} (hp : Follows p) (hq : Follows q) :
    Follows (if c then p else q) := by
  split
  · exact hp
  · exact hq

theorem attempt (hp : Follows p) : Follows (attempt p) where
  stepwise := .attempt hp.stepwise
  agrees i large small s heof hs := by
    rw [exec_attempt_snd, exec_attempt_snd]
    rcases hp.agrees i large small s heof hs with ⟨heq, hbelow⟩ | hparted
    · exact .inl ⟨by rw [exec_attempt, exec_attempt, heq], hbelow⟩
    · exact .inr hparted

/-! ## Tokens -/

theorem advance : Follows advance where
  stepwise := .advance
  agrees i large small s _ hs := by
    rw [exec_advance, exec_advance]
    refine .inl ⟨rfl, ?_⟩
    split
    next => split <;> exact hs.congr rfl rfl rfl
    next => exact hs

theorem eatBefore {kind : Token.Kind} (hkind : kind ≠ .eof) (ahead : Token → Token → Bool) :
    Follows (eatBefore kind ahead) where
  stepwise := .eatBefore hkind ahead
  agrees i large small s heof hs := by
    rw [exec_eatBefore (i.upTo large) s hkind heof, exec_eatBefore (i.upTo small) s hkind heof]
    refine .inl ⟨rfl, ?_⟩
    split
    next =>
      split
      next =>
        split
        · exact hs.congr rfl rfl rfl
        · rw [State.back_take]
          exact hs.congr rfl rfl rfl
      next => exact hs
    next => exact hs

/-! ## The tree -/

theorem onTree {f : Tree.Builder → Tree.Builder} (hf : Tree.Builder.Edit f) :
    Follows (onTree f) :=
  .change (.onTree hf) (fun _ => rfl) (fun _ => rfl) fun _ => rfl

theorem inNode (kind : Tree.Kind) (hp : Follows p) : Follows (inNode kind p) :=
  .bind (.onTree (.start kind)) fun _ => .bind hp fun _ => .bind (.onTree .finish) fun _ => .pure _

theorem inNodeAt (c : Option Tree.Checkpoint) (kind : Tree.Kind) (hp : Follows p) :
    Follows (inNodeAt c kind p) := by
  have hopen : Follows (openAt c kind) := by
    cases c with
    | none => exact .onTree (.start kind)
    | some c => exact .onTree (.startAt c kind)
  exact .bind hopen fun _ => .bind hp fun _ => .bind (.onTree .finish) fun _ => .pure _

/-! ## Bodies and recovery -/

/-- Only what is known about the place changes. -/
theorem context {f : State → State}
    (h : ∀ s, ∃ blocks depth concurrent lastError unclosedAt,
      f s = { s with blocks, depth, concurrent, lastError, unclosedAt }) :
    Follows (modify f) := by
  refine .change (.change fun i s => ?_) ?_ ?_ ?_
  · obtain ⟨_, _, _, _, _, heq⟩ := h s
    rw [heq]
    exact .single (.context ..)
  all_goals
    intro s
    obtain ⟨_, _, _, _, _, heq⟩ := h s
    rw [heq]

theorem inBody (kind : String) (brace : Token) (hp : Follows p) :
    Follows (inBody kind brace p) :=
  .bind (.context fun _ => ⟨_, _, _, _, _, rfl⟩) fun _ => .bind hp fun _ =>
    .bind (.context fun _ => ⟨_, _, _, _, _, rfl⟩) fun _ => .pure _

theorem deeper (hp : Follows p) : Follows (deeper p) :=
  .bind (.context fun _ => ⟨_, _, _, _, _, rfl⟩) fun _ => .bind hp fun _ =>
    .bind (.context fun _ => ⟨_, _, _, _, _, rfl⟩) fun _ => .pure _

theorem concurrently (hp : Follows p) : Follows (concurrently p) := by
  refine .bind .get fun _ => .bind (.context fun _ => ⟨_, _, _, _, _, rfl⟩) fun _ =>
    .bind hp.attempt fun a => .bind (.context fun _ => ⟨_, _, _, _, _, rfl⟩) fun _ => ?_
  cases a with
  | none => exact .giveUp
  | some a => exact .pure a

theorem recover {skip : Bool → Parse Unit} (hskip : ∀ progress, Follows (skip progress))
    (place : Place) : Follows (recover skip place) := by
  have hreturn : Follows (modify (·.returnTo place)) :=
    .change (.returnTo place) (fun _ => rfl) (fun _ => rfl) fun _ => rfl
  refine .bind hreturn fun _ => .inNodeAt _ _ (.bind .get fun s => ?_)
  dsimp only
  split
  · exact .bind (.onTree (.markError _)) fun _ => .bind .get fun _ =>
      .ite (.bind .get fun _ => hskip _) (.pure _)
  · exact .bind .get fun _ => .ite (.bind .get fun _ => hskip _) (.pure _)

theorem recovering {skip : Bool → Parse Unit} (hskip : ∀ progress, Follows (skip progress))
    (hp : Follows p) : Follows (recovering skip p) :=
  .bind .get fun _ => .bind hp.attempt fun _ =>
    .ite (.bind (.recover hskip _) fun _ => .pure _) (.pure _)

end

end Follows

/-- A parser that is made of the operations runs alike under two limits. -/
theorem Alike.follows {α : Type} {e : α → α} {p q : Parse α} (h : Alike e p q) : Follows p := by
  induction h with
  | pure a => exact .pure a
  | bind _ _ hp hf => exact .bind hp hf
  | giveUp => exact .giveUp
  | get _ _ hf => exact .bind .get hf
  | peekAt k hk => exact .look (Alike.peekAt k hk).stepwise fun _ _ _ => rfl
  | checkpoint => exact .look Alike.checkpoint.stepwise fun _ _ _ => rfl
  | previous =>
    refine .look Alike.previous.stepwise fun i limit s => ?_
    rw [exec_previous, exec_previous]
    rfl
  | advance => exact .advance
  | eatBefore hkind ahead => exact .eatBefore hkind ahead
  | reportAt t description h =>
    refine ⟨(Alike.reportAt t description h).stepwise, fun i large small s _ hs => ?_⟩
    rw [exec_reportAt, exec_reportAt]
    exact (hs.report i t description none h).imp_left fun ⟨heq, hbelow⟩ => ⟨by rw [heq], hbelow⟩
  | reportUnclosed description h =>
    refine ⟨(Alike.reportUnclosed description h).stepwise, fun i large small s _ hs => ?_⟩
    rw [exec_reportUnclosed, exec_reportUnclosed]
    exact (hs.report i _ description _ h).imp_left fun ⟨heq, hbelow⟩ => ⟨congrArg _ heq, hbelow⟩
  | noteError | noteUnclosed => exact .context fun _ => ⟨_, _, _, _, _, rfl⟩
  | spend =>
    exact .change (.change fun _ s => .single (.spend s)) (fun _ => rfl) (fun _ => rfl) fun _ => rfl
  | describe text => exact .onTree (.describe text)
  | markError text => exact .onTree (.markError text)
  | inNode kind _ hp => exact .inNode kind hp
  | inNodeAt c kind _ hp => exact .inNodeAt c kind hp
  | inBody kind brace _ hp => exact .inBody kind brace hp
  | deeper _ hp => exact .deeper hp
  | concurrently _ hp => exact .concurrently hp
  | recovering _ _ hskip hp => exact .recovering hskip hp

/-! ## A whole parse -/

/-- A parse that starts without errors yields all that are collected. -/
theorem errors_parse (stream : Scan.Stream) (config : Config) (options : Options) :
    (parse stream config { options }).1.errors =
      (runProgram stream config { options }).2.errors.messages.toList := by
  simp [parse, Collector.since, Collector.size]

/-- A parse under a small limit ends as one under a large limit does, or the two have parted. -/
theorem runProgram_follows (stream : Scan.Stream) (buildTree : Bool) (options : Options)
    (large small : Nat) :
    let s := (runProgram stream { buildTree, maxErrors := large } { options }).2
    let t := (runProgram stream { buildTree, maxErrors := small } { options }).2
    (s = t ∧ t.Below (max small 1)) ∨ Parted (max large 1) (max small 1) s t := by
  intro s t
  have hbelow : (State.start stream { buildTree } { options }).Below (max small 1) :=
    ⟨rfl, rfl, Nat.lt_of_lt_of_le Nat.zero_lt_one (Nat.le_max_right ..), by simp [State.start]⟩
  have hfollows := (Twin.topDeclarations stream.tokens.length).alike.follows.agrees
    (.of stream { buildTree }) (max large 1) (max small 1) _ (endOf_kind stream.tokens) hbelow
  rcases hfollows with ⟨heq, hend⟩ | hparted
  · have hsame : s = t := congrArg (·.2) heq
    exact .inl ⟨hsame, hend⟩
  · exact .inr hparted

/-- Let a parse of a stream report some messages under a limit that is larger than their number.
Under any limit a parse of the stream reports the same messages if they are fewer than the limit,
and otherwise the first ones up to the limit, one note behind them at the place of the last one,
and nothing else. A limit of zero is one of one. -/
theorem parse_errors_capped (stream : Scan.Stream) (buildTree : Bool) (options : Options)
    (large maxErrors : Nat) (errors : List Message)
    (herrors : (parse stream { buildTree, maxErrors := large } { options }).1.errors = errors)
    (hlarge : errors.length < large) :
    (errors.length < max 1 maxErrors →
      (parse stream { buildTree, maxErrors } { options }).1.errors = errors) ∧
    (max 1 maxErrors ≤ errors.length → ∃ last note,
      errors[max 1 maxErrors - 1]? = some last ∧
      (parse stream { buildTree, maxErrors } { options }).1.errors =
        errors.take (max 1 maxErrors) ++ [note] ∧
      note.description = "Too many syntax errors; aborting parse." ∧
      note.line = last.line ∧ note.column = last.column) := by
  rw [errors_parse] at herrors
  rw [errors_parse, Nat.max_comm 1 maxErrors]
  rcases runProgram_follows stream buildTree options large maxErrors with ⟨heq, hbelow⟩ | hparted
  · rw [← heq] at hbelow ⊢
    have hcounted := hbelow.counted
    have hlen := hbelow.below
    rw [herrors] at hcounted ⊢
    rw [hcounted] at hlen
    exact ⟨fun _ => rfl, fun h => absurd hlen (by omega)⟩
  · cases hparted with
    | beyond h =>
      rw [herrors] at h
      omega
    | capped halted h =>
      rw [herrors] at h
      refine ⟨fun hfew => ?_, fun _ => h⟩
      obtain ⟨last, _, hlast, _⟩ := h
      have := (List.getElem?_eq_some_iff.1 hlast).1
      omega

/-- Of three stray parentheses, one a line, a limit of two leaves out the third. -/
theorem parse_errors_capped_parens : ∃ errors : List Message,
    (parse (Scan.scan ⟨"x )\ny )\nz )", "a"⟩ .lossy {}).1 { maxErrors := 9 } {}).1.errors =
      errors ∧ errors.length < 9 ∧ max 1 2 ≤ errors.length ∧ ∃ last note,
      errors[max 1 2 - 1]? = some last ∧
      (parse (Scan.scan ⟨"x )\ny )\nz )", "a"⟩ .lossy {}).1 { maxErrors := 2 } {}).1.errors =
        errors.take (max 1 2) ++ [note] ∧
      note.description = "Too many syntax errors; aborting parse." ∧
      note.line = last.line ∧ note.column = last.column := by
  have hlen : (parse (Scan.scan ⟨"x )\ny )\nz )", "a"⟩ .lossy {}).1
      { maxErrors := 9 } {}).1.errors.length = 3 := by decide +kernel
  refine ⟨_, rfl, by rw [hlen]; decide, by rw [hlen]; decide, ?_⟩
  exact (parse_errors_capped _ false {} 9 2 _ rfl (by rw [hlen]; decide)).2 (by rw [hlen]; decide)

end Grammar

end LimitSyntax
