import LimitSyntax.Proofs.ParseLossless
import LimitSyntax.Proofs.ScanModes

/-!
# Parsing without a tree

A parser and its twin take a state and the same state without trivia and tree to states that differ
in nothing else (`Grammar.Alike.simulates`). So a source has the same program and the same errors
whether or not a tree is built.
-/

namespace LimitSyntax.Grammar

/-! ## States without trivia -/

namespace State

theorem bare_take (s : State) (t : Token) (rest : List Token) :
    (s.take t rest).bare = s.bare.take t.bare (rest.map Token.bare) := by
  simp [bare, take]

theorem bare_back_take (s : State) (t : Token) (rest : List Token) :
    (s.take t rest).back.bare = (s.bare.take t.bare (rest.map Token.bare)).back := by
  rw [back_take, back_take]
  rfl

theorem bare_peekAt (s : State) (i : Input) (k : Nat) :
    s.bare.rest[k]?.getD i.bare.eof = (s.rest[k]?.getD i.eof).bare := by
  simp [bare, Input.bare, Option.getD_map]

theorem bare_report (s : State) (i : Input) (t : Token) (description : String)
    (block : Option OpenBlock) : (s.report i t description block).bare =
      s.bare.report i.bare t.bare description (block.map OpenBlock.bare) := by
  unfold report
  rw [apply_ite State.bare, apply_ite State.bare, apply_ite State.bare]
  cases block with
  | none => rfl
  | some b => rfl

end State

/-- A place without trivia and tree. -/
def Place.bare (p : Place) : Place :=
  { p with checkpoint := none, treeDepth := 0 }

theorem State.place_bare (s : State) : s.bare.place = s.place.bare := by
  simp [State.place, Place.bare, State.position_bare]
  simp [State.bare]

theorem State.bare_returnTo (s : State) (p : Place) :
    (s.returnTo p).bare = s.bare.returnTo p.bare := by
  simp [State.returnTo, State.bare, Place.bare]

/-! ## Simulation -/

/-- Whatever `p` does to a state, `q` does to the state without trivia and tree. -/
def Simulates {α : Type} (e : α → α) (p q : Parse α) : Prop :=
  ∀ (i : Input) (s : State), i.eof.kind = .eof →
    exec q i.bare s.bare = ((exec p i s).1.map e, (exec p i s).2.bare)

namespace Simulates

section
variable {α β : Type} {e : α → α} {p q : Parse α}

theorem pure (a : α) : Simulates e (Pure.pure a) (Pure.pure (e a)) := fun _ _ _ => rfl

theorem giveUp : Simulates e giveUp giveUp := fun _ _ _ => rfl

theorem get : Simulates State.bare get get := fun _ _ _ => rfl

theorem change {f g : State → State} (h : ∀ s, (f s).bare = g s.bare) :
    Simulates id (modify f) (modify g) := by
  intro i s _
  rw [exec_modify, exec_modify, ← h]
  rfl

theorem bind {d : α → α} {e : β → β} {f g : α → Parse β} (hp : Simulates d p q)
    (hf : ∀ a, Simulates e (f a) (g (d a))) : Simulates e (p >>= f) (q >>= g) := by
  intro i s heof
  rw [exec_bind, exec_bind, hp i s heof]
  rcases exec p i s with ⟨_ | a, s'⟩
  · rfl
  · exact hf a i s' heof

theorem ite {c : Prop} [Decidable c] {p' q' : Parse α} (hp : Simulates e p q)
    (hp' : Simulates e p' q') : Simulates e (if c then p else p') (if c then q else q') := by
  split
  · exact hp
  · exact hp'

theorem attempt (hp : Simulates e p q) :
    Simulates (Option.map e) (attempt p) (attempt q) := by
  intro i s heof
  rw [exec_attempt, exec_attempt, hp i s heof]
  rcases exec p i s with ⟨_ | a, s'⟩
  · rfl
  · rfl

/-! ## Tokens -/

theorem peekAt (k : Nat) : Simulates Token.bare (peekAt k) (peekAt k) := by
  intro i s _
  rw [exec_peekAt, exec_peekAt, State.bare_peekAt]
  rfl

theorem previous : Simulates Token.bare previous previous := by
  intro i s _
  have hread : s.bare.read.back? = s.read.back?.map Token.bare := Array.back?_map
  rw [exec_previous, exec_previous, State.bare_peekAt, hread, Option.getD_map]
  rfl

theorem advance : Simulates Token.bare advance advance := by
  intro i s _
  have hrest : s.bare.rest = s.rest.map Token.bare := rfl
  rw [exec_advance, exec_advance, hrest]
  cases s.rest with
  | nil => rfl
  | cons t rest =>
    simp only [List.map_cons, apply_ite State.bare, State.bare_take]
    rfl

theorem eatBefore {kind : Token.Kind} (hkind : kind ≠ .eof) (ahead : Token → Token → Bool)
    (h : ∀ t u, ahead t.bare u.bare = ahead t u) :
    Simulates id (eatBefore kind ahead) (eatBefore kind ahead) := by
  intro i s heof
  have hrest : s.bare.rest = s.rest.map Token.bare := rfl
  rw [exec_eatBefore i s hkind heof, exec_eatBefore i.bare s.bare hkind heof, hrest]
  cases s.rest with
  | nil => rfl
  | cons t rest =>
    have hahead : ahead ((rest.map Token.bare)[0]?.getD i.bare.eof)
        ((rest.map Token.bare)[1]?.getD i.bare.eof) =
        ahead (rest[0]?.getD i.eof) (rest[1]?.getD i.eof) := by
      rw [← h (rest[0]?.getD i.eof)]
      simp [Input.bare, Option.getD_map]
    have hbare : t.bare.kind = t.kind := rfl
    simp only [List.map_cons, hahead, hbare]
    split
    next =>
      split
      next => rw [← State.bare_take]; rfl
      next => rw [← State.bare_back_take]; rfl
    next => rfl

/-! ## The tree -/

theorem onTree {f g : Tree.Builder → Tree.Builder} : Simulates id (onTree f) (onTree g) :=
  .change fun _ => rfl

theorem inNode (kind : Tree.Kind) (hp : Simulates e p q) :
    Simulates e (inNode kind p) (inNode kind q) :=
  .bind .onTree fun _ => .bind hp fun a => .bind .onTree fun _ => .pure a

theorem inNodeAt (c : Option Tree.Checkpoint) (kind : Tree.Kind) (hp : Simulates e p q) :
    Simulates e (inNodeAt c kind p) (inNodeAt none kind q) := by
  have hopen : Simulates id (openAt c kind) (openAt none kind) := by
    cases c with
    | none => exact .onTree
    | some c => exact fun _ _ _ => rfl
  exact .bind hopen fun _ => .bind hp fun a => .bind .onTree fun _ => .pure a

/-! ## Bodies and recovery -/

theorem inBody (kind : String) (brace : Token) (hp : Simulates e p q) :
    Simulates e (inBody kind brace p) (inBody kind brace.bare q) :=
  .bind (.change fun _ => rfl) fun _ => .bind hp fun a =>
    .bind (.change fun _ => by simp [State.bare]) fun _ => .pure a

theorem deeper (hp : Simulates e p q) : Simulates e (deeper p) (deeper q) :=
  .bind (.change fun _ => rfl) fun _ => .bind hp fun a => .bind (.change fun _ => rfl) fun _ =>
    .pure a

theorem concurrently (hp : Simulates e p q) :
    Simulates e (concurrently p) (concurrently q) := by
  refine .bind .get fun s => .bind (.change fun _ => rfl) fun _ => .bind hp.attempt fun a =>
    .bind (.change fun _ => rfl) fun _ => ?_
  cases a with
  | none => exact .giveUp
  | some a => exact .pure a

theorem recover {skip skip' : Bool → Parse Unit}
    (hskip : ∀ progress, Simulates id (skip progress) (skip' progress)) (place : Place) :
    Simulates id (recover skip place) (recover skip' place.bare) := by
  refine .bind (.change fun s => s.bare_returnTo place) fun _ => .inNodeAt _ _ <|
    .bind .get fun s => ?_
  have hlast : s.bare.lastError = s.lastError := rfl
  simp only [hlast]
  split
  · refine .bind .onTree fun _ => .bind .get fun _ => .ite (.bind .get fun s' => ?_) (.pure _)
    rw [State.position_bare]
    exact hskip _
  · refine .bind .get fun _ => .ite (.bind .get fun s' => ?_) (.pure _)
    rw [State.position_bare]
    exact hskip _

theorem recovering {p q : Parse α} {skip skip' : Bool → Parse Unit}
    (hskip : ∀ progress, Simulates id (skip progress) (skip' progress)) (hp : Simulates id p q) :
    Simulates id (recovering skip p) (recovering skip' q) := by
  refine .bind .get fun s => .bind hp.attempt fun a => ?_
  rw [State.place_bare, Option.map_id]
  exact .ite (.bind (.recover hskip _) fun _ => .pure _) (.pure _)

end

end Simulates

/-- A parser simulates its twin. -/
theorem Alike.simulates {α : Type} {e : α → α} {p q : Parse α} (h : Alike e p q) :
    Simulates e p q := by
  induction h with
  | pure a => exact .pure a
  | bind _ _ hp hf => exact .bind hp hf
  | giveUp => exact .giveUp
  | get _ _ hf => exact .bind .get hf
  | peekAt k => exact .peekAt k
  | previous => exact .previous
  | checkpoint => exact fun _ _ _ => rfl
  | advance => exact .advance
  | eatBefore hkind ahead h => exact .eatBefore hkind ahead h
  | reportAt t description =>
    intro i s _
    rw [exec_reportAt, exec_reportAt]
    exact congrArg _ (s.bare_report i t description none).symm
  | reportUnclosed description =>
    intro i s _
    have hblocks : s.bare.blocks.head? = s.blocks.head?.map OpenBlock.bare := List.head?_map
    rw [exec_reportUnclosed, exec_reportUnclosed, State.bare_peekAt, hblocks, ← State.bare_report]
    rfl
  | noteError | noteUnclosed | spend => exact .change fun _ => rfl
  | describe | markError => exact .onTree
  | inNode kind _ hp => exact .inNode kind hp
  | inNodeAt c kind _ hp => exact .inNodeAt c kind hp
  | inBody kind brace _ hp => exact .inBody kind brace hp
  | deeper _ hp => exact .deeper hp
  | concurrently _ hp => exact .concurrently hp
  | recovering _ _ hskip hp => exact .recovering hskip hp

/-! ## A whole parse -/

theorem endOf_map_bare (tokens : List Token) :
    endOf (tokens.map Token.bare) = (endOf tokens).bare := by
  unfold endOf
  rw [List.getLast?_map]
  cases tokens.getLast? with
  | none => rfl
  | some last =>
    have hbare : last.bare.kind = last.kind := rfl
    simp only [Option.map_some, hbare, apply_ite Token.bare]
    rfl

theorem runProgram_eq (stream : Scan.Stream) (config : Config) (errors : Diagnostic.Collector) :
    runProgram stream config errors =
      ((exec (topDeclarations (.upTo stream.tokens.length)) (.of stream config)
          (.start stream config errors)).1.toOption.getD [],
        (exec (topDeclarations (.upTo stream.tokens.length)) (.of stream config)
          (.start stream config errors)).2) := rfl

/-- A parse of tokens without trivia has the same declarations and leaves the same state, but for
the trivia and the tree. -/
theorem runProgram_map_bare (tokens : List Token) (source : Source) (maxErrors : Nat)
    (errors : Diagnostic.Collector) :
    runProgram ⟨tokens.map Token.bare, .lossy, source⟩ { buildTree := false, maxErrors } errors =
      ((runProgram ⟨tokens, .lossless, source⟩ { buildTree := true, maxErrors } errors).1,
        (runProgram ⟨tokens, .lossless, source⟩ { buildTree := true, maxErrors } errors).2.bare) := by
  have hinput : Input.of ⟨tokens.map Token.bare, .lossy, source⟩ { buildTree := false, maxErrors } =
      (Input.of ⟨tokens, .lossless, source⟩ { buildTree := true, maxErrors }).bare := by
    simp only [Input.of, Input.bare, endOf_map_bare]
  have hstart : State.start ⟨tokens.map Token.bare, .lossy, source⟩
      { buildTree := false, maxErrors } errors =
      (State.start ⟨tokens, .lossless, source⟩ { buildTree := true, maxErrors } errors).bare := by
    simp [State.start, State.bare]
  have hsim := (Twin.topDeclarations tokens.length).alike.simulates
    (.of ⟨tokens, .lossless, source⟩ { buildTree := true, maxErrors })
    (.start ⟨tokens, .lossless, source⟩ { buildTree := true, maxErrors } errors)
    (endOf_kind tokens)
  rw [runProgram_eq, runProgram_eq, List.length_map, hinput, hstart, hsim]
  rcases exec (topDeclarations (.upTo tokens.length)) _ _ with ⟨_ | _, _⟩ <;> rfl

/-- A parse of tokens without trivia has the same program and the same errors. -/
theorem parse_map_bare (tokens : List Token) (source : Source) (maxErrors : Nat)
    (errors : Diagnostic.Collector) :
    (parse ⟨tokens.map Token.bare, .lossy, source⟩ { buildTree := false, maxErrors } errors).1.program
        = (parse ⟨tokens, .lossless, source⟩ { buildTree := true, maxErrors } errors).1.program ∧
      (parse ⟨tokens.map Token.bare, .lossy, source⟩ { buildTree := false, maxErrors } errors).2 =
        (parse ⟨tokens, .lossless, source⟩ { buildTree := true, maxErrors } errors).2 := by
  rw [parse, parse, runProgram_map_bare]
  exact ⟨rfl, rfl⟩

/-! ## Errors stay -/

theorem Step.errors_subset {i : Input} {s s' : State} (h : Step i s s') :
    ∀ m ∈ s.errors.messages, m ∈ s'.errors.messages := by
  cases h with
  | take | edit | context | spend => exact fun _ hm => hm
  | retake t rest =>
    rw [State.back_take]
    exact fun _ hm => hm
  | report t description block =>
    obtain ⟨messages, _, _, heq⟩ := s.report_eq i t description block
    rw [heq]
    exact Diagnostic.Collector.messages_subset_foldl messages s.errors _

theorem Steps.errors_subset {i : Input} {s s' : State} (h : Steps i s s') :
    ∀ m ∈ s.errors.messages, m ∈ s'.errors.messages := by
  induction h with
  | refl => exact fun _ hm => hm
  | tail _ hstep ih => exact fun m hm => hstep.errors_subset m (ih m hm)

theorem errors_subset_parse (stream : Scan.Stream) (config : Config)
    (errors : Diagnostic.Collector) :
    ∀ m ∈ errors.messages, m ∈ (parse stream config errors).2.messages :=
  Steps.errors_subset (steps_runProgram stream config errors)

/-! ## A whole source -/

section
variable (source : Source) (maxErrors : Nat) (errors : Diagnostic.Collector)

/-- Without stray characters both scans are parsed to the same program with the same errors. -/
theorem parseScanned_lossy
    (h : ∀ m ∈ (Scan.scan source .lossless errors).2.messages, ¬ m.NamesStray) :
    (parseScanned source .lossy { buildTree := false, maxErrors } errors).1.program =
        (parseScanned source .lossless { buildTree := true, maxErrors } errors).1.program ∧
      (parseScanned source .lossy { buildTree := false, maxErrors } errors).2 =
        (parseScanned source .lossless { buildTree := true, maxErrors } errors).2 := by
  rw [parseScanned, parseScanned, Scan.tokens_scan_lossy source errors h, Scan.errors_scan_lossy]
  exact parse_map_bare ..

/-- What the scan of a source reports is among the errors of the source. -/
theorem errors_subset_parseScanned (mode : Scan.Mode) (config : Config) :
    ∀ m ∈ (Scan.scan source mode errors).2.messages,
      m ∈ (parseScanned source mode config errors).2.messages :=
  errors_subset_parse _ _ _

end

theorem program_parseSource (source : Source) (config : Config) (errors : Diagnostic.Collector)
    (mode : Scan.Mode) (hmode : (if config.buildTree then .lossless else .lossy) = mode) :
    (parseSource source config errors).1.program =
      (parseScanned source mode config errors).1.program := by
  simp only [parseSource_eq source config errors mode hmode]

/-- A parse that starts without errors yields all that are collected. -/
theorem errors_parseSource (source : Source) (config : Config) (options : Diagnostic.Options)
    (mode : Scan.Mode) (hmode : (if config.buildTree then .lossless else .lossy) = mode) :
    (parseSource source config { options }).1.errors =
      (parseScanned source mode config { options }).2.messages.toList := by
  simp [parseSource_eq source config { options } mode hmode, Diagnostic.Collector.since,
    Diagnostic.Collector.size]

/-- A source that makes a scan report no stray character has the same program and the same errors
with a tree and without one. Of any source the two parses either both find it free of errors or
both do not. -/
theorem parseSource_ignores_tree (source : Source) (maxErrors : Nat)
    (options : Diagnostic.Options) :
    (∀ mode, (∀ m ∈ (Scan.scan source mode { options }).2.messages, ¬ m.NamesStray) →
      (parseSource source { buildTree := true, maxErrors } { options }).1.program =
          (parseSource source { buildTree := false, maxErrors } { options }).1.program ∧
        (parseSource source { buildTree := true, maxErrors } { options }).1.errors =
          (parseSource source { buildTree := false, maxErrors } { options }).1.errors) ∧
    ((parseSource source { buildTree := true, maxErrors } { options }).1.errors = [] ↔
      (parseSource source { buildTree := false, maxErrors } { options }).1.errors = []) := by
  have hmodes : ∀ mode, (Scan.scan source mode { options }).2 =
      (Scan.scan source .lossless { options }).2 := by
    intro mode
    cases mode with
    | lossy => exact Scan.errors_scan_lossy source { options }
    | lossless => rfl
  have hclean := parseScanned_lossy source maxErrors { options }
  rw [program_parseSource _ _ _ .lossless rfl, program_parseSource _ _ _ .lossy rfl,
    errors_parseSource _ _ _ .lossless rfl, errors_parseSource _ _ _ .lossy rfl]
  refine ⟨fun mode h => ?_, ?_⟩
  · rw [hmodes mode] at h
    obtain ⟨hprogram, hcollector⟩ := hclean h
    exact ⟨hprogram.symm, by rw [hcollector]⟩
  · by_cases h : ∀ m ∈ (Scan.scan source .lossless { options }).2.messages, ¬ m.NamesStray
    · rw [(hclean h).2]
    · -- a report of the scan is an error of both
      push Not at h
      obtain ⟨m, hm, -⟩ := h
      have hlossless := errors_subset_parseScanned source { options } .lossless
        { buildTree := true, maxErrors } m hm
      have hlossy := errors_subset_parseScanned source { options } .lossy
        { buildTree := false, maxErrors } m (hmodes .lossy ▸ hm)
      exact iff_of_false (List.ne_nil_of_mem hlossless.val) (List.ne_nil_of_mem hlossy.val)

/-- A source with an unclosed parenthesis and a quotation mark in a comment has no stray
character. -/
theorem parseSource_ignores_tree_unclosed :
    (∀ m ∈ (Scan.scan ⟨"var x = (1 // \"", "a"⟩ .lossy { options := {} }).2.messages,
      ¬ m.NamesStray) ∧
    (parseSource ⟨"var x = (1 // \"", "a"⟩ { buildTree := true, maxErrors := 3 } {}).1.program =
      (parseSource ⟨"var x = (1 // \"", "a"⟩ { buildTree := false, maxErrors := 3 } {}).1.program ∧
    (parseSource ⟨"var x = (1 // \"", "a"⟩ { buildTree := true, maxErrors := 3 } {}).1.errors =
      (parseSource ⟨"var x = (1 // \"", "a"⟩ { buildTree := false, maxErrors := 3 } {}).1.errors := by
  have hnone : (Scan.scan ⟨"var x = (1 // \"", "a"⟩ .lossy { options := {} }).2.messages = #[] := by
    decide +kernel
  have hclean : ∀ m ∈ (Scan.scan ⟨"var x = (1 // \"", "a"⟩ .lossy { options := {} }).2.messages,
      ¬ m.NamesStray := by
    rw [hnone]
    simp
  exact ⟨hclean, (parseSource_ignores_tree _ 3 {}).1 .lossy hclean⟩

end LimitSyntax.Grammar
