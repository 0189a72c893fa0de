import LimitSyntax.Proofs.Recovery
import LimitSyntax.Proofs.ReportOrder
import LimitSyntax.Proofs.ScanReports

/-!
# Bodies whose closing brace is missing

That a closing brace is missing is said with the innermost open body, whichever that is at the time.
It is the body that ends there: what stands between its braces leaves the open bodies as they were,
whatever was given up and skipped in it (`Grammar.Body.blocks_eq`). So whoever is told that a body
is not closed is told where its own brace stands (`Grammar.Unclosed`).
-/

namespace LimitSyntax

open Diagnostic

/-- What a scan reports says nothing of a body. -/
theorem Scan.Reason.not_mem_unclosedBodies {description : String} (h : Reason description) :
    description ∉ Grammar.unclosedBodies := by
  rcases h with h | ⟨c, -, rfl⟩
  · revert description
    decide
  · exact Grammar.append_append_not_mem_unclosedBodies

namespace Grammar

open Ast

/-! ## The innermost open body -/

section
variable {α : Type} {kind description : String} {inside : Parse α} {i : Input}

/-- What stands between the braces of a body leaves the open bodies as they were. -/
theorem Body.blocks_eq {n : Nat} (h : Body (.upTo n) kind description inside) {s t : State} {a : α}
    (hexec : exec inside i s = (.ok a, t)) : t.blocks = s.blocks := by
  have hr : (Rules.upTo n).Lawful := Rules.lawful_upTo n
  cases h with
  | block =>
    rw [exec_bind_ok i (exec_modify i s _)] at hexec
    exact ((Twin.declarations hr).alike.framed.ok hexec).blocks
  | classBody c =>
    have hturn (c : ClassDecl) : Regular (do
        if ← bodyEnds then return (c, false)
        return (← classMember (.upTo n) c, true)) :=
      .bind .bodyEnds fun _ => .ite (.pure _) (.bind (Twin.classMember hr c).alike fun _ => .pure _)
    exact ((Alike.repeatUpTo hturn _ c).framed.ok hexec).blocks
  | enumBody => exact ((Alike.commaList _ _ (Twin.enumVariant hr).alike).framed.ok hexec).blocks
  | matchCases =>
    have hturn (cases : List MatchCase) : Regular (do
        if ← bodyEnds then return (cases, false)
        return ((← matchCase (.upTo n)) :: cases, true)) :=
      .bind .bodyEnds fun _ => .ite (.pure _) (.bind (Twin.matchCase hr).alike fun _ => .pure _)
    exact ((Alike.repeatUpTo hturn _ _).framed.ok hexec).blocks
  | traitBody =>
    have hturn (methods : List FunctionDecl) : Regular (do
        if ← bodyEnds then return (methods, false)
        if !(← check .kwFn) then fail ("Expected method declaration in " ++ kind ++ ".")
        let method ← inNode .functionDeclaration (functionDeclaration (.upTo n) {})
        return (method :: methods, true)) :=
      .bind .bodyEnds fun _ => .ite (.pure _) <| .bind (.check _) fun _ =>
        .guarded (d := id) (.fail _ append_append_ne_tooManyErrors)
          (.bind (.inNode _ (Twin.functionDeclaration hr {}).alike) fun _ => .pure _)
    exact ((Alike.repeatUpTo hturn _ _).framed.ok hexec).blocks
  | moduleBody =>
    have hturn (parts : ModuleParts) : Regular (moduleTurn (.upTo n) parts) :=
      .bind .bodyEnds fun _ => .ite (.pure _) <| .bind .peek fun _ =>
        .bind (Twin.nextDeclaration hr).alike fun _ => .pure _
    exact ((Alike.deeper (.repeatUpTo hturn _ _)).framed.ok hexec).blocks

end

/-! ## Blame -/

section
variable {α β : Type} {i : Input} {m : Message} {p : Parse α} {s : State}

/-- The run of a body from behind its opening brace, at the end of which the message is reported:
its closing brace is missing there. The message tells of the body and of its own brace. -/
inductive Unclosed (i : Input) (m : Message) : {α : Type} → Parse α → State → Prop where
  | intro {α β : Type} {fuel : Nat} {kind : String} {brace : Token} {inside : Parse α}
      {rest : α → Bool → Parse β} {s t : State} {a : α}
      (hbrace : Behind brace i s) (hbody : Body (.upTo fuel) kind m.description inside)
      (hinside : exec inside i { s with blocks := ⟨kind, brace⟩ :: s.blocks } = (.ok a, t))
      (hreport : t.errors.messages.toList ++ [m] <+:
        (exec (closeBlock m.description) i t).2.errors.messages.toList)
      (hblock : m.block = some (OpenBlock.context ⟨kind, brace⟩ i.source))
      (hsite : m.site = (i.next t).site i.source) (hsteps : Steps i s t) :
      Unclosed i m (inBody kind brace do
        let a ← inside
        rest a (← closeBlock m.description)) s

/-- In the run of the parser there is such a body. -/
def Blames (i : Input) (m : Message) (p : Parse α) (s : State) : Prop :=
  ∃ (β : Type) (q : Parse β) (t : State), Reaches i p s q t ∧ Unclosed i m q t

theorem Blames.first {f : α → Parse β} (h : Blames i m p s) (hf : ∀ a, Stepwise (f a)) :
    Blames i m (p >>= f) s := by
  obtain ⟨_, q, t, hreaches, hunclosed⟩ := h
  exact ⟨_, q, t, hreaches.first hf, hunclosed⟩

theorem Blames.next {f : α → Parse β} {t : State} {a : α} (hp : Stepwise p)
    (hexec : exec p i s = (.ok a, t)) (h : Blames i m (f a) t) : Blames i m (p >>= f) s := by
  obtain ⟨_, q, u, hreaches, hunclosed⟩ := h
  exact ⟨_, q, u, .next hp hexec hreaches, hunclosed⟩

/-- The message is added by the first part of a sequence or by what follows. -/
theorem Blames.sequence {f : α → Parse β} (hp : Stepwise p) (hf : ∀ a, Stepwise (f a))
    (hm : m ∈ (exec (p >>= f) i s).2.errors.messages)
    (hfirst : m ∈ (exec p i s).2.errors.messages → Blames i m p s)
    (hrest : ∀ a t, exec p i s = (.ok a, t) → m ∈ (exec (f a) i t).2.errors.messages →
      m ∉ t.errors.messages → Blames i m (f a) t) : Blames i m (p >>= f) s := by
  by_cases hbefore : m ∈ (exec p i s).2.errors.messages
  · exact (hfirst hbefore).first hf
  · rw [exec_bind] at hm
    rcases hexec : exec p i s with ⟨_ | a, t⟩
    all_goals rw [hexec] at hm hbefore
    · exact absurd hm hbefore
    · exact .next hp hexec (hrest a t hexec hm hbefore)

theorem Blames.attempt (h : Blames i m p s) : Blames i m (attempt p) s := by
  obtain ⟨_, q, t, hreaches, hunclosed⟩ := h
  exact ⟨_, q, t, hreaches.attempt, hunclosed⟩

theorem Blames.inBody {kind : String} {brace : Token}
    (h : Blames i m p { s with blocks := ⟨kind, brace⟩ :: s.blocks }) :
    Blames i m (inBody kind brace p) s :=
  .next (.change fun _ _ => .single (.context ..)) rfl (h.first fun _ =>
    .bind (.change fun _ _ => .single (.context ..)) fun _ => .pure _)

theorem Blames.concurrently (h : Blames i m p { s with concurrent := true }) :
    Blames i m (concurrently p) s := by
  refine .next .get rfl (.next (.change fun _ _ => .single (.context ..)) rfl
    (h.attempt.first fun a => .bind (.change fun _ _ => .single (.context ..)) fun _ => ?_))
  cases a with
  | none => exact .giveUp
  | some a => exact .pure a

/-- A message that a report adds and that says of a body that it is not closed, is about the body
that was reported. -/
theorem State.mem_report {token : Token} {description : String} {block : Option OpenBlock}
    (hm : m ∈ (s.report i token description block).errors.messages) (hnew : m ∉ s.errors.messages)
    (hunclosed : m.description ∈ unclosedBodies) :
    m.description = description ∧ m.block = block.map (·.context i.source) ∧
      m.site = token.site i.source ∧ s.errors.messages.toList ++ [m] <+:
        (s.report i token description block).errors.messages.toList := by
  rw [← Array.mem_toList_iff] at hm hnew
  rcases s.messages_report i token description block with heq | ⟨m', hdescription, hsite, hblock, h⟩
  · exact absurd (heq ▸ hm) hnew
  have hprefix : s.errors.messages.toList ++ [m'] <+:
      (s.report i token description block).errors.messages.toList := by
    rcases h with heq | ⟨note, -, -, heq⟩
    · exact heq ▸ List.prefix_rfl
    · exact heq ▸ List.prefix_append ..
  have hsame : m = m' := by
    rcases h with heq | ⟨note, hnote, -, heq⟩
    · rw [heq, List.mem_append, List.mem_singleton] at hm
      exact hm.resolve_left hnew
    · rw [heq, List.mem_append, List.mem_append, List.mem_singleton, List.mem_singleton] at hm
      refine (hm.resolve_right ?_).resolve_left hnew
      rintro rfl
      rw [hnote] at hunclosed
      exact absurd hunclosed (by decide)
  subst hsame
  exact ⟨hdescription, hblock, hsite, hprefix⟩

/-- A message that is added where a body should be closed. -/
theorem mem_closeBlock {description : String} (heof : i.eof.kind = .eof)
    (hm : m ∈ (exec (closeBlock description) i s).2.errors.messages)
    (hnew : m ∉ s.errors.messages) (hunclosed : m.description ∈ unclosedBodies) :
    m.description = description ∧ m.block = s.blocks.head?.map (·.context i.source) ∧
      m.site = (i.next s).site i.source ∧ s.errors.messages.toList ++ [m] <+:
        (exec (closeBlock description) i s).2.errors.messages.toList := by
  rcases closeBlock_cases heof s description with ⟨brace, rest, -, -, hexec⟩ | hexec | hexec
  all_goals rw [hexec] at hm ⊢
  · exact absurd hm hnew
  · exact absurd hm hnew
  · exact State.mem_report (s := { s with unclosedAt := some (i.next s).span.start }) hm hnew
      hunclosed

/-- A message that is added at the end of a body tells of that body, which is the innermost one
again. -/
theorem Blames.closing {n : Nat} {kind description : String} {brace : Token}
    {rest : α → Bool → Parse β} {t : State} {a : α} (heof : i.eof.kind = .eof)
    (hbrace : Behind brace i s) (hbody : Body (.upTo n) kind description p) (hp : Stepwise p)
    (hexec : exec p i { s with blocks := ⟨kind, brace⟩ :: s.blocks } = (.ok a, t))
    (hm : m ∈ (exec (closeBlock description) i t).2.errors.messages)
    (hnew : m ∉ t.errors.messages) (hunclosed : m.description ∈ unclosedBodies) :
    Blames i m (Grammar.inBody kind brace do
      let a ← p
      rest a (← closeBlock description)) s := by
  obtain ⟨rfl, hblock, hsite, hreport⟩ := mem_closeBlock heof hm hnew hunclosed
  have hhead : t.blocks = ⟨kind, brace⟩ :: s.blocks := hbody.blocks_eq hexec
  rw [hhead] at hblock
  have hsteps := hp.run heof hexec
  exact ⟨_, _, s, .here .., .intro hbrace hbody hexec hreport hblock hsite
    (.trans (.single (.context ..)) hsteps)⟩

/-- A message that says of a body that it is not closed comes from the end of that body. -/
theorem Reports.blames {o : Option Token} {K : Input → State → Prop} (h : Reports o K p)
    (heof : i.eof.kind = .eof) (hK : K i s) (hm : m ∈ (exec p i s).2.errors.messages)
    (hnew : m ∉ s.errors.messages) (hunclosed : m.description ∈ unclosedBodies) :
    Blames i m p s := by
  induction h generalizing s with
  | weaken _ hweak ih => exact ih (hweak hK) hm hnew
  | forget _ ih => exact ih hK hm hnew
  | quiet h =>
    obtain ⟨a, t, hexec, herrors⟩ := h.exec_eq_ok heof s
    rw [hexec, herrors] at hm
    exact absurd hm hnew
  | getAt _ _ ih => exact .next .get rfl (ih s ⟨hK, rfl⟩ hm hnew)
  | note _ hblind =>
    rw [exec_modify, Quiet.errors_of_blind hblind s] at hm
    exact absurd hm hnew
  | bindTo _ hp hV hf ihp ihf | remember _ hp _ hV hf ihp ihf | keep _ hp _ hV hf ihp ihf =>
    exact .sequence hp.stepwise (fun a => (hf a).stepwise) hm (ihp hK · hnew)
      fun a t hexec hm hnew => ihf a (hV heof hK hexec) hm hnew
  | giveUp => exact absurd hm hnew
  | reportAt t description h =>
    have hm : m ∈ (s.report i t description none).errors.messages := hm
    rw [(State.mem_report hm hnew hunclosed).1] at hunclosed
    exact absurd hunclosed h
  | reportUnclosed description h =>
    have hm : m ∈ (s.report i (i.next s) description s.blocks.head?).errors.messages := hm
    rw [(State.mem_report hm hnew hunclosed).1] at hunclosed
    exact absurd hunclosed h.apart
  | reportLate t =>
    have hm : m ∈ (s.report i t "Invalid assignment target." none).errors.messages := hm
    rw [(State.mem_report hm hnew hunclosed).1] at hunclosed
    exact absurd hunclosed (by decide)
  | @attempt _ _ _ p _ ih =>
    rw [exec_attempt_snd] at hm
    exact .attempt (ih trivial hm hnew)
  | @concurrently _ _ _ p _ ih =>
    rw [exec_concurrently_snd] at hm
    exact .concurrently (ih trivial hm hnew)
  | @body _ _ _ _ kind description brace inside rest hbody hinside hrest ihinside ihrest =>
    have hentered : m ∉ ({ s with blocks := ⟨kind, brace⟩ :: s.blocks } : State).errors.messages :=
      hnew
    have hrun : m ∈ (exec (do
        let a ← inside
        rest a (← closeBlock description)) i
          { s with blocks := ⟨kind, brace⟩ :: s.blocks }).2.errors.messages := by
      rwa [errors_inBody] at hm
    by_cases hbefore : m ∈ (exec inside i
        { s with blocks := ⟨kind, brace⟩ :: s.blocks }).2.errors.messages
    · exact ((ihinside trivial hbefore hentered).first fun a => .bind (.closeBlock _) fun closed =>
        (hrest a closed).stepwise).inBody
    rw [exec_bind] at hrun
    rcases hexec : exec inside i { s with blocks := ⟨kind, brace⟩ :: s.blocks } with ⟨_ | a, t⟩
    all_goals rw [hexec] at hrun hbefore
    · exact absurd hrun hbefore
    obtain ⟨closed, u, hclosed, hnoted⟩ := exec_closeBlock_eq_ok heof t description
    have hrun : m ∈ (exec (closeBlock description >>= rest a) i t).2.errors.messages := hrun
    rw [exec_bind_ok i hclosed] at hrun
    by_cases hclosing : m ∈ u.errors.messages
    · have hmem : m ∈ (exec (closeBlock description) i t).2.errors.messages := by rwa [hclosed]
      exact .closing heof hK hbody hinside.stepwise hexec hmem hbefore hunclosed
    · exact (Blames.next hinside.stepwise hexec (.next (.closeBlock _) hclosed
        (ihrest a closed hnoted hrun hclosing))).inBody

end

/-! ## A whole parse -/

/-- An opening brace that was read stands in front of what is read later on. -/
theorem site_lt_next {i : Input} {s t : State} {brace : Token} (hbrace : Behind brace i s)
    (htokens : (s.read.toList ++ (s.rest ++ [i.eof])).Pairwise fun t u =>
      t.site i.source ≤ u.site i.source ∧
        (t.kind ≠ .error → t.kind ≠ .eof → t.site i.source < u.site i.source))
    (hsteps : Steps i s t) : brace.site i.source < (i.next t).site i.source := by
  obtain ⟨hlast, hkind⟩ := hbrace
  have hmem : brace ∈ s.read.toList := Array.mem_toList_iff.2 (Array.mem_of_back? hlast)
  exact ((List.pairwise_append.1 htokens).2.2 brace hmem _ (next_mem hsteps)).2
    (by rw [hkind]; decide) (by rw [hkind]; decide)

/-- Whoever is told that a body is not closed is told of its own opening brace. Let a message of a
source say that a block, the body of a class, an enumeration, a trait, an interface or a module, or
the cases of a match are not closed. Then the parse comes to such a body, right behind a brace, and
enters it as one of some kind. What stands inside is read to its end, with all that is recovered
from there; the closing brace is missing then, and that is when the message is reported. It names the
kind of the body and the line and the column of the brace, which stands in front of the message. -/
theorem unclosed_body_blames_brace (source : Source) (config : Config) (options : Options) :
    let (stream, scanned) :=
      Scan.scan source (if config.buildTree then .lossless else .lossy) { options }
    ∀ m ∈ (parseSource source config { options }).1.errors, m.description ∈ unclosedBodies →
      ∃ (α β : Type) (n : Nat) (kind : String) (brace : Token) (inside : Parse α)
        (rest : α → Bool → Parse β) (s t : State) (a : α),
        Reaches (.of stream config) (topDeclarations (.upTo stream.tokens.length))
          (.start stream config scanned) (inBody kind brace do
            let a ← inside
            rest a (← closeBlock m.description)) s ∧
        s.read.back? = some brace ∧ brace.kind = .leftBrace ∧
        Body (.upTo n) kind m.description inside ∧
        exec inside (.of stream config) { s with blocks := ⟨kind, brace⟩ :: s.blocks } =
          (.ok a, t) ∧
        t.errors.messages.toList ++ [m] <+:
          (exec (closeBlock m.description) (.of stream config) t).2.errors.messages.toList ∧
        m.block = some ⟨kind, brace.line, Text.columnAt source.text.toList brace.span.start,
          brace.lexeme⟩ ∧
        (brace.line < m.line ∨ brace.line = m.line ∧
          Text.columnAt source.text.toList brace.span.start < m.column) := by
  intro m hm hunclosed
  let mode : Scan.Mode := if config.buildTree then .lossless else .lossy
  let i : Input := .of (Scan.scan source mode { options }).1 config
  have heof : i.eof.kind = .eof := endOf_kind _
  rw [errors_parseSource source config options mode rfl, Array.mem_toList_iff, parseScanned,
    ← Scan.stream_scan, collector_parse, runProgram_eq] at hm
  have hnew : m ∉ (Scan.scan source mode { options }).2.messages := fun hscanned =>
    (Scan.explained_scan source mode options m hscanned).reason.not_mem_unclosedBodies hunclosed
  obtain ⟨β, _, s, hreaches, hbody⟩ := (Twin.topDeclarations
    (Scan.scan source mode { options }).1.tokens.length).reports.blames (i := i)
      (s := .start (Scan.scan source mode { options }).1 config
        (Scan.scan source mode { options }).2) heof trivial hm hnew hunclosed
  cases hbody with
  | @intro α _ n kind brace inside rest _ t a hbrace hbody hinside hreport hblock hsite hsteps =>
    refine ⟨α, β, n, kind, brace, inside, rest, s, t, a, hreaches, hbrace.1, hbrace.2, hbody,
      hinside, hreport, hblock, ?_⟩
    have htokens := Scan.pairwise_site_scan source mode { options }
    rw [← eof_of_scan source mode { options } config] at htokens
    have hlt := site_lt_next hbrace (tokens_eof_eq (hreaches.steps heof).1 ▸ htokens) hsteps
    rw [← hsite] at hlt
    exact Prod.Lex.toLex_lt_toLex.1 hlt

/-- An `if` whose block is not closed, with a variable in it that has no name. -/
theorem unclosed_body_blames_brace_if :
    ∃ m ∈ (parseSource ⟨"if (x) \x7b var = 1;\nf();", "a"⟩ {} {}).1.errors,
      m.description = "Expected '\x7d' after block." ∧ m.description ∈ unclosedBodies ∧
      m.block = some ⟨"if", 1, 8, "\x7b"⟩ ∧
      ∃ (kind : String) (brace : Token), m.block = some ⟨kind, brace.line, Text.columnAt
        "if (x) \x7b var = 1;\nf();".toList brace.span.start, brace.lexeme⟩ ∧
        brace.kind = .leftBrace ∧ (brace.line < m.line ∨ brace.line = m.line ∧
          Text.columnAt "if (x) \x7b var = 1;\nf();".toList brace.span.start < m.column) := by
  obtain ⟨m, hm, hdescription, hunclosed, hblock⟩ :
      ∃ m ∈ (parseSource ⟨"if (x) \x7b var = 1;\nf();", "a"⟩ {} {}).1.errors,
        m.description = "Expected '\x7d' after block." ∧ m.description ∈ unclosedBodies ∧
        m.block = some ⟨"if", 1, 8, "\x7b"⟩ := by decide +kernel
  obtain ⟨_, _, _, kind, brace, _, _, _, _, _, -, -, hkind, -, -, -, hown, hlt⟩ :=
    unclosed_body_blames_brace ⟨"if (x) \x7b var = 1;\nf();", "a"⟩ {} {} m hm hunclosed
  exact ⟨m, hm, hdescription, hunclosed, hblock, kind, brace, hown, hkind, hlt⟩

end Grammar

end LimitSyntax
