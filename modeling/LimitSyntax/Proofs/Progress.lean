import LimitSyntax.Proofs.RootNodes
import LimitSyntax.Proofs.SparingDecls

/-!
# Progress

A parse ends on every row of tokens, whether or not it was scanned. It meets no bound, no rule goes
back behind the token it has started at, every declaration that is read in a loop takes at least one
token, and so there are no more declarations than tokens.
-/

namespace LimitSyntax.Grammar

open Ast

/-- A turn of a loop that goes on has read a token. -/
def Advances {σ : Type} (i : Input) (turn : σ → Parse (σ × Bool)) : Prop :=
  ∀ x y s t, exec (turn x) i s = (.ok (y, true), t) → s.position < t.position

/-! ## Turns -/

section
variable {i : Input} {s t : State} {fuel : Nat}

/-- A turn in a body that goes on is neither at the end nor at the closing brace. -/
theorem exec_bodyEnds_more {σ : Type} {x y : σ} {p : Parse (σ × Bool)}
    (h : exec (bodyEnds >>= fun b => if b then pure (x, false) else p) i s = (.ok (y, true), t)) :
    (s.rest[0]?.getD i.eof).kind ≠ .eof ∧ (s.rest[0]?.getD i.eof).kind ≠ .rightBrace ∧
      exec p i s = (.ok (y, true), t) := by
  have hexec : exec bodyEnds i s = (.ok ((s.rest[0]?.getD i.eof).kind == .rightBrace ||
    (s.rest[0]?.getD i.eof).kind == .eof || s.halted), s) := rfl
  rw [exec_bind_ok i hexec] at h
  split at h
  next => cases h
  next hmore =>
    simp only [Bool.or_eq_true, beq_iff_eq, not_or] at hmore
    exact ⟨hmore.1.2, hmore.1.1, h⟩

theorem position_lt_nextDeclaration (heof : i.eof.kind = .eof)
    (hend : (s.rest[0]?.getD i.eof).kind ≠ .eof)
    (hbrace : (s.rest[0]?.getD i.eof).kind ≠ .rightBrace) {stmt : Option Stmt}
    (h : exec (nextDeclaration (.upTo fuel)) i s = (.ok stmt, t)) : s.position < t.position := by
  have hread : exec (Rule.call fuel .recovered >>= skipUnlessMoved .rightBrace s.position) i s =
      (.ok stmt, t) := h
  obtain ⟨stmt', u, hcall, hskip⟩ := exec_bind_eq_ok hread
  have hsteps := ((Rules.lawful_upTo fuel).alike .recovered).stepwise.run heof hcall
  have hlt := position_lt_skipUnlessMoved heof hsteps hend hbrace stmt'
  rwa [hskip] at hlt

/-- The turns of the loop that reads a body. -/
theorem advances_bodyTurn (heof : i.eof.kind = .eof) (fuel : Nat) :
    Advances i (bodyTurn (.upTo fuel)) := by
  intro stmts stmts' s t h
  obtain ⟨hend, hbrace, h⟩ := exec_bodyEnds_more h
  obtain ⟨stmt, u, hread, hdone⟩ := exec_bind_eq_ok h
  cases hdone
  exact position_lt_nextDeclaration heof hend hbrace hread

/-- The turns of the loop that reads a module. -/
theorem advances_moduleTurn (heof : i.eof.kind = .eof) (fuel : Nat) :
    Advances i (moduleTurn (.upTo fuel)) := by
  intro parts parts' s t h
  obtain ⟨hend, hbrace, h⟩ := exec_bodyEnds_more h
  have hpeek : exec peek i s = (.ok (s.rest[0]?.getD i.eof), s) := rfl
  rw [exec_bind_ok i hpeek] at h
  obtain ⟨stmt, u, hread, hdone⟩ := exec_bind_eq_ok h
  cases hdone
  exact position_lt_nextDeclaration heof hend hbrace hread

theorem position_lt_topDeclaration (heof : i.eof.kind = .eof)
    (hend : (s.rest[0]?.getD i.eof).kind ≠ .eof) {stmt : Option Stmt}
    (h : exec (topDeclaration (.upTo fuel)) i s = (.ok stmt, t)) : s.position < t.position := by
  rw [topDeclaration_eq, exec_bind_ok i (exec_get i s)] at h
  obtain ⟨stmt', u, hread, hskip⟩ := exec_bind_eq_ok h
  have hstepwise : Stepwise (check .rightBrace >>= fun stray =>
      if stray then strayBrace >>= fun _ => pure none else recoveredRule (.upTo fuel)) :=
    .bind (Alike.check _).stepwise fun _ => .ite
      (.bind Twin.strayBrace.stepwise fun _ => .pure _)
      (Twin.recoveredRule (Rules.lawful_upTo fuel)).stepwise
  have hlt := position_lt_skipUnlessMoved heof (hstepwise.run heof hread) hend hend stmt'
  rwa [hskip] at hlt

/-- A turn of the loop that reads a program is its last one, or it reads at least a token for at
most one declaration. -/
theorem exec_topTurn_cases (heof : i.eof.kind = .eof) {stmts : List Stmt} {r : List Stmt × Bool}
    (h : exec (topTurn (.upTo fuel) stmts) i s = (.ok r, t)) :
    r = (stmts, false) ∧ t = s ∨
      ∃ stmt : Option Stmt, r = (stmt.toList ++ stmts, true) ∧ s.position < t.position := by
  have hatEnd : exec atEnd i s = (.ok ((s.rest[0]?.getD i.eof).kind == .eof), s) := rfl
  rw [topTurn, exec_bind_ok i hatEnd, exec_bind_ok i (exec_get i s)] at h
  split at h
  next =>
    cases h
    exact .inl ⟨rfl, rfl⟩
  next hmore =>
    simp only [Bool.or_eq_true, beq_iff_eq, not_or] at hmore
    obtain ⟨stmt, u, hread, hdone⟩ := exec_bind_eq_ok h
    cases hdone
    exact .inr ⟨stmt, rfl, position_lt_topDeclaration heof hmore.1 hread⟩

/-- The turns of the loop that reads a program. -/
theorem advances_topTurn (heof : i.eof.kind = .eof) (fuel : Nat) :
    Advances i (topTurn (.upTo fuel)) := by
  intro stmts stmts' s t h
  rcases exec_topTurn_cases heof h with ⟨hlast, -⟩ | ⟨stmt, -, hlt⟩
  · cases hlast
  · exact hlt

/-! ## Declarations and tokens -/

/-- At least as many tokens are read as declarations. -/
theorem length_topLoop_le (heof : i.eof.kind = .eof) {bound : Nat} {stmts xs : List Stmt}
    (h : exec (topLoop fuel bound stmts) i s = (.ok xs, t)) :
    xs.length + s.position ≤ stmts.length + t.position := by
  induction bound generalizing s stmts with
  | zero =>
    cases h
    exact Nat.le_refl _
  | succ bound ih =>
    obtain ⟨r, u, hturn, hrest⟩ := exec_bind_eq_ok h
    rcases exec_topTurn_cases heof hturn with ⟨rfl, rfl⟩ | ⟨stmt, rfl, hlt⟩
    · cases hrest
      exact Nat.le_refl _
    · have hle : xs.length + u.position ≤ (stmt.toList ++ stmts).length + t.position := ih hrest
      have hone : stmt.toList.length ≤ 1 := by cases stmt <;> simp
      rw [List.length_append] at hle
      omega

theorem Step.read_ne_eof (h : Step i s t) (hs : ∀ u ∈ s.read.toList, u.kind ≠ .eof) :
    ∀ u ∈ t.read.toList, u.kind ≠ .eof := by
  cases h with
  | take v rest _ hkind =>
    intro u hu
    have hu : u ∈ s.read.toList ∨ u = v := by simpa [State.take] using hu
    rcases hu with hu | rfl
    · exact hs u hu
    · exact hkind
  | retake v rest hrest hkind => simpa [State.back_take] using hs
  | edit | context | spend => exact hs
  | report v description block =>
    obtain ⟨_, _, _, heq⟩ := s.report_eq i v description block
    rwa [heq]

/-- The end is never read. -/
theorem Steps.read_ne_eof (h : Steps i s t) (hs : ∀ u ∈ s.read.toList, u.kind ≠ .eof) :
    ∀ u ∈ t.read.toList, u.kind ≠ .eof := by
  induction h with
  | refl => exact hs
  | tail _ hstep ih => exact hstep.read_ne_eof ih

/-- All tokens that are read stand before the first end. -/
theorem Steps.position_le_takeWhile (h : Steps i s t) (hs : s.read = #[]) :
    t.position ≤ (s.rest.takeWhile (·.kind ≠ .eof)).length := by
  have htokens := h.tokens_eq
  have hread := h.read_ne_eof (by simp [hs])
  rw [hs, List.nil_append] at htokens
  rw [← htokens, List.takeWhile_append_of_pos (fun u hu => by simpa using hread u hu),
    List.length_append]
  simp [State.position]

end

/-! ## Programs -/

/-- A parse yields its declarations without having met a bound. -/
theorem exec_topDeclarations_start (stream : Scan.Stream) (config : Config)
    (errors : Diagnostic.Collector) : ∃ xs t,
    exec (topLoop stream.tokens.length (stream.tokens.length + 1) []) (.of stream config)
      (.start stream config errors) = (.ok xs, t) ∧
    exec (topDeclarations (.upTo stream.tokens.length)) (.of stream config)
      (.start stream config errors) = (.ok xs.reverse, t) ∧
    Moves (.of stream config) (.start stream config errors) t := by
  obtain ⟨xs, t, hloop⟩ : ∃ xs t, exec (topLoop stream.tokens.length (stream.tokens.length + 1) [])
      (.of stream config) (.start stream config errors) = (.ok xs, t) :=
    Total.repeatUpTo (Total.topTurn (.upTo stream.tokens.length)) ..
  have hrun : exec (topDeclarations (.upTo stream.tokens.length)) (.of stream config)
      (.start stream config errors) = (.ok xs.reverse, t) := by
    rw [topDeclarations_eq, exec_bind_ok _ hloop]
    rfl
  have hmoves := moves_topDeclarations stream config errors
  rw [hrun] at hmoves
  exact ⟨xs, t, hloop, hrun, hmoves⟩

/-- A parse meets no bound and yields its declarations. Every rule ends at or behind the token it
has started at, every turn of a loop over declarations is its last one or reads a token, and there
are no more declarations than tokens before the first end. -/
theorem parse_progress (stream : Scan.Stream) (config : Config) (errors : Diagnostic.Collector) :
    (∃ stmts t, exec (topDeclarations (.upTo stream.tokens.length)) (.of stream config)
        (.start stream config errors) = (.ok stmts, t) ∧ t.spent = false) ∧
      (∀ (fuel : Nat) {α : Type} {p : Parse α} (s : State), Production (.upTo fuel) p →
        s.position ≤ (exec p (.of stream config) s).2.position) ∧
      (∀ fuel : Nat, Advances (.of stream config) (topTurn (.upTo fuel)) ∧
        Advances (.of stream config) (bodyTurn (.upTo fuel)) ∧
        Advances (.of stream config) (moduleTurn (.upTo fuel))) ∧
      (parse stream config errors).1.program.statements.length ≤
        (stream.tokens.takeWhile (·.kind ≠ .eof)).length := by
  have heof := endOf_kind stream.tokens
  obtain ⟨xs, t, hloop, hrun, hmoves⟩ := exec_topDeclarations_start stream config errors
  refine ⟨⟨xs.reverse, t, hrun, hmoves.spent_eq⟩, fun fuel α p s hp => ?_, fun fuel =>
    ⟨advances_topTurn heof fuel, advances_bodyTurn heof fuel, advances_moduleTurn heof fuel⟩, ?_⟩
  · obtain ⟨q, hq⟩ := hp.alike (Rules.lawful_upTo fuel)
    exact (hq.stepwise _ s heof).position_le
  · have hstatements : (parse stream config errors).1.program.statements = xs.reverse := by
      show (runProgram stream config errors).1 = xs.reverse
      rw [runProgram_eq, hrun]
      rfl
    rw [hstatements, List.length_reverse]
    have hcount := length_topLoop_le heof hloop
    have hread := hmoves.steps.position_le_takeWhile rfl
    exact Nat.le_trans (by simpa [State.position, State.start] using hcount) hread

end LimitSyntax.Grammar
