import LimitSyntax.Proofs.TandemDecls

/-!
# In tandem: programs

A program is read one declaration a turn (`Grammar.topTurn`). If the left parse reports nothing,
then the right one reads the same declarations and is then where the left one has ended
(`Grammar.Pair.Abreast.topLoop`). It may go on from there with more declarations.
-/

namespace LimitSyntax.Grammar

open Ast

section
variable {i : Input} {s t : State}

variable {rules : Rules} {stmt : Stmt}

/-! ## One turn -/

theorem exec_topTurn_end (hend : (s.rest[0]?.getD i.eof).kind = .eof) (stmts : List Stmt) :
    exec (topTurn rules stmts) i s = (.ok (stmts, false), s) := by
  have hatEnd : exec atEnd i s = (.ok ((s.rest[0]?.getD i.eof).kind == .eof), s) := rfl
  rw [topTurn, exec_bind_ok _ hatEnd, exec_bind_ok _ (exec_get i s), hend]
  rfl

theorem exec_topTurn_more (hnext : (s.rest[0]?.getD i.eof).kind ≠ .eof) (hgoing : s.halted = false)
    (stmts : List Stmt) : exec (topTurn rules stmts) i s =
      exec (topDeclaration rules >>= fun stmt => pure (stmt.toList ++ stmts, true)) i s := by
  have hatEnd : exec atEnd i s = (.ok ((s.rest[0]?.getD i.eof).kind == .eof), s) := rfl
  rw [topTurn, exec_bind_ok _ hatEnd, exec_bind_ok _ (exec_get i s), hgoing,
    beq_false_of_ne hnext]
  rfl

/-- What follows a declaration of a program that is no stray brace. -/
theorem exec_topDeclaration (hbrace : (s.rest[0]?.getD i.eof).kind ≠ .rightBrace) :
    exec (topDeclaration rules) i s =
      exec (recoveredRule rules >>= skipUnlessMoved .eof s.position) i s := by
  rw [topDeclaration, exec_bind_ok _ (exec_get i s), exec_bind_ok _ (exec_check i s .rightBrace),
    beq_false_of_ne hbrace]
  rfl

/-- A turn reads a declaration. -/
theorem exec_topTurn_declaration (hnext : (s.rest[0]?.getD i.eof).kind ≠ .eof)
    (hbrace : (s.rest[0]?.getD i.eof).kind ≠ .rightBrace) (hgoing : s.halted = false)
    (hexec : exec (declarationRule rules) i s = (.ok stmt, t)) (hmoved : t.position ≠ s.position)
    (stmts : List Stmt) : exec (topTurn rules stmts) i s = (.ok (stmt :: stmts, true), t) := by
  have hattempt : exec (attempt (declarationRule rules)) i s = (.ok (some stmt), t) := by
    rw [exec_attempt, hexec]
  have hrecovered : exec (recoveredRule rules) i s = (.ok (some stmt), t) := by
    rw [recoveredRule, recovering, exec_bind_ok _ (exec_get i s), exec_bind_ok _ hattempt]
    rfl
  have htop : exec (topDeclaration rules) i s = (.ok (some stmt), t) := by
    rw [exec_topDeclaration hbrace, exec_bind_ok _ hrecovered, exec_skipUnlessMoved hmoved]
  rw [exec_topTurn_more hnext hgoing, exec_bind_ok _ htop]
  rfl

theorem rejects_topDeclaration : Rejects (topDeclaration rules) .rightBrace := by
  have hstray : Rejects strayBrace .rightBrace :=
    .inNode _ ((Rejects.reportHere (by decide) _).bind fun _ =>
      .bind (.onTree (.markError _)) fun _ => .bind .advance fun _ => .pure _)
  have hskip : ∀ (before : Nat) (stmt : Option Stmt),
      Stepwise (skipUnlessMoved .eof before stmt) := fun _ _ => stepwise_skipUnlessMoved _ _ _
  refine .glance (fun i s => ⟨s, exec_get i s⟩) fun s => .after fun i t ht _ hnext => ?_
  refine ⟨true, t, by rw [exec_check, hnext]; rfl, ht, rfl, hstray.bind fun _ => ?_⟩
  exact .bind (.pure _) (hskip s.position)

/-- A turn that reports nothing meets no stray brace, and its declaration reports nothing. -/
theorem topTurn_clean (hs : s.Clean) (heof : i.eof.kind = .eof)
    (hnext : (s.rest[0]?.getD i.eof).kind ≠ .eof) {stmts : List Stmt}
    (hclean : (exec (topTurn rules stmts) i s).2.errors.messages = #[]) :
    (s.rest[0]?.getD i.eof).kind ≠ .rightBrace ∧
      (exec (declarationRule rules) i s).2.errors.messages = #[] := by
  rw [exec_topTurn_more hnext hs.going] at hclean
  have htop := clean_of_bind heof (fun _ => .pure _) hclean
  have hbrace : (s.rest[0]?.getD i.eof).kind ≠ .rightBrace :=
    fun hbrace => rejects_topDeclaration i s heof hs hbrace htop
  rw [exec_topDeclaration hbrace] at htop
  have hrecovered := clean_of_bind heof (fun _ => stepwise_skipUnlessMoved _ _ _) htop
  rw [recoveredRule, recovering, exec_bind_ok _ (exec_get i s)] at hrecovered
  have hattempt := clean_of_bind heof (fun _ => .ite (.bind (.recover (fun progress =>
    (Twin.synchronize rules progress).stepwise) _) fun _ => .pure _) (.pure _)) hrecovered
  refine ⟨hbrace, ?_⟩
  rw [exec_attempt] at hattempt
  rcases hexec : exec (declarationRule rules) i s with ⟨_ | _, _⟩ <;> rwa [hexec] at hattempt

end

/-! ## Pairs -/

/-- Both parses end at the same place. -/
def Pair.closed (i i' : Input) (last : Token) (total lead : Nat) (heof : i.eof.kind = .eof)
    (heof' : i'.eof.kind = .eof) (hlast : last.kind = .eof) : Pair where
  left := i
  right := i'
  more := [last]
  total
  lead
  eof_left := heof
  eof_right := heof'
  next := .inl ⟨hlast, le_rfl⟩

section
variable {g : Pair} {s s' : State}

/-- The left tokens are ahead of both parses if the right ones start alike. The seam may be behind
a semicolon only. -/
theorem Pair.ahead_of_same {ts ts' : List Token} (hsame : List.Forall₂ Token.Same ts ts')
    (hkinds : ∀ t ∈ ts, t.kind ≠ .eof ∧ t.kind ≠ .error)
    (hlast : g.seam ≠ .eof → ∀ t, ts.getLast? = some t → t.kind = .semicolon) {e : Token}
    (he : e.kind = .eof) (hend : g.seam = .eof → e.Same (g.more[0]?.getD g.right.eof)) :
    g.Ahead (ts ++ [e]) (ts' ++ g.more) := by
  induction hsame with
  | nil => exact .ends e he hend
  | @cons t t' ts ts' h _ ih =>
    obtain ⟨heof, herror⟩ := hkinds t List.mem_cons_self
    refine .token h heof herror (fun hseam hlen => ?_) (ih (fun u hu => ?_) fun hseam u hu => ?_)
    · obtain rfl : ts = [] := by simpa using hlen
      exact hlast hseam t rfl
    · exact hkinds u (List.mem_cons_of_mem t hu)
    · refine hlast hseam u ?_
      rw [List.getLast?_cons, hu]
      rfl

/-- The left parse is abreast with itself. -/
theorem Pair.Abreast.self (h : g.Abreast s s') : ∃ g₀ : Pair, g₀.left = g.left ∧
    g₀.seam = .eof ∧ g₀.Abreast s s := by
  have hahead : ∀ {ts ts'}, g.Ahead ts ts' → ∃ (last : Token) (hlast : last.kind = .eof),
      (Pair.closed g.left g.left last g.total 0 g.eof_left g.eof_left hlast).Ahead ts ts := by
    intro ts ts' h
    induction h with
    | ends e he => exact ⟨e, he, .ends e he fun _ => .rfl⟩
    | token _ heof herror _ _ ih =>
      obtain ⟨last, hlast, hrest⟩ := ih
      exact ⟨last, hlast, .token .rfl heof herror (fun hseam => absurd hlast hseam) hrest⟩
  obtain ⟨last, hlast, hself⟩ := hahead h.ahead
  refine ⟨.closed g.left g.left last g.total 0 g.eof_left g.eof_left hlast, rfl, hlast, ?_⟩
  exact {
    ahead := hself
    clean := h.clean
    clean' := h.clean
    going := h.going
    going' := h.going
    closed := h.closed
    concurrent := rfl
    back := fun t ht => ⟨t, ht, .rfl⟩
    count := h.count
    lead := (Nat.zero_add _).symm
    tree := h.tree }

/-- At the end of the left parse one token is left. -/
theorem Pair.Ahead.ends_iff {ts ts' : List Token} (h : g.Ahead ts ts') :
    (ts[0]?.getD g.left.eof).kind = .eof ↔ ts.length = 1 := by
  cases h with
  | ends e he => exact ⟨fun _ => rfl, fun _ => he⟩
  | token _ heof _ _ hrest =>
    have hpos := hrest.length_pos
    refine ⟨fun hend => absurd hend heof, fun hlen => ?_⟩
    rw [List.length_cons] at hlen
    omega

/-- If no more follows, then both parses end together. -/
theorem Pair.Abreast.right_ends (h : g.Abreast s s') (hseam : g.seam = .eof)
    (hone : s.rest.length = 1) : (s'.rest[0]?.getD g.right.eof).kind = .eof := by
  have hsame := h.peek_of_not_atSeam fun hat => hat.1 hseam
  exact hsame.kind.symm.trans (h.ahead.ends_iff.2 hone)

variable {fuel fuel' bound bound' n : Nat} {stmts : List Stmt}

/-- A turn of the left parse that reports nothing reads a declaration. -/
structure Pair.Turn (g : Pair) (fuel : Nat) (s : State) (stmt : Stmt) (t : State) : Prop where
  exec_eq : exec (declarationRule (.upTo fuel)) g.left s = (.ok stmt, t)
  next : (s.rest[0]?.getD g.left.eof).kind ≠ .eof
  brace : (s.rest[0]?.getD g.left.eof).kind ≠ .rightBrace
  less : t.rest.length < s.rest.length
  moved : t.position ≠ s.position

theorem Pair.Abreast.turn (hs : g.Abreast s s') (hmore : s.rest.length ≠ 1)
    (hfuel : s.rest.length ≤ fuel)
    (hclean : (exec (topTurn (.upTo fuel) stmts) g.left s).2.errors.messages = #[]) :
    ∃ stmt t, g.Turn fuel s stmt t := by
  have hnext : (s.rest[0]?.getD g.left.eof).kind ≠ .eof := by rwa [Ne, hs.ahead.ends_iff]
  obtain ⟨hbrace, hdeclaration⟩ := topTurn_clean hs.left_clean g.eof_left hnext hclean
  obtain ⟨g₀, hleft, hseam, hself⟩ := hs.self
  have hr : Rules.InTandem g₀ fuel (.upTo fuel) (.upTo fuel) :=
    Rules.inTandem_upTo le_rfl le_rfl
  have hspot : Spot.within.Holds g₀ s := fun hat => hat.1 hseam
  rw [← hleft] at hdeclaration
  obtain ⟨stmt, _, t, t', hexec, _, ht, _, hlen, _⟩ := (Tandem.declarationRule (H := True) hr
    (n := s.rest.length) (by omega)).meets trivial s s hself hspot le_rfl
    ⟨hdeclaration, fun hjoins => by rw [hseam] at hjoins; cases hjoins⟩
  have hpos := hs.ahead.length_pos
  rw [hleft] at hexec
  refine ⟨stmt, t, hexec, hnext, hbrace, by omega, ?_⟩
  have := ht.count
  have := hself.count
  omega

/-- The right parse reads the same declaration. -/
theorem Pair.Turn.right {stmt : Stmt} {t : State} (h : g.Turn fuel s stmt t) (hs : g.Abreast s s')
    (hfuel : s.rest.length ≤ fuel) (hfuel' : s.rest.length ≤ fuel') (hfine : g.Fine t)
    (stmts' : List Stmt) :
    ∃ stmt' t', exec (topTurn (.upTo fuel') stmts') g.right s' = (.ok (stmt' :: stmts', true), t') ∧
      g.Abreast t t' ∧ Agree stmt stmt' := by
  have hspot : Spot.within.Holds g s := fun hat => h.next (hs.ahead.ends_iff.2 hat.2)
  have hr : Rules.InTandem g s.rest.length (.upTo fuel) (.upTo fuel') :=
    Rules.inTandem_upTo hfuel hfuel'
  have hfine' : g.Fine (exec (declarationRule (.upTo fuel)) g.left s).2 := by rwa [h.exec_eq]
  obtain ⟨_, stmt', _, t', hexec, hexec', ht, -, -, hagree⟩ := (Tandem.declarationRule
    (H := True) hr (Nat.le_succ _)).meets trivial s s' hs hspot le_rfl hfine'
  rw [h.exec_eq] at hexec
  cases hexec
  have hkind := (hs.peek_of_not_atSeam hspot).kind
  have hmoved : t'.position ≠ s'.position := by
    have := h.moved
    have := hs.lead
    have := ht.lead
    omega
  exact ⟨stmt', t', exec_topTurn_declaration (hkind ▸ h.next) (hkind ▸ h.brace) hs.going' hexec'
    hmoved stmts', ht, hagree⟩

/-! ## All turns -/

/-- Reads declarations, at most a number of them. -/
def topLoop (fuel bound : Nat) (stmts : List Stmt) : Parse (List Stmt) :=
  repeatUpTo (topTurn (.upTo fuel)) bound stmts

theorem topDeclarations_eq (n : Nat) : topDeclarations (.upTo n) =
    topLoop n (n + 1) [] >>= fun stmts => pure stmts.reverse := rfl

theorem exec_topLoop_end {i : Input} (hend : (s.rest[0]?.getD i.eof).kind = .eof)
    (hbound : 0 < bound) (stmts : List Stmt) :
    exec (topLoop fuel bound stmts) i s = (.ok stmts, s) := by
  obtain ⟨bound, rfl⟩ : ∃ b, bound = b + 1 := ⟨bound - 1, by omega⟩
  rw [topLoop, repeatUpTo, exec_bind_ok _ (exec_topTurn_end hend stmts)]
  rfl

theorem exec_topLoop_succ {i : Input} {t : State} {xs : List Stmt}
    (hturn : exec (topTurn (.upTo fuel) stmts) i s = (.ok (xs, true), t)) :
    exec (topLoop fuel (bound + 1) stmts) i s = exec (topLoop fuel bound xs) i t := by
  rw [topLoop, repeatUpTo, exec_bind_ok _ hturn]
  rfl

/-- The left parse runs to its end and the right one to the seam, from where it goes on. Both have
read the same declarations on the way. -/
theorem Pair.Abreast.topLoop (hs : g.Abreast s s') (stmts' : List Stmt)
    (hlen : s.rest.length ≤ n + 1) (hfuel : n < fuel) (hfuel' : n < fuel') (hbound : n < bound)
    (hbound' : n < bound')
    (hfine : g.Fine (exec (topLoop fuel bound stmts) g.left s).2) :
    ∃ xs xs' t t' left, exec (topLoop fuel bound stmts) g.left s = (.ok (xs ++ stmts), t) ∧
      exec (topLoop fuel' bound' stmts') g.right s' =
        exec (topLoop fuel' left (xs' ++ stmts')) g.right t' ∧
      g.Abreast t t' ∧ t.rest.length = 1 ∧ bound' ≤ left + n ∧ Agree xs xs' := by
  induction n generalizing s s' stmts stmts' bound bound' with
  | zero =>
    have hend : s.rest.length = 1 := Nat.le_antisymm hlen hs.ahead.length_pos
    have hleft : exec (Grammar.topLoop fuel bound stmts) g.left s = (.ok stmts, s) :=
      exec_topLoop_end (hs.ahead.ends_iff.2 hend) hbound stmts
    exact ⟨[], [], s, s', bound', hleft, rfl, hs, hend, by omega, .nil⟩
  | succ n ih =>
    by_cases hend : s.rest.length = 1
    · have hleft : exec (Grammar.topLoop fuel bound stmts) g.left s = (.ok stmts, s) :=
        exec_topLoop_end (hs.ahead.ends_iff.2 hend) (Nat.zero_lt_of_lt hbound) stmts
      exact ⟨[], [], s, s', bound', hleft, rfl, hs, hend, by omega, .nil⟩
    obtain ⟨bound, rfl⟩ : ∃ b, bound = b + 1 := ⟨bound - 1, by omega⟩
    obtain ⟨bound', rfl⟩ : ∃ b, bound' = b + 1 := ⟨bound' - 1, by omega⟩
    have hrest : ∀ r : List Stmt × Bool, Stepwise (if r.2 = true then
        repeatUpTo (topTurn (.upTo fuel)) bound r.1 else Pure.pure r.1) :=
      fun _ => .ite (Twin.topTurns fuel ..).stepwise (.pure _)
    obtain ⟨stmt, t, hturn⟩ := hs.turn hend (by omega) (clean_of_bind g.eof_left hrest hfine.1)
    have hexec : exec (topTurn (.upTo fuel) stmts) g.left s = (.ok (stmt :: stmts, true), t) :=
      exec_topTurn_declaration hturn.next hturn.brace hs.going hturn.exec_eq hturn.moved stmts
    rw [exec_topLoop_succ hexec] at hfine ⊢
    have hlater := (Twin.topTurns fuel bound (stmt :: stmts)).stepwise g.left t g.eof_left
    have hlen' : s.rest.length ≤ fuel' := by omega
    obtain ⟨stmt', t', hexec', ht, hagree⟩ :=
      hturn.right hs (by omega) hlen' (hfine.first hlater) stmts'
    rw [exec_topLoop_succ hexec']
    have hless := hturn.less
    have hleft' : n < bound' := by omega
    obtain ⟨xs, xs', u, u', left, hleft, hright, hu, hone, hcount, hxs⟩ := ih ht
      (stmt' :: stmts') (by omega) (by omega) (by omega) (by omega) hleft' hfine
    rw [List.append_cons] at hleft hright
    exact ⟨xs ++ [stmt], xs' ++ [stmt'], u, u', left, hleft, hright, hu, hone, by omega,
      hxs.append (.cons hagree .nil)⟩

end

end LimitSyntax.Grammar
