import LimitSyntax.Proofs.ErrorsReported
import LimitSyntax.Proofs.StatementNodes

/-!
# The statements below the root

The nodes directly below the root of a tree that are statements or declarations are those of the
statements of the program, one for each and in their order. If nothing is reported, then each of them
spans its statement (`Grammar.root_nodes_match`).
-/

namespace LimitSyntax.Grammar

open Ast
open LimitSyntax.Tree (Builder)

/-! ## Spans -/

/-- The tokens of the parse tile the source, and its tree ends where those that are left start. -/
structure Laid (source : Source) (s : State) (b : Builder) : Prop where
  tree : s.tree = some b
  ordered : b.Ordered
  rest : Span.Tiles b.offset source.text.utf8ByteSize (s.rest.map Token.fullSpan)
  tiles : Span.Tiles 0 source.text.utf8ByteSize
    ((s.read.toList ++ s.rest).map Token.fullSpan)
  stand : ∀ t ∈ s.read.toList ++ s.rest, t.StandsIn source

namespace Laid

variable {source : Source} {i : Input} {s t : State} {b b' : Builder}

theorem steps (h : Laid source s b) (hsteps : Steps i s t) : ∃ b', Laid source t b' := by
  obtain ⟨b', ht, hordered, hrest⟩ := (kept_order source.text.utf8ByteSize).steps
    ⟨b, h.tree, h.ordered, h.rest⟩ hsteps
  have htokens := hsteps.tokens_eq
  exact ⟨b', ht, hordered, hrest, htokens ▸ h.tiles, htokens ▸ h.stand⟩

/-- The tokens that were read end where the tree does. -/
theorem stop_le (h : Laid source s b) {u : Token} (hu : u ∈ s.read.toList) :
    u.span.start ≤ b.offset ∧ u.span.stop ≤ b.offset := by
  have htiles := h.tiles
  rw [List.map_append] at htiles
  obtain ⟨middle, hread, hrest⟩ := htiles.of_append
  obtain rfl : middle = b.offset := hrest.start_unique h.rest
  have hfull := hread.mem (List.mem_map_of_mem hu)
  have hspan := (h.stand u (List.mem_append_left _ hu)).tiles.mem (s := u.span)
    (by simp [Token.pieces])
  omega

/-- The next token starts behind the tree. -/
theorem le_start (h : Laid source s b) {u : Token} {us : List Token} (hu : s.rest = u :: us) :
    b.offset ≤ u.span.start := by
  have hrest := h.rest
  rw [hu] at hrest
  have hspan := (h.stand u (by simp [hu])).tiles.mem (s := u.span) (by simp [Token.pieces])
  rw [← hrest.1]
  exact hspan.1

/-- A node that was added while tokens were read spans these tokens. -/
theorem contains (h : Laid source s b) (h' : Laid source t b') (hsteps : Steps i s t)
    (hless : t.rest.length < s.rest.length) {n : Tree.Node} (hadds : b.Adds n b') {span : Span}
    (hspan : exec (spanFrom (s.rest[0]?.getD i.eof).span.start) i t = (.ok span, t)) :
    n.span.contains span = true := by
  -- the first of the tokens is among those read in the end
  obtain ⟨u, us, hrest⟩ : ∃ u us, s.rest = u :: us := List.exists_cons_of_length_pos (by omega)
  have hmem : u ∈ t.read.toList := by
    obtain ⟨ms, hms⟩ := hsteps.rest_suffix
    have htokens := hsteps.tokens_eq
    rw [← hms, ← List.append_assoc] at htokens
    rw [List.append_cancel_right htokens]
    cases ms with
    | nil =>
      rw [← hms] at hless
      exact absurd hless (lt_irrefl _)
    | cons m ms =>
      rw [hrest] at hms
      rw [← (List.cons.inj hms).1]
      simp
  have hmoved : t.position ≠ 0 := by
    intro hzero
    rw [Array.toList_eq_nil_iff.2 (Array.size_eq_zero_iff.1 hzero)] at hmem
    cases hmem
  obtain ⟨last, hback⟩ : ∃ last, t.read.back? = some last := by
    refine Option.ne_none_iff_exists'.1 fun hnone => hmoved ?_
    rw [State.position, Array.back?_eq_none_iff.1 hnone]
    rfl
  rw [exec_spanFrom, if_neg hmoved, hback, hrest] at hspan
  obtain rfl := Except.ok.inj (Prod.mk.inj hspan).1
  have hfirst := h'.stop_le hmem
  have hend := h'.stop_le (Array.mem_toList_iff.2 (Array.mem_of_back? hback))
  have hstart := h.le_start hrest
  rw [hadds.span_eq h.ordered h'.ordered]
  simp only [Span.contains, Bool.and_eq_true, decide_eq_true_eq, List.getElem?_cons_zero,
    Option.getD_some]
  omega

end Laid

/-! ## Turns -/

section
variable {source : Source} {i : Input} {s t : State} {b : Builder} {fuel : Nat}
  {stmts : List Stmt} {stmt : Stmt}

/-- The parse has come so far without a report. -/
def Steady (i : Input) (s : State) : Prop :=
  ∃ g : Pair, g.left = i ∧ g.right = i ∧ g.seam = .eof ∧ g.Abreast s s

/-- A turn that reports nothing reads a declaration, which is not empty behind its modifiers. -/
theorem Steady.turn (hs : Steady i s) (hmore : s.rest.length ≠ 1) (hfuel : s.rest.length ≤ fuel)
    {r : List Stmt × Bool} (h : exec (topTurn (.upTo fuel) stmts) i s = (.ok r, t))
    (hclean : t.errors.messages = #[]) :
    Steady i t ∧ ∃ stmt, exec (declarationRule (.upTo fuel)) i s = (.ok stmt, t) ∧
      r = (stmt :: stmts, true) ∧ t.rest.length < s.rest.length ∧
      ∀ mods u, exec (modifiers (.upTo fuel)) i s = (.ok mods, u) →
        exec (statementRule (.upTo fuel)) i u = (.ok stmt, t) → t.rest.length < u.rest.length := by
  obtain ⟨g, rfl, hright, hseam, hs⟩ := hs
  have hjoins : joinsExpression g.seam ≠ true := by
    rw [hseam]
    decide
  obtain ⟨stmt, t', hturn⟩ := hs.turn hmore hfuel (by rw [h]; exact hclean)
  have hexec := exec_topTurn_declaration hturn.next hturn.brace hs.going hturn.exec_eq hturn.moved
    stmts
  obtain ⟨rfl, rfl⟩ : (stmt :: stmts, true) = r ∧ t' = t := by
    rw [h] at hexec
    cases hexec
    exact ⟨rfl, rfl⟩
  have hfine : g.Fine t' := ⟨hclean, fun hj => absurd hj hjoins⟩
  obtain ⟨_, t'', hexec', ht, -⟩ := hturn.right hs hfuel hfuel hfine stmts
  rw [hright, hexec] at hexec'
  cases hexec'
  refine ⟨⟨g, rfl, hright, hseam, ht⟩, stmt, hturn.exec_eq, rfl, hturn.less, ?_⟩
  intro mods u hmods hstatement
  have hr : Rules.InTandem g fuel (.upTo fuel) (.upTo fuel) :=
    Rules.inTandem_upTo le_rfl le_rfl
  have hsteps : Steps g.left u t' := by
    have := (Twin.statementRule (Rules.lawful_upTo fuel)).stepwise g.left u g.eof_left
    rwa [hstatement] at this
  -- the modifiers leave the parse abreast with itself, so that the statement reads a token
  obtain ⟨_, _, u', u'', hleft, hright', hu, hspot, -, -⟩ := (Tandem.modifiers (H := True) hr
    (n := s.rest.length) (by omega)).meets trivial s s hs (fun hat => hat.1 hseam) le_rfl
    ⟨by rw [hmods]; exact hsteps.clean hclean, fun hj => absurd hj hjoins⟩
  rw [hmods] at hleft
  rw [hright, hmods] at hright'
  cases hleft
  cases hright'
  have hpos := hu.ahead.length_pos
  have hle : u.rest.length ≤ s.rest.length := by
    have hmodifiers := (Twin.modifiers (.upTo fuel)).stepwise g.left s g.eof_left
    rw [hmods] at hmodifiers
    exact hmodifiers.rest_suffix.length_le
  obtain ⟨_, _, v, v', hleft, -, -, -, hlen, -⟩ := (Tandem.statementRule (H := True) hr
    (n := u.rest.length) (by omega)).meets trivial u u hu (fun hat => hat.1 hseam) le_rfl
    ⟨by rw [hstatement]; exact hclean, fun hj => absurd hj hjoins⟩
  rw [hstatement] at hleft
  cases hleft
  omega

theorem exec_skipUnlessMoved_gains {close : Token.Kind} {before : Nat} {stmt stmt' : Option Stmt}
    (hb : s.tree = some b) (h : exec (skipUnlessMoved close before stmt) i s = (.ok stmt', t)) :
    stmt' = stmt ∧ ∃ b', t.tree = some b' ∧ b.Gains [] b' := by
  rw [skipUnlessMoved, exec_bind_ok i (exec_get i s), exec_bind_ok i (exec_check i s close)] at h
  split at h
  · obtain ⟨_, u, hadvance, h⟩ := exec_bind_eq_ok h
    cases h
    exact ⟨rfl, exec_advance_gains hb hadvance⟩
  · cases h
    exact ⟨rfl, b, hb, .refl b⟩

theorem exec_topDeclaration_gains {rules : Rules} (hr : rules.Lawful) (hb : s.tree = some b)
    {stmt : Option Stmt} (h : exec (topDeclaration rules) i s = (.ok stmt, t)) :
    ∃ b' ns, t.tree = some b' ∧ b.Gains ns b' ∧ List.Forall₂ Depicts ns stmt.toList := by
  by_cases hbrace : (s.rest[0]?.getD i.eof).kind = .rightBrace
  · have heq : exec (topDeclaration rules) i s = exec (strayBrace >>= fun _ => Pure.pure none >>=
        skipUnlessMoved .eof s.position) i s := by
      rw [topDeclaration, exec_bind_ok i (exec_get i s), exec_bind_ok i (exec_check i s .rightBrace),
        hbrace]
      rfl
    rw [heq] at h
    obtain ⟨_, u, hstray, h⟩ := exec_bind_eq_ok h
    obtain ⟨_, v, hnone, h⟩ := exec_bind_eq_ok h
    cases hnone
    have hframed : Framed (do
        reportHere "Unexpected closing brace."
        onTree (·.markError "Unexpected closing brace.")
        let _ ← advance) :=
      .bind (Alike.reportHere _ (by decide)).framed fun _ => .bind (.onTree fun _ => rfl) fun _ =>
        .bind .advance fun _ => .pure _
    obtain ⟨b₁, n, hu, hkind, hadds⟩ := exec_inNode_adds hframed hb hstray
    obtain ⟨rfl, b', ht, hgains⟩ := exec_skipUnlessMoved_gains hu h
    have hnone : b.Gains [] b₁ := hadds.gains_nil (by rw [hkind]; rfl)
    exact ⟨b', [], ht, hnone.trans hgains, .nil⟩
  · rw [exec_topDeclaration hbrace] at h
    obtain ⟨stmt', u, hrecovered, h⟩ := exec_bind_eq_ok h
    obtain ⟨b₁, ns, hu, hgains, hdepicts⟩ := exec_recoveredRule_gains hr hb hrecovered
    obtain ⟨rfl, b', ht, hgains'⟩ := exec_skipUnlessMoved_gains hu h
    exact ⟨b', ns, ht, List.append_nil ns ▸ hgains.trans hgains', hdepicts⟩

/-- A turn adds the nodes of the statements it yields. -/
theorem exec_topTurn_gains (hb : s.tree = some b) {r : List Stmt × Bool}
    (h : exec (topTurn (.upTo fuel) stmts) i s = (.ok r, t)) :
    ∃ b' ns new, t.tree = some b' ∧ b.Gains ns b' ∧ r.1 = new.reverse ++ stmts ∧
      List.Forall₂ Depicts ns new := by
  obtain ⟨_, _, hend, h⟩ := exec_bind_eq_ok h
  cases hend
  obtain ⟨_, _, hget, h⟩ := exec_bind_eq_ok h
  cases hget
  split at h
  · cases h
    exact ⟨b, [], [], hb, .refl b, rfl, .nil⟩
  · obtain ⟨stmt, u, htop, h⟩ := exec_bind_eq_ok h
    cases h
    obtain ⟨b', ns, ht, hgains, hdepicts⟩ :=
      exec_topDeclaration_gains (Rules.lawful_upTo fuel) hb htop
    refine ⟨b', ns, stmt.toList, ht, hgains, ?_, hdepicts⟩
    cases stmt <;> rfl

/-- If a turn reports nothing, then the node that it adds spans its statement. -/
theorem Steady.topTurn_spans (hs : Steady i s) (hlaid : Laid source s b)
    (hfuel : s.rest.length ≤ fuel) {r : List Stmt × Bool} {b' : Builder} {ns : List Tree.Node}
    {new : List Stmt} (h : exec (topTurn (.upTo fuel) stmts) i s = (.ok r, t))
    (hclean : t.errors.messages = #[]) (ht : t.tree = some b') (hgains : b.Gains ns b')
    (hnew : r.1 = new.reverse ++ stmts) (hdepicts : List.Forall₂ Depicts ns new) :
    Steady i t ∧ List.Forall₂ (fun n stmt => n.span.contains stmt.span = true) ns new := by
  by_cases hmore : s.rest.length = 1
  · have hend : (s.rest[0]?.getD i.eof).kind = .eof := by
      obtain ⟨g, rfl, -, -, habreast⟩ := hs
      exact habreast.ahead.ends_iff.2 hmore
    rw [exec_topTurn_end hend] at h
    cases h
    obtain rfl : new = [] := by simpa using hnew
    cases hdepicts
    exact ⟨hs, .nil⟩
  · obtain ⟨hsteady, stmt, hexec, rfl, hless, hbehind⟩ := hs.turn hmore hfuel h hclean
    obtain rfl : new = [stmt] := by
      have hnew : [stmt] ++ stmts = new.reverse ++ stmts := hnew
      exact List.reverse_eq_iff.1 (List.append_cancel_right hnew).symm
    have hlawful : (Rules.upTo fuel).Lawful := Rules.lawful_upTo fuel
    have heof : i.eof.kind = .eof := by
      obtain ⟨g, rfl, -⟩ := hs
      exact g.eof_left
    obtain ⟨u, b₁, b'', n, hu, hutree, hmods, ht', hadds, hdepicts', hspan⟩ :=
      exec_declarationRule_adds hlawful hlaid.tree hexec
    obtain rfl : b'' = b' := Option.some.inj (ht'.symm.trans ht)
    obtain rfl : ns = [n] := hgains.unique (hmods.trans (hadds.gains hdepicts'.listed))
    -- where the statement starts, and what it reads from there
    have hsteps : Steps i s u ∧ Steps i u t ∧ t.rest.length < u.rest.length := by
      rcases hu with rfl | ⟨mods, hmodifiers, hstatement⟩
      · exact ⟨.refl, (Twin.declarationRule hlawful).stepwise.run heof hexec, hless⟩
      · have hfirst := (Twin.modifiers (.upTo fuel)).stepwise.run heof hmodifiers
        have hsecond := (Twin.statementRule hlawful).stepwise.run heof hstatement
        exact ⟨hfirst, hsecond, hbehind mods u hmodifiers hstatement⟩
    obtain ⟨hfirst, hsecond, hread⟩ := hsteps
    obtain ⟨b₂, hlaid₁⟩ := hlaid.steps hfirst
    obtain rfl : b₂ = b₁ := Option.some.inj (hlaid₁.tree.symm.trans hutree)
    obtain ⟨b₃, hlaid₂⟩ := hlaid₁.steps hsecond
    obtain rfl : b₃ = b'' := Option.some.inj (hlaid₂.tree.symm.trans ht)
    exact ⟨hsteady, .cons (hlaid₁.contains hlaid₂ hsecond hread hadds hspan) .nil⟩

/-- All turns add the nodes of the statements they yield, and if they report nothing, then these
span the statements. -/
theorem exec_topLoop_gains {bound : Nat} {xs : List Stmt} (heof : i.eof.kind = .eof)
    (hfuel : s.rest.length ≤ fuel) (hb : s.tree = some b)
    (hsteady : s.errors.messages = #[] → Steady i s ∧ Laid source s b)
    (h : exec (topLoop fuel bound stmts) i s = (.ok xs, t)) :
    ∃ b' ns new, t.tree = some b' ∧ b.Gains ns b' ∧ xs = new.reverse ++ stmts ∧
      List.Forall₂ Depicts ns new ∧ (t.errors.messages = #[] →
        List.Forall₂ (fun n stmt => n.span.contains stmt.span = true) ns new) := by
  induction bound generalizing s b stmts with
  | zero =>
    cases h
    exact ⟨b, [], [], hb, .refl b, rfl, .nil, fun _ => .nil⟩
  | succ bound ih =>
    obtain ⟨⟨ys, more⟩, u, hturn, hrest⟩ := exec_bind_eq_ok h
    have hsteps := (Twin.topTurn fuel stmts).stepwise.run heof hturn
    obtain ⟨b₁, ns, new, hu, hgains, rfl, hdepicts⟩ := exec_topTurn_gains hb hturn
    have hspans : u.errors.messages = #[] → (Steady i u ∧ Laid source u b₁) ∧
        List.Forall₂ (fun n stmt => n.span.contains stmt.span = true) ns new := by
      intro hclean
      obtain ⟨hs, hlaid⟩ := hsteady (hsteps.clean hclean)
      obtain ⟨hsteady', hcontains⟩ :=
        hs.topTurn_spans hlaid hfuel hturn hclean hu hgains rfl hdepicts
      obtain ⟨b₂, hlaid'⟩ := hlaid.steps hsteps
      obtain rfl : b₂ = b₁ := Option.some.inj (hlaid'.tree.symm.trans hu)
      exact ⟨⟨hsteady', hlaid'⟩, hcontains⟩
    cases more with
    | false =>
      cases hrest
      exact ⟨b₁, ns, new, hu, hgains, rfl, hdepicts, fun hclean => (hspans hclean).2⟩
    | true =>
      have hfuel' : u.rest.length ≤ fuel := hsteps.rest_suffix.length_le.trans hfuel
      obtain ⟨b', ms, later, ht, hgains', rfl, hdepicts', hcontains⟩ :=
        ih hfuel' hu (fun hclean => (hspans hclean).1) hrest
      refine ⟨b', ns ++ ms, new ++ later, ht, hgains.trans hgains', by simp,
        List.rel_append hdepicts hdepicts', fun hclean => ?_⟩
      have hlater : Steps i u t :=
        (Twin.topTurns fuel bound (new.reverse ++ stmts)).stepwise.run heof hrest
      exact List.rel_append (hspans (hlater.clean hclean)).2 (hcontains hclean)

end

/-! ## Programs -/

theorem Total.strayBrace : Total strayBrace :=
  .bind (.change _) fun _ => .bind (.bind (.bind (look fun i s => exec_peekAt i s 0) fun _ =>
    .bind (look fun _ _ => rfl) fun _ => .change _) fun _ => .bind (.change _) fun _ =>
      .bind .advance fun _ => .pure _) fun _ => .bind (.change _) fun _ => .pure _

theorem Total.topTurn (rules : Rules) (stmts : List Stmt) : Total (topTurn rules stmts) := by
  have hget : Total (get : Parse State) := look fun _ _ => rfl
  have hskip : ∀ (before : Nat) (stmt : Option Stmt), Total (skipUnlessMoved .eof before stmt) :=
    fun _ _ => .bind hget fun _ => .bind (.check _) fun _ =>
      .ite (.bind .advance fun _ => .pure _) (.pure _)
  have htop : Total (topDeclaration rules) :=
    .bind hget fun s => .bind (.check _) fun _ =>
      .ite (.bind .strayBrace fun _ => .bind (.pure none) (hskip s.position))
        (.bind (.recovering (.synchronize rules)) (hskip s.position))
  exact .bind (.check _) fun _ => .bind hget fun _ => .ite (.pure _) (.bind htop fun _ => .pure _)

section
variable (source : Source) (maxErrors : Nat) (errors : Diagnostic.Collector)

/-- A scan that has reported nothing leads to a parse that has reported nothing so far. -/
theorem steady_start (hclean : (Scan.scan source .lossless errors).2.messages = #[]) :
    Steady (.of (Scan.scan source .lossless errors).1 { buildTree := true, maxErrors })
      (.start (Scan.scan source .lossless errors).1 { buildTree := true, maxErrors }
        (Scan.scan source .lossless errors).2) := by
  obtain ⟨ts, e, htokens, he, hkinds⟩ := Scan.tokens_of_clean hclean
  exact ⟨.self _ _ e he, rfl, rfl, he, .start_self _ _ htokens he hkinds hclean⟩

theorem laid_start (collector : Diagnostic.Collector) :
    Laid source (.start (Scan.scan source .lossless errors).1 { buildTree := true, maxErrors }
      collector) {} := by
  obtain ⟨htiles, hstand⟩ := Scan.tiles_scan source errors
  exact ⟨rfl, ⟨⟨rfl, by simp⟩, rfl⟩, htiles, htiles, hstand⟩

/-- The tree of a source and the statements of its program. -/
theorem parseScanned_nodes : ∃ tree,
    (parseScanned source .lossless { buildTree := true, maxErrors } errors).1.tree = some tree ∧
      List.Forall₂ Depicts (Tree.statementsIn tree.elements)
        (parseScanned source .lossless { buildTree := true, maxErrors } errors).1.program.statements ∧
      ((parseScanned source .lossless { buildTree := true, maxErrors } errors).2.messages = #[] →
        List.Forall₂ (fun n stmt => n.span.contains stmt.span = true)
          (Tree.statementsIn tree.elements)
          (parseScanned source .lossless { buildTree := true, maxErrors }
            errors).1.program.statements) := by
  let stream := (Scan.scan source .lossless errors).1
  let start := State.start stream { buildTree := true, maxErrors }
    (Scan.scan source .lossless errors).2
  obtain ⟨xs, t, hrun⟩ := Total.repeatUpTo (Total.topTurn (.upTo stream.tokens.length))
    (stream.tokens.length + 1) [] (.of stream { buildTree := true, maxErrors }) start
  have hlaid : Laid source start {} := laid_start ..
  obtain ⟨b, ns, new, ht, hgains, rfl, hdepicts, hspans⟩ := exec_topLoop_gains
    (endOf_kind stream.tokens) (Nat.le_refl stream.tokens.length) rfl
    (fun hclean => ⟨steady_start source maxErrors errors hclean, hlaid⟩) hrun
  have hprogram : runProgram stream { buildTree := true, maxErrors }
      (Scan.scan source .lossless errors).2 = (new, t) := by
    have hloop : programLoop stream { buildTree := true, maxErrors }
        (Scan.scan source .lossless errors).2 = (.ok (new.reverse ++ []), t) := hrun
    rw [runProgram_eq_programLoop, hloop]
    simp [Except.toOption]
  -- the tokens that are left go to the root as well
  have hroot := hgains.trans (b.gains_foldl_token t.rest)
  rw [List.append_nil] at hroot
  obtain ⟨es, hes, hns⟩ := hroot.elements
  have htree : (parseScanned source .lossless { buildTree := true, maxErrors } errors).1.tree =
      some ((t.rest.foldl Builder.token b).top.node ⟨0, source.text.utf8ByteSize⟩) := by
    rw [parseScanned, ← Scan.stream_scan, tree_parse, hprogram, ht, Option.map_some, Builder.tree,
      Builder.unwind, Builder.depth, hroot.below]
    rfl
  have hstatements : Tree.statementsIn ((t.rest.foldl Builder.token b).top.node
      ⟨0, source.text.utf8ByteSize⟩).elements = ns := by
    rw [Tree.Frame.node, hes, ← hns]
    rfl
  refine ⟨_, htree, ?_⟩
  rw [hstatements, parseScanned, ← Scan.stream_scan, statements_parse, collector_parse, hprogram]
  exact ⟨hdepicts, hspans⟩

/-- The nodes below the root that are statements or declarations have the names of the statements of
the program, in their order. If nothing is reported, then each of them spans its statement. -/
theorem root_nodes_match (options : Diagnostic.Options) :
    (∃ tree, (parseSource source { buildTree := true, maxErrors } errors).1.tree = some tree ∧
      (tree.children.filter fun n => n.kind.isStatement || n.kind.isDeclaration).map (·.kind.name) =
        (parseSource source { buildTree := true, maxErrors } errors).1.program.names) ∧
    ((parseSource source { buildTree := true, maxErrors } { options }).1.errors = [] →
      ∃ tree, (parseSource source { buildTree := true, maxErrors } { options }).1.tree =
          some tree ∧
        List.Forall₂ (fun n stmt => n.span.contains stmt.span = true)
          (tree.children.filter fun n => n.kind.isStatement || n.kind.isDeclaration)
          (parseSource source { buildTree := true, maxErrors } { options }).1.program.statements) := by
  constructor
  · obtain ⟨tree, htree, hdepicts, -⟩ := parseScanned_nodes source maxErrors errors
    refine ⟨tree, by rw [tree_parseSource, htree], ?_⟩
    rw [Program.names, program_parseSource source _ errors .lossless rfl]
    exact names_of_depicts hdepicts
  · intro hclean
    rw [errors_parseSource source _ options .lossless rfl, Array.toList_eq_nil_iff] at hclean
    obtain ⟨tree, htree, -, hspans⟩ := parseScanned_nodes source maxErrors { options }
    refine ⟨tree, by rw [tree_parseSource, htree], ?_⟩
    rw [program_parseSource source _ { options } .lossless rfl]
    exact hspans hclean

end

/-- A statement behind a modifier, and a declaration with one. -/
theorem root_nodes_match_modifiers :
    (parseSource ⟨"pub x; // y\n@open var z = 1", "a"⟩ { buildTree := true } {}).1.errors = [] ∧
    ∃ tree, (parseSource ⟨"pub x; // y\n@open var z = 1", "a"⟩ { buildTree := true } {}).1.tree =
        some tree ∧
      List.Forall₂ (fun n stmt => n.span.contains stmt.span = true)
        (tree.children.filter fun n => n.kind.isStatement || n.kind.isDeclaration)
        (parseSource ⟨"pub x; // y\n@open var z = 1", "a"⟩
          { buildTree := true } {}).1.program.statements := by
  have hnone : (parseSource ⟨"pub x; // y\n@open var z = 1", "a"⟩
      { buildTree := true } {}).1.errors = [] := by decide +kernel
  exact ⟨hnone, (root_nodes_match ⟨"pub x; // y\n@open var z = 1", "a"⟩ 20 {} {}).2 hnone⟩

end LimitSyntax.Grammar
