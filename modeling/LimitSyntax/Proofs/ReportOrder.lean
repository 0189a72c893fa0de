import LimitSyntax.Proofs.DeclRules
import LimitSyntax.Proofs.ErrorCap
import LimitSyntax.Proofs.Sites

/-!
# The order of reports

The messages that a parse adds stand in the order of their sites, with one exception: that something
cannot be assigned to is reported only behind the value that would be assigned, when other things
may have been reported that stand further on. All that was reported stands at or in front of the next
token (`Grammar.Ordered`), so that whatever is reported there, or about a token behind which nothing
was reported yet, keeps the order.
-/

namespace LimitSyntax

open Diagnostic

/-! ## Messages in order -/

namespace Diagnostic

/-- The message comes behind those about what stands further on. -/
def Message.Late (m : Message) : Prop := m.description = "Invalid assignment target."

/-- A message stands at or behind all those before it, unless it is late, or says right behind a
late one, at the same site, that these are too many. -/
def InOrder (ms : List Message) : Prop :=
  ∀ before m after, ms = before ++ m :: after →
    (∀ n ∈ before, n.site ≤ m.site) ∨ m.Late ∨
      (m.description = Grammar.tooManyErrors ∧
        ∃ earlier late, before = earlier ++ [late] ∧ late.Late ∧ m.site = late.site)

theorem inOrder_nil : InOrder [] := by
  intro before m after h
  simp at h

theorem InOrder.push {ms : List Message} {m : Message} (h : InOrder ms)
    (hm : (∀ n ∈ ms, n.site ≤ m.site) ∨ m.Late ∨ (m.description = Grammar.tooManyErrors ∧
      ∃ earlier late, ms = earlier ++ [late] ∧ late.Late ∧ m.site = late.site)) :
    InOrder (ms ++ [m]) := by
  intro before m' after heq
  rcases List.eq_nil_or_concat after with rfl | ⟨after', last, rfl⟩
  · obtain ⟨rfl, hlast⟩ := List.append_inj' heq rfl
    obtain rfl := List.singleton_inj.1 hlast
    exact hm
  · rw [List.concat_eq_append, ← List.cons_append, ← List.append_assoc] at heq
    obtain ⟨rfl, -⟩ := List.append_inj' heq rfl
    exact h before m' after' rfl

end Diagnostic

namespace Grammar

section
variable {i : Input} {s t : State} {n : Nat}

/-! ## Reports -/

/-- A report adds nothing, or a message about the token, and perhaps a note at the same site that
these are too many. -/
theorem State.messages_report (s : State) (i : Input) (token : Token) (description : String)
    (block : Option OpenBlock) :
    (s.report i token description block).errors.messages.toList = s.errors.messages.toList ∨
    ∃ m, m.description = description ∧ m.site = token.site i.source ∧
      m.block = block.map (·.context i.source) ∧
      ((s.report i token description block).errors.messages.toList =
          s.errors.messages.toList ++ [m] ∨
        ∃ note, note.description = tooManyErrors ∧ note.site = token.site i.source ∧
          (s.report i token description block).errors.messages.toList =
            s.errors.messages.toList ++ [m] ++ [note]) := by
  cases hhalted : s.halted with
  | true =>
    obtain ⟨-, herrors⟩ := (Step.report (i := i) s token description block).halted hhalted
    exact .inl (by rw [herrors])
  | false =>
    rcases s.report_cases i token description block hhalted with
      heq | ⟨m, hdescription, hline, hcolumn, hblock, hnew, heq⟩
    · exact .inl (by rw [show i = i.upTo i.limit from rfl, heq])
    let kept := s.errors.complete m (some i.source.text)
    have hpush : (s.errors.report m (some i.source.text)).messages.toList =
        s.errors.messages.toList ++ [kept] := by
      rw [Collector.messages_report_of_not_seen hnew, Array.toList_push]
    have hsite : kept.site = token.site i.source :=
      congrArg toLex (Prod.ext ((Collector.complete_line ..).trans hline)
        ((Collector.complete_column ..).trans hcolumn))
    refine .inr ⟨kept, (Collector.complete_description ..).trans hdescription, hsite,
      (Collector.complete_block ..).trans hblock, ?_⟩
    rw [show i = i.upTo i.limit from rfl, heq]
    split
    · exact .inl hpush
    · dsimp only
      cases hseen : (s.errors.report m (some i.source.text)).seen
        (i.message token tooManyErrors) with
      | true =>
        refine .inl ?_
        rw [Collector.report_eq_ite, if_pos hseen, hpush]
      | false =>
        let reported := s.errors.report m (some i.source.text)
        refine .inr ⟨reported.complete (i.message token tooManyErrors) (some i.source.text),
          (Collector.complete_description ..).trans rfl, ?_, ?_⟩
        · exact congrArg toLex (Prod.ext (Collector.complete_line ..)
            (Collector.complete_column ..))
        · rw [Collector.messages_report_of_not_seen hseen, Array.toList_push, hpush]

/-- What was said before a report, is said in it, or is the note that these are too many. -/
theorem State.of_mem_report {token : Token} {description : String} {block : Option OpenBlock}
    {m : Message} (hm : m ∈ (s.report i token description block).errors.messages) :
    m ∈ s.errors.messages ∨ m.description = description ∨ m.description = tooManyErrors := by
  rw [← Array.mem_toList_iff] at hm ⊢
  rcases s.messages_report i token description block with
    heq | ⟨m', hdescription, -, -, heq | ⟨note, hnote, -, heq⟩⟩
  all_goals rw [heq] at hm
  · exact .inl hm
  · rw [List.mem_append, List.mem_singleton] at hm
    rcases hm with hm | rfl
    · exact .inl hm
    · exact .inr (.inl hdescription)
  · rw [List.mem_append, List.mem_append, List.mem_singleton, List.mem_singleton] at hm
    rcases hm with (hm | rfl) | rfl
    · exact .inl hm
    · exact .inr (.inl hdescription)
    · exact .inr (.inr hnote)

/-! ## The invariant -/

/-- The tokens stand in order, and so do the messages behind the first `n`, all of them at or in
front of the next token. -/
structure Ordered (i : Input) (n : Nat) (s : State) : Prop where
  tokens : (s.read.toList ++ (s.rest ++ [i.eof])).Pairwise
    fun t u => t.site i.source ≤ u.site i.source
  count : n ≤ s.errors.messages.toList.length
  order : InOrder (s.errors.messages.toList.drop n)
  behind : ∀ m ∈ s.errors.messages.toList.drop n, m.site ≤ (i.next s).site i.source

/-- The next token comes first of those that are left. -/
theorem Input.exists_next (i : Input) (s : State) :
    ∃ left, s.rest ++ [i.eof] = i.next s :: left := by
  rw [Input.next]
  cases s.rest with
  | nil => exact ⟨[], rfl⟩
  | cons t rest => exact ⟨rest ++ [i.eof], rfl⟩

/-- What is read next later on is among the tokens that are left now. -/
theorem next_mem (hsteps : Steps i s t) : i.next t ∈ s.rest ++ [i.eof] := by
  obtain ⟨more, hmore⟩ := hsteps.rest_suffix
  obtain ⟨left, hleft⟩ := i.exists_next t
  rw [← hmore, List.append_assoc, hleft]
  exact List.mem_append_right _ List.mem_cons_self

/-- A parse goes on to tokens that stand further behind. -/
theorem site_next_le (hsteps : Steps i s t) (htokens :
      (s.read.toList ++ (s.rest ++ [i.eof])).Pairwise
        fun t u => t.site i.source ≤ u.site i.source) :
    (i.next s).site i.source ≤ (i.next t).site i.source := by
  have hmem := next_mem hsteps
  obtain ⟨left, hleft⟩ := i.exists_next s
  rw [hleft] at hmem htokens
  rw [List.pairwise_append, List.pairwise_cons] at htokens
  rcases List.mem_cons.1 hmem with heq | hmem
  · rw [heq]
  · exact htokens.2.1.1 _ hmem

theorem tokens_eof_eq (hsteps : Steps i s t) :
    t.read.toList ++ (t.rest ++ [i.eof]) = s.read.toList ++ (s.rest ++ [i.eof]) := by
  rw [← List.append_assoc, hsteps.tokens_eq, List.append_assoc]

/-- Nothing is reported on the way. -/
theorem Ordered.silent (h : Ordered i n s) (hsteps : Steps i s t) (herrors : t.errors = s.errors) :
    Ordered i n t where
  tokens := tokens_eof_eq hsteps ▸ h.tokens
  count := herrors ▸ h.count
  order := herrors ▸ h.order
  behind m hm := by
    rw [herrors] at hm
    exact (h.behind m hm).trans (site_next_le hsteps h.tokens)

/-- What is reported about a token in front of the next one keeps the order if all else stands in
front of it, or if it is late. -/
theorem Ordered.report (h : Ordered i n s) {token : Token} {description : String}
    (block : Option OpenBlock)
    (hbefore : (∀ m ∈ s.errors.messages.toList.drop n, m.site ≤ token.site i.source) ∨
      description = "Invalid assignment target.")
    (hnext : token.site i.source ≤ (i.next s).site i.source) :
    Ordered i n (s.report i token description block) := by
  have hstep : Steps i s (s.report i token description block) := .single (.report ..)
  have hsame : i.next (s.report i token description block) = i.next s := by
    obtain ⟨_, _, _, heq⟩ := s.report_eq i token description block
    rw [heq]
  rcases s.messages_report i token description block with
    heq | ⟨m, hdescription, hsite, -, hadded⟩
  · refine ⟨tokens_eof_eq hstep ▸ h.tokens, heq ▸ h.count, heq ▸ h.order, ?_⟩
    rw [heq, hsame]
    exact h.behind
  have hfirst : InOrder (s.errors.messages.toList.drop n ++ [m]) := by
    refine h.order.push ?_
    rcases hbefore with hbefore | rfl
    · exact .inl (hsite ▸ hbefore)
    · exact .inr (.inl hdescription)
  have hbound : ∀ m' ∈ s.errors.messages.toList.drop n ++ [m],
      m'.site ≤ (i.next s).site i.source := by
    intro m' hm'
    rcases List.mem_append.1 hm' with hm' | hm'
    · exact h.behind m' hm'
    · rw [List.mem_singleton.1 hm', hsite]
      exact hnext
  have hcount := h.count
  rcases hadded with heq | ⟨note, hnote, hplace, heq⟩
  · have hdrop : (s.report i token description block).errors.messages.toList.drop n =
        s.errors.messages.toList.drop n ++ [m] := by
      rw [heq, List.drop_append_of_le_length hcount]
    refine ⟨tokens_eof_eq hstep ▸ h.tokens, ?_, hdrop ▸ hfirst, ?_⟩
    · rw [heq, List.length_append]
      omega
    · rw [hdrop, hsame]
      exact hbound
  · have hdrop : (s.report i token description block).errors.messages.toList.drop n =
        s.errors.messages.toList.drop n ++ [m] ++ [note] := by
      rw [heq, List.append_assoc, List.drop_append_of_le_length hcount, List.append_assoc]
    refine ⟨tokens_eof_eq hstep ▸ h.tokens, ?_, ?_, ?_⟩
    · rw [heq, List.length_append, List.length_append]
      omega
    · rw [hdrop]
      refine hfirst.push ?_
      rcases hbefore with hbefore | rfl
      · refine .inl fun m' hm' => ?_
        rw [hplace]
        rcases List.mem_append.1 hm' with hm' | hm'
        · exact hbefore m' hm'
        · rw [List.mem_singleton.1 hm', hsite]
      · exact .inr (.inr ⟨hnote, _, m, rfl, hdescription, hplace.trans hsite.symm⟩)
    · rw [hdrop, hsame]
      intro m' hm'
      rcases List.mem_append.1 hm' with hm' | hm'
      · exact hbound m' hm'
      · rw [List.mem_singleton.1 hm', hplace]
        exact hnext

/-! ## Runs -/

/-- Nothing was reported behind the token, which stands in front of the next one. -/
def Fresh (i : Input) (n : Nat) (token : Token) (s : State) : Prop :=
  (∀ m ∈ s.errors.messages.toList.drop n, m.site ≤ token.site i.source) ∧
    token.site i.source ≤ (i.next s).site i.source

/-- The order of messages is kept by whatever a rule does. -/
theorem upheld_ordered (i : Input) (n : Nat) : Upheld i (Fresh i n) (Ordered i n) where
  silent hs hsteps herrors _ := hs.silent hsteps herrors
  next hs := ⟨hs.behind, le_rfl⟩
  stays hs hfresh hsteps herrors :=
    ⟨herrors ▸ hfresh.1, hfresh.2.trans (site_next_le hsteps hs.tokens)⟩
  report hs hfresh _ := hs.report none (.inl hfresh.1) hfresh.2
  reportLate hs hsteps :=
    hs.report none (.inr rfl) (site_next_le hsteps (tokens_eof_eq hsteps ▸ hs.tokens))
  reportUnclosed hs _ := hs.report _ (.inl hs.behind) le_rfl

/-- A parser that reports as a rule should keeps the messages in order. -/
theorem Reports.ordered {α : Type} {o : Option Token} {K : Input → State → Prop} {p : Parse α}
    (h : Reports o K p) (heof : i.eof.kind = .eof) (hK : K i s)
    (ho : ∀ token, o = some token → Fresh i n token s) (hs : Ordered i n s) :
    Ordered i n (exec p i s).2 := h.keeps (upheld_ordered i n) heof hK ho hs

end

/-! ## A whole parse -/

/-- The tokens of a scan end with that of its end. -/
theorem eof_of_scan (source : Source) (mode : Scan.Mode) (errors : Collector) (config : Config) :
    (Input.of (Scan.scan source mode errors).1 config).eof =
      (Scan.State.atEnd source mode errors).eof source := by
  rw [Input.of, Scan.tokens_scan]
  exact endOf_append _ rfl

/-- Before a parse of the tokens of a scan. -/
theorem Ordered.start (source : Source) (mode : Scan.Mode) (scanned errors : Collector)
    (config : Config) :
    Ordered (.of (Scan.scan source mode scanned).1 config) errors.messages.toList.length
      (.start (Scan.scan source mode scanned).1 config errors) := by
  have hnone : errors.messages.toList.drop errors.messages.toList.length = [] := List.drop_length
  refine ⟨?_, Nat.le_refl _, hnone ▸ inOrder_nil, hnone ▸ List.forall_mem_nil _⟩
  have htokens := Scan.pairwise_site_scan source mode scanned
  rw [← eof_of_scan source mode scanned config] at htokens
  exact htokens.imp And.left

/-- What a parse of the tokens of a scan reports stands in order, but for the things that cannot be
assigned to and the note right behind one of them that these are too many. -/
theorem reports_in_order (source : Source) (mode : Scan.Mode) (scanned errors : Collector)
    (config : Config) :
    ∀ before m after, (parse (Scan.scan source mode scanned).1 config errors).1.errors =
        before ++ m :: after →
      (∀ n ∈ before, n.line < m.line ∨ n.line = m.line ∧ n.column ≤ m.column) ∨
      m.description = "Invalid assignment target." ∨
      (m.description = "Too many syntax errors; aborting parse." ∧ ∃ earlier late,
        before = earlier ++ [late] ∧ late.description = "Invalid assignment target." ∧
          m.line = late.line ∧ m.column = late.column) := by
  intro before m after herrors
  have hend : Ordered (.of (Scan.scan source mode scanned).1 config) errors.messages.toList.length
      (runProgram (Scan.scan source mode scanned).1 config errors).2 := by
    rw [runProgram_eq]
    exact (Twin.topDeclarations (Scan.scan source mode scanned).1.tokens.length).reports.ordered
      (endOf_kind _) trivial (fun _ hnone => by cases hnone)
      (Ordered.start source mode scanned errors config)
  have hsince : (parse (Scan.scan source mode scanned).1 config errors).1.errors =
      (runProgram (Scan.scan source mode scanned).1 config errors).2.errors.messages.toList.drop
        errors.messages.toList.length := by
    simp [parse, Collector.since, Collector.size]
  rw [hsince] at herrors
  rcases hend.order before m after herrors with hsites | hlate | ⟨hnote, earlier, late, h⟩
  · refine .inl fun n hn => ?_
    exact Prod.Lex.toLex_le_toLex.1 (hsites n hn)
  · exact .inr (.inl hlate)
  · obtain ⟨hbefore, hlate, hsite⟩ := h
    obtain ⟨hline, hcolumn⟩ := Prod.mk.inj (toLex.injective hsite)
    exact .inr (.inr ⟨hnote, earlier, late, hbefore, hlate, hline, hcolumn⟩)

/-- Two declarations without a name are reported one behind the other. -/
theorem reports_in_order_unnamed :
    ∃ m n, (parse (Scan.scan ⟨"var = 1; var = 2;", "a"⟩ .lossy {}).1 {} {}).1.errors = [m, n] ∧
      ((∀ k ∈ [m], k.line < n.line ∨ k.line = n.line ∧ k.column ≤ n.column) ∨
        n.description = "Invalid assignment target." ∨
        (n.description = "Too many syntax errors; aborting parse." ∧ ∃ earlier late,
          [m] = earlier ++ [late] ∧ late.description = "Invalid assignment target." ∧
            n.line = late.line ∧ n.column = late.column)) := by
  have htwo : (parse (Scan.scan ⟨"var = 1; var = 2;", "a"⟩ .lossy {}).1 {} {}).1.errors.length =
      2 := by
    decide +kernel
  obtain ⟨m, n, herrors⟩ := List.length_eq_two.1 htwo
  exact ⟨m, n, herrors, reports_in_order _ _ _ _ _ [m] n [] herrors⟩

/-- Of two things that cannot be assigned to, one behind the other, the second is reported first. -/
theorem reports_out_of_order :
    ¬ (parse (Scan.scan ⟨"1 = 2 = 3;", "a"⟩ .lossy {}).1 {} {}).1.errors.IsChain
      fun m n => m.line < n.line ∨ m.line = n.line ∧ m.column ≤ n.column := by
  decide +kernel

end Grammar

end LimitSyntax
