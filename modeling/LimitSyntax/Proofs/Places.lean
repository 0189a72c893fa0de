import LimitSyntax.Proofs.ScanLossless
import Mathlib.Data.List.Chain

/-!
# Where tokens stand

In either mode a token of a scan stands in the source at its span and on its line
(`Token.Placed`), and behind the tokens before it. A token without text is the error token of a
string that ends right behind an interpolation; all others start in front of the next one. The
invariant is `Scan.State.Placed`, and every move of the scanner keeps it.
-/

namespace LimitSyntax

/-! ## Places in a source -/

/-- The text stands in the source behind `offset` bytes, and on this line. -/
def Source.Shows (src : Source) (offset line : Nat) (text : List Char) : Prop :=
  ∃ before after, src.text.toList = before ++ text ++ after ∧
    Text.byteLength before = offset ∧ before.count '\n' + 1 = line

namespace Source

variable {src : Source} {offset line : Nat} {text : List Char}

/-- The end of a text lies between two characters. -/
theorem isValid_of_split {before after : List Char} (h : src.text.toList = before ++ after) :
    String.Pos.Raw.IsValid src.text ⟨Text.byteLength before⟩ := by
  refine String.Pos.Raw.isValid_iff_exists_append.2
    ⟨String.ofList before, String.ofList after, ?_, ?_⟩
  · rw [← String.ofList_append, ← h, String.ofList_toList]
  · rw [String.rawEndPos, Text.utf8ByteSize_ofList]

theorem Shows.isValid_start (h : src.Shows offset line text) :
    String.Pos.Raw.IsValid src.text ⟨offset⟩ := by
  obtain ⟨before, after, hsplit, rfl, -⟩ := h
  exact isValid_of_split (hsplit.trans (List.append_assoc ..))

theorem Shows.isValid_stop (h : src.Shows offset line text) :
    String.Pos.Raw.IsValid src.text ⟨offset + Text.byteLength text⟩ := by
  obtain ⟨before, after, hsplit, rfl, -⟩ := h
  rw [← Text.byteLength_append]
  exact isValid_of_split hsplit

/-- A beginning of the text stands there as well. -/
theorem Shows.of_prefix {start : List Char} (h : src.Shows offset line text)
    (hstart : start <+: text) : src.Shows offset line start := by
  obtain ⟨before, after, hsplit, hoffset, hline⟩ := h
  obtain ⟨rest, rfl⟩ := hstart
  exact ⟨before, rest ++ after, by simp [hsplit], hoffset, hline⟩

end Source

namespace Token

/-- The token stands in the source at its span and on its line. -/
structure Placed (t : Token) (src : Source) : Prop where
  shows : src.Shows t.span.start t.line t.lexeme.toList
  stop : t.span.stop = t.span.start + Text.byteLength t.lexeme.toList

variable {t : Token} {src : Source}

theorem Placed.isValid (h : t.Placed src) : String.Pos.Raw.IsValid src.text ⟨t.span.start⟩ ∧
    String.Pos.Raw.IsValid src.text ⟨t.span.stop⟩ :=
  ⟨h.shows.isValid_start, h.stop ▸ h.shows.isValid_stop⟩

/-- A token that has text takes at least one byte. -/
theorem Placed.start_lt (h : t.Placed src) (hne : t.lexeme ≠ "") : t.span.start < t.span.stop := by
  rw [h.stop]
  cases hchars : t.lexeme.toList with
  | nil => exact absurd (String.toList_eq_nil_iff.1 hchars) hne
  | cons c cs =>
    have := c.utf8Size_pos
    rw [Text.byteLength_cons]
    omega

end Token

/-! ## The invariant -/

namespace Scan.State

variable {src : Source} {mode : Mode} {s s' : State}

/-- The scanner is behind a part of the source, of which it knows the bytes and the lines. -/
def Reached (src : Source) (s : State) : Prop :=
  ∃ read, src.text.toList = read ++ s.remaining ∧ Text.byteLength read = s.offset ∧
    read.count '\n' + 1 = s.line

theorem Reached.shows (h : s.Reached src) {text : List Char} (htext : text <+: s.rest) :
    src.Shows s.offset s.line text := by
  obtain ⟨read, hread, hoffset, hline⟩ := h
  have hrest : src.Shows s.offset s.line s.rest :=
    ⟨read, _, hread.trans (List.append_assoc ..).symm, hoffset, hline⟩
  exact hrest.of_prefix htext

theorem Reached.advance (h : s.Reached src) {taken rest : List Char}
    (hrest : s.rest = taken ++ rest) : (s.advance taken rest).Reached src := by
  obtain ⟨read, hread, hoffset, hline⟩ := h
  refine ⟨read ++ taken, ?_, ?_, ?_⟩
  · rw [hread, (behind_advance hrest).1, List.append_assoc]
  · rw [Text.byteLength_append, hoffset]
    rfl
  · simp only [List.count_append, State.advance, ← hline]
    omega

/-- The tokens read stand in the source, each behind those before it. -/
structure Placed (src : Source) (s : State) : Prop where
  reached : s.Reached src
  tokens : ∀ t ∈ s.tokens, t.Placed src
  behind : ∀ t ∈ s.tokens, t.span.stop ≤ s.offset
  order : s.tokens.Pairwise fun t u => u.span.stop ≤ t.span.start
  /-- Only a string that ends right behind an interpolation leaves a token without text. -/
  empty : ∀ t ∈ s.tokens, t.lexeme = "" → t.kind = .error ∧ s.Reported "Unterminated string."

theorem Reported.report {description : String} (h : s.Reported description) (wording : String)
    (offset line : Nat) (lexeme : String) :
    (s.report src wording offset line lexeme).Reported description := by
  obtain ⟨m, hm, hdescription⟩ := h
  exact ⟨m, Diagnostic.Collector.messages_subset_report _ _ _ m hm, hdescription⟩

namespace Placed

theorem token (h : s.Placed src) {kind : Token.Kind} {taken rest : List Char}
    (hrest : s.rest = taken ++ rest) (value : Option String)
    (hempty : taken = [] → kind = .error ∧ s.Reported "Unterminated string.") :
    (s.token kind taken rest value).Placed src where
  reached := h.reached.advance hrest
  tokens := by
    refine List.forall_mem_cons.2 ⟨⟨?_, ?_⟩, h.tokens⟩
    · rw [String.toList_ofList]
      exact h.reached.shows (hrest ▸ List.prefix_append ..)
    · rw [String.toList_ofList]
      rfl
  behind := List.forall_mem_cons.2
    ⟨Nat.le_refl _, fun t ht => Nat.le_trans (h.behind t ht) (Nat.le_add_right ..)⟩
  order := .cons h.behind h.order
  empty := by
    refine List.forall_mem_cons.2 ⟨fun hnone => hempty ?_, h.empty⟩
    exact String.ofList_eq_empty_iff.1 hnone

/-- More trivia behind the last token changes nothing. -/
theorem attach (h : s.Placed src) (p : Trivia) :
    ({ s with tokens := attach p s.tokens } : State).Placed src := by
  obtain ⟨hreached, htokens, hbehind, horder, hempty⟩ := h
  cases hs : s.tokens with
  | nil =>
    refine ⟨hreached, ?_, ?_, .nil, ?_⟩
    · simp [State.attach]
    · simp [State.attach]
    · simp [State.attach]
  | cons t ts =>
    rw [hs] at htokens hbehind horder hempty
    rw [List.forall_mem_cons] at htokens hbehind hempty
    rw [List.pairwise_cons] at horder
    exact ⟨hreached, List.forall_mem_cons.2 ⟨⟨htokens.1.shows, htokens.1.stop⟩, htokens.2⟩,
      List.forall_mem_cons.2 hbehind, .cons horder.1 horder.2, List.forall_mem_cons.2 hempty⟩

theorem advance (h : s.Placed src) {taken rest : List Char} (hrest : s.rest = taken ++ rest) :
    (s.advance taken rest).Placed src where
  reached := h.reached.advance hrest
  tokens := h.tokens
  behind t ht := Nat.le_trans (h.behind t ht) (Nat.le_add_right ..)
  order := h.order
  empty := h.empty

theorem trivia (h : s.Placed src) (kind : Trivia.Kind) {taken rest : List Char}
    (hrest : s.rest = taken ++ rest) : (s.trivia mode kind taken rest).Placed src := by
  have hnext := h.advance hrest
  cases mode with
  | lossy => exact hnext
  | lossless =>
    simp only [State.trivia]
    split
    · exact hnext.attach _
    · exact ⟨hnext.reached, hnext.tokens, hnext.behind, hnext.order, hnext.empty⟩

theorem move (h : s.Placed src) (hm : Move src mode s s') : s'.Placed src := by
  cases hm with
  | report description shown _ =>
    refine ⟨h.reached, h.tokens, h.behind, h.order, fun t ht hnone => ?_⟩
    exact (h.empty t ht hnone).imp_right fun hsaid => hsaid.report ..
  | token kind taken rest value hrest _ hempty => exact h.token hrest value hempty
  | trivia kind taken rest hrest => exact h.trivia kind hrest
  | skip c rest _ hrest => exact h.advance hrest
  | divide rest waiting hsame =>
    obtain ⟨read, hread, hplace⟩ := h.reached
    exact ⟨⟨read, hsame ▸ hread, hplace⟩, h.tokens, h.behind, h.order, h.empty⟩

theorem moves (h : s.Placed src) (hm : Moves src mode s s') : s'.Placed src := by
  induction hm with
  | refl => exact h
  | tail _ hmove ih => exact ih.move hmove

end Placed

end Scan.State

/-! ## A whole scan -/

namespace Scan

open State

variable (src : Source) (mode : Mode) (errors : Diagnostic.Collector)

theorem placed_atEnd : (atEnd src mode errors).Placed src := by
  refine Placed.moves ?_ (run_moves ..)
  exact ⟨⟨[], by simp [remaining], rfl, rfl⟩, by simp, by simp, .nil, by simp⟩

/-- All of the source is read at the end of a scan. -/
theorem reached_atEnd : Text.byteLength src.text.toList = (atEnd src mode errors).offset ∧
    src.text.toList.count '\n' + 1 = (atEnd src mode errors).line := by
  obtain ⟨read, hread, hoffset, hline⟩ := (placed_atEnd src mode errors).reached
  rw [step?_eq_none (step?_atEnd src mode errors), List.append_nil] at hread
  rw [hread]
  exact ⟨hoffset, hline⟩

theorem placed_eof : ((atEnd src mode errors).eof src).Placed src where
  shows := ⟨src.text.toList, [], by simp [eof, Token.eof], rfl, (reached_atEnd src mode errors).2⟩
  stop := by simp [eof, Token.eof, Span.empty]

/-- Every token of a scan stands in the source at its span and on its line. -/
theorem placed_scan : ∀ t ∈ (scan src mode errors).1.tokens, t.Placed src := by
  intro t ht
  rw [tokens_scan, List.mem_append, List.mem_singleton] at ht
  rcases ht with ht | rfl
  · exact (placed_atEnd src mode errors).tokens t (List.mem_reverse.1 ht)
  · exact placed_eof src mode errors

/-- A token that another one follows is not behind it, and has text unless it is an error. -/
theorem ordered_scan : (scan src mode errors).1.tokens.Pairwise fun t u =>
    t.span.stop ≤ u.span.start ∧
      (t.lexeme = "" →
        t.kind = .error ∧ (atEnd src mode errors).Reported "Unterminated string.") := by
  have hend := placed_atEnd src mode errors
  rw [tokens_scan, List.pairwise_append]
  refine ⟨List.pairwise_reverse.2 ?_, List.pairwise_singleton .., fun t ht u hu => ?_⟩
  · exact hend.order.imp_of_mem fun _ hu hle => ⟨hle, hend.empty _ hu⟩
  · have hmem := List.mem_reverse.1 ht
    cases List.mem_singleton.1 hu
    exact ⟨(hend.behind t hmem).trans (reached_atEnd src mode errors).1.ge, hend.empty t hmem⟩

/-- Of two tokens in a row the first ends in front of the second. It starts in front of it, too,
unless it is an error token without text, and all spans lie between characters. There is no such
token if no unterminated string is reported. -/
theorem scan_spans_increase (src : Source) (mode : Mode) (errors : Diagnostic.Collector) :
    (scan src mode errors).1.tokens.IsChain (fun t u => t.span.stop ≤ u.span.start ∧
      (t.span.start < u.span.start ∨
        t.kind = .error ∧ t.lexeme = "" ∧ t.span.start = t.span.stop)) ∧
    (∀ t ∈ (scan src mode errors).1.tokens, String.Pos.Raw.IsValid src.text ⟨t.span.start⟩ ∧
      String.Pos.Raw.IsValid src.text ⟨t.span.stop⟩) ∧
    ((∀ m ∈ (scan src mode errors).2.messages, m.description ≠ "Unterminated string.") →
      (scan src mode errors).1.tokens.IsChain fun t u => t.span.start < u.span.start) := by
  have hplaced := placed_scan src mode errors
  have hchain := ((ordered_scan src mode errors).imp_of_mem fun ht _ h =>
    And.intro (hplaced _ ht) h).isChain
  refine ⟨hchain.imp fun t u => ?_, fun t ht => (hplaced t ht).isValid, fun hnone => ?_⟩
  · rintro ⟨ht, hle, hempty⟩
    refine ⟨hle, ?_⟩
    by_cases htext : t.lexeme = ""
    · exact .inr ⟨(hempty htext).1, htext, by simp [ht.stop, htext]⟩
    · exact .inl (Nat.lt_of_lt_of_le (ht.start_lt htext) hle)
  · refine hchain.imp fun t u => ?_
    rintro ⟨ht, hle, hempty⟩
    refine Nat.lt_of_lt_of_le (ht.start_lt fun htext => ?_) hle
    obtain ⟨m, hm, hdescription⟩ := (hempty htext).2
    exact hnone m hm hdescription

/-- A string that is cut off right behind an interpolation ends in a token without text, at the
offset at which the source ends, too. -/
theorem scan_spans_repeat : ¬ (scan ⟨"\"\x7bx\x7d", "a"⟩ .lossy {}).1.tokens.IsChain
    fun t u => t.span.start < u.span.start := by
  decide +kernel

end Scan

end LimitSyntax
