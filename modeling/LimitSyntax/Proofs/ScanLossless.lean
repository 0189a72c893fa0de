import LimitSyntax.Proofs.Layout
import LimitSyntax.Proofs.ScanMoves

/-!
# Lossless scanning

The tokens of a lossless scan, with their trivia, tile the source, and every one of their texts is
the slice of the source at its span (`Scan.tiles_scan`). The invariant behind this is
`Scan.State.Covers`: the pieces of all tokens and of the trivia that waits for the next token tile
the text that has been read.
-/

namespace LimitSyntax

/-! ## The pieces of a token -/

/-- A piece of trivia as a text at a span. -/
def Trivia.piece (p : Trivia) : Span × String := (p.span, p.text)

namespace Token

/-- The texts of a token and of the trivia around it, each with its span. -/
def pieces (t : Token) : List (Span × String) :=
  t.leading.map Trivia.piece ++ (t.span, t.lexeme) :: t.trailing.map Trivia.piece

theorem source_eq_join (t : Token) : t.source = String.join (t.pieces.map (·.2)) := by
  simp [source, pieces, Trivia.piece, String.join_append, String.join_cons, String.append_assoc,
    Function.comp_def]

/-- The full span of a token is what its pieces tile. -/
theorem fullSpan_of_tiles (t : Token) (a b : Nat) (h : Span.Tiles a b (t.pieces.map (·.1))) :
    t.fullSpan = ⟨a, b⟩ := by
  rw [pieces, List.map_append, List.map_cons] at h
  have hstart : t.fullSpan.start = a := by
    cases hl : t.leading with
    | nil =>
      rw [hl] at h
      simpa [fullSpan, hl] using h.1
    | cons p ps =>
      rw [hl] at h
      simpa [fullSpan, hl, Trivia.piece] using h.1
  obtain ⟨c, -, hown, htrail⟩ := Span.Tiles.of_append h
  have hstop : t.fullSpan.stop = b := by
    cases hl : t.trailing.getLast? with
    | none =>
      have hnil := List.getLast?_eq_none_iff.1 hl
      simpa [fullSpan, hnil, Span.Tiles] using htrail.2
    | some p =>
      obtain ⟨ps, hps⟩ := List.getLast?_eq_some_iff.1 hl
      have hlast := htrail.2.last (s := p.span) (by simp [hps, Trivia.piece])
      simpa [fullSpan, hl] using hlast
  rw [← hstart, ← hstop]

/-- The token stands in the source with all its trivia. -/
structure StandsIn (t : Token) (src : Source) : Prop where
  tiles : Span.Tiles t.fullSpan.start t.fullSpan.stop (t.pieces.map (·.1))
  holds : ∀ p ∈ t.pieces, src.Holds p.1 p.2

namespace StandsIn

variable {t : Token} {src : Source}

theorem holds_source (h : t.StandsIn src) : src.Holds t.fullSpan t.source := by
  rw [source_eq_join]
  exact .join h.holds h.tiles

theorem holds_lexeme (h : t.StandsIn src) : src.Holds t.span t.lexeme :=
  h.holds (t.span, t.lexeme) (by simp [pieces])

theorem holds_trivia (h : t.StandsIn src) {p : Trivia} (hp : p ∈ t.trivia) :
    src.Holds p.span p.text := by
  refine h.holds p.piece ?_
  rcases List.mem_append.1 hp with hp | hp
  · exact List.mem_append_left _ (List.mem_map_of_mem hp)
  · exact List.mem_append_right _ (List.mem_cons_of_mem _ (List.mem_map_of_mem hp))

end StandsIn

/-- Tokens whose pieces tile a stretch and stand in the source. -/
theorem tiles_of_pieces {src : Source} {tokens : List Token} {a b : Nat}
    (h : Span.Tiles a b ((tokens.flatMap pieces).map (·.1)))
    (hp : ∀ p ∈ tokens.flatMap pieces, src.Holds p.1 p.2) :
    Span.Tiles a b (tokens.map fullSpan) ∧ ∀ t ∈ tokens, t.StandsIn src := by
  induction tokens generalizing a with
  | nil => exact ⟨h, by simp⟩
  | cons t ts ih =>
    rw [List.flatMap_cons, List.map_append] at h
    obtain ⟨c, ht, hts⟩ := Span.Tiles.of_append h
    obtain ⟨htiles, hstand⟩ := ih hts fun p hm => hp p (by
      rw [List.flatMap_cons]
      exact List.mem_append_right _ hm)
    have hspan := fullSpan_of_tiles t a c ht
    refine ⟨?_, ?_⟩
    · rw [List.map_cons, hspan]
      exact ⟨rfl, ht.le, htiles⟩
    · intro u hu
      rcases List.mem_cons.1 hu with rfl | hu
      · exact ⟨by rw [hspan]; exact ht, fun p hm => hp p (by
          rw [List.flatMap_cons]
          exact List.mem_append_left _ hm)⟩
      · exact hstand u hu

end Token

/-! ## The invariant -/

namespace Scan.State

variable {src : Source} {s s' : State}

/-- All that is kept of the text that was read: the pieces of the tokens and the trivia that waits
for the next token. -/
def pieces (s : State) : List (Span × String) :=
  s.tokens.reverse.flatMap Token.pieces ++ s.pending.reverse.map Trivia.piece

/-- The pieces tile the text that was read, and each of them stands in it. -/
structure Covers (src : Source) (s : State) : Prop where
  split : ∃ read, src.text.toList = read ++ s.remaining ∧ Text.byteLength read = s.offset
  tiles : Span.Tiles 0 s.offset (s.pieces.map (·.1))
  holds : ∀ p ∈ s.pieces, src.Holds p.1 p.2
  /-- Trivia is only added to the last token while none waits for the next. -/
  trailing : s.trailing = true → s.tokens ≠ [] ∧ s.pending = []
  noEof : ∀ t ∈ s.tokens, t.kind ≠ .eof

theorem pieces_token (s : State) (kind : Token.Kind) (taken rest : List Char)
    (value : Option String) : (s.token kind taken rest value).pieces =
      s.pieces ++ [(⟨s.offset, s.offset + Text.byteLength taken⟩, String.ofList taken)] := by
  simp [pieces, token, advance, Token.pieces]

theorem pieces_attach {p : Trivia} {tokens : List Token} (h : tokens ≠ []) :
    (attach p tokens).reverse.flatMap Token.pieces =
      tokens.reverse.flatMap Token.pieces ++ [p.piece] := by
  cases tokens with
  | nil => exact absurd rfl h
  | cons t ts => simp [attach, Token.pieces]

theorem pieces_trivia (s : State) (kind : Trivia.Kind) (taken rest : List Char)
    (h : s.trailing = true → s.tokens ≠ [] ∧ s.pending = []) :
    (s.trivia .lossless kind taken rest).pieces =
      s.pieces ++ [(⟨s.offset, s.offset + Text.byteLength taken⟩, String.ofList taken)] := by
  simp only [trivia]
  split
  next ht =>
    obtain ⟨hne, hpending⟩ := h (Bool.and_eq_true_iff.1 ht).1
    simp only [pieces, advance, pieces_attach hne, hpending]
    simp [Trivia.piece]
  next => simp [pieces, advance, Trivia.piece]

/-- One more piece, taken off the front of the unread text. -/
theorem Covers.grow (h : s.Covers src) {taken : List Char} (hb : s.Behind taken s')
    (hpieces : s'.pieces =
      s.pieces ++ [(⟨s.offset, s.offset + Text.byteLength taken⟩, String.ofList taken)])
    (htrailing : s'.trailing = true → s'.tokens ≠ [] ∧ s'.pending = [])
    (hnoEof : ∀ t ∈ s'.tokens, t.kind ≠ .eof) : s'.Covers src := by
  obtain ⟨read, hread, hlen⟩ := h.split
  rw [hb.1, ← List.append_assoc] at hread
  refine ⟨⟨_, hread, ?_⟩, ?_, ?_, htrailing, hnoEof⟩
  · rw [Text.byteLength_append, hlen, hb.2]
  · rw [hpieces, List.map_append, hb.2]
    exact h.tiles.append (.singleton (Nat.le_add_right ..))
  · intro p hp
    rw [hpieces, List.mem_append, List.mem_singleton] at hp
    rcases hp with hp | rfl
    · exact h.holds p hp
    · exact Source.holds_of_split hread hlen

theorem attach_ne_nil {p : Trivia} {tokens : List Token} (h : tokens ≠ []) :
    attach p tokens ≠ [] := by
  cases tokens with
  | nil => exact h
  | cons t ts => simp [attach]

theorem attach_kind {p : Trivia} {tokens : List Token} {t : Token} (h : t ∈ attach p tokens) :
    ∃ u ∈ tokens, t.kind = u.kind := by
  cases tokens with
  | nil => cases h
  | cons u us =>
    rcases List.mem_cons.1 h with rfl | h
    · exact ⟨u, List.mem_cons_self, rfl⟩
    · exact ⟨t, List.mem_cons_of_mem _ h, rfl⟩

theorem Covers.move (h : s.Covers src) (hm : Move src .lossless s s') : s'.Covers src := by
  cases hm with
  | report => exact ⟨h.split, h.tiles, h.holds, h.trailing, h.noEof⟩
  | token kind taken rest value hrest hkind _ =>
    refine h.grow (behind_token hrest) (pieces_token ..) (fun _ => ⟨by simp [token], rfl⟩) ?_
    intro t ht
    rcases List.mem_cons.1 ht with rfl | ht
    · exact hkind
    · exact h.noEof t ht
  | trivia kind taken rest hrest =>
    refine h.grow (behind_trivia hrest) (pieces_trivia _ _ _ _ h.trailing) ?_ ?_
    · intro ht
      simp only [trivia] at ht
      split at ht
      next hattach =>
        simp only [trivia, if_pos hattach]
        obtain ⟨hne, hpending⟩ := h.trailing (Bool.and_eq_true_iff.1 hattach).1
        exact ⟨attach_ne_nil hne, hpending⟩
      next hpending => exact absurd ht hpending
    · intro t ht
      simp only [trivia] at ht
      split at ht
      next =>
        obtain ⟨u, hu, hkind⟩ := attach_kind ht
        exact hkind ▸ h.noEof u hu
      next => exact h.noEof t ht
  | skip _ _ hmode => cases hmode
  | divide rest waiting hsame =>
    obtain ⟨read, hread, hlen⟩ := h.split
    exact ⟨⟨read, hsame ▸ hread, hlen⟩, h.tiles, h.holds, h.trailing, h.noEof⟩

theorem Covers.moves (h : s.Covers src) (hm : Moves src .lossless s s') : s'.Covers src := by
  induction hm with
  | refl => exact h
  | tail _ hmove ih => exact ih.move hmove

theorem covers_start (src : Source) (errors : Diagnostic.Collector) :
    ({ rest := src.text.toList, errors } : State).Covers src where
  split := ⟨[], by simp [remaining], rfl⟩
  tiles := rfl
  holds := by simp [pieces]
  trailing := nofun
  noEof := by simp

/-- The end of the source, with the trivia before it. -/
def eof (src : Source) (s : State) : Token :=
  { Token.eof (Text.byteLength src.text.toList) s.line with leading := s.pending.reverse }

theorem pieces_eof (h : s.offset = Text.byteLength src.text.toList) :
    (s.tokens.reverse ++ [s.eof src]).flatMap Token.pieces =
      s.pieces ++ [(Span.empty s.offset, "")] := by
  rw [h]
  simp [pieces, eof, Token.pieces, Token.eof]

/-- When all is read, the tokens and the end of the source tile it and stand in it. -/
theorem Covers.tiles_tokens (h : s.Covers src) (hend : s.offset = Text.byteLength src.text.toList) :
    Span.Tiles 0 s.offset ((s.tokens.reverse ++ [s.eof src]).map Token.fullSpan) ∧
      ∀ t ∈ s.tokens.reverse ++ [s.eof src], t.StandsIn src := by
  refine Token.tiles_of_pieces ?_ ?_
  · rw [pieces_eof hend, List.map_append]
    exact h.tiles.append ⟨rfl, Nat.le_refl _, rfl⟩
  · intro p hp
    rw [pieces_eof hend, List.mem_append, List.mem_singleton] at hp
    rcases hp with hp | rfl
    · exact h.holds p hp
    · exact .empty src _

end Scan.State

/-! ## A whole scan -/

namespace Scan

open State

/-- The scanner when it has read the whole source. -/
def State.atEnd (src : Source) (mode : Mode) (errors : Diagnostic.Collector) : State :=
  run src mode src.text.toList.length { rest := src.text.toList, errors }

theorem step?_atEnd (src : Source) (mode : Mode) (errors : Diagnostic.Collector) :
    (atEnd src mode errors).step? src mode = none :=
  step?_run (by simp [remaining])

theorem covers_atEnd (src : Source) (errors : Diagnostic.Collector) :
    (atEnd src .lossless errors).Covers src :=
  (covers_start src errors).moves (run_moves ..)

/-- A scan that is over has read all bytes. -/
theorem offset_atEnd (src : Source) (errors : Diagnostic.Collector) :
    (atEnd src .lossless errors).offset = Text.byteLength src.text.toList := by
  obtain ⟨read, hread, hlen⟩ := (covers_atEnd src errors).split
  rw [step?_eq_none (step?_atEnd src .lossless errors), List.append_nil] at hread
  rw [← hlen, hread]

theorem tokens_scan (src : Source) (mode : Mode) (errors : Diagnostic.Collector) :
    (scan src mode errors).1.tokens =
      (atEnd src mode errors).tokens.reverse ++ [(atEnd src mode errors).eof src] :=
  List.reverse_cons

theorem stream_scan (src : Source) (mode : Mode) (errors : Diagnostic.Collector) :
    (scan src mode errors).1 = ⟨(scan src mode errors).1.tokens, mode, src⟩ := rfl

theorem errors_scan (src : Source) (mode : Mode) (errors : Diagnostic.Collector) :
    (scan src mode errors).2 = (atEnd src mode errors).errors := rfl

/-- The tokens of a lossless scan tile the source and stand in it. -/
theorem tiles_scan (src : Source) (errors : Diagnostic.Collector) :
    Span.Tiles 0 src.text.utf8ByteSize ((scan src .lossless errors).1.tokens.map Token.fullSpan) ∧
      ∀ t ∈ (scan src .lossless errors).1.tokens, t.StandsIn src := by
  have hend := offset_atEnd src errors
  have hsize : (atEnd src .lossless errors).offset = src.text.utf8ByteSize := by
    rw [hend, ← Text.utf8ByteSize_ofList, String.ofList_toList]
  rw [tokens_scan, ← hsize]
  exact (covers_atEnd src errors).tiles_tokens hend

/-- What stands at tokens that tile the whole source spells the source. -/
theorem reconstruct_of_tiles {src : Source} {tokens : List Token}
    (h : Span.Tiles 0 src.text.utf8ByteSize (tokens.map Token.fullSpan))
    (ht : ∀ t ∈ tokens, t.StandsIn src) : Token.reconstruct tokens = src.text :=
  (Source.Holds.join (fun t hm => (ht t hm).holds_source) h).eq_text

/-- A lossless scan comes to its end with tokens of which only the last is the end of the source.
Their full spans follow each other from the first byte of the source to the last, every lexeme and
every piece of trivia is the slice of the source at its span, and in a row they are the source. -/
theorem scan_tiles_source (src : Source) (errors : Diagnostic.Collector) :
    (atEnd src .lossless errors).step? src .lossless = none ∧
    (∃ tokens eof, (scan src .lossless errors).1.tokens = tokens ++ [eof] ∧ eof.kind = .eof ∧
      ∀ t ∈ tokens, t.kind ≠ .eof) ∧
    Span.Tiles 0 src.text.utf8ByteSize ((scan src .lossless errors).1.tokens.map Token.fullSpan) ∧
    (∀ t ∈ (scan src .lossless errors).1.tokens,
      src.Holds t.span t.lexeme ∧ ∀ p ∈ t.trivia, src.Holds p.span p.text) ∧
    (scan src .lossless errors).1.reconstruct = src.text := by
  obtain ⟨htiles, hstand⟩ := tiles_scan src errors
  refine ⟨step?_atEnd .., ?_, htiles, ?_, reconstruct_of_tiles htiles hstand⟩
  · refine ⟨_, _, tokens_scan src .lossless errors, rfl, fun t ht => ?_⟩
    exact (covers_atEnd src errors).noEof t (List.mem_reverse.1 ht)
  · exact fun t ht => ⟨(hstand t ht).holds_lexeme, fun p hp => (hstand t ht).holds_trivia hp⟩

end Scan

end LimitSyntax
