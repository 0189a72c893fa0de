import LimitSyntax.Proofs.Citations
import LimitSyntax.Proofs.Renderings

/-!
# Carets in a rendering

The row of carets under an error goes through the same limit as the source line above it. It is
padded to the display width of what stands in front of the token, the limit counts characters, so
that carets get lost behind wide characters although the line fits (`Grammar.caret_lost`).
-/

namespace LimitSyntax

namespace Diagnostic

/-- Where carets survive a limit: it is none, it leaves all of the row, or one of them comes before
the last character that it leaves. -/
theorem caret_mem_truncate {limit indent carets : Nat} (hcarets : 1 ≤ carets) :
    '^' ∈ truncate limit (List.replicate indent ' ' ++ List.replicate carets '^') ↔
      limit = 0 ∨ indent + carets ≤ limit ∨ indent + 1 < limit := by
  have hcaret : '^' ∈ List.replicate carets '^' := List.mem_replicate.2 ⟨by omega, rfl⟩
  have hlength :
      (List.replicate indent ' ' ++ List.replicate carets '^').length = indent + carets := by
    simp
  unfold truncate
  rw [hlength]
  split
  next hfits =>
    exact iff_of_true (List.mem_append_right _ hcaret) (hfits.imp_right .inl)
  next hcut =>
    rw [not_or, Nat.not_le] at hcut
    have htake : (List.replicate indent ' ' ++ List.replicate carets '^').take (limit - 1) =
        List.replicate (min (limit - 1) indent) ' ' ++
          List.replicate (min (limit - 1 - indent) carets) '^' := by
      rw [List.take_append, List.take_replicate, List.take_replicate, List.length_replicate]
    rw [htake]
    rw [List.mem_append, List.mem_append, List.mem_replicate, List.mem_replicate,
      List.mem_singleton]
    constructor
    · rintro ((⟨-, hblank⟩ | ⟨hleft, -⟩) | hdots)
      · exact absurd hblank (by decide)
      · omega
      · exact absurd hdots (by decide)
    · intro h
      refine .inl (.inr ⟨?_, rfl⟩)
      omega

end Diagnostic

namespace Grammar

open Diagnostic

/-- How much of the carets is seen. In the rendering of a message the row right below the line at
fault is a blank gutter, and blanks up to the token with carets as wide as it, cut to the limit. A
caret is left if there is no limit, if the row fits, or if the limit is reached behind its first
caret. -/
theorem render_carets (source : Source) (config : Config) (options o : Options) :
    ∀ m ∈ (parseSource source config { options }).1.errors, ∃ line gutter,
      (Text.splitLines source.text.toList)[m.line - 1]? = some line ∧
      let indent := Text.width ((Text.dropReturn line).take (m.column - 1))
      let carets := max (Text.width (Text.firstLine m.token.toList)) 1
      let shown := truncate o.lineWidth (List.replicate indent ' ' ++ List.replicate carets '^')
      [(Text.padLeft gutter (toString m.line)).toList ++
          (Text.bar ++ truncate o.lineWidth (Text.dropReturn line)),
        List.replicate gutter ' ' ++ (Text.bar ++ shown)] <:+:
          Text.splitLines (render { o with colors := false } [m]).toList ∧
      ('^' ∈ shown ↔ o.lineWidth = 0 ∨ indent + carets ≤ o.lineWidth ∨ indent + 1 < o.lineWidth) := by
  intro m hm
  obtain ⟨-, line, hline, -, -, -, gutter, hrows⟩ := (cites_of_mem_errors hm).points
  have honeLine : '\n' ∉ Text.dropReturn line := fun hmem =>
    Text.not_mem_of_mem_splitLines (List.mem_of_getElem? hline)
      (( Text.dropReturn_prefix line).subset hmem)
  refine ⟨line, gutter, hline, ?_, caret_mem_truncate (Nat.le_max_right ..)⟩
  rw [rows_messagePieces]
  exact infix_rows_messagePieces hrows (shownAs_sourceRow honeLine _ _ _)
    (shownAs_indicatorRow _ _ _ _ _)

/-- A character that is no token, behind three wide ones in quotes. -/
def wideSource : Source := ⟨"\"日本語\" $", "<mem>"⟩

/-- A limit of ten characters leaves the caret. -/
theorem render_carets_wide :
    ∃ m ∈ (parseSource wideSource {} {}).1.errors, ∃ row ∈
      Text.splitLines (render { colors := false, lineWidth := 10 } [m]).toList, '^' ∈ row := by
  obtain ⟨m, hm, hline, hcolumn, htoken⟩ : ∃ m ∈ (parseSource wideSource {} {}).1.errors,
      m.line = 1 ∧ m.column = 7 ∧ m.token = "$" := by decide +kernel
  obtain ⟨line, gutter, htext, hrows, hcaret⟩ :=
    render_carets wideSource {} {} { lineWidth := 10 } m hm
  have hfirst : (Text.splitLines wideSource.text.toList)[0]? = some wideSource.text.toList := by
    decide +kernel
  rw [hline, hfirst, Option.some_inj] at htext
  rw [hcolumn, htoken, ← htext] at hcaret
  rw [hcolumn, htoken, ← htext] at hrows
  refine ⟨m, hm, _, hrows.subset (List.mem_cons_of_mem _ List.mem_cons_self), ?_⟩
  exact List.mem_append_right _ (List.mem_append_right _ (hcaret.2 (by decide +kernel)))

/-- At a limit of eight characters the line, which has seven, is seen in full, and no caret. -/
theorem caret_lost : wideSource.text.length ≤ 8 ∧
    ∃ m ∈ (parseSource wideSource {} {}).1.errors, m.excerpt ≠ [] ∧
      '^' ∉ (render { colors := false, lineWidth := 8 } [m]).toList := by
  obtain ⟨m, hm, hexcerpt, hpieces⟩ : ∃ m ∈ (parseSource wideSource {} {}).1.errors,
      m.excerpt ≠ [] ∧ ∀ p ∈ messagePieces { colors := false, lineWidth := 8 } m,
        '^' ∉ p.text.toList := by decide +kernel
  exact ⟨by decide, m, hm, hexcerpt, not_mem_writePieces hpieces⟩

end Grammar

end LimitSyntax
