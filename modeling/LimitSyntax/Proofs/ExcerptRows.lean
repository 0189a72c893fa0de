import LimitSyntax.Diagnostic.Excerpt
import LimitSyntax.Proofs.Rows

/-!
# The rows of an excerpt

An excerpt is put together as text and taken apart again when it is shown. Cut at the first bar, as
the renderer cuts it (`readRow`), each of its rows gives back what it was made of: a number and the
source line of that number, or a blank and carets (`readRow_excerpt`).
-/

namespace LimitSyntax

namespace Text

/-- A bar between blanks. -/
def bar : List Char := [' ', '|', ' ']

theorem toList_bar : " | ".toList = bar := String.toList_ofList

/-- A bar that follows some text without one does not begin in that text. -/
theorem isPrefixOf_bar {c : Char} {cs : List Char} (h : '|' ∉ cs) (ds : List Char) :
    bar.isPrefixOf (c :: (cs ++ (bar ++ ds))) = false := by
  cases cs with
  | nil => simp [bar, List.isPrefixOf]
  | cons d cs =>
    have hd : '|' ≠ d := fun heq => h (heq ▸ List.mem_cons_self)
    simp [bar, List.isPrefixOf, hd]

/-- Where there is no bar in front of it, a bar is the first one. -/
theorem cutFrom_bar {cs : List Char} (h : '|' ∉ cs) (before ds : List Char) :
    cutFrom bar before (cs ++ (bar ++ ds)) = some (before.reverse ++ cs, ds) := by
  induction cs generalizing before with
  | nil => simp [cutFrom, bar]
  | cons c cs ih =>
    have hcs : '|' ∉ cs := fun hmem => h (List.mem_cons_of_mem c hmem)
    rw [List.cons_append, cutFrom, isPrefixOf_bar hcs, if_neg Bool.false_ne_true, ih hcs,
      List.reverse_cons, List.append_assoc, List.singleton_append]

theorem cut_bar {cs : List Char} (h : '|' ∉ cs) (ds : List Char) :
    cut bar (cs ++ (bar ++ ds)) = some (cs, ds) :=
  cutFrom_bar h [] ds

end Text

namespace Diagnostic

/-! ## Gutters -/

/-- A smaller number has no more digits. -/
theorem digitCount_mono {m n : Nat} (h : m ≤ n) : digitCount m ≤ digitCount n := by
  have hpos : 0 < digitCount n := Nat.length_toDigits_pos
  have hlt : n < 10 ^ digitCount n :=
    (Nat.length_toDigits_le_iff (by decide) hpos).1 (Nat.le_refl _)
  exact (Nat.length_toDigits_le_iff (by decide) hpos).2 (Nat.lt_of_le_of_lt h hlt)

theorem length_padLeft_toString {gutter n : Nat} (h : digitCount n ≤ gutter) :
    (Text.padLeft gutter (toString n)).length = gutter := by
  have hdigits : (toString n).length = digitCount n := by
    rw [← String.length_toList, show (toString n).toList = Nat.toDigits 10 n from
      String.toList_ofList, digitCount]
  rw [Text.padLeft, String.length_append, String.length_ofList, List.length_replicate, hdigits]
  omega

/-! ## Rows -/

/-- What stands before and behind the first bar of a row. -/
def readRow (row : String) : Option (List Char × List Char) := Text.cut " | ".toList row.toList

theorem readRow_sourceRow (number : Nat) (line : List Char) (gutter : Nat) :
    readRow (sourceRow number line gutter) =
      some ((Text.padLeft gutter (toString number)).toList, line) := by
  have hnumber : '|' ∉ (Text.padLeft gutter (toString number)).toList :=
    Text.not_mem_padLeft (by decide) gutter (Text.not_mem_toString (by decide) number)
  rw [readRow, sourceRow, String.toList_append, String.toList_append, List.append_assoc,
    Text.toList_bar, Text.cut_bar hnumber, String.toList_ofList]

theorem readRow_indicatorRow (line : List Char) (column : Nat) (token : String) (gutter : Nat) :
    readRow (indicatorRow line column token gutter) =
      some (List.replicate gutter ' ',
        List.replicate (Text.width (line.take (column - 1))) ' ' ++
          List.replicate (max (Text.width (Text.firstLine token.toList)) 1) '^') := by
  have hblank : '|' ∉ List.replicate gutter ' ' := by simp
  rw [readRow, indicatorRow, String.toList_append, String.toList_append, String.toList_append,
    List.append_assoc, List.append_assoc, Text.toList_bar]
  simp only [Text.spaces, String.toList_ofList]
  rw [Text.cut_bar hblank]

/-! ## Excerpts -/

/-- The lines of a source, as an excerpt shows them. -/
def sourceLines (source : String) : List (List Char) :=
  (source.toList.splitOn '\n').map Text.dropReturn

/-- Consecutive lines, each with its number. -/
theorem zipIdx_drop_take (lines : List (List Char)) {first last : Nat} (hfirst : 1 ≤ first)
    (hlast : last ≤ lines.length) :
    ((lines.take last).drop (first - 1)).zipIdx first =
      (List.range' first (last + 1 - first)).map fun number =>
        (lines.getD (number - 1) [], number) := by
  apply List.ext_getElem
  · simp
    omega
  · intro k hleft hright
    simp only [List.length_zipIdx, List.length_drop, List.length_take] at hleft
    rw [List.getElem_zipIdx, List.getElem_map, List.getElem_range', List.getElem_drop,
      List.getElem_take, Nat.one_mul, List.getElem_eq_getD []]
    simp only [show first + k - 1 = first - 1 + k by omega]

/-- The numbers from `first` to `last`, those on either side of `line` apart. -/
theorem range'_eq_append_cons {first line last : Nat} (hfirst : first ≤ line)
    (hlast : line ≤ last) :
    List.range' first (last + 1 - first) =
      List.range' first (line - first) ++ line :: List.range' (line + 1) (last - line) := by
  obtain ⟨above, rfl⟩ := Nat.exists_eq_add_of_le hfirst
  obtain ⟨below, rfl⟩ := Nat.exists_eq_add_of_le hlast
  rw [← List.range'_succ, Nat.add_sub_cancel_left, Nat.add_sub_cancel_left, List.range'_append_1]
  congr 1
  omega

/-- The rows of one line of the source: below the line at fault stand carets. -/
def rowsOf (line column : Nat) (token : String) (gutter : Nat) :
    List Char × Nat → List String := fun (text, number) =>
  let row := sourceRow number text gutter
  if number = line then [row, indicatorRow text column token gutter] else [row]

/-- Other lines than the one at fault have one row each. -/
theorem flatMap_rowsOf {line : Nat} {numbers : List Nat} (h : line ∉ numbers) (column : Nat)
    (token : String) (gutter : Nat) (lines : List (List Char)) :
    (numbers.map fun number => (lines.getD (number - 1) [], number)).flatMap
        (rowsOf line column token gutter) =
      numbers.map fun number => sourceRow number (lines.getD (number - 1) []) gutter := by
  induction numbers with
  | nil => rfl
  | cons number numbers ih =>
    rw [List.mem_cons, not_or] at h
    have hrow (text : List Char) :
        rowsOf line column token gutter (text, number) = [sourceRow number text gutter] :=
      if_neg (Ne.symm h.1)
    rw [List.map_cons, List.flatMap_cons, hrow, ih h.2, List.singleton_append, List.map_cons]

section
variable {source : String} {line : Nat}

theorem excerpt_eq_nil (h : line = 0 ∨ (sourceLines source).length < line) (column : Nat)
    (token : String) (before after : Nat) : excerpt source line column token before after = [] := by
  rw [sourceLines, ← Text.splitLines_eq_splitOn] at h
  exact if_pos h

/-- An excerpt consists of the rows down to the line at fault, carets, and the rows below them. -/
theorem excerpt_eq (hpos : 1 ≤ line) (hline : line ≤ (sourceLines source).length) (column : Nat)
    (token : String) {before after first last gutter : Nat}
    (hfirst : max 1 (line - min before 2) = first)
    (hlast : min (line + min after 2) (sourceLines source).length = last)
    (hgutter : max (digitCount last) 2 = gutter) :
    let row := fun number => sourceRow number ((sourceLines source).getD (number - 1) []) gutter
    excerpt source line column token before after =
      (List.range' first (line - first)).map row ++
        row line :: indicatorRow ((sourceLines source).getD (line - 1) []) column token gutter ::
          (List.range' (line + 1) (last - line)).map row := by
  intro row
  have hle : 1 ≤ first ∧ first ≤ line ∧ line ≤ last ∧ last ≤ (sourceLines source).length := by
    omega
  have hexcerpt : excerpt source line column token before after =
      ((((sourceLines source).take last).drop (first - 1)).zipIdx first).flatMap
        (rowsOf line column token gutter) := by
    have hinside : ¬ (line = 0 ∨ (sourceLines source).length < line) := by omega
    rw [sourceLines, ← Text.splitLines_eq_splitOn] at hinside
    rw [excerpt]
    dsimp only
    rw [if_neg hinside, Text.splitLines_eq_splitOn, ← sourceLines, maxContext, hfirst, hlast,
      hgutter]
    rfl
  have habove : line ∉ List.range' first (line - first) := by
    rw [List.mem_range'_1]
    omega
  have hbelow : line ∉ List.range' (line + 1) (last - line) := by
    rw [List.mem_range'_1]
    omega
  rw [hexcerpt, zipIdx_drop_take _ hle.1 hle.2.2.2, range'_eq_append_cons hle.2.1 hle.2.2.1,
    List.map_append, List.map_cons, List.flatMap_append, List.flatMap_cons,
    flatMap_rowsOf habove, flatMap_rowsOf hbelow]
  simp [rowsOf, row]

end

/-- **An excerpt reads back.** Around a line that the source has there is one row for each line from
two above to two below at most, and one of carets right below the line at fault. Cut at its first
bar, a row gives its number, moved to the right end of a gutter that is as wide in all rows, and
exactly the source line of that number; the row of carets gives a blank gutter, spaces, and
carets. -/
theorem readRow_excerpt (source : String) (line column : Nat) (token : String)
    (before after : Nat) :
    let lines := sourceLines source
    let first := max 1 (line - min before 2)
    let last := min lines.length (line + min after 2)
    (line = 0 ∨ lines.length < line → excerpt source line column token before after = []) ∧
    (1 ≤ line → line ≤ lines.length → ∃ gutter indent carets, 1 ≤ carets ∧
      (∀ number ≤ last, (Text.padLeft gutter (toString number)).length = gutter) ∧
      let numbered := fun number =>
        some ((Text.padLeft gutter (toString number)).toList, lines.getD (number - 1) [])
      (excerpt source line column token before after).map readRow =
        (List.range' first (line + 1 - first)).map numbered ++
          some (List.replicate gutter ' ', List.replicate indent ' ' ++ List.replicate carets '^') ::
            (List.range' (line + 1) (last - line)).map numbered) := by
  intro lines first last
  refine ⟨fun h => excerpt_eq_nil h column token before after, fun hpos hline => ?_⟩
  have hfirst : max 1 (line - min before 2) = first := rfl
  have hlast : min (line + min after 2) lines.length = last := Nat.min_comm ..
  clear_value first last
  generalize hgutter : max (digitCount last) 2 = gutter
  have hdown :
      List.range' first (line + 1 - first) = List.range' first (line - first) ++ [line] := by
    have hle : first ≤ line := by omega
    have hsplit := range'_eq_append_cons hle (Nat.le_refl line)
    rwa [Nat.sub_self, List.range'_zero] at hsplit
  refine ⟨gutter, Text.width ((lines.getD (line - 1) []).take (column - 1)),
    max (Text.width (Text.firstLine token.toList)) 1, Nat.le_max_right .., ?_, ?_⟩
  · intro number hnumber
    refine length_padLeft_toString (Nat.le_trans (digitCount_mono hnumber) ?_)
    omega
  · intro numbered
    have hrow : readRow ∘ (fun number => sourceRow number (lines.getD (number - 1) []) gutter) =
        numbered := by
      funext number
      rw [Function.comp_apply, readRow_sourceRow]
    rw [excerpt_eq hpos hline column token hfirst hlast hgutter, hdown]
    simp only [List.map_append, List.map_cons, List.map_nil, List.map_map, readRow_sourceRow,
      readRow_indicatorRow, List.append_assoc, List.singleton_append]
    rw [hrow]

/-- Ten lines, the ninth of which has a bar in it and ends in a carriage return. -/
def tenLines : String := "1\n2\n3\n4\n5\n6\n7\n8\na | b\r\n10"

theorem readRow_excerpt_tenLines :
    1 ≤ 9 ∧ 9 ≤ (sourceLines tenLines).length ∧ ∃ gutter indent carets, 1 ≤ carets ∧
      (excerpt tenLines 9 3 "|" 0 1).map readRow =
        [some ((Text.padLeft gutter "9").toList, "a | b".toList),
          some (List.replicate gutter ' ', List.replicate indent ' ' ++ List.replicate carets '^'),
          some ((Text.padLeft gutter "10").toList, "10".toList)] := by
  have hlines : sourceLines tenLines =
      ["1", "2", "3", "4", "5", "6", "7", "8", "a | b", "10"].map String.toList := by
    decide +kernel
  have hlength : 9 ≤ (sourceLines tenLines).length := by rw [hlines]; decide
  obtain ⟨gutter, indent, carets, hcarets, -, hrows⟩ :=
    (readRow_excerpt tenLines 9 3 "|" 0 1).2 (by decide) hlength
  rw [hlines] at hrows
  exact ⟨by decide, hlength, gutter, indent, carets, hcarets, hrows⟩

end Diagnostic

end LimitSyntax
