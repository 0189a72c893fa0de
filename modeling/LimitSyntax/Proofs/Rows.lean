import LimitSyntax.Text.Basic
import Mathlib.Algebra.GroupWithZero.Nat
import Mathlib.Data.List.Basic
import Mathlib.Data.List.TakeWhile

/-!
# Texts and their rows

The rows of a text are what stands between its line feeds: `Text.splitLines` divides a text as
`List.splitOn` does. Texts that lack a character, a line feed above all (`Text.OneLine`), and what
is made of such texts.
-/

namespace LimitSyntax.Text

/-! ## Characters that a text lacks -/

section
variable {c : Char}

theorem not_mem_append {s t : String} : c ∉ (s ++ t).toList ↔ c ∉ s.toList ∧ c ∉ t.toList := by
  rw [String.toList_append, List.mem_append, not_or]

theorem not_mem_toString (h : c.isDigit = false) (n : Nat) : c ∉ (toString n).toList := by
  have hdigits : (toString n).toList = Nat.toDigits 10 n := String.toList_ofList
  intro hmem
  rw [hdigits] at hmem
  exact absurd (Nat.isDigit_of_mem_toDigits (by decide) (by decide) hmem) (by rw [h]; decide)

theorem not_mem_padZeros (h : c.isDigit = false) (width n : Nat) :
    c ∉ (padZeros width n).toList := by
  have hzero : c ≠ '0' := by
    rintro rfl
    exact absurd h (by decide)
  have hdigits := not_mem_toString h n
  rw [show (toString n).toList = Nat.toDigits 10 n from String.toList_ofList] at hdigits
  simp [padZeros, hdigits, hzero]

theorem not_mem_spaces (h : c ≠ ' ') (n : Nat) : c ∉ (spaces n).toList := by
  simp [spaces, h]

theorem not_mem_padLeft (h : c ≠ ' ') (width : Nat) {s : String} (hs : c ∉ s.toList) :
    c ∉ (padLeft width s).toList := by
  simp [padLeft, h, hs]

end

/-! ## Rows -/

/-- The text stands on one line. -/
def OneLine (s : String) : Prop := '\n' ∉ s.toList

instance (s : String) : Decidable (OneLine s) := inferInstanceAs (Decidable ('\n' ∉ s.toList))

theorem OneLine.append {s t : String} (hs : OneLine s) (ht : OneLine t) : OneLine (s ++ t) :=
  not_mem_append.2 ⟨hs, ht⟩

theorem oneLine_toString (n : Nat) : OneLine (toString n) := not_mem_toString (by decide) n

theorem modifyHead_nil_append (rows : List (List Char)) : rows.modifyHead ([] ++ ·) = rows := by
  cases rows <;> rfl

theorem splitLinesFrom_eq (line : List Char) (done : List (List Char)) (cs : List Char) :
    splitLinesFrom line done cs =
      done.reverse ++ (cs.splitOn '\n').modifyHead (line.reverse ++ ·) := by
  induction cs generalizing line done with
  | nil => simp [splitLinesFrom, List.splitOn_nil]
  | cons c cs ih =>
    rw [splitLinesFrom, List.splitOn_eq_splitOnP, List.splitOnP_cons_eq_if_modifyHead]
    by_cases hc : c = '\n'
    · have hrest := modifyHead_nil_append (cs.splitOn '\n')
      rw [if_pos hc, if_pos (by simp [hc]), ih, List.reverse_nil, hrest, List.splitOn_eq_splitOnP]
      simp
    · simp [hc, ih, List.splitOn_eq_splitOnP, Function.comp_def]

/-- The rows of a text are its parts between line feeds. -/
theorem splitLines_eq_splitOn (cs : List Char) : splitLines cs = cs.splitOn '\n' := by
  rw [splitLines, splitLinesFrom_eq, List.reverse_nil, List.reverse_nil, modifyHead_nil_append]
  rfl

/-- A line feed ends a row. -/
theorem splitLines_append_newline (cs ds : List Char) :
    splitLines (cs ++ '\n' :: ds) = splitLines cs ++ splitLines ds := by
  simp only [splitLines_eq_splitOn, List.splitOn_eq_splitOnP]
  exact List.splitOnP_append_cons cs ds (by decide)

theorem splitLines_of_not_mem {cs : List Char} (h : '\n' ∉ cs) : splitLines cs = [cs] := by
  rw [splitLines_eq_splitOn, List.splitOn_eq_splitOnP]
  exact List.splitOnP_eq_singleton fun c hc => beq_false_of_ne fun heq => h (heq ▸ hc)

/-- A text made of lines, each with its line feed, is divided into these. -/
theorem splitLines_join {lines : List String} (h : ∀ line ∈ lines, OneLine line) :
    splitLines (String.join (lines.map (· ++ "\n"))).toList = lines.map String.toList ++ [[]] := by
  induction lines with
  | nil => rfl
  | cons line lines ih =>
    rw [List.forall_mem_cons] at h
    obtain ⟨hline, hlines⟩ := h
    have hfeed : (line ++ "\n").toList = line.toList ++ ['\n'] := String.toList_append
    rw [List.map_cons, String.join_cons, String.toList_append, hfeed, List.append_assoc,
      List.singleton_append, splitLines_append_newline, splitLines_of_not_mem hline, ih hlines]
    rfl

/-- The line feeds of such a text: one behind each part, and those inside. -/
theorem count_newline_join (parts : List String) :
    (String.join (parts.map (· ++ "\n"))).toList.count '\n' =
      parts.length + (parts.map fun part => part.toList.count '\n').sum := by
  induction parts with
  | nil => rfl
  | cons part parts ih =>
    have hfeed : ("\n".toList).count '\n' = 1 := by decide
    rw [List.map_cons, String.join_cons, String.toList_append, List.count_append,
      String.toList_append, List.count_append, hfeed, ih, List.length_cons, List.map_cons,
      List.sum_cons]
    omega

/-- There are as many line feeds as parts just if each part stands on one line. -/
theorem count_newline_join_eq_length {parts : List String} :
    (String.join (parts.map (· ++ "\n"))).toList.count '\n' = parts.length ↔
      ∀ part ∈ parts, OneLine part := by
  rw [count_newline_join, Nat.add_eq_left, List.sum_eq_zero_iff_forall_eq_nat]
  simp [OneLine, List.count_eq_zero]

/-- What stands in a row stands in the text, and is no line feed. -/
theorem of_mem_splitLines {cs row : List Char} {c : Char} (h : row ∈ splitLines cs)
    (hc : c ∈ row) : c ∈ cs ∧ c ≠ '\n' := by
  rw [splitLines_eq_splitOn, List.splitOn_eq_splitOnP] at h
  induction cs generalizing row with
  | nil =>
    rw [List.mem_singleton.1 h] at hc
    exact absurd hc List.not_mem_nil
  | cons d ds ih =>
    have hlater {row : List Char} (hrow : row ∈ ds.splitOnP (· == '\n')) (hc : c ∈ row) :
        c ∈ d :: ds ∧ c ≠ '\n' := (ih hrow hc).imp_left (List.mem_cons_of_mem d)
    rw [List.splitOnP_cons_eq_if_modifyHead] at h
    split at h
    next =>
      rcases List.mem_cons.1 h with rfl | h
      · exact absurd hc List.not_mem_nil
      · exact hlater h hc
    next hd =>
      cases hrows : ds.splitOnP (· == '\n') with
      | nil => simp [hrows] at h
      | cons first rows =>
        rw [hrows, List.modifyHead_cons, List.mem_cons] at h
        rw [hrows] at hlater
        rcases h with rfl | h
        · rcases List.mem_cons.1 hc with rfl | hc
          · exact ⟨List.mem_cons_self, fun heq => hd (beq_iff_eq.2 heq)⟩
          · exact hlater List.mem_cons_self hc
        · exact hlater (List.mem_cons_of_mem _ h) hc

/-- There is no line feed in a row. -/
theorem not_mem_of_mem_splitLines {cs row : List Char} (h : row ∈ splitLines cs) : '\n' ∉ row :=
  fun hc => (of_mem_splitLines h hc).2 rfl

/-! ## Lines -/

theorem dropReturn_prefix (line : List Char) : dropReturn line <+: line := by
  unfold dropReturn
  split
  · exact List.dropLast_prefix line
  · exact List.prefix_rfl

theorem firstLine_prefix (cs : List Char) : firstLine cs <+: cs := by
  unfold firstLine
  split
  · exact List.prefix_rfl
  · exact ( dropReturn_prefix _).trans (List.takeWhile_prefix _)

theorem not_mem_firstLine (cs : List Char) : '\n' ∉ firstLine cs := by
  unfold firstLine
  split
  next hnone =>
    intro hmem
    exact absurd (List.dropWhile_eq_nil_iff.1 hnone _ hmem) (by decide)
  next =>
    intro hmem
    have htaken := List.mem_takeWhile_imp (( dropReturn_prefix _).subset hmem)
    exact absurd htaken (by decide)

theorem mem_closeLines {rows : List (List Char)} {line : List Char} (h : line ∈ closeLines rows) :
    ∃ row ∈ rows, line <+: row := by
  fun_induction closeLines rows with
  | case1 => exact absurd h List.not_mem_nil
  | case2 last => exact absurd h List.not_mem_nil
  | case3 last => exact ⟨line, h, List.prefix_rfl⟩
  | case4 row rest _ ih =>
    rcases List.mem_cons.1 h with rfl | h
    · exact ⟨row, List.mem_cons_self, dropReturn_prefix row⟩
    · obtain ⟨later, hlater, hstart⟩ := ih h
      exact ⟨later, List.mem_cons_of_mem _ hlater, hstart⟩

/-- What stands in a line stands in the text, and is no line feed. -/
theorem of_mem_lines {cs line : List Char} {c : Char} (h : line ∈ lines cs) (hc : c ∈ line) :
    c ∈ cs ∧ c ≠ '\n' := by
  obtain ⟨row, hrow, hstart⟩ := mem_closeLines h
  exact of_mem_splitLines hrow (hstart.subset hc)

/-! ## Parts -/

theorem cutFrom_eq_some {pattern before cs a b : List Char}
    (h : cutFrom pattern before cs = some (a, b)) : before.reverse ++ cs = a ++ (pattern ++ b) := by
  induction cs generalizing before with
  | nil =>
    rw [cutFrom] at h
    split at h <;> cases h
    simp_all
  | cons c cs ih =>
    rw [cutFrom] at h
    split at h
    next hstart =>
      cases h
      rw [List.append_cancel_left_eq]
      exact List.prefix_iff_eq_append.1 ( List.isPrefixOf_iff_prefix.1 hstart) |>.symm
    next =>
      rw [← ih h]
      simp

/-- A text that is cut consists of what stands in front of the pattern, the pattern, and what stands
behind it. -/
theorem cut_eq_some {pattern cs a b : List Char} (h : cut pattern cs = some (a, b)) :
    cs = a ++ (pattern ++ b) :=
  cutFrom_eq_some h

theorem trim_infix (cs : List Char) : trim cs <:+: cs := by
  have hend : trim cs <+: cs.dropWhile isBlank := by
    rw [trim, ← List.reverse_suffix, List.reverse_reverse]
    exact List.dropWhile_suffix _
  exact hend.isInfix.trans (List.dropWhile_suffix _).isInfix

end LimitSyntax.Text
