import LimitSyntax.Proofs.ScanAppend
import Mathlib.Data.Prod.Lex

/-!
# Sites

A token of a scan, and a message about it, stand at a line and a column. What stands further behind
in the source stands on a later line, or on the same line further right
(`Source.Shows.site_lt`). So every place of a source has a site of its own, and the line of a token
is the one that the line feeds in front of it make (`Scan.sites_exact`).
-/

namespace LimitSyntax

theorem Text.lineFrom_of_not_mem (line : List Char) {cs : List Char} (h : '\n' ∉ cs) :
    lineFrom line cs = cs.reverse ++ line := by
  induction cs generalizing line with
  | nil => rfl
  | cons c cs ih =>
    rw [List.mem_cons, not_or] at h
    obtain ⟨hc, hcs⟩ := h
    rw [lineFrom_cons, if_neg (Ne.symm hc), ih _ hcs]
    simp

/-- Line and column: the places of a source in their order. -/
abbrev Site := ℕ ×ₗ ℕ

/-- Where a message stands. -/
def Diagnostic.Message.site (m : Message) : Site := toLex (m.line, m.column)

/-- Where a token stands. -/
def Token.site (t : Token) (src : Source) : Site :=
  toLex (t.line, Text.columnAt src.text.toList t.span.start)

namespace Source

variable {src : Source} {offset offset' line line' : Nat} {text text' : List Char}

/-- Of two places in a source one lies a text behind the other. -/
theorem Shows.exists_between (h : src.Shows offset line text) (h' : src.Shows offset' line' text')
    (hle : offset ≤ offset') : ∃ before middle rest, src.text.toList = before ++ (middle ++ rest) ∧
      Text.byteLength before = offset ∧ Text.byteLength (before ++ middle) = offset' ∧
      before.count '\n' + 1 = line ∧ (before ++ middle).count '\n' + 1 = line' := by
  obtain ⟨before, after, hsplit, hoffset, hline⟩ := h
  obtain ⟨before', after', hsplit', hoffset', hline'⟩ := h'
  rw [List.append_assoc] at hsplit hsplit'
  have hpre : before <+: before' := by
    rcases List.prefix_or_prefix_of_prefix (hsplit ▸ List.prefix_append ..)
      (hsplit' ▸ List.prefix_append before' _) with hpre | ⟨more, rfl⟩
    · exact hpre
    · -- the one behind is no longer, so that they are the same
      rw [Text.byteLength_append] at hoffset
      cases more with
      | nil => simp
      | cons c cs =>
        have := c.utf8Size_pos
        rw [Text.byteLength_cons] at hoffset
        omega
  obtain ⟨middle, rfl⟩ := hpre
  exact ⟨before, middle, text' ++ after', by rw [hsplit', List.append_assoc], hoffset, hoffset',
    hline, hline'⟩

/-- What stands further behind stands on a later line, or on the same line further right. -/
theorem Shows.site_lt (h : src.Shows offset line text) (h' : src.Shows offset' line' text')
    (hlt : offset < offset') :
    (toLex (line, Text.columnAt src.text.toList offset) : Site) <
      toLex (line', Text.columnAt src.text.toList offset') := by
  obtain ⟨before, middle, rest, hsplit, rfl, rfl, rfl, rfl⟩ := h.exists_between h' hlt.le
  have hcolumn : Text.columnAt src.text.toList (Text.byteLength before) =
      (Text.lineFrom [] before).length + 1 := by
    rw [hsplit, Text.columnAt_append]
  have hcolumn' : Text.columnAt src.text.toList (Text.byteLength (before ++ middle)) =
      (Text.lineFrom (Text.lineFrom [] before) middle).length + 1 := by
    rw [hsplit, ← List.append_assoc, Text.columnAt_append, Text.lineFrom_append]
  rw [Prod.Lex.toLex_lt_toLex, hcolumn, hcolumn', List.count_append]
  by_cases hfeed : '\n' ∈ middle
  · have := List.count_pos_iff.2 hfeed
    exact .inl (by omega)
  · have hmiddle : middle ≠ [] := by
      rintro rfl
      simp at hlt
    have hlength := List.length_pos_iff.2 hmiddle
    rw [List.count_eq_zero.2 hfeed, Text.lineFrom_of_not_mem _ hfeed]
    refine .inr ⟨rfl, ?_⟩
    rw [List.length_append, List.length_reverse]
    omega

theorem Shows.line_unique (h : src.Shows offset line text) (h' : src.Shows offset line' text') :
    line = line' := by
  obtain ⟨before, middle, rest, -, hoffset, hoffset', rfl, rfl⟩ := h.exists_between h' le_rfl
  cases middle with
  | nil => simp
  | cons c cs =>
    have := c.utf8Size_pos
    rw [Text.byteLength_append, Text.byteLength_cons] at hoffset'
    omega

end Source

namespace Token

variable {src : Source} {t u : Token}

theorem Placed.start_le (ht : t.Placed src) : t.span.start ≤ t.span.stop := by
  rw [ht.stop]
  exact Nat.le_add_right ..

theorem Placed.site_lt (ht : t.Placed src) (hu : u.Placed src) (h : t.span.start < u.span.start) :
    t.site src < u.site src := ht.shows.site_lt hu.shows h

theorem Placed.site_le (ht : t.Placed src) (hu : u.Placed src) (h : t.span.start ≤ u.span.start) :
    t.site src ≤ u.site src := by
  rcases Nat.lt_or_eq_of_le h with hlt | heq
  · exact (ht.site_lt hu hlt).le
  · have hline : t.line = u.line := ht.shows.line_unique (heq ▸ hu.shows)
    rw [site, site, hline, heq]

end Token

/-- The tokens of a scan, and once more its end, stand in the order of their sites, and one that is
neither an error nor the end stands in front of all that follow. -/
theorem Scan.pairwise_site_scan (src : Source) (mode : Mode) (errors : Diagnostic.Collector) :
    ((scan src mode errors).1.tokens ++ [(State.atEnd src mode errors).eof src]).Pairwise
      fun t u => t.site src ≤ u.site src ∧
        (t.kind ≠ .error → t.kind ≠ .eof → t.site src < u.site src) := by
  have hplaced := placed_scan src mode errors
  have htokens : (scan src mode errors).1.tokens.Pairwise fun t u => t.site src ≤ u.site src ∧
      (t.kind ≠ .error → t.kind ≠ .eof → t.site src < u.site src) := by
    refine (ordered_scan src mode errors).imp_of_mem fun {t u} ht hu hle => ⟨?_, fun herror _ => ?_⟩
    · exact (hplaced t ht).site_le (hplaced u hu) ((hplaced t ht).start_le.trans hle.1)
    · refine (hplaced t ht).site_lt (hplaced u hu) (lt_of_lt_of_le ?_ hle.1)
      exact (hplaced t ht).start_lt fun hnone => herror (hle.2 hnone).1
  refine List.pairwise_append.2 ⟨htokens, List.pairwise_singleton .., fun t ht u hu => ?_⟩
  -- the last token is the end
  rw [List.mem_singleton.1 hu]
  rw [tokens_scan] at ht htokens
  rcases List.mem_append.1 ht with ht | ht
  · exact (List.pairwise_append.1 htokens).2.2 t ht _ (List.mem_singleton_self _)
  · rw [List.mem_singleton.1 ht]
    exact ⟨le_rfl, fun _ hend => absurd rfl hend⟩

/-! ## Sites of offsets -/

namespace Text

/-- The characters that end at or in front of an offset. -/
def upTo : Nat → List Char → List Char
  | _, [] => []
  | budget, c :: cs =>
    if c.utf8Size ≤ budget then c :: upTo (budget - c.utf8Size) cs else []

theorem upTo_zero (cs : List Char) : upTo 0 cs = [] := by
  cases cs with
  | nil => rfl
  | cons c cs => rw [upTo, if_neg (Nat.not_le.2 c.utf8Size_pos)]

theorem upTo_append (before rest : List Char) :
    upTo (byteLength before) (before ++ rest) = before := by
  induction before with
  | nil => exact upTo_zero rest
  | cons c cs ih =>
    rw [byteLength_cons, List.cons_append, upTo, if_pos (Nat.le_add_right ..),
      Nat.add_sub_cancel_left, ih]

end Text

namespace Source

variable {src : Source} {offset line : Nat} {text : List Char}

/-- The line of an offset: one more than there are line feeds in front of it. -/
def lineAt (src : Source) (offset : Nat) : Nat :=
  1 + (Text.upTo offset src.text.toList).count '\n'

/-- Where an offset stands. -/
def siteAt (src : Source) (offset : Nat) : Site :=
  toLex (src.lineAt offset, Text.columnAt src.text.toList offset)

/-- The line of a text that stands in the source is that of its offset. -/
theorem Shows.line_eq (h : src.Shows offset line text) : line = src.lineAt offset := by
  obtain ⟨before, after, hsplit, rfl, rfl⟩ := h
  rw [lineAt, hsplit, List.append_assoc, Text.upTo_append, Nat.add_comm]

/-- An offset between two characters is a place of the source. -/
theorem shows_of_isValid (h : String.Pos.Raw.IsValid src.text ⟨offset⟩) :
    src.Shows offset (src.lineAt offset) [] := by
  obtain ⟨before, after, htext, hend⟩ := String.Pos.Raw.isValid_iff_exists_append.1 h
  have hsplit : src.text.toList = before.toList ++ [] ++ after.toList := by
    rw [htext, String.toList_append, List.append_nil]
  have hoffset : Text.byteLength before.toList = offset := by
    rw [← Text.utf8ByteSize_ofList, String.ofList_toList]
    exact (congrArg String.Pos.Raw.byteIdx hend).symm
  have hshows : src.Shows offset (before.toList.count '\n' + 1) [] :=
    ⟨before.toList, after.toList, hsplit, hoffset, rfl⟩
  rwa [hshows.line_eq] at hshows

end Source

/-- The site of a token is that of its offset. -/
theorem Token.Placed.site_eq {src : Source} {t : Token} (h : t.Placed src) :
    t.site src = src.siteAt t.span.start := by
  rw [site, Source.siteAt, h.shows.line_eq]

/-- A token stands on the line that the line feeds in front of it make. The sites of the offsets
between characters go up with the offsets, so that tokens that start at different offsets never have
the same line and column. -/
theorem Scan.sites_exact (src : Source) (mode : Mode) (errors : Diagnostic.Collector) :
    (∀ t ∈ (scan src mode errors).1.tokens, t.line = src.lineAt t.span.start) ∧
    (∀ offset offset', String.Pos.Raw.IsValid src.text ⟨offset⟩ →
      String.Pos.Raw.IsValid src.text ⟨offset'⟩ → offset < offset' →
        src.siteAt offset < src.siteAt offset') ∧
    ∀ t ∈ (scan src mode errors).1.tokens, ∀ u ∈ (scan src mode errors).1.tokens,
      t.span.start ≠ u.span.start → t.site src ≠ u.site src := by
  have hplaced := placed_scan src mode errors
  have hmono : ∀ offset offset', String.Pos.Raw.IsValid src.text ⟨offset⟩ →
      String.Pos.Raw.IsValid src.text ⟨offset'⟩ → offset < offset' →
        src.siteAt offset < src.siteAt offset' := by
    intro offset offset' h h' hlt
    exact (Source.shows_of_isValid h).site_lt (Source.shows_of_isValid h') hlt
  refine ⟨fun t ht => (hplaced t ht).shows.line_eq, hmono, ?_⟩
  intro t ht u hu hne hsite
  have hvalid := (hplaced t ht).isValid.1
  have hvalid' := (hplaced u hu).isValid.1
  rw [(hplaced t ht).site_eq, (hplaced u hu).site_eq] at hsite
  rcases Nat.lt_or_gt_of_ne hne with hlt | hgt
  · exact (hmono _ _ hvalid hvalid' hlt).ne hsite
  · exact (hmono _ _ hvalid' hvalid hgt).ne hsite.symm

end LimitSyntax
