import LimitSyntax.Proofs.ByteCursor
import LimitSyntax.Proofs.Places
import LimitSyntax.Proofs.ScanReports

/-!
# Moves over bytes

A cursor follows the scanner over texts if it stands behind some of what the scanner has not read
yet, at the byte that belongs to this place (`Scan.Past`). Every move of a rule leads from such a
place to such a place, and none of them faults (`Scan.Yields`).
-/

namespace LimitSyntax

namespace Source

theorem bytes_eq (src : Source) : src.bytes = Text.bytes src.text.toList :=
  Text.map_ofByte_toByteArray src.text

theorem utf8ByteSize_text (src : Source) :
    src.text.utf8ByteSize = Text.byteLength src.text.toList := by
  rw [← Text.utf8ByteSize_ofList, String.ofList_toList]

end Source

namespace Scan

open Text

/-! ## Computations without a fault -/

theorem ok_bind {α β : Type} (a : α) (f : α → Except Fault β) : (Except.ok a >>= f) = f a := rfl

/-- The computation has a result, and the result is as told. -/
def Yields {α : Type} (r : Except Fault α) (P : α → Prop) : Prop := ∃ a, r = .ok a ∧ P a

namespace Yields

variable {α β : Type} {r : Except Fault α} {P P' : α → Prop} {Q : β → Prop}

theorem pure {a : α} (h : P a) : Yields (.ok a) P := ⟨a, rfl, h⟩

theorem mono (h : Yields r P) (hP : ∀ a, P a → P' a) : Yields r P' := by
  obtain ⟨a, rfl, ha⟩ := h
  exact ⟨a, rfl, hP a ha⟩

theorem bind {f : α → Except Fault β} (h : Yields r P) (hf : ∀ a, P a → Yields (f a) Q) :
    Yields (r >>= f) Q := by
  obtain ⟨a, rfl, ha⟩ := h
  exact hf a ha

end Yields

/-! ## Slices -/

section
variable {src : Source} {start stop : Nat}

/-- A slice between two characters is the text between them. -/
theorem cut_of_split (before : List Char) {text : List Char} (after : List Char)
    (h : src.text.toList = before ++ (text ++ after)) (hstart : start = byteLength before)
    (hstop : stop = start + byteLength text) :
    cut src start stop = .ok (String.ofList text) := by
  have hsplit : src.text.toList = before ++ text ++ after := h.trans (List.append_assoc ..).symm
  have hlength :
      src.text.utf8ByteSize = byteLength before + byteLength text + byteLength after := by
    rw [← byteLength_append, ← byteLength_append, ← hsplit, src.utf8ByteSize_text]
  have hvalid : String.Pos.Raw.isValid src.text ⟨start⟩ = true :=
    String.Pos.Raw.isValid_eq_true_iff.2 (hstart ▸ Source.isValid_of_split h)
  have hvalid' : String.Pos.Raw.isValid src.text ⟨stop⟩ = true := by
    refine String.Pos.Raw.isValid_eq_true_iff.2 ?_
    rw [hstop, hstart, ← byteLength_append]
    exact Source.isValid_of_split hsplit
  have hslice : src.slice ⟨start, stop⟩ = (String.ofList text).toByteArray := by
    rw [hstop]
    exact Source.holds_of_split hsplit hstart.symm
  have htext : String.fromUTF8? (String.ofList text).toByteArray = some (String.ofList text) := by
    rw [String.fromUTF8?, dif_pos (String.ofList text).isValidUTF8]
    rfl
  rw [cut, if_neg (by omega), hvalid, hvalid', Bool.and_self,
    if_pos (rfl : true = true), hslice, htext]

end

namespace Cursor

variable {src : Source} {c : Cursor src}

theorem move_zero (c : Cursor src) : c.move 0 = .ok c := by
  rw [move, place, dif_pos ⟨c.pos_le_stop, c.stop_le_size⟩]
  rfl

theorem move_move (c : Cursor src) (m n : Nat) :
    (c.move m >>= fun d => d.move n) = c.move (m + n) := by
  by_cases h : c.pos + m ≤ c.stop
  · rw [move, place, dif_pos ⟨h, c.stop_le_size⟩]
    simp [bind, Except.bind, move, place, Nat.add_assoc]
  · rw [move, place, dif_neg fun hle => h hle.1, move, place, dif_neg fun hle => h (by omega)]
    rfl

theorem peekAt_eq (c : Cursor src) (n : Nat) : c.peekAt n = c.range[n]? := by
  rw [peekAt, range, List.getElem?_take, List.getElem?_drop]
  by_cases h : c.pos + n < c.stop
  · rw [if_pos h, if_pos (by omega)]
  · rw [if_neg h, if_neg (by omega)]

theorem walk_eq (p : Char → Bool) (bs : List Char) (c : Cursor src) :
    skipWhile.walk p bs c = c.move (bs.takeWhile p).length := by
  induction bs generalizing c with
  | nil => exact (move_zero c).symm
  | cons b bs ih =>
    rw [skipWhile.walk]
    split
    next hb =>
      rw [List.takeWhile_cons_of_pos hb, List.length_cons, Nat.add_comm, ← move_move]
      simp only [ih]
    next hb =>
      rw [List.takeWhile_cons_of_neg hb]
      exact (move_zero c).symm

/-- Byte by byte past a run is one move past it. -/
theorem skipWhile_eq (c : Cursor src) (p : Char → Bool) :
    c.skipWhile p = c.move (c.range.takeWhile p).length := walk_eq p c.range c

/-- Between two characters the range is the bytes of the text between them. -/
theorem range_of_split (before : List Char) {text : List Char} (after : List Char)
    (h : src.text.toList = before ++ (text ++ after)) (hpos : c.pos = byteLength before)
    (hstop : c.stop = c.pos + byteLength text) : c.range = bytes text := by
  rw [range, src.bytes_eq, h, bytes_append, bytes_append, hstop, hpos, Nat.add_sub_cancel_left,
    ← length_bytes before, ← length_bytes text, List.drop_left, List.take_left]

end Cursor

/-! ## Calls -/

/-- The call is made where the range goes on. It reads at least one byte and leaves the range as it
is; all places are between characters. -/
structure Call.Reads {src : Source} (call : Call src) : Prop where
  started : call.before.pos < call.before.stop
  moved : call.before.pos < call.after.pos
  stop_eq : call.after.stop = call.before.stop
  valid : ∀ n ∈ [call.before.pos, call.before.stop, call.after.pos, call.after.stop],
    String.Pos.Raw.IsValid src.text ⟨n⟩

/-- The call reads the whole range and leaves the range as it is. -/
structure Call.Finishes {src : Source} (call : Call src) : Prop where
  pos_eq : call.after.pos = call.before.stop
  stop_eq : call.after.stop = call.before.stop

/-- Every call so far did what it should. -/
structure Cursor.Sound {src : Source} (c : Cursor src) : Prop where
  lexemes : ∀ call ∈ c.lexemes, call.Reads
  ranges : ∀ call ∈ c.ranges, call.Finishes

/-! ## Following the scanner over texts -/

/-- The cursor stands where the scanner `s` comes to behind the text `taken`, of which nothing is
kept yet, in front of the text `rest` of its range. -/
structure Past {src : Source} (mode : Mode) (c : Cursor src) (s : State) (taken rest : List Char) :
    Prop where
  rest_eq : s.rest = taken ++ rest
  split : ∃ before, src.text.toList = before ++ s.remaining ∧ byteLength before = s.offset
  pos : c.pos = s.offset + byteLength taken
  stop : c.stop = c.pos + byteLength rest
  line : c.line = s.line + taken.count '\n'
  tokens : c.tokens = s.tokens
  pending : c.pending = s.pending
  errors : c.errors = s.errors
  sound : c.Sound

namespace Past

variable {src : Source} {mode : Mode} {c d : Cursor src} {s : State} {taken rest more : List Char}

/-- The source around the text that was passed and the range behind it. -/
theorem exists_split (h : Past mode c s taken rest) : ∃ before after,
    src.text.toList = before ++ (taken ++ (rest ++ after)) ∧ byteLength before = s.offset := by
  obtain ⟨before, hsplit, hoffset⟩ := h.split
  refine ⟨before, s.waiting.flatMap fun w => '}' :: w.rest, ?_, hoffset⟩
  rw [hsplit, State.remaining, h.rest_eq, List.append_assoc]

theorem range_eq (h : Past mode c s taken rest) : c.range = bytes rest := by
  obtain ⟨before, after, hsplit, hoffset⟩ := h.exists_split
  refine Cursor.range_of_split (before ++ taken) after ?_ ?_ h.stop
  · rw [hsplit, List.append_assoc]
  · rw [h.pos, byteLength_append, hoffset]

theorem isValid_pos (h : Past mode c s taken rest) : String.Pos.Raw.IsValid src.text ⟨c.pos⟩ := by
  obtain ⟨before, after, hsplit, hoffset⟩ := h.exists_split
  rw [h.pos, ← hoffset, ← byteLength_append]
  exact Source.isValid_of_split (hsplit.trans (List.append_assoc ..).symm)

theorem isValid_stop (h : Past mode c s taken rest) :
    String.Pos.Raw.IsValid src.text ⟨c.stop⟩ := by
  obtain ⟨before, after, hsplit, hoffset⟩ := h.exists_split
  have hafter : src.text.toList = before ++ taken ++ rest ++ after := by
    rw [hsplit, List.append_assoc, List.append_assoc]
  rw [h.stop, h.pos, ← hoffset, ← byteLength_append, ← byteLength_append]
  exact Source.isValid_of_split hafter

/-! ### Slices -/

theorem cut_taken (h : Past mode c s taken rest) :
    cut src s.offset c.pos = .ok (String.ofList taken) := by
  obtain ⟨before, after, hsplit, hoffset⟩ := h.exists_split
  exact cut_of_split before (rest ++ after) hsplit hoffset.symm h.pos

theorem cut_rest (h : Past mode c s taken rest) :
    cut src c.pos c.stop = .ok (String.ofList rest) := by
  obtain ⟨before, after, hsplit, hoffset⟩ := h.exists_split
  refine cut_of_split (before ++ taken) after ?_ ?_ h.stop
  · rw [hsplit, List.append_assoc]
  · rw [h.pos, byteLength_append, hoffset]

theorem cut_range (h : Past mode c s taken rest) :
    cut src s.offset c.stop = .ok (String.ofList s.rest) := by
  obtain ⟨before, after, hsplit, hoffset⟩ := h.exists_split
  refine cut_of_split before after ?_ hoffset.symm ?_
  · rw [hsplit, h.rest_eq, List.append_assoc]
  · rw [h.stop, h.pos, h.rest_eq, byteLength_append, Nat.add_assoc]

/-- The slice between two places is what was passed between them. -/
theorem cut_between {rest' : List Char} (h : Past mode c s taken rest)
    (hd : Past mode d s (taken ++ more) rest') :
    cut src c.pos d.pos = .ok (String.ofList more) := by
  obtain ⟨before, after, hsplit, hoffset⟩ := hd.exists_split
  refine cut_of_split (before ++ taken) (rest' ++ after) ?_ ?_ ?_
  · rw [hsplit, List.append_assoc, List.append_assoc]
  · rw [h.pos, byteLength_append, hoffset]
  · rw [hd.pos, h.pos, byteLength_append, Nat.add_assoc]

/-! ### Bytes -/

theorem peekAt_nil (h : Past mode c s taken []) : c.peekAt 0 = none := by
  rw [Cursor.peekAt_eq, h.range_eq]
  rfl

theorem exists_peekAt {x : Char} (h : Past mode c s taken (x :: rest)) :
    ∃ b ∈ charBytes x, c.peekAt 0 = some b := by
  obtain ⟨b, bs, hcons⟩ := exists_charBytes x
  refine ⟨b, hcons ▸ List.mem_cons_self, ?_⟩
  rw [Cursor.peekAt_eq, h.range_eq, bytes_cons, hcons]
  rfl

theorem sees_zero (h : Past mode c s taken rest) {p : Char → Bool} (hp : Uniform p) :
    c.sees 0 p = rest.head?.any p := by
  rw [Cursor.sees, Cursor.peekAt_eq, h.range_eq, ← List.head?_eq_getElem?, hp.any_head?_bytes]

theorem sees_one {x : Char} (h : Past mode c s taken (x :: rest)) (hx : IsAscii x)
    {p : Char → Bool} (hp : Uniform p) : c.sees 1 p = rest.head?.any p := by
  rw [Cursor.sees, Cursor.peekAt_eq, h.range_eq, bytes_cons_of_isAscii hx,
    List.getElem?_cons_succ, ← List.head?_eq_getElem?, hp.any_head?_bytes]

private theorem any_eq_decide (o : Option Char) (x : Char) :
    o.any (fun b => decide (b = x)) = decide (o = some x) := by
  cases o <;> simp

theorem sees_zero_eq (h : Past mode c s taken rest) {x : Char} (hx : IsAscii x) :
    c.sees 0 (· = x) = decide (rest.head? = some x) := by
  rw [h.sees_zero (.eq hx), any_eq_decide]

theorem sees_one_eq {x y : Char} (h : Past mode c s taken (x :: rest)) (hx : IsAscii x)
    (hy : IsAscii y) : c.sees 1 (· = y) = decide (rest.head? = some y) := by
  rw [h.sees_one hx (.eq hy), any_eq_decide]

/-! ### Moves -/

/-- The cursor may be put to any place of the text that the range is part of. -/
theorem place (taken' rest' : List Char) (h : Past mode c s taken rest)
    (hrest : taken ++ rest = taken' ++ rest') :
    Yields (c.place (s.offset + byteLength taken') c.stop) fun d => d.line = c.line ∧
      ∀ line, line = s.line + taken'.count '\n' → Past mode { d with line } s taken' rest' := by
  have hlength := congrArg byteLength hrest
  rw [byteLength_append, byteLength_append] at hlength
  have hpos := h.pos
  have hstop := h.stop
  rw [Cursor.place, dif_pos ⟨by omega, c.stop_le_size⟩]
  refine .pure ⟨rfl, fun line hline => ?_⟩
  have hstop' : c.stop = s.offset + byteLength taken' + byteLength rest' := by omega
  exact { h with
    rest_eq := h.rest_eq.trans hrest, pos := rfl, stop := hstop', line := hline
    sound := ⟨h.sound.lexemes, h.sound.ranges⟩ }

theorem count_append (h : Past mode c s taken rest) (more : List Char) :
    c.line + more.count '\n' = s.line + (taken ++ more).count '\n' := by
  rw [h.line, List.count_append, Nat.add_assoc]

theorem moveLines (more : List Char) (h : Past mode c s taken (more ++ rest)) :
    Yields (c.move (byteLength more)) fun d => d.line = c.line ∧
      ∀ line, line = c.line + more.count '\n' →
        Past mode { d with line } s (taken ++ more) rest := by
  have hpos : c.pos + byteLength more = s.offset + byteLength (taken ++ more) := by
    rw [h.pos, byteLength_append, Nat.add_assoc]
  rw [Cursor.move, hpos, h.count_append]
  exact h.place _ rest (List.append_assoc ..).symm

theorem move (more : List Char) (h : Past mode c s taken (more ++ rest)) (hline : '\n' ∉ more)
    {n : Nat} (hn : n = byteLength more) : Yields (c.move n) fun d => Past mode d s (taken ++ more) rest := by
  rw [hn]
  refine (h.moveLines more).mono fun d ⟨hd, hpast⟩ => hpast d.line ?_
  rw [hd, List.count_eq_zero_of_not_mem hline, Nat.add_zero]

/-- Past one character of one byte. -/
theorem moveOne {x : Char} (h : Past mode c s taken (x :: rest)) (hx : IsAscii x)
    (hline : '\n' ≠ x) : Yields (c.move 1) fun d => Past mode d s (taken ++ [x]) rest := by
  refine h.move [x] (by simpa using hline) ?_
  rw [byteLength_of_isAscii (by simpa using hx), List.length_singleton]

theorem newline (h : Past mode c s taken ('\n' :: rest)) :
    Yields c.newline fun d => Past mode d s (taken ++ ['\n']) rest := by
  refine (h.moveLines ['\n']).bind fun d ⟨hd, hpast⟩ => .pure ?_
  exact hpast (d.line + 1) (by rw [hd]; rfl)

theorem skipToEnd (h : Past mode c s taken rest) :
    Yields c.skipToEnd fun d => Past mode d s (taken ++ rest) [] := by
  have hstop : c.stop = s.offset + byteLength (taken ++ rest) := by
    rw [h.stop, h.pos, byteLength_append, Nat.add_assoc]
  have hplace := h.place (taken ++ rest) [] (List.append_nil _).symm
  rw [← hstop] at hplace
  refine hplace.bind fun d ⟨_, hpast⟩ => .pure (hpast _ ?_)
  rw [h.range_eq, count_bytes (by decide), h.count_append]

/-- Back to a place before the text that was passed last. -/
theorem back {rest' : List Char} (h : Past mode c s taken rest)
    (hd : Past mode d s (taken ++ more) rest') (hline : '\n' ∉ more) :
    Yields (d.place c.pos d.stop) fun d => Past mode d s taken rest := by
  rw [h.pos]
  have hrest := hd.rest_eq.symm.trans h.rest_eq
  refine (hd.place taken rest hrest).mono fun e ⟨he, hpast⟩ => hpast e.line ?_
  rw [he, hd.line, List.count_append, List.count_eq_zero_of_not_mem hline, Nat.add_zero]

theorem skipWhile {p : Char → Bool} (h : Past mode c s taken rest) (hp : Uniform p)
    (hline : p '\n' = false) : Yields (c.skipWhile p) fun d =>
      Past mode d s (taken ++ rest.takeWhile p) (rest.dropWhile p) := by
  rw [Cursor.skipWhile_eq, h.range_eq, hp.takeWhile_bytes, length_bytes]
  rw [← List.takeWhile_append_dropWhile (p := p) (l := rest)] at h
  exact h.move _ (Token.newline_not_mem_takeWhile hline rest) rfl

/-- Past one character, whatever its length. -/
theorem bumpChar {ch : Char} (h : Past mode c s taken (ch :: rest)) :
    Yields c.bumpChar fun r => r.1 = some ch ∧ Past mode r.2 s (taken ++ [ch]) rest := by
  have hmove : Yields (c.movePast ch) fun d => Past mode d s (taken ++ [ch]) rest := by
    rw [Cursor.movePast]
    split
    next hch =>
      subst hch
      exact h.newline
    next hch => exact h.move [ch] (by simpa using Ne.symm hch) (by simp)
  rw [Cursor.bumpChar, h.cut_rest, ok_bind, String.toList_ofList]
  exact hmove.bind fun d hd => .pure ⟨rfl, hd⟩

theorem bumpChar_nil (h : Past mode c s taken []) : c.bumpChar = .ok (none, c) := by
  rw [Cursor.bumpChar, h.cut_rest]
  rfl

theorem report (h : Past mode c s taken rest) (description : String) (offset line : Nat)
    (lexeme : String) : Past mode (c.report description offset line lexeme)
      (s.report src description offset line lexeme) taken rest := by
  have herrors := h.errors
  exact { h with
    errors := by rw [Cursor.report, State.report, herrors]
    sound := ⟨h.sound.lexemes, h.sound.ranges⟩ }

end Past

end Scan

end LimitSyntax
