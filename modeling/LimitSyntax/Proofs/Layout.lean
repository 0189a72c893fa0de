import LimitSyntax.Token.Scan
import Mathlib.Data.List.Basic

/-!
# Texts laid out in a source

Spans tile a stretch of bytes if each of them starts where the one before it ends (`Span.Tiles`).
A source holds a text at a span if the text is the slice of the source there (`Source.Holds`), and
what it holds at the tiles of a stretch makes up what it holds at the stretch (`Source.Holds.join`).
-/

namespace LimitSyntax

namespace Text

@[simp] theorem byteLength_nil : byteLength [] = 0 := rfl

private theorem foldl_utf8Size (cs : List Char) (n : Nat) :
    cs.foldl (fun n c => n + c.utf8Size) n = n + byteLength cs := by
  induction cs generalizing n with
  | nil => rfl
  | cons c cs ih => simp only [byteLength, List.foldl_cons, ih (n + _), ih (0 + _)]; omega

@[simp] theorem byteLength_cons (c : Char) (cs : List Char) :
    byteLength (c :: cs) = c.utf8Size + byteLength cs := by
  rw [byteLength, List.foldl_cons, foldl_utf8Size, Nat.zero_add]

@[simp] theorem byteLength_append (cs ds : List Char) :
    byteLength (cs ++ ds) = byteLength cs + byteLength ds := by
  rw [byteLength, List.foldl_append, foldl_utf8Size, foldl_utf8Size, Nat.zero_add]

theorem utf8ByteSize_ofList (cs : List Char) :
    (String.ofList cs).utf8ByteSize = byteLength cs := by
  induction cs with
  | nil => rfl
  | cons c cs ih =>
    rw [← List.singleton_append, String.ofList_append, String.utf8ByteSize_append, ih]
    simp

end Text

/-! ## Spans -/

namespace Span

/-- The spans follow each other from `start` to `stop` without a gap. -/
def Tiles (start stop : Nat) : List Span → Prop
  | [] => start = stop
  | s :: ss => s.start = start ∧ start ≤ s.stop ∧ Tiles s.stop stop ss

instance Tiles.decide (start stop : Nat) : (ss : List Span) → Decidable (Tiles start stop ss)
  | [] => inferInstanceAs (Decidable (start = stop))
  | s :: ss =>
    have := Tiles.decide s.stop stop ss
    inferInstanceAs (Decidable (_ ∧ _ ∧ _))

namespace Tiles

theorem append {a b c : Nat} {ss ts : List Span} (hs : Tiles a b ss) (ht : Tiles b c ts) :
    Tiles a c (ss ++ ts) := by
  induction ss generalizing a with
  | nil => cases hs; exact ht
  | cons s ss ih => exact ⟨hs.1, hs.2.1, ih hs.2.2⟩

theorem of_append {a c : Nat} {ss ts : List Span} (h : Tiles a c (ss ++ ts)) :
    ∃ b, Tiles a b ss ∧ Tiles b c ts := by
  induction ss generalizing a with
  | nil => exact ⟨a, rfl, h⟩
  | cons s ss ih =>
    obtain ⟨b, hs, ht⟩ := ih h.2.2
    exact ⟨b, ⟨h.1, h.2.1, hs⟩, ht⟩

theorem singleton {a b : Nat} (h : a ≤ b) : Tiles a b [⟨a, b⟩] := ⟨rfl, h, rfl⟩

theorem le {a b : Nat} {ss : List Span} (h : Tiles a b ss) : a ≤ b := by
  induction ss generalizing a with
  | nil => exact Nat.le_of_eq h
  | cons s ss ih => exact Nat.le_trans h.2.1 (ih h.2.2)

theorem stop_unique {a b c : Nat} {ss : List Span} (h : Tiles a b ss) (h' : Tiles a c ss) :
    b = c := by
  induction ss generalizing a with
  | nil => exact h.symm.trans h'
  | cons s ss ih => exact ih h.2.2 h'.2.2

theorem start_unique {a b c : Nat} {ss : List Span} (h : Tiles a c ss) (h' : Tiles b c ss) :
    a = b := by
  cases ss with
  | nil => exact h.trans h'.symm
  | cons s ss => exact h.1.symm.trans h'.1

theorem last {a b : Nat} {ss : List Span} (h : Tiles a b ss) {s : Span}
    (hs : ss.getLast? = some s) : s.stop = b := by
  obtain ⟨ts, rfl⟩ := List.getLast?_eq_some_iff.1 hs
  obtain ⟨c, -, ht⟩ := of_append h
  exact ht.2.2

theorem mem {a b : Nat} {ss : List Span} (h : Tiles a b ss) {s : Span} (hs : s ∈ ss) :
    a ≤ s.start ∧ s.start ≤ s.stop ∧ s.stop ≤ b := by
  obtain ⟨ts, us, rfl⟩ := List.append_of_mem hs
  obtain ⟨c, hts, hstart, hle, hus⟩ := of_append h
  exact ⟨hstart ▸ hts.le, hstart ▸ hle, hus.le⟩

end Tiles

end Span

/-! ## Slices -/

namespace Source

/-- The bytes of a source at a span. -/
def slice (src : Source) (s : Span) : ByteArray := src.text.toByteArray.extract s.start s.stop

/-- The text stands in the source at the span. -/
def Holds (src : Source) (s : Span) (text : String) : Prop := src.slice s = text.toByteArray

instance (src : Source) (s : Span) (text : String) : Decidable (src.Holds s text) :=
  inferInstanceAs (Decidable (src.slice s = text.toByteArray))

/-- A text stands in a source behind the bytes of the text before it. -/
theorem holds_of_split {src : Source} {before text after : List Char}
    (h : src.text.toList = before ++ text ++ after) {start : Nat}
    (hs : Text.byteLength before = start) :
    src.Holds ⟨start, start + Text.byteLength text⟩ (String.ofList text) := by
  have htext : src.text = String.ofList before ++ (String.ofList text ++ String.ofList after) := by
    rw [← String.ofList_append, ← String.ofList_append, ← List.append_assoc, ← h,
      String.ofList_toList]
  have hsize : start = (String.ofList before).toByteArray.size := by
    rw [String.size_toByteArray, Text.utf8ByteSize_ofList, hs]
  have hlen : Text.byteLength text = (String.ofList text).toByteArray.size := by
    rw [String.size_toByteArray, Text.utf8ByteSize_ofList]
  rw [Holds, slice, htext, String.toByteArray_append, String.toByteArray_append, hsize, hlen]
  have hstep := ByteArray.extract_append_size_add (a := (String.ofList before).toByteArray)
    (b := (String.ofList text).toByteArray ++ (String.ofList after).toByteArray) (i := 0)
    (j := (String.ofList text).toByteArray.size)
  exact hstep.trans (ByteArray.extract_append_eq_left rfl)

theorem Holds.empty (src : Source) (offset : Nat) : src.Holds ⟨offset, offset⟩ "" :=
  ByteArray.extract_same

/-- What stands at adjacent spans stands in a row at the span they tile. -/
theorem Holds.join {src : Source} {α : Type} {span : α → Span} {text : α → String}
    {xs : List α} (hx : ∀ x ∈ xs, src.Holds (span x) (text x)) {a b : Nat}
    (h : Span.Tiles a b (xs.map span)) : src.Holds ⟨a, b⟩ (String.join (xs.map text)) := by
  induction xs generalizing a with
  | nil =>
    cases h
    exact .empty src _
  | cons x xs ih =>
    obtain ⟨h1, h2, h3⟩ := h
    have hhead := hx x List.mem_cons_self
    have htail := ih (fun y hy => hx y (List.mem_cons_of_mem _ hy)) h3
    rw [Holds, slice] at hhead htail ⊢
    rw [List.map_cons, String.join_cons, String.toByteArray_append, ← hhead, ← htail, h1,
      ByteArray.extract_append_extract, Nat.min_eq_left h2, Nat.max_eq_right h3.le]

/-- The text at the span of the whole source is the source. -/
theorem Holds.eq_text {src : Source} {text : String}
    (h : src.Holds ⟨0, src.text.utf8ByteSize⟩ text) : text = src.text := by
  rw [Holds, slice, ← String.size_toByteArray, ByteArray.extract_zero_size] at h
  exact (String.toByteArray_inj.1 h).symm

end Source

end LimitSyntax
