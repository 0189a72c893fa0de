import LimitSyntax.Json
import Mathlib.Data.Nat.Digits.Defs

/-!
# Reading JSON

A reader for JSON texts without blanks (`Json.read?`). It knows nothing of how texts are written: a
text in quotation marks may hold all escapes of JSON, surrogates apart. A value that is written on
one line is read back as this value (`Json.read?_line`), so its line says all that there is to say
of it.
-/

namespace LimitSyntax.Json

/-! ## The reader -/

/-- The value of a hexadecimal digit. -/
def hexDigit? (c : Char) : Option Nat :=
  if '0' ≤ c ∧ c ≤ '9' then some (c.toNat - '0'.toNat)
  else if 'a' ≤ c ∧ c ≤ 'f' then some (c.toNat - 'a'.toNat + 10)
  else if 'A' ≤ c ∧ c ≤ 'F' then some (c.toNat - 'A'.toNat + 10)
  else none

/-- The number with the given hexadecimal digits. -/
def hexNumber? (digits : List Char) : Option Nat :=
  digits.foldlM (fun n c => (hexDigit? c).map (16 * n + ·)) 0

/-- The character that one behind a backslash stands for. -/
def unescape? : Char → Option Char
  | '\x22' => some '\x22'
  | '\x5c' => some '\x5c'
  | '/' => some '/'
  | 'b' => some '\x08'
  | 'f' => some '\x0c'
  | 'n' => some '\n'
  | 'r' => some '\r'
  | 't' => some '\t'
  | _ => none

/-- A text behind its opening quotation mark, and what is behind the closing one. -/
def readText? : List Char → Option (List Char × List Char)
  | [] => none
  | '\x22' :: cs => some ([], cs)
  | '\x5c' :: 'u' :: a :: b :: c :: d :: cs => do
    let n ← hexNumber? [a, b, c, d]
    let (text, rest) ← readText? cs
    return (Char.ofNat n :: text, rest)
  | '\x5c' :: c :: cs => do
    let c ← unescape? c
    let (text, rest) ← readText? cs
    return (c :: text, rest)
  | c :: cs => do
    if c < ' ' then none
    let (text, rest) ← readText? cs
    return (c :: text, rest)

/-- A number, and what is behind its digits. -/
def readNumber? (cs : List Char) : Option (Json × List Char) :=
  match cs.takeWhile Char.isDigit with
  | [] => none
  | digits => some (.number (Nat.ofDigitChars 10 digits 0), cs.dropWhile Char.isDigit)

mutual
/-- A value, and what is behind it. The bound is one on the number of characters. -/
def readValue? : Nat → List Char → Option (Json × List Char)
  | 0, _ => none
  | n + 1, cs =>
    match cs with
    | 'n' :: 'u' :: 'l' :: 'l' :: cs => some (.null, cs)
    | 't' :: 'r' :: 'u' :: 'e' :: cs => some (.bool true, cs)
    | 'f' :: 'a' :: 'l' :: 's' :: 'e' :: cs => some (.bool false, cs)
    | '\x22' :: cs => do
      let (text, rest) ← readText? cs
      return (.string (String.ofList text), rest)
    | '[' :: ']' :: cs => some (.array [], cs)
    | '[' :: cs => do
      let (elements, rest) ← readElements? n cs
      return (.array elements, rest)
    | '\x7b' :: '\x7d' :: cs => some (.object [], cs)
    | '\x7b' :: cs => do
      let (members, rest) ← readMembers? n cs
      return (.object members, rest)
    | cs => readNumber? cs

/-- Elements with commas between them, and what is behind the bracket that closes them. -/
def readElements? : Nat → List Char → Option (List Json × List Char)
  | 0, _ => none
  | n + 1, cs => do
    let (e, rest) ← readValue? n cs
    match rest with
    | ',' :: rest => do
      let (elements, rest) ← readElements? n rest
      return (e :: elements, rest)
    | ']' :: rest => return ([e], rest)
    | _ => none

/-- Members with commas between them, and what is behind the brace that closes them. -/
def readMembers? : Nat → List Char → Option (List (String × Json) × List Char)
  | 0, _ => none
  | n + 1, cs => do
    let '\x22' :: cs := cs | none
    let (key, rest) ← readText? cs
    let ':' :: rest := rest | none
    let (e, rest) ← readValue? n rest
    match rest with
    | ',' :: rest => do
      let (members, rest) ← readMembers? n rest
      return ((String.ofList key, e) :: members, rest)
    | '\x7d' :: rest => return ([(String.ofList key, e)], rest)
    | _ => none
end

/-- The value that the whole text stands for. -/
def read? (text : String) : Option Json :=
  match readValue? (text.toList.length + 1) text.toList with
  | some (j, []) => some j
  | _ => none

/-! ## Texts -/

theorem hexDigit?_digitChar : ∀ d < 16, hexDigit? (Nat.digitChar d) = some d := by decide

theorem hexNumber?_hexPair {n : Nat} (h : n < 256) :
    hexNumber? ('0' :: '0' :: hexPair n) = some n := by
  have hzero : hexDigit? '0' = some 0 := hexDigit?_digitChar 0 (by decide)
  have hhigh := hexDigit?_digitChar (n / 16 % 16) (Nat.mod_lt _ (by decide))
  have hlow := hexDigit?_digitChar (n % 16) (Nat.mod_lt _ (by decide))
  simp only [hexNumber?, hexPair, List.foldlM_cons, List.foldlM_nil, hzero, hhigh, hlow,
    Option.map_some, Option.bind_eq_bind, Option.bind_some, Option.pure_def, Option.some.injEq]
  omega

/-- A character is read back as it is written. -/
theorem readText?_escapeChar (c : Char) (rest : List Char) :
    readText? (escapeChar c ++ rest) = (readText? rest).map fun r => (c :: r.1, r.2) := by
  have hpair : ∀ d e, d ≠ 'u' → unescape? d = some e →
      readText? ('\x5c' :: d :: rest) = (readText? rest).map fun r => (e :: r.1, r.2) := by
    intro d e hd he
    rw [readText?]
    · rw [he]
      cases readText? rest <;> rfl
    · intro _ _ _ _ _ hu
      exact absurd hu hd
  unfold escapeChar
  split
  next h => rcases h with rfl | rfl <;> exact hpair _ _ (by decide) rfl
  next hmark =>
    split
    next h => exact h ▸ hpair 'n' _ (by decide) rfl
    split
    next h => exact h ▸ hpair 'r' _ (by decide) rfl
    split
    next h => exact h ▸ hpair 't' _ (by decide) rfl
    split
    next h => exact h ▸ hpair 'b' _ (by decide) rfl
    split
    next h => exact h ▸ hpair 'f' _ (by decide) rfl
    split
    next hcontrol =>
      have hlow : c.toNat < 256 := Nat.lt_of_lt_of_le hcontrol (by decide)
      have hnumber := hexNumber?_hexPair hlow
      simp only [hexPair] at hnumber
      simp only [hexPair, List.cons_append, List.nil_append, readText?, hnumber,
        Char.ofNat_toNat, Option.bind_eq_bind, Option.bind_some]
      cases readText? rest <;> rfl
    next hplain =>
      rw [not_or] at hmark
      rw [List.singleton_append, readText?]
      · simp only [hplain, if_false]
        cases readText? rest <;> rfl
      · exact hmark.1
      · exact fun _ _ _ _ _ h => absurd h hmark.2
      · exact fun _ _ h => absurd h hmark.2

/-- So is a text between quotation marks. -/
theorem readText?_flatMap (cs rest : List Char) :
    readText? (cs.flatMap escapeChar ++ '\x22' :: rest) = some (cs, rest) := by
  induction cs with
  | nil => rfl
  | cons c cs ih => rw [List.flatMap_cons, List.append_assoc, readText?_escapeChar, ih]; rfl

theorem toList_quote (s : String) :
    (quote s).toList = '\x22' :: (s.toList.flatMap escapeChar ++ ['\x22']) := String.toList_ofList

/-! ## Numbers -/

/-- The text does not go on with a digit. -/
def Bounded (rest : List Char) : Prop := ∀ c ∈ rest.head?, c.isDigit = false

theorem Bounded.cons {c : Char} (h : c.isDigit = false) (cs : List Char) : Bounded (c :: cs) := by
  rintro _ ⟨⟩
  exact h

theorem readNumber?_append (n : Nat) {rest : List Char} (h : Bounded rest) :
    readNumber? ((toString n).toList ++ rest) = some (.number n, rest) := by
  have hdigits : (toString n).toList = Nat.toDigits 10 n := String.toList_ofList
  have hall : ∀ c ∈ Nat.toDigits 10 n, c.isDigit = true := fun c hc =>
    Nat.isDigit_of_mem_toDigits (by decide) (by decide) hc
  have htake : rest.takeWhile Char.isDigit = [] := by
    cases rest with
    | nil => rfl
    | cons c cs => simp [h c rfl]
  have hdrop : rest.dropWhile Char.isDigit = rest := by
    cases rest with
    | nil => rfl
    | cons c cs => simp [h c rfl]
  rw [readNumber?, hdigits, List.takeWhile_append_of_pos hall, List.dropWhile_append_of_pos hall,
    htake, hdrop, List.append_nil]
  split
  next hnil => exact absurd hnil Nat.toDigits_ne_nil
  next => rw [Nat.ofDigitChars_ten_toDigits]

/-! ## Lines -/

/-- Elements behind the first one. -/
def moreElements (es : List Json) : List Char := es.flatMap fun e => ',' :: e.line.toList

/-- Elements with commas between them. -/
def elements : List Json → List Char
  | [] => []
  | e :: es => e.line.toList ++ moreElements es

/-- A member. -/
def member (m : String × Json) : List Char := (quote m.1).toList ++ ':' :: m.2.line.toList

/-- Members behind the first one. -/
def moreMembers (ms : List (String × Json)) : List Char := ms.flatMap fun m => ',' :: member m

/-- Members with commas between them. -/
def members : List (String × Json) → List Char
  | [] => []
  | m :: ms => member m ++ moreMembers ms

mutual
/-- A line is put behind what is there. -/
theorem toList_writeLine : ∀ (j : Json) (out : String),
    (writeLine out j).toList = out.toList ++ j.line.toList
  | .null, out | .bool _, out | .number _, out | .string _, out | .array [], out
  | .object [], out => by
    simp [writeLine, writeLineElements, writeLineMembers, line]
  | .array (e :: es), out => by
    have h : ∀ out, (writeLine out (.array (e :: es))).toList =
        out.toList ++ '[' :: (elements (e :: es) ++ [']']) := fun out => by
      simp [writeLine, writeLineElements, toList_writeLineElements es, toList_writeLine e, elements]
    rw [line, h out, h ""]
    rfl
  | .object ((key, e) :: ms), out => by
    have h : ∀ out, (writeLine out (.object ((key, e) :: ms))).toList =
        out.toList ++ '\x7b' :: (members ((key, e) :: ms) ++ ['\x7d']) := fun out => by
      simp [writeLine, writeLineMembers, toList_writeLineMembers ms, toList_writeLine e, members,
        member]
    rw [line, h out, h ""]
    rfl

theorem toList_writeLineElements : ∀ (es : List Json) (out : String),
    (writeLineElements out false es).toList = out.toList ++ moreElements es
  | [], out => by simp [writeLineElements, moreElements]
  | e :: es, out => by
    simp [writeLineElements, toList_writeLineElements es, toList_writeLine e, moreElements]

theorem toList_writeLineMembers : ∀ (ms : List (String × Json)) (out : String),
    (writeLineMembers out false ms).toList = out.toList ++ moreMembers ms
  | [], out => by simp [writeLineMembers, moreMembers]
  | (key, e) :: ms, out => by
    simp [writeLineMembers, toList_writeLineMembers ms, toList_writeLine e, moreMembers, member]
end

theorem toList_line_number (n : Nat) : (number n).line.toList = (toString n).toList := by
  simp [line, writeLine]

theorem toList_line_string (s : String) :
    (string s).line.toList = '\x22' :: (s.toList.flatMap escapeChar ++ ['\x22']) := by
  simp [line, writeLine, quote]

theorem toList_line_array (e : Json) (es : List Json) :
    (array (e :: es)).line.toList = '[' :: (elements (e :: es) ++ [']']) := by
  have h : (array (e :: es)).line =
      writeLineElements (writeLine ("" ++ "[") e) false es ++ "]" := rfl
  simp [h, toList_writeLineElements, toList_writeLine e, elements]

theorem toList_line_object (m : String × Json) (ms : List (String × Json)) :
    (object (m :: ms)).line.toList = '\x7b' :: (members (m :: ms) ++ ['\x7d']) := by
  have h : (object (m :: ms)).line = writeLineMembers
      (writeLine ("" ++ "\x7b" ++ quote m.1 ++ ":") m.2) false ms ++ "\x7d" := rfl
  simp [h, toList_writeLineMembers, toList_writeLine m.2, members, member]

/-! ## Values -/

/-- A line is not empty, and does not start with a bracket that closes something. -/
theorem line_head (j : Json) : ∃ c cs, j.line.toList = c :: cs ∧ c ≠ ']' := by
  cases j with
  | null => exact ⟨'n', _, rfl, by decide⟩
  | bool b =>
    cases b with
    | false => exact ⟨'f', _, rfl, by decide⟩
    | true => exact ⟨'t', _, rfl, by decide⟩
  | number n =>
    obtain ⟨c, cs, hdigits⟩ := List.exists_cons_of_ne_nil (Nat.toDigits_ne_nil (n := n) (b := 10))
    refine ⟨c, cs, by rw [toList_line_number, ← hdigits, Nat.toString_eq_ofList_toDigits,
      String.toList_ofList], ?_⟩
    rintro rfl
    have hdigit : (']' : Char).isDigit = true :=
      Nat.isDigit_of_mem_toDigits (by decide) (by decide) (hdigits ▸ List.mem_cons_self)
    exact absurd hdigit (by decide)
  | string s => exact ⟨'\x22', _, toList_line_string s, by decide⟩
  | array es =>
    cases es with
    | nil => exact ⟨'[', _, rfl, by decide⟩
    | cons e es => exact ⟨'[', _, toList_line_array e es, by decide⟩
  | object ms =>
    cases ms with
    | nil => exact ⟨'\x7b', _, rfl, by decide⟩
    | cons m ms => exact ⟨'\x7b', _, toList_line_object m ms, by decide⟩

/-- The value is read back in front of anything that does not go on with a number. -/
def Reads (j : Json) : Prop :=
  ∀ (n : Nat) (rest : List Char), j.line.toList.length ≤ n → Bounded rest →
    readValue? n (j.line.toList ++ rest) = some (j, rest)

/-- One character at least is there to be read. -/
theorem Reads.of {j : Json} (h : ∀ (n : Nat) (rest : List Char), j.line.toList.length ≤ n + 1 →
    Bounded rest → readValue? (n + 1) (j.line.toList ++ rest) = some (j, rest)) : j.Reads := by
  intro n rest hn hrest
  cases n with
  | zero =>
    obtain ⟨c, cs, hline, -⟩ := line_head j
    rw [hline] at hn
    cases hn
  | succ n => exact h n rest hn hrest

theorem reads_number (k : Nat) : (number k).Reads := by
  refine .of fun n rest _ h => ?_
  obtain ⟨c, cs, hdigits⟩ := List.exists_cons_of_ne_nil (Nat.toDigits_ne_nil (n := k) (b := 10))
  have hc : c.isDigit = true :=
    Nat.isDigit_of_mem_toDigits (by decide) (by decide) (hdigits ▸ List.mem_cons_self)
  have hnumber := readNumber?_append k h
  have htext : (toString k).toList = c :: cs := String.toList_ofList.trans hdigits
  rw [htext, List.cons_append] at hnumber
  rw [toList_line_number, htext, List.cons_append, readValue?, hnumber]
  -- none of the other values starts with a digit
  all_goals
    intro _ heq
    exact absurd ((List.cons.inj heq).1 ▸ hc) (by decide)

theorem reads_string (s : String) : (string s).Reads := by
  refine .of fun n rest _ _ => ?_
  rw [toList_line_string, List.cons_append, List.append_assoc, readValue?, List.singleton_append,
    readText?_flatMap]
  simp

/-- Elements that are read back one by one are read back in a row. -/
theorem readElements?_elements (rest : List Char) {es : List Json} (h : ∀ e ∈ es, e.Reads)
    (hes : es ≠ []) {n : Nat} (hn : (elements es).length < n) :
    readElements? n (elements es ++ ']' :: rest) = some (es, rest) := by
  induction es generalizing n with
  | nil => exact absurd rfl hes
  | cons e es ih =>
    obtain ⟨n, rfl⟩ : ∃ k, n = k + 1 := ⟨n - 1, by omega⟩
    have he := h e List.mem_cons_self
    rw [elements, List.length_append] at hn
    cases es with
    | nil =>
      have hfirst := he n (']' :: rest) (by omega) (.cons (by decide) _)
      simp [elements, moreElements, readElements?, hfirst]
    | cons e' es =>
      have hmore : moreElements (e' :: es) = ',' :: elements (e' :: es) := rfl
      rw [hmore, List.length_cons] at hn
      have hfirst := he n (',' :: (elements (e' :: es) ++ ']' :: rest)) (by omega)
        (.cons (by decide) _)
      have hrest := ih (n := n) (fun d hd => h d (List.mem_cons_of_mem e hd)) (by simp) (by omega)
      rw [elements, hmore, List.append_assoc, List.cons_append, readElements?, hfirst]
      simp [hrest]

/-- So are members. -/
theorem readMembers?_members (rest : List Char) {ms : List (String × Json)}
    (h : ∀ m ∈ ms, m.2.Reads) (hms : ms ≠ []) {n : Nat} (hn : (members ms).length < n) :
    readMembers? n (members ms ++ '\x7d' :: rest) = some (ms, rest) := by
  induction ms generalizing n with
  | nil => exact absurd rfl hms
  | cons m ms ih =>
    obtain ⟨key, e⟩ := m
    obtain ⟨n, rfl⟩ : ∃ k, n = k + 1 := ⟨n - 1, by omega⟩
    have he := h (key, e) List.mem_cons_self
    rw [members, List.length_append, member, List.length_append, List.length_cons] at hn
    have hkey : ∀ cs, readText? (key.toList.flatMap escapeChar ++ ('\x22' :: cs)) =
      some (key.toList, cs) := readText?_flatMap key.toList
    cases ms with
    | nil =>
      have hfirst := he n ('\x7d' :: rest) (by omega) (.cons (by decide) _)
      simp [members, moreMembers, member, toList_quote, readMembers?, hkey, hfirst]
    | cons m' ms =>
      have hmore : moreMembers (m' :: ms) = ',' :: members (m' :: ms) := rfl
      rw [hmore, List.length_cons] at hn
      have hfirst := he n (',' :: (members (m' :: ms) ++ '\x7d' :: rest)) (by omega)
        (.cons (by decide) _)
      have hrest := ih (n := n) (fun d hd => h d (List.mem_cons_of_mem _ hd)) (by simp) (by omega)
      rw [members, hmore, member, toList_quote]
      generalize members (m' :: ms) = more at hfirst hrest
      simp [readMembers?, hkey, hfirst, hrest]

mutual
theorem reads : ∀ j : Json, j.Reads
  | .null | .bool true | .bool false | .array [] | .object [] => .of fun _ _ _ _ => rfl
  | .number k => reads_number k
  | .string s => reads_string s
  | .array (e :: es) => .of fun n rest hn _ => by
    rw [toList_line_array] at hn ⊢
    rw [List.length_cons, List.length_append, List.length_singleton] at hn
    have hread := readElements?_elements rest (reads_elements (e :: es)) (by simp)
      (show (elements (e :: es)).length < n by omega)
    obtain ⟨c, cs, hline, hc⟩ := line_head e
    rw [List.cons_append, List.append_assoc, List.singleton_append]
    rw [elements, hline, List.cons_append, List.cons_append] at hread ⊢
    rw [readValue?]
    · rw [hread]
      rfl
    · intro _ heq
      exact hc (List.cons.inj heq).1
  | .object (m :: ms) => .of fun n rest hn _ => by
    rw [toList_line_object] at hn ⊢
    rw [List.length_cons, List.length_append, List.length_singleton] at hn
    have hread := readMembers?_members rest (reads_members (m :: ms)) (by simp)
      (show (members (m :: ms)).length < n by omega)
    rw [List.cons_append, List.append_assoc, List.singleton_append, readValue?]
    · rw [hread]
      rfl
    · intro _ heq
      rw [members, member, toList_quote] at heq
      cases heq

theorem reads_elements : ∀ es : List Json, ∀ e ∈ es, e.Reads
  | [] => fun _ he => nomatch he
  | e :: es => List.forall_mem_cons.2 ⟨reads e, reads_elements es⟩

theorem reads_members : ∀ ms : List (String × Json), ∀ m ∈ ms, m.2.Reads
  | [] => fun _ hm => nomatch hm
  | (_, e) :: ms => List.forall_mem_cons.2 ⟨reads e, reads_members ms⟩
end

/-- A value is read back from its line. -/
theorem read?_line (j : Json) : read? j.line = some j := by
  have hread := reads j (j.line.toList.length + 1) [] (by omega) fun _ h => nomatch h
  rw [List.append_nil] at hread
  rw [read?, hread]

/-- Values are equal if their lines are. -/
theorem line_injective {j k : Json} (h : j.line = k.line) : j = k := by
  have hread := read?_line j
  rw [h, read?_line k] at hread
  exact (Option.some.inj hread).symm

end LimitSyntax.Json
