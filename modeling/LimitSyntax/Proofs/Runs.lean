import LimitSyntax.Command.Run
import LimitSyntax.Proofs.Citations
import LimitSyntax.Proofs.DataLines
import LimitSyntax.Proofs.Excerpts
import LimitSyntax.Proofs.Rows

/-!
# What the commands say of a source

A run parses its source in one of two modes, under one of two limits, and shows errors in its own
way. Whether there are any does not depend on that. If they are asked for as JSON, then each of them
takes one line.
-/

namespace LimitSyntax

/-! ## JSON -/

namespace Json

open Text (OneLine oneLine_toString)

theorem newline_not_mem_escapeChar (c : Char) : '\n' ∉ escapeChar c := by
  have hdigit : ∀ k < 16, Nat.digitChar k ≠ '\n' := by decide
  have hhex : '\n' ∉ hexPair c.toNat := by
    simp only [hexPair, List.mem_cons, List.not_mem_nil, or_false, not_or]
    exact ⟨(hdigit _ (Nat.mod_lt _ (by decide))).symm, (hdigit _ (Nat.mod_lt _ (by decide))).symm⟩
  unfold escapeChar
  split
  next h => rcases h with rfl | rfl <;> decide
  split
  next => decide
  next hfeed =>
    split
    · decide
    split
    · decide
    split
    · decide
    split
    · decide
    split
    · simpa using hhex
    · simpa using Ne.symm hfeed

theorem oneLine_quote (s : String) : OneLine (quote s) := by
  have hchars : ∀ cs : List Char, '\n' ∉ cs.flatMap escapeChar := by
    intro cs h
    obtain ⟨c, -, hc⟩ := List.mem_flatMap.1 h
    exact newline_not_mem_escapeChar c hc
  simp [OneLine, quote, hchars]

mutual
/-- A value on one line has no line feed in it. -/
theorem oneLine_writeLine {out : String} (h : OneLine out) : ∀ j, OneLine (writeLine out j)
  | .null => h.append (by decide)
  | .bool b => h.append (by cases b <;> decide)
  | .number n => h.append (oneLine_toString n)
  | .string s => h.append (oneLine_quote s)
  | .array elements =>
    (oneLine_writeLineElements (h.append (by decide)) true elements).append (by decide)
  | .object members =>
    (oneLine_writeLineMembers (h.append (by decide)) true members).append (by decide)

theorem oneLine_writeLineElements {out : String} (h : OneLine out) (first : Bool) :
    ∀ elements, OneLine (writeLineElements out first elements)
  | [] => h
  | e :: es =>
    have hcomma : OneLine (if first then out else out ++ ",") := by
      split
      exacts [h, h.append (by decide)]
    oneLine_writeLineElements (oneLine_writeLine hcomma e) false es

theorem oneLine_writeLineMembers {out : String} (h : OneLine out) (first : Bool) :
    ∀ members, OneLine (writeLineMembers out first members)
  | [] => h
  | (key, e) :: es =>
    have hcomma : OneLine (if first then out else out ++ ",") := by
      split
      exacts [h, h.append (by decide)]
    have hkey := (hcomma.append (oneLine_quote key)).append (t := ":") (by decide)
    oneLine_writeLineMembers (oneLine_writeLine hkey e) false es
end

theorem oneLine_line (j : Json) : OneLine j.line := oneLine_writeLine (by decide) j

end Json

/-! ## Whether there are errors -/

namespace Diagnostic.Collector

theorem Like.clean_iff {c c' : Collector} (h : c.Like c') :
    c.messages = #[] ↔ c'.messages = #[] := by
  have hsize : c.messages.size = c'.messages.size := h.size
  rw [← Array.size_eq_zero_iff, hsize, Array.size_eq_zero_iff]

end Diagnostic.Collector

namespace Grammar

open Diagnostic

/-- A parse that reports nothing under one limit reports nothing under another one. -/
theorem clean_of_limit {stream : Scan.Stream} {buildTree : Bool} {options : Options} {limit : Nat}
    (h : (runProgram stream { buildTree, maxErrors := limit } { options }).2.errors.messages = #[])
    (limit' : Nat) :
    (runProgram stream { buildTree, maxErrors := limit' } { options }).2.errors.messages = #[] := by
  rcases runProgram_follows stream buildTree options limit limit' with ⟨heq, -⟩ | hparted
  · rw [← heq]
    exact h
  · -- where the parses have parted, the first one has reported something
    cases hparted with
    | beyond hlong =>
      rw [h] at hlong
      exact absurd hlong (by simp)
    | capped _ hcapped =>
      obtain ⟨last, _, hlast, -⟩ := hcapped
      rw [h] at hlast
      exact absurd hlast (by simp)

/-- A source in which nothing is found under one limit has nothing wrong under another one, however
errors are shown. -/
theorem clean_parseScanned {source : Source} {mode : Scan.Mode} {buildTree : Bool}
    {options : Options} {limit : Nat}
    (h : (parseScanned source mode { buildTree, maxErrors := limit } { options }).2.messages = #[])
    (limit' : Nat) (options' : Options) :
    (parseScanned source mode { buildTree, maxErrors := limit' }
      { options := options' }).2.messages = #[] := by
  rw [(parseScanned_like source mode _ options' options).clean_iff]
  have hscan : (Scan.scan source mode { options }).2.messages = #[] := by
    rw [parseScanned] at h
    exact clean_of_parse h
  have hlike : (Scan.scan source mode { options }).2.Like {} := by
    rw [Collector.Like, hscan]
  rw [parseScanned, collector_parse] at h ⊢
  rw [(runProgram_like hlike _ _).2.clean_iff] at h ⊢
  exact clean_of_limit h limit'

/-- In both modes, a source is accepted or not. -/
theorem clean_lossless_iff (source : Source) (maxErrors : Nat) (errors : Collector) :
    (parseScanned source .lossless { buildTree := true, maxErrors } errors).2.messages = #[] ↔
      (parseScanned source .lossy { maxErrors } errors).2.messages = #[] := by
  by_cases h : ∀ m ∈ (Scan.scan source .lossless errors).2.messages, ¬ m.NamesStray
  · rw [(parseScanned_lossy source maxErrors errors h).2]
  · -- a stray character is reported in both
    push Not at h
    obtain ⟨m, hm, -⟩ := h
    have hlossless := errors_subset_parseScanned source errors .lossless
      { buildTree := true, maxErrors } m hm
    have hlossy := errors_subset_parseScanned source errors .lossy { maxErrors } m
      (Scan.errors_scan_lossy source errors ▸ hm)
    exact iff_of_false (Array.ne_empty_of_mem hlossless) (Array.ne_empty_of_mem hlossy)

/-- A source is a program if nothing is found in it, in either mode, under any limit and however
errors are shown. -/
theorem clean_iff_accepted (source : Source) (buildTree : Bool) (maxErrors : Nat)
    (options : Options) :
    (parseScanned source (if buildTree then .lossless else .lossy) { buildTree, maxErrors }
      { options }).2.messages = #[] ↔ ∃ program, parseProgram source = .ok program := by
  have haccepted : (∃ program, parseProgram source = .ok program) ↔
      (parseScanned source .lossy {} {}).2.messages = #[] := by
    simp only [parseProgram_eq_ok_iff, exists_and_left, exists_eq', and_true]
  have hlossy : (parseScanned source .lossy { maxErrors } { options }).2.messages = #[] ↔
      (parseScanned source .lossy {} {}).2.messages = #[] :=
    ⟨fun h => clean_parseScanned h _ _, fun h => clean_parseScanned h _ _⟩
  rw [haccepted, ← hlossy]
  cases buildTree with
  | false => rw [if_neg Bool.false_ne_true]
  | true =>
    rw [if_pos rfl]
    exact clean_lossless_iff source maxErrors { options }

end Grammar

/-! ## Runs -/

namespace Command

open Diagnostic Grammar

/-- How the errors of a run are shown. -/
def Request.shown (request : Request) (around : Surroundings) (settings : Settings) : Options :=
  { settings.render with
    colors := request.color.resolve settings.render.colors around.hasColors }

/-- The number of errors that ends the parse of a run. -/
def Request.limit (request : Request) (settings : Settings) : Nat :=
  if request.action = .check then (request.maxErrors.map (max 1)).getD settings.maxErrors
  else settings.maxErrors

/-- The request is about the source, which can be read and is not too large, and its settings can be
loaded. -/
structure Ready (around : Surroundings) (request : Request) (source : Source)
    (settings : Settings) : Prop where
  file : request.file = source.file
  text : around.files.text source.file = .ok source.text
  size : source.text.utf8ByteSize ≤ 1000000
  settings : Settings.load around.files request.config around.userSettings = .ok settings

section
variable {around : Surroundings} {request : Request} {source : Source} {settings : Settings}

/-- Every action but the list of tokens is a parse, for a tree or without one. -/
theorem perform_errors (haction : request.action ≠ .tokens) (errors : Collector) :
    (perform request settings.maxErrors source errors).2 =
      (parseScanned source (if request.action = .cst then .lossless else .lossy)
        { buildTree := request.action = .cst, maxErrors := request.limit settings } errors).2 := by
  cases h : request.action with
  | tokens => exact absurd h haction
  | parse | cst | check =>
    simp only [perform, Request.limit, parseScanned, h, reduceCtorEq, if_false, if_true,
      decide_false, decide_true, ← Scan.stream_scan]

/-- A check writes its errors as JSON. -/
theorem perform_check_json (haction : request.action = .check) (hformat : request.format = .json)
    (errors : Collector) :
    (perform request settings.maxErrors source errors).1 = String.join
      ((perform request settings.maxErrors source errors).2.messages.toList.map
        fun m => m.datum.json.line ++ "\n") := by
  simp only [perform, haction, hformat]

/-- There is a tree to show. -/
theorem perform_cst (haction : request.action = .cst) (errors : Collector) :
    ∃ tree, (parseSource source { buildTree := true, maxErrors := request.limit settings }
        errors).1.tree = some tree ∧
      (perform request settings.maxErrors source errors).1 =
        request.format.write tree.datum tree.dump := by
  have hlimit : request.limit settings = settings.maxErrors := if_neg (by rw [haction]; decide)
  obtain ⟨tree, htree, -⟩ := ordered_parseSource source (request.limit settings) errors
  refine ⟨tree, htree, ?_⟩
  rw [tree_parseSource, hlimit, parseScanned, ← Scan.stream_scan] at htree
  simp [perform, haction, htree]

/-- Where nothing is in the way, a run does what is asked for. -/
theorem Ready.run_eq_ok (h : Ready around request source settings) :
    ∃ err, run around request = .ok
      ⟨(perform request settings.maxErrors source { options := request.shown around settings }).1,
        err,
        (perform request settings.maxErrors source
          { options := request.shown around settings }).2.size⟩ := by
  have hsource : readSource around.files request.file = .ok source := by
    have hsize : ¬ source.text.utf8ByteSize > maxSourceSize := Nat.not_lt.2 h.size
    rw [readSource, h.file, h.text]
    show (if source.text.utf8ByteSize > maxSourceSize then _ else _) = _
    rw [if_neg hsize]
    rfl
  simp only [run, h.settings, hsource, Except.mapError, bind, Except.bind, pure, Except.pure]
  exact ⟨_, rfl⟩

/-- A run finds nothing if and only if the source is a program. -/
theorem Ready.clean_iff (h : Ready around request source settings)
    (haction : request.action ≠ .tokens) : ∃ outcome, run around request = .ok outcome ∧
      (outcome.isClean = true ↔ ∃ program, parseProgram source = .ok program) := by
  obtain ⟨err, hrun⟩ := h.run_eq_ok
  refine ⟨_, hrun, ?_⟩
  rw [← clean_iff_accepted source (request.action = .cst) (request.limit settings)
    (request.shown around settings), perform_errors haction]
  simp [Outcome.isClean, Collector.size]

/-- Of runs under one limit that make no tree, one finds as much as the other. -/
theorem Ready.errors_eq {request' : Request} {settings' : Settings}
    (h : Ready around request source settings) (h' : Ready around request' source settings')
    (haction : request.action = .check) (haction' : request'.action = .parse)
    (hlimit : request.limit settings = request'.limit settings') :
    ∃ outcome outcome', run around request = .ok outcome ∧ run around request' = .ok outcome' ∧
      outcome.errors = outcome'.errors := by
  obtain ⟨err, hrun⟩ := h.run_eq_ok
  obtain ⟨err', hrun'⟩ := h'.run_eq_ok
  refine ⟨_, _, hrun, hrun', ?_⟩
  dsimp only
  rw [perform_errors (by simp [haction]), perform_errors (by simp [haction']), hlimit]
  simp only [haction, haction', reduceCtorEq, if_false, decide_false]
  exact (parseScanned_like ..).size

/-- What a check finds is written one error to a line, and the line holds all of the error. -/
theorem Ready.json_lines (h : Ready around request source settings)
    (haction : request.action = .check) (hformat : request.format = .json) :
    ∃ outcome, run around request = .ok outcome ∧
      ∃ errors, (parseSource source { maxErrors := request.limit settings }
          { options := request.shown around settings }).1.errors = errors ∧
        errors.length = outcome.errors ∧
        Text.splitLines outcome.out.toList =
          errors.map (fun m => m.datum.json.line.toList) ++ [[]] ∧
        ∀ m ∈ errors, Json.read? m.datum.json.line = some (.object m.members) := by
  obtain ⟨err, hrun⟩ := h.run_eq_ok
  have hnot : request.action ≠ .tokens := by simp [haction]
  have herrors : (perform request settings.maxErrors source
      { options := request.shown around settings }).2.messages.toList =
        (parseSource source { maxErrors := request.limit settings }
          { options := request.shown around settings }).1.errors := by
    rw [errors_parseSource source _ _ .lossy rfl, perform_errors hnot]
    simp [haction]
  refine ⟨_, hrun, _, herrors.symm, Array.length_toList, ?_, fun m _ => m.read?_line⟩
  rw [perform_check_json haction hformat]
  generalize (perform request settings.maxErrors source
    { options := request.shown around settings }).2.messages.toList = errors
  have hlines : ∀ line ∈ errors.map (·.datum.json.line), Text.OneLine line :=
    List.forall_mem_map.2 fun m _ => m.datum.json.oneLine_line
  have hsplit := Text.splitLines_join hlines
  rwa [List.map_map, List.map_map] at hsplit

end

/-- The commands agree on what is a clean program. Let nothing be in the way of a source: its file
reads back as the source, it is not too large, and the settings can be loaded. Then a check of it
finds no error, under any limit, if and only if the source is a program, and so it is if the program
or the tree is shown, for which there is a tree. Under one limit a check finds as many errors as are
found when the program is shown. And a check writes the errors of the source as JSON in their order,
one to a line, and nothing else: what is read on the line of an error is an object with everything
there is to the error. -/
theorem runs_agree (around : Surroundings) (source : Source) :
    (∀ {request settings}, Ready around request source settings → request.action ≠ .tokens →
      ∃ outcome, run around request = .ok outcome ∧
        (outcome.isClean = true ↔ ∃ program, parseProgram source = .ok program) ∧
        (request.action = .cst → ∃ tree, (parseSource source
            { buildTree := true, maxErrors := request.limit settings }
            { options := request.shown around settings }).1.tree = some tree ∧
          outcome.out = request.format.write tree.datum tree.dump)) ∧
    (∀ {check parse settings settings'}, Ready around check source settings →
      Ready around parse source settings' → check.action = .check → parse.action = .parse →
      check.limit settings = parse.limit settings' →
      ∃ checked parsed, run around check = .ok checked ∧ run around parse = .ok parsed ∧
        checked.errors = parsed.errors) ∧
    ∀ {request settings}, Ready around request source settings → request.action = .check →
      request.format = .json → ∃ outcome, run around request = .ok outcome ∧
        ∃ errors, (parseSource source { maxErrors := request.limit settings }
            { options := request.shown around settings }).1.errors = errors ∧
          errors.length = outcome.errors ∧
          Text.splitLines outcome.out.toList =
            errors.map (fun m => m.datum.json.line.toList) ++ [[]] ∧
          ∀ m ∈ errors, Json.read? m.datum.json.line = some (.object m.members) := by
  refine ⟨fun {request settings} h haction => ?_, Ready.errors_eq, Ready.json_lines⟩
  obtain ⟨outcome, hrun, hclean⟩ := h.clean_iff haction
  refine ⟨outcome, hrun, hclean, fun hcst => ?_⟩
  obtain ⟨err, hrun'⟩ := h.run_eq_ok
  obtain rfl := Except.ok.inj (hrun.symm.trans hrun')
  exact perform_cst hcst _

/-- A file with a stray parenthesis, and no settings. -/
theorem runs_agree_paren : ∃ (around : Surroundings) (source : Source),
    source = ⟨"x )", "a.lm"⟩ ∧
    (∀ action ∈ [Action.check, .parse, .cst], ∃ outcome,
      Ready around { action, file := "a.lm" } source {} ∧
      run around { action, file := "a.lm" } = .ok outcome ∧
        (outcome.isClean = true ↔ ∃ program, parseProgram source = .ok program)) ∧
    (∃ checked parsed, run around { action := .check, file := "a.lm" } = .ok checked ∧
      run around { action := .parse, file := "a.lm" } = .ok parsed ∧
      checked.errors = parsed.errors) ∧
    ∃ outcome, run around { action := .check, file := "a.lm", format := .json } = .ok outcome ∧
      ∃ errors, (parseSource source {} { options := { colors := false } }).1.errors = errors ∧
        errors.length = outcome.errors ∧ Text.splitLines outcome.out.toList =
          errors.map (fun m => m.datum.json.line.toList) ++ [[]] ∧
        (∀ m ∈ errors, Json.read? m.datum.json.line = some (.object m.members)) ∧
        errors.map (·.datum.json.line) = [
          "\x7b\"error_code\":\"E107\",\"error_type\":\"SyntaxError\"," ++
          "\"description\":\"Expected expression.\",\"file_path\":\"a.lm\",\"line\":1," ++
          "\"column\":3,\"problematic_token\":\")\",\"stage\":\"Syntax\"," ++
          "\"context_lines\":[\" 1 | x )\",\"   |   ^\"],\"hint\":\"An expression is a value, " ++
          "a variable, a call or an operation between them.\"," ++
          "\"suggestion\":\"Write an expression before ')'.\"\x7d"] := by
  obtain ⟨around, htext, hload, hterminal⟩ : ∃ around : Surroundings,
      around.files.text "a.lm" = .ok "x )" ∧
      Settings.load around.files none around.userSettings = .ok {} ∧ around.hasColors = false :=
    ⟨{ files := fun path => if path = "a.lm" then .ok "x )".toUTF8 else .error .notFound },
      rfl, rfl, rfl⟩
  have hready (action : Action) (format : Format) :
      Ready around { action, file := "a.lm", format } ⟨"x )", "a.lm"⟩ {} :=
    ⟨rfl, htext, by decide, hload⟩
  obtain ⟨hclean, hsame, hlines⟩ := runs_agree around ⟨"x )", "a.lm"⟩
  refine ⟨around, _, rfl, fun action haction => ?_, ?_, ?_⟩
  · have hnot : action ≠ .tokens := by
      rintro rfl
      exact absurd haction (by decide)
    obtain ⟨outcome, hrun, haccepted, -⟩ := hclean (hready action .pretty) hnot
    exact ⟨outcome, hready _ _, hrun, haccepted⟩
  · exact hsame (hready _ _) (hready _ _) rfl rfl rfl
  · have hwritten := hlines (hready .check .json) rfl rfl
    have hlimit : Request.limit { action := .check, file := "a.lm", format := .json } {} = 20 := rfl
    have hshown : Request.shown { action := .check, file := "a.lm", format := .json } around {} =
        { colors := false } := by rw [Request.shown, hterminal]; rfl
    rw [hlimit, hshown] at hwritten
    obtain ⟨outcome, hrun, errors, rfl, hcount, hsplit, hread⟩ := hwritten
    exact ⟨outcome, hrun, _, rfl, hcount, hsplit, hread, by decide +kernel⟩

end Command

end LimitSyntax
