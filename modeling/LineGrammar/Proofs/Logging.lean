import LineGrammar.CommandLine.Execution
import LineGrammar.Proofs.Dispatch
import LineGrammar.Proofs.LogLines
import LineGrammar.Proofs.Tallies

/-! The log accounts for a session. A line leaves the events that its report calls for, the lines
leave theirs in their order, and the tally at the end counts the verdicts that were told before it.
Each event is one line, and a less detailed log leaves lines out and changes nothing else. -/

namespace LineGrammar

/-- The events that a log shows. -/
def Verbosity.select (v : Verbosity) (events : List LogEvent) : List LogEvent :=
  events.filter (v.shows ·.level)

theorem Verbosity.select_append (v : Verbosity) (events more : List LogEvent) :
    v.select (events ++ more) = v.select events ++ v.select more :=
  List.filter_append ..

/-- The tokens of a line; none if it is blank. -/
def Report.tokens (r : Report) : List Token :=
  ((Statement.ofLine? r.line r.text).map Statement.tokens).getD []

namespace LogEvent

/-- The mark that ends a statement leaves no event. -/
def ofTokens (ts : List Token) : List LogEvent :=
  (ts.filter (!·.isMark)).map token

def ofReport (r : Report) : List LogEvent :=
  ofTokens r.tokens ++
    (if r.verdict = .rejected .unrecognized then
      [unrecognized r.line (r.tokens.map Token.category)]
    else []) ++ [verdict r.line r.verdict]

def ofItem : ReportStream.Item → List LogEvent
  | some (.ok r) => ofReport r
  | _ => []

def verdict? : LogEvent → Option Verdict
  | verdict _ found => some found
  | _ => none

theorem ofTokens_append (ts more : List Token) :
    ofTokens (ts ++ more) = ofTokens ts ++ ofTokens more := by
  rw [ofTokens, List.filter_append, List.map_append]
  rfl

/-- Only the verdict among the events of a line is one. -/
theorem filterMap_verdict?_ofReport (r : Report) :
    (ofReport r).filterMap verdict? = [r.verdict] := by
  have htokens : (ofTokens r.tokens).filterMap verdict? = [] := by
    rw [ofTokens, List.filterMap_map]
    exact List.filterMap_eq_nil_iff.mpr fun _ _ => rfl
  rw [ofReport, List.filterMap_append, List.filterMap_append, htokens]
  split <;> rfl

theorem filterMap_verdict?_flatMap (reports : List Report) :
    (reports.flatMap ofReport).filterMap verdict? = reports.map Report.verdict := by
  induction reports with
  | nil => rfl
  | cons r reports ih =>
    rw [List.flatMap_cons, List.filterMap_append, filterMap_verdict?_ofReport, ih]
    rfl

end LogEvent

section

open Statement

theorem check_ne_unrecognized (cs : List Category) : Operand.check cs ≠ .error .unrecognized := by
  intro h
  rcases defect_of_check h with hd | hd <;> cases hd

theorem checkGuard_ne_unrecognized (cs : List Category) :
    checkGuard cs ≠ .error .unrecognized := by
  rw [checkGuard]
  split
  · simp
  · intro h
    cases hl : Operand.check (cs.tail.dropLast.takeWhile (· != .comparison)) with
    | ok done =>
      rw [hl] at h
      exact check_ne_unrecognized _ h
    | error defect =>
      rw [hl] at h
      cases h
      exact check_ne_unrecognized _ hl
  · simp

/-- A rule that is reached has something else to say. -/
theorem check_ne_unrecognized_of_ruleOf? {head : Category} {cs : List Category} {rule : Rule}
    (h : ruleOf? head cs = some rule) : rule.check cs ≠ .error .unrecognized := by
  cases rule with
  | declaration =>
    rw [Rule.check, checkDeclaration]
    split <;> simp
  | guard => exact checkGuard_ne_unrecognized cs
  | assignment =>
    have hsecond := second_of_assignment h
    rw [Rule.check, checkAssignment.eq_def]
    split
    · exact check_ne_unrecognized _
    · simp
    · cases hsecond

theorem rule_eq_unrecognized_iff (head : Category) (cs : List Category) :
    rule head cs = .error .unrecognized ↔ ruleOf? head cs = none := by
  rw [rule_eq]
  cases hr : ruleOf? head cs with
  | none => simp
  | some rule => simp [map_eq_error_iff, check_ne_unrecognized_of_ruleOf? hr]

end

namespace Logged

variable (v : Verbosity)

theorem events_write (e : LogEvent) : (write v e).events = v.select [e] := by
  rw [write, Verbosity.select, List.filter_cons, List.filter_nil]

theorem events_token (w : Word) : (token v w).events = v.select (LogEvent.ofTokens [w.token]) := by
  have hword : LogEvent.ofTokens [w.token] = [.token w.token] := by
    rw [LogEvent.ofTokens, List.filter_cons, isMark_token]
    rfl
  rw [token, events_bind, events_write, events_pure, List.append_nil, hword]

theorem events_closingTokens (mark : EndMark) (w : Word) :
    (closingTokens v mark w).events = v.select (LogEvent.ofTokens (w.closingTokens mark)) := by
  have hmark : LogEvent.ofTokens
      (if w.body mark = w then [] else [⟨[mark.char], .endMark mark, w.stop - 1⟩]) = [] := by
    split <;> rfl
  rw [closingTokens, Word.closingTokens, LogEvent.ofTokens_append, hmark, List.append_nil]
  split
  · rfl
  · rw [events_bind, events_token, events_pure, List.append_nil]

theorem events_tokensOf (mark : EndMark) (ws : List Word) :
    (tokensOf v mark ws).events = v.select (LogEvent.ofTokens (Statement.tokensOf mark ws)) := by
  induction ws with
  | nil => rfl
  | cons w ws ih =>
    cases ws with
    | nil => exact events_closingTokens v mark w
    | cons next later =>
      rw [tokensOf, Statement.tokensOf, events_bind, events_bind, events_pure, List.append_nil, ih,
        events_token, ← Verbosity.select_append, ← LogEvent.ofTokens_append]
      rfl

theorem events_ofLine? (line : Nat) (text : Text) :
    (ofLine? v line text).events = v.select (LogEvent.ofTokens
      (((Statement.ofLine? line text).map Statement.tokens).getD [])) := by
  rw [ofLine?, Statement.ofLine?]
  cases text.words with
  | nil => rfl
  | cons first later =>
    have hh := events_tokensOf v (Statement.headOf first later).requiredMark (first :: later)
    exact (List.append_nil _).trans hh

theorem events_rule (line : Nat) (head : Category) (cs : List Category) :
    (rule v line head cs).events =
      v.select (if Statement.rule head cs = .error .unrecognized then [.unrecognized line cs]
        else []) := by
  -- The event stands in the last arm only, so it must be shown that no other arm gives its defect.
  simp only [rule_eq_unrecognized_iff]
  cases head
  case declaration => rfl
  case conditional => rfl
  case loop => rfl
  all_goals
    simp only [rule, Statement.ruleOf?]
    split
    · rfl
    · rw [events_bind, events_write, events_pure, List.append_nil]
      rfl

theorem events_judge (s : Statement) :
    (judge v s).events =
      v.select (if s.judge = .error .unrecognized then [.unrecognized s.line s.categories]
        else []) := by
  rw [judge, Statement.judge]
  split
  · rfl
  · cases s.tokens.find? (·.category == .unknown) with
    | none => exact events_rule v s.line s.head s.categories
    | some t => rfl

theorem events_verdict (s : Statement) :
    (verdict v (some s)).events =
      v.select (if Verdict.ofStatement s = .rejected .unrecognized then
        [.unrecognized s.line s.categories] else []) := by
  have hj := events_judge v s
  rw [verdict, events_bind, value_judge, hj, Verdict.ofStatement]
  cases s.judge with
  | ok kind => rfl
  | error defect =>
    simp only [events_pure, List.append_nil, Except.error.injEq, Verdict.rejected.injEq]

/-- The events of one line. -/
theorem events_report (line : Nat) (text : Text) :
    (report v line text).events = v.select (LogEvent.ofReport (Report.ofLine line text)) := by
  have hverdict : (verdict v (Statement.ofLine? line text)).events =
      v.select (if (Report.ofLine line text).verdict = .rejected .unrecognized then
        [.unrecognized line ((Report.ofLine line text).tokens.map Token.category)] else []) := by
    rw [Report.ofLine, Report.tokens]
    cases hs : Statement.ofLine? line text with
    | none => rfl
    | some s =>
      have hline : s.line = line := by
        obtain ⟨_, _, _, rfl⟩ := Statement.ofLine?_eq_some hs
        rfl
      rw [events_verdict, hline]
      rfl
  rw [report, events_bind, events_bind, events_bind, events_pure, List.append_nil, value_ofLine?,
    value_verdict, events_ofLine?, events_write, hverdict, ← Verbosity.select_append,
    ← Verbosity.select_append, LogEvent.ofReport, List.append_assoc]
  rfl

/-- What a line is read as tells the events of a step. -/
theorem events_next (s : ReportStream) :
    (next v s).events = v.select (LogEvent.ofItem s.next.1) := by
  rw [next, ReportStream.next]
  split
  · rfl
  · cases s.reader.readLine with
    | mk read reader =>
      cases read with
      | line bytes =>
        exact (List.append_nil _).trans (events_report v (s.line + 1) (lineText bytes))
      | ended => rfl
      | failed fault => rfl

theorem finish_of_flush {sink : Sink} (h : sink.flush = .ok ()) (tally : Tally) :
    finish v sink tally = ⟨⟨[], .ok tally⟩, v.select [.finished tally]⟩ := by
  rw [finish, h, ← events_write]
  dsimp only [bind, pure]
  rw [List.append_nil]

/-- Without its log, a session is what it is without a log. -/
theorem value_session (sink : Sink) (tally : Tally) (s : ReportStream) :
    (session v sink tally s).value = Session.deliver sink tally s.untilEnd := by
  induction hn : s.reader.size using Nat.strongRecOn generalizing sink tally s with
  | ind n ih =>
    rw [session_eq, value_bind, value_next]
    cases hi : s.next.1 with
    | none =>
      rw [ReportStream.untilEnd_of_none hi, Session.deliver, finish]
      cases sink.flush <;> rfl
    | some item =>
      have hlt : s.next.2.reader.size < n := hn ▸ ReportStream.size_next_lt (by simp [hi])
      rw [ReportStream.untilEnd_of_some hi]
      cases item with
      | error fault => rfl
      | ok report =>
        rw [Session.deliver]
        dsimp only
        cases sink.write report.outputLine with
        | mk taken later =>
          cases later with
          | error fault => rfl
          | ok later =>
            dsimp only
            rw [value_bind, value_pure, ih _ hlt later _ s.next.2 rfl]

/-- The log of a session that goes well: the events of the lines in their order, and the tally. -/
theorem events_session {s : ReportStream} {reports : List Report}
    (hu : s.untilEnd = reports.map .ok) {sink : Sink}
    (ht : sink.Takes (reports.flatMap Report.outputLine)) (tally : Tally) :
    (session v sink tally s).events =
      v.select (reports.flatMap LogEvent.ofReport ++ [.finished (tally.addAll reports)]) := by
  -- Each report moves the stream, the sink and the tally on, so none of them is fixed.
  induction reports generalizing s sink tally with
  | nil =>
    have hi : s.next.1 = none := by
      cases hi : s.next.1 with
      | none => rfl
      | some item => simp [ReportStream.untilEnd_of_some hi] at hu
    rw [session_eq, events_bind, value_next, events_next, hi,
      finish_of_flush v (Sink.takes_nil_iff.mp ht)]
    rfl
  | cons report reports ih =>
    obtain ⟨later, hw, hlater⟩ := Sink.takes_append_iff.mp ht
    cases hi : s.next.1 with
    | none => simp [ReportStream.untilEnd_of_none hi] at hu
    | some item =>
      rw [ReportStream.untilEnd_of_some hi, List.map_cons] at hu
      obtain ⟨rfl, hrest⟩ := List.cons.inj hu
      have hh := ih hrest hlater (tally.add report.verdict)
      rw [session_eq, events_bind, value_next, events_next, hi]
      dsimp only
      rw [hw]
      dsimp only
      rw [events_bind, events_pure, List.append_nil, hh, ← Verbosity.select_append,
        List.flatMap_cons, List.append_assoc]
      rfl

end Logged

namespace Transcript

theorem ofRefills_eq (summarizes : Bool) (v : Verbosity) {refills : List Refill}
    {reports : List Report} (hu : (ReportStream.ofRefills refills).untilEnd = reports.map .ok) :
    ofRefills summarizes v refills =
      ⟨0, reports.flatMap Report.outputLine,
        (v.select (reports.flatMap LogEvent.ofReport ++
          [.finished (Tally.zero.addAll reports)])).map LogEvent.render ++
        if summarizes then [(Tally.zero.addAll reports).render] else []⟩ := by
  have ht := Sink.takes_unlimited (reports.flatMap Report.outputLine)
  rw [ofRefills, Logged.value_session, Logged.events_session v hu ht, hu,
    Session.deliver_of_takes ht]

/-- A transcript that does not tell of a failure comes from a session that goes well. -/
theorem untilEnd_of_exitCode {summarizes : Bool} {v : Verbosity} {refills : List Refill}
    (h : (ofRefills summarizes v refills).exitCode = 0) :
    (ReportStream.ofRefills refills).untilEnd = (Refill.reports refills).map .ok := by
  rw [ofRefills, Logged.value_session] at h
  split at h
  · next tally hr => exact (Session.ofRefills_eq_of_ok hr).1
  · cases h

end Transcript

/-- What an invocation that goes well writes besides its output: for each line the events that its
report calls for, the numbers of the verdicts among them, and behind all of them the summary with
the same numbers, if it is asked for. Each event is one line of the log, and those lines are left
out that are too detailed for its setting. -/
theorem execute_log {arguments : List Text} {input : Bytes} {files : Directory}
    {setting? : Option String} {levels : List Level} {i : Invocation} {t : Transcript}
    (hl : Level.ShownAt setting? levels) (hi : Invocation.ofArguments arguments = .ok i)
    (ht : execute arguments input files (.ofSetting (setting?.map String.toList)) = .transcript t)
    (hx : t.exitCode = 0) :
    ∃ (refills : List Refill) (checked accepted rejected blank : Nat) (lines : List LogLine),
      let reports := Refill.reports refills
      let told : List LogEvent := reports.flatMap LogEvent.ofReport
      let tally : Tally := ⟨checked, accepted, rejected, blank⟩
      let summary :=
        s!"{checked} lines checked: {accepted} accepted, {rejected} rejected, {blank} blank"
      i.source.refills? input files = some refills ∧
      (ReportStream.ofRefills refills).untilEnd = reports.map .ok ∧
      t.output = reports.flatMap (fun r => Utf8.encode r.render ++ [lineFeed]) ∧
      tally = Tally.ofVerdicts (told.filterMap LogEvent.verdict?) ∧
      List.Forall₂ LogEvent.Written (told ++ [.finished tally]) lines ∧
      t.notes = (lines.filter (·.level ∈ levels)).map (·.text.toList) ++
        (if i.summarizes then [summary.toList] else []) ∧
      (setting? = some "trace" → lines.filter (·.level ∈ levels) = lines) := by
  rw [execute, hi] at ht
  dsimp only at ht
  cases hr : i.source.refills? input files with
  | none =>
    rw [hr, Invocation.reply] at ht
    cases ht
    cases hx
  | some refills =>
    rw [hr, Invocation.reply] at ht
    cases ht
    have hu := Transcript.untilEnd_of_exitCode hx
    have htally : Tally.zero.addAll (Refill.reports refills) = Tally.ofVerdicts
        (((Refill.reports refills).flatMap LogEvent.ofReport).filterMap LogEvent.verdict?) := by
      rw [Tally.zero_addAll, LogEvent.filterMap_verdict?_flatMap]
    have hnotes := map_render_filter hl.shows_ofSetting ((Refill.reports refills).flatMap
      LogEvent.ofReport ++ [.finished (Tally.zero.addAll (Refill.reports refills))])
    rw [Transcript.ofRefills_eq _ _ hu]
    generalize Tally.zero.addAll (Refill.reports refills) = tally at htally hnotes ⊢
    obtain ⟨checked, accepted, rejected, blank⟩ := tally
    refine ⟨refills, checked, accepted, rejected, blank, _, rfl, hu, rfl, htally,
      LogEvent.forall₂_written _, ?_, ?_⟩
    · have hsummary := congrArg String.toList
        (Tally.ofList_render checked accepted rejected blank)
      rw [String.toList_ofList] at hsummary
      rw [Verbosity.select, hnotes, hsummary]
    · rintro rfl
      exact List.filter_eq_self.mpr fun line _ => decide_eq_true (hl.mem_of_trace line.level)

theorem execute_log_of_unrecognized :
    let arguments : List Text := ["-fs".toList, "-".toList]
    let input : Bytes := [53, 32, 120, 59, 10, 34, 0xCC, 0x81, 59, 10, 10]
    let i : Invocation := ⟨true, true, ['-']⟩
    let output : Bytes := Utf8.encode ("Error: Unrecognized Statement in line 5 x;\n" ++
      "Error: Unknown Token in line \"\u0301;\n\n").toList
    let log : List LogEvent := [.token ⟨['5'], .number, 0⟩, .token ⟨['x'], .identifier, 2⟩,
      .unrecognized 1 [.number, .identifier, .endMark .semicolon],
      .verdict 1 (.rejected .unrecognized), .token ⟨['"', '\u0301'], .unknown, 0⟩,
      .verdict 2 (.rejected (.unknownToken ['"', '\u0301'] 1)), .verdict 3 .blank,
      .finished ⟨2, 0, 2, 1⟩]
    let told : List LogEvent := [.unrecognized 1 [.number, .identifier, .endMark .semicolon],
      .verdict 1 (.rejected .unrecognized),
      .verdict 2 (.rejected (.unknownToken ['"', '\u0301'] 1)), .verdict 3 .blank,
      .finished ⟨2, 0, 2, 1⟩]
    let levels : List Level := [.error, .warn, .info, .debug]
    let summary := "2 lines checked: 0 accepted, 2 rejected, 1 blank"
    let t : Transcript := ⟨0, output, log.map LogEvent.render ++ [summary.toList]⟩
    let u : Transcript := ⟨0, output, told.map LogEvent.render ++ [summary.toList]⟩
    (Level.ShownAt (some "trace") [.error, .warn, .info, .debug, .trace] ∧
      Level.ShownAt (some "debug") levels ∧
      Invocation.ofArguments arguments = .ok i ∧
      execute arguments input [] (.ofSetting ((some "trace").map String.toList)) = .transcript t ∧
      execute arguments input [] (.ofSetting ((some "debug").map String.toList)) = .transcript u ∧
      t.exitCode = 0 ∧ u.exitCode = 0) ∧
    (∃ lines : List LogLine, List.Forall₂ LogEvent.Written log lines ∧
      t.notes = lines.map (·.text.toList) ++ [summary.toList]) ∧
    ∃ lines : List LogLine, List.Forall₂ LogEvent.Written log lines ∧
      u.notes = (lines.filter (·.level ∈ levels)).map (·.text.toList) ++ [summary.toList] := by
  intro arguments input i output log told levels summary t u
  have hi : Invocation.ofArguments arguments = .ok i := by decide
  have htally : Tally.zero.addAll (Refill.reports [.chunk input]) = ⟨2, 0, 2, 1⟩ := by decide
  have hlog : (Refill.reports [.chunk input]).flatMap LogEvent.ofReport ++
      [.finished ⟨2, 0, 2, 1⟩] = log := by
    decide
  have hcounts : Tally.ofVerdicts (((Refill.reports [.chunk input]).flatMap
      LogEvent.ofReport).filterMap LogEvent.verdict?) = ⟨2, 0, 2, 1⟩ := by
    decide
  have hout : (Refill.reports [.chunk input]).flatMap Report.outputLine = output := by decide
  have hrender : Tally.render ⟨2, 0, 2, 1⟩ = summary.toList := by decide
  have hsummary : s!"{2} lines checked: {0} accepted, {2} rejected, {1} blank" = summary := by
    decide
  have hrun (v : Verbosity) := Transcript.ofRefills_eq true v (untilEnd_chunk_reports input)
  rw [htally, hlog, hout, hrender] at hrun
  have ht : execute arguments input [] (.ofSetting (some "trace".toList)) = .transcript t := by
    rw [execute, hi]
    exact congrArg Reply.transcript (hrun (.ofSetting (some "trace".toList)))
  have hu : execute arguments input [] (.ofSetting (some "debug".toList)) = .transcript u := by
    rw [execute, hi]
    exact congrArg Reply.transcript (hrun (.ofSetting (some "debug".toList)))
  refine ⟨⟨.trace, .debug, hi, ht, hu, rfl, rfl⟩, ?_, ?_⟩
  · obtain ⟨refills, checked, accepted, rejected, blank, lines, hr, _, _, hc, hw, hn, hall⟩ :=
      execute_log .trace hi ht rfl
    obtain rfl : [.chunk input] = refills := Option.some.inj hr
    obtain ⟨rfl, rfl, rfl, rfl⟩ := Tally.mk.inj (hc.trans hcounts)
    rw [hall rfl] at hn
    exact ⟨lines, hlog ▸ hw, hsummary ▸ hn⟩
  · obtain ⟨refills, checked, accepted, rejected, blank, lines, hr, _, _, hc, hw, hn, _⟩ :=
      execute_log .debug hi hu rfl
    obtain rfl : [.chunk input] = refills := Option.some.inj hr
    obtain ⟨rfl, rfl, rfl, rfl⟩ := Tally.mk.inj (hc.trans hcounts)
    exact ⟨lines, hlog ▸ hw, hsummary ▸ hn⟩

end LineGrammar
