import LineGrammar.Proofs.Rendering

/-! Checking the output of a session again. Every record is read back as one line, and the verdict
on it is of the same class: a line that is accepted or blank stands in the output as it was, and
behind the label of an error every text is rejected. -/

namespace LineGrammar

/-- Defects aside, the verdicts are the same. -/
inductive Verdict.SameClass : Verdict → Verdict → Prop where
  | blank : SameClass .blank .blank
  | accepted (kind : Kind) : SameClass (.accepted kind) (.accepted kind)
  | rejected (defect again : Defect) : SameClass (.rejected defect) (.rejected again)

/-- A report on the output line of a report. -/
structure Report.Rechecked (r again : Report) : Prop where
  line : again.line = r.line
  text : again.text = dropFinal '\r' r.render
  verdict : r.verdict.SameClass again.verdict

theorem Tally.add_of_sameClass {v w : Verdict} (h : v.SameClass w) (t : Tally) :
    t.add v = t.add w := by
  cases h <;> rfl

theorem Tally.addAll_of_rechecked {reports again : List Report}
    (h : List.Forall₂ Report.Rechecked reports again) (t : Tally) :
    t.addAll reports = t.addAll again := by
  induction h generalizing t with
  | nil => rfl
  | @cons r again _ _ hr _ ih =>
    have hh := ih (t.add r.verdict)
    rw [Tally.addAll, Tally.addAll] at hh ⊢
    rw [List.foldl_cons, List.foldl_cons, ← Tally.add_of_sameClass hr.verdict, hh]

theorem verdict_ofLine_dropFinal (line : Nat) (t : Text) :
    (Report.ofLine line (dropFinal '\r' t)).verdict = (Report.ofLine line t).verdict := by
  by_cases h : t.getLast? = some '\r'
  · obtain ⟨front, rfl⟩ := List.getLast?_eq_some_iff.mp h
    rw [dropFinal_concat, ofLine_append_carriageReturn]
  · rw [dropFinal, if_neg h]

theorem sameClass_render (line : Nat) (text : Text) :
    (Report.ofLine line text).verdict.SameClass
      (Report.ofLine line (Report.ofLine line text).render).verdict := by
  have hkept (hr : ∀ defect, (Report.ofLine line text).verdict ≠ .rejected defect) :
      (Report.ofLine line (Report.ofLine line text).render).verdict =
        (Report.ofLine line text).verdict := by
    rw [Report.render_of_not_rejected hr]
    rfl
  cases hv : (Report.ofLine line text).verdict with
  | blank =>
    rw [hkept (by simp [hv]), hv]
    exact .blank
  | accepted kind =>
    rw [hkept (by simp [hv]), hv]
    exact .accepted kind
  | rejected defect =>
    rw [Report.render_of_rejected hv]
    obtain ⟨again, ha⟩ := exists_rejected_of_errorLabel line _
    rw [ha]
    exact .rejected defect again

theorem rechecked_ofLine (line : Nat) (text : Text) :
    (Report.ofLine line text).Rechecked
      (Report.ofLine line (dropFinal '\r' (Report.ofLine line text).render)) := by
  refine ⟨rfl, rfl, ?_⟩
  rw [verdict_ofLine_dropFinal]
  exact sameClass_render line text

theorem forall₂_rechecked (line : Nat) (texts : List Text) :
    List.Forall₂ Report.Rechecked (reportsFrom line texts)
      (reportsFrom line ((reportsFrom line texts).map fun r => dropFinal '\r' r.render)) := by
  induction texts generalizing line with
  | nil => exact .nil
  | cons text texts ih => exact .cons (rechecked_ofLine line text) (ih (line + 1))

theorem lineText_outputLine (r : Report) : lineText r.outputLine = dropFinal '\r' r.render := by
  rw [lineText, Report.outputLine, dropFinal_concat, decode_dropFinal, decode_encode]

/-- Output lines are the lines of the output. -/
theorem cutAfter_outputLines {line : Nat} {texts : List Text} (h : ∀ text ∈ texts, '\n' ∉ text) :
    cutAfter (· == lineFeed) ((reportsFrom line texts).flatMap Report.outputLine) =
      (reportsFrom line texts).map Report.outputLine := by
  induction texts generalizing line with
  | nil => rfl
  | cons text texts ih =>
    have hn : lineFeed ∉ Utf8.encode (Report.ofLine line text).render :=
      lineFeed_not_mem_encode (newline_not_mem_render (h text (by simp)))
    have hfree : ∀ b ∈ Utf8.encode (Report.ofLine line text).render, (b == lineFeed) = false :=
      fun b hb => beq_eq_false_iff_ne.mpr fun he => hn (he ▸ hb)
    rw [reportsFrom_cons, List.flatMap_cons, List.map_cons, Report.outputLine, List.append_assoc,
      List.singleton_append, cutAfter_append hfree rfl, ih fun t ht => h t (by simp [ht])]

/-- A session over the output of another one counts the same and finds, line by line, verdicts of
the same class: blank lines are blank, accepted lines are accepted as what they were, and rejected
lines are rejected. -/
theorem ofRefills_output (bytes : Bytes) :
    let first := Session.ofRefills [.chunk bytes] .unlimited
    let second := Session.ofRefills [.chunk first.output] .unlimited
    ∃ (tally : Tally) (reports again : List Report),
      first.result = .ok tally ∧ second.result = .ok tally ∧
      (ReportStream.ofRefills [.chunk bytes]).untilEnd = reports.map .ok ∧
      (ReportStream.ofRefills [.chunk first.output]).untilEnd = again.map .ok ∧
      List.Forall₂ Report.Rechecked reports again := by
  intro first second
  let reports := Refill.reports [.chunk bytes]
  let again := Refill.reports [.chunk first.output]
  have hfirst : first = _ := Session.ofRefills_chunk (Sink.takes_unlimited _)
  have hsecond : second = _ := Session.ofRefills_chunk (Sink.takes_unlimited _)
  have hlines : Refill.inputLines [.chunk first.output] = reports.map Report.outputLine := by
    rw [hfirst, inputLines_chunk]
    exact cutAfter_outputLines fun _ => newline_not_mem_texts
  have hagain : again = reportsFrom 1 (reports.map fun r => dropFinal '\r' r.render) := by
    have htexts : lineText ∘ Report.outputLine = fun r => dropFinal '\r' r.render :=
      funext lineText_outputLine
    change Refill.reports [.chunk first.output] = _
    rw [Refill.reports, hlines, List.map_map, htexts]
  have hforall : List.Forall₂ Report.Rechecked reports again := by
    rw [hagain]
    exact forall₂_rechecked 1 _
  refine ⟨Tally.zero.addAll reports, reports, again, by rw [hfirst], ?_, untilEnd_chunk_reports _,
    untilEnd_chunk_reports _, hforall⟩
  rw [hsecond, Tally.addAll_of_rechecked hforall]

end LineGrammar
