import LineGrammar.Proofs.Rendering

/-! Lines are independent, so inputs that end with a line may be joined: output is joined and tallies
are added up. A tally is the number of verdicts of each class on the lines that were read. -/

namespace LineGrammar

namespace Verdict

def isBlank : Verdict → Bool
  | blank => true
  | _ => false

def isAccepted : Verdict → Bool
  | accepted _ => true
  | _ => false

def isRejected : Verdict → Bool
  | rejected _ => true
  | _ => false

end Verdict

namespace Tally

instance : Add Tally where
  add t u := ⟨t.checked + u.checked, t.accepted + u.accepted, t.rejected + u.rejected,
    t.blank + u.blank⟩

theorem add_def (t u : Tally) :
    t + u = ⟨t.checked + u.checked, t.accepted + u.accepted, t.rejected + u.rejected,
      t.blank + u.blank⟩ :=
  rfl

def ofVerdicts (verdicts : List Verdict) : Tally :=
  ⟨verdicts.countP (!·.isBlank), verdicts.countP Verdict.isAccepted,
    verdicts.countP Verdict.isRejected, verdicts.countP Verdict.isBlank⟩

theorem ofVerdicts_append (verdicts more : List Verdict) :
    ofVerdicts (verdicts ++ more) = ofVerdicts verdicts + ofVerdicts more := by
  simp only [ofVerdicts, add_def, List.countP_append]

theorem ofVerdicts_cons (v : Verdict) (verdicts : List Verdict) :
    ofVerdicts (v :: verdicts) = ofVerdicts [v] + ofVerdicts verdicts :=
  ofVerdicts_append [v] verdicts

theorem add_verdict (t : Tally) (v : Verdict) : t.add v = t + ofVerdicts [v] := by
  cases v <;> rfl

theorem addAll_eq (t : Tally) (reports : List Report) :
    t.addAll reports = t + ofVerdicts (reports.map Report.verdict) := by
  induction reports generalizing t with
  | nil => rfl
  | cons report reports ih =>
    have hh : t.addAll (report :: reports) = (t.add report.verdict).addAll reports := rfl
    rw [hh, ih, add_verdict, List.map_cons, ofVerdicts_cons report.verdict (reports.map _)]
    simp only [add_def, Nat.add_assoc]

theorem zero_addAll (reports : List Report) :
    zero.addAll reports = ofVerdicts (reports.map Report.verdict) := by
  rw [addAll_eq]
  simp only [add_def, zero, Nat.zero_add]

theorem checked_ofVerdicts (verdicts : List Verdict) :
    (ofVerdicts verdicts).checked =
      (ofVerdicts verdicts).accepted + (ofVerdicts verdicts).rejected := by
  induction verdicts with
  | nil => rfl
  | cons v verdicts ih =>
    have hv : (ofVerdicts [v]).checked = (ofVerdicts [v]).accepted + (ofVerdicts [v]).rejected := by
      cases v <;> rfl
    rw [ofVerdicts_cons]
    simp only [add_def, ih, hv]
    omega

theorem checked_add_blank_ofVerdicts (verdicts : List Verdict) :
    (ofVerdicts verdicts).checked + (ofVerdicts verdicts).blank = verdicts.length := by
  have hsplit := List.length_eq_countP_add_countP Verdict.isBlank (l := verdicts)
  simp only [ofVerdicts, hsplit]
  simp [Nat.add_comm]

end Tally

theorem verdicts_reportsFrom (line line' : Nat) (texts : List Text) :
    (reportsFrom line texts).map Report.verdict = (reportsFrom line' texts).map Report.verdict := by
  induction texts generalizing line line' with
  | nil => rfl
  | cons text texts ih =>
    exact congrArg₂ List.cons (verdict_ofLine_eq line line' text) (ih (line + 1) (line' + 1))

theorem outputLines_reportsFrom (line line' : Nat) (texts : List Text) :
    (reportsFrom line texts).flatMap Report.outputLine =
      (reportsFrom line' texts).flatMap Report.outputLine := by
  induction texts generalizing line line' with
  | nil => rfl
  | cons text texts ih =>
    have hline : (Report.ofLine line text).outputLine = (Report.ofLine line' text).outputLine := by
      rw [Report.outputLine, Report.outputLine, render_ofLine_eq line line']
    exact congrArg₂ (· ++ ·) hline (ih (line + 1) (line' + 1))

/-- Behind finished lines the reports are those on the later lines alone, but for their numbers. -/
theorem reports_chunk_append {front : Bytes} (h : front = [] ∨ front.getLast? = some lineFeed)
    (later : Bytes) :
    Refill.reports [.chunk (front ++ later)] = Refill.reports [.chunk front] ++
      reportsFrom (1 + (Refill.inputLines [.chunk front]).length)
        ((Refill.inputLines [.chunk later]).map lineText) := by
  have hlast : ∀ b ∈ front.getLast?, (b == lineFeed) = true := by
    intro b hb
    rcases h with rfl | h
    · cases hb
    · rw [h] at hb
      obtain rfl := Option.some.inj hb
      rfl
  have hlines : Refill.inputLines [.chunk (front ++ later)] =
      Refill.inputLines [.chunk front] ++ Refill.inputLines [.chunk later] := by
    rw [inputLines_chunk, inputLines_chunk, inputLines_chunk,
      cutAfter_append_of_getLast? hlast]
  rw [Refill.reports, hlines, List.map_append, reportsFrom_append, List.length_map]
  rfl

theorem Sink.Takes.of_length_le {s : Sink} {bytes less : Bytes} (h : s.Takes bytes)
    (hl : less.length ≤ bytes.length) : s.Takes less :=
  ⟨fun room hr => hl.trans (h.fits room hr), h.flushes⟩

/-- Joined inputs are read as they are read apart, if the first one ends with a line; and a tally
counts the verdicts on all lines that are read. -/
theorem lines_independent :
    (∀ front later : Bytes, front = [] ∨ front.getLast? = some lineFeed → ∀ sink total,
      (Session.ofRefills [.chunk (front ++ later)] sink).result = .ok total →
      ∃ tally more : Tally,
        (Session.ofRefills [.chunk front] sink).result = .ok tally ∧
        (Session.ofRefills [.chunk later] sink).result = .ok more ∧
        (Session.ofRefills [.chunk (front ++ later)] sink).output =
          (Session.ofRefills [.chunk front] sink).output ++
            (Session.ofRefills [.chunk later] sink).output ∧
        total = tally + more) ∧
    ∀ refills sink tally, (Session.ofRefills refills sink).result = .ok tally →
      ∃ reports : List Report, (ReportStream.ofRefills refills).untilEnd = reports.map .ok ∧
        reports.map Report.text = (Refill.inputLines refills).map lineText ∧
        tally.checked = tally.accepted + tally.rejected ∧
        tally.checked + tally.blank = (Refill.inputLines refills).length ∧
        tally.accepted = reports.countP (·.verdict.isAccepted) ∧
        tally.rejected = reports.countP (·.verdict.isRejected) ∧
        tally.blank = reports.countP (·.verdict.isBlank) := by
  refine ⟨fun front later h sink total hok => ?_, fun refills sink tally hok => ?_⟩
  · obtain ⟨_, ht, rfl, ho⟩ := Session.ofRefills_eq_of_ok hok
    have hlater := outputLines_reportsFrom (1 + (Refill.inputLines [.chunk front]).length) 1
      ((Refill.inputLines [.chunk later]).map lineText)
    rw [reports_chunk_append h, List.flatMap_append, hlater] at ht ho
    have hfirst : Session.ofRefills [.chunk front] sink = _ :=
      Session.ofRefills_chunk (ht.of_length_le (by simp))
    have hsecond : Session.ofRefills [.chunk later] sink = _ :=
      Session.ofRefills_chunk (ht.of_length_le (by simp [Refill.reports]))
    rw [hfirst, hsecond]
    refine ⟨_, _, rfl, rfl, ho, ?_⟩
    rw [reports_chunk_append h, Tally.zero_addAll, List.map_append, Tally.ofVerdicts_append,
      verdicts_reportsFrom _ 1, Tally.zero_addAll, Tally.zero_addAll]
    rfl
  · obtain ⟨hu, _, rfl, _⟩ := Session.ofRefills_eq_of_ok hok
    rw [Tally.zero_addAll]
    refine ⟨Refill.reports refills, hu, reportsFrom_texts 1 _, Tally.checked_ofVerdicts _, ?_,
      List.countP_map, List.countP_map, List.countP_map⟩
    rw [Tally.checked_add_blank_ofVerdicts, List.length_map, Refill.reports, length_reportsFrom,
      List.length_map]

theorem lines_independent_of_rejected_line :
    let front : Bytes := [120, 32, 61, 32, 49, 59, 10]
    let later : Bytes := [121]
    let sink : Sink := ⟨some 39, true, false⟩
    (front.getLast? = some lineFeed ∧
      (Session.ofRefills [.chunk (front ++ later)] sink).result = .ok ⟨2, 1, 1, 0⟩) ∧
    (∃ tally more : Tally,
      (Session.ofRefills [.chunk front] sink).result = .ok tally ∧
      (Session.ofRefills [.chunk later] sink).result = .ok more ∧
      (Session.ofRefills [.chunk (front ++ later)] sink).output =
        (Session.ofRefills [.chunk front] sink).output ++
          (Session.ofRefills [.chunk later] sink).output ∧
      (⟨2, 1, 1, 0⟩ : Tally) = tally + more) ∧
    2 + 0 = (Refill.inputLines [.chunk (front ++ later)]).length := by
  intro front later sink
  have hs : Session.ofRefills [.chunk (front ++ later)] sink = _ :=
    Session.ofRefills_chunk ⟨by decide, rfl⟩
  have hok : (Session.ofRefills [.chunk (front ++ later)] sink).result = .ok ⟨2, 1, 1, 0⟩ := by
    rw [hs]
    decide
  obtain ⟨hjoined, hcounts⟩ := lines_independent
  obtain ⟨_, _, _, _, hlines, _⟩ := hcounts _ sink _ hok
  exact ⟨⟨rfl, hok⟩, hjoined front later (.inr rfl) sink _ hok, hlines⟩

end LineGrammar
