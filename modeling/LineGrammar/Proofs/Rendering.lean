import LineGrammar.Proofs.Completion
import LineGrammar.Proofs.Encoding
import LineGrammar.Proofs.Grammar

/-! Output lines tell what they report. A line that is accepted or blank never begins like an error,
the messages of defects are told apart whatever text follows them, and an output line holds no line
feed; so the reports of a session can be read off its output. -/

namespace LineGrammar

theorem verdict_ofLine_eq (line line' : Nat) (text : Text) :
    (Report.ofLine line text).verdict = (Report.ofLine line' text).verdict := by
  rw [Report.ofLine, Report.ofLine, Statement.ofLine?, Statement.ofLine?]
  cases text.words <;> rfl

theorem render_ofLine_eq (line line' : Nat) (text : Text) :
    (Report.ofLine line text).render = (Report.ofLine line' text).render := by
  rw [Report.render, Report.render, verdict_ofLine_eq line line']
  rfl

/-- No mark is taken off the first word of a line that is accepted. -/
theorem first_known_of_accepted {line : Nat} {text : Text} {kind : Kind} {first : Text}
    {later : List Text} (h : (Report.ofLine line text).verdict = .accepted kind)
    (hr : text.runs = first :: later) : Category.ofWord first ≠ .unknown := by
  obtain ⟨_, _, body, _, hb, hu, hrule⟩ := (verdict_accepted_iff line text kind).mp h
  have hlen := (two_le_length_of_rule hrule).trans hb.length_le
  rw [hr] at hb hlen
  cases later with
  | nil => simp at hlen
  | cons next later => exact hu first (List.mem_of_mem_head? hb.head?_eq)

theorem runs_of_errorLabel (rest : Text) :
    Text.runs ("Error: ".toList ++ rest) = "Error:".toList :: Text.runs (' ' :: rest) := by
  have hsplit : "Error: ".toList ++ rest = "Error:".toList ++ ' ' :: rest := rfl
  have hsolid : "Error:".toList.all (!isBlank ·) = true := rfl
  rw [hsplit]
  refine runs_run (by decide) (by simpa using hsolid) fun c hc => ?_
  obtain rfl : ' ' = c := Option.some.inj hc
  decide

/-- A text that begins like an error is rejected, whatever follows. -/
theorem exists_rejected_of_errorLabel (line : Nat) (rest : Text) :
    ∃ defect, (Report.ofLine line ("Error: ".toList ++ rest)).verdict = .rejected defect := by
  have hruns := runs_of_errorLabel rest
  cases hv : (Report.ofLine line ("Error: ".toList ++ rest)).verdict with
  | blank =>
    rw [(verdict_blank_iff line _).mp hv] at hruns
    cases hruns
  | accepted kind => exact absurd rfl (first_known_of_accepted hv hruns)
  | rejected defect => exact ⟨defect, rfl⟩

namespace Report

theorem render_of_rejected {r : Report} {defect : Defect} (h : r.verdict = .rejected defect) :
    r.render = "Error: ".toList ++ (defect.message ++ (" in line ".toList ++ r.text)) := by
  rw [render, h]
  simp only [List.append_assoc]

theorem render_of_not_rejected {r : Report} (h : ∀ defect, r.verdict ≠ .rejected defect) :
    r.render = r.text := by
  rw [render]
  split
  · next defect hv => exact absurd hv (h defect)
  · rfl

end Report

theorem errorLabel_isPrefix_render_iff (line : Nat) (text : Text) :
    "Error: ".toList <+: (Report.ofLine line text).render ↔
      ∃ defect, (Report.ofLine line text).verdict = .rejected defect := by
  constructor
  · intro h
    by_contra hn
    push Not at hn
    rw [Report.render_of_not_rejected hn] at h
    obtain ⟨rest, hr⟩ := h
    obtain ⟨defect, hv⟩ := exists_rejected_of_errorLabel line rest
    rw [hr] at hv
    exact hn defect hv
  · rintro ⟨defect, hv⟩
    rw [Report.render_of_rejected hv]
    exact List.prefix_append _ _

namespace Defect

/-- One defect for each message. -/
def causes : List Defect :=
  [missingEndMark .semicolon, missingEndMark .colon, declarationLength 0, assignmentTarget .unknown,
    noComparison, manyComparisons 0, unevenGroups 0 0, malformedOperand, unknownToken [] 0,
    unrecognized]

theorem exists_cause (d : Defect) : ∃ cause ∈ causes, cause.message = d.message := by
  cases d with
  | missingEndMark expected =>
    cases expected
    · exact ⟨missingEndMark .semicolon, by simp [causes], rfl⟩
    · exact ⟨missingEndMark .colon, by simp [causes], rfl⟩
  | declarationLength count => exact ⟨declarationLength 0, by simp [causes], rfl⟩
  | assignmentTarget found => exact ⟨assignmentTarget .unknown, by simp [causes], rfl⟩
  | noComparison => exact ⟨noComparison, by simp [causes], rfl⟩
  | manyComparisons count => exact ⟨manyComparisons 0, by simp [causes], rfl⟩
  | unevenGroups opened closed => exact ⟨unevenGroups 0 0, by simp [causes], rfl⟩
  | malformedOperand => exact ⟨malformedOperand, by simp [causes], rfl⟩
  | unknownToken text column => exact ⟨unknownToken [] 0, by simp [causes], rfl⟩
  | unrecognized => exact ⟨unrecognized, by simp [causes], rfl⟩

theorem message_of_isPrefix_causes : ∀ d ∈ causes, ∀ e ∈ causes,
    d.message <+: e.message → d.message = e.message := by
  decide

theorem newline_not_mem_message (d : Defect) : '\n' ∉ d.message := by
  obtain ⟨cause, hc, he⟩ := d.exists_cause
  have hall : ∀ e ∈ causes, '\n' ∉ e.message := by decide
  exact he ▸ hall cause hc

theorem message_of_isPrefix {d e : Defect} (h : d.message <+: e.message) :
    d.message = e.message := by
  obtain ⟨cause, hc, hd⟩ := d.exists_cause
  obtain ⟨cause', hc', he⟩ := e.exists_cause
  rw [← hd, ← he] at h ⊢
  exact message_of_isPrefix_causes cause hc cause' hc' h

/-- Where a message ends can be told whatever stands behind it. -/
theorem message_append_inj {d e : Defect} {s t : Text} (h : d.message ++ s = e.message ++ t) :
    d.message = e.message ∧ s = t := by
  have hm : d.message = e.message := by
    have hs : d.message <+: e.message ++ t := ⟨s, h⟩
    rcases List.prefix_or_prefix_of_prefix hs (List.prefix_append _ _) with hp | hp
    · exact message_of_isPrefix hp
    · exact (message_of_isPrefix hp).symm
  rw [hm] at h
  exact ⟨hm, List.append_cancel_left h⟩

end Defect

/-- The output line of a text tells the text. -/
theorem text_eq_of_render_eq {line line' : Nat} {text text' : Text}
    (h : (Report.ofLine line text).render = (Report.ofLine line' text').render) : text = text' := by
  -- The label tells whether both are rejected or neither is.
  have hiff := errorLabel_isPrefix_render_iff line text
  rw [h, errorLabel_isPrefix_render_iff] at hiff
  by_cases hr : ∃ defect, (Report.ofLine line text).verdict = .rejected defect
  · obtain ⟨defect', hv'⟩ := hiff.mpr hr
    obtain ⟨defect, hv⟩ := hr
    rw [Report.render_of_rejected hv, Report.render_of_rejected hv'] at h
    exact List.append_cancel_left (Defect.message_append_inj (List.append_cancel_left h)).2
  · have hr' := mt hiff.mp hr
    push Not at hr hr'
    rwa [Report.render_of_not_rejected hr, Report.render_of_not_rejected hr'] at h

theorem newline_not_mem_render {line : Nat} {text : Text} (h : '\n' ∉ text) :
    '\n' ∉ (Report.ofLine line text).render := by
  by_cases hr : ∃ defect, (Report.ofLine line text).verdict = .rejected defect
  · obtain ⟨defect, hv⟩ := hr
    have hm := defect.newline_not_mem_message
    rw [Report.render_of_rejected hv, List.mem_append, List.mem_append, List.mem_append]
    rintro (hn | hn | hn | hn)
    · exact absurd hn (by decide)
    · exact hm hn
    · exact absurd hn (by decide)
    · exact h hn
  · push Not at hr
    rwa [Report.render_of_not_rejected hr]

theorem lineFeed_not_mem_encode {t : Text} (h : '\n' ∉ t) : lineFeed ∉ Utf8.encode t := by
  intro hm
  obtain ⟨front, later, he⟩ := List.append_of_mem hm
  have hd := decode_encode t
  rw [he, decode_lineFeed] at hd
  exact h (hd ▸ List.mem_append_right _ List.mem_cons_self)

/-- Pieces that hold no line feed, each with one behind it, are what lies between the line feeds. -/
theorem splitOn_lineFeed {pieces : List Bytes} (h : ∀ piece ∈ pieces, lineFeed ∉ piece) :
    (pieces.flatMap (· ++ [lineFeed])).splitOn lineFeed = pieces ++ [[]] := by
  induction pieces with
  | nil => rfl
  | cons piece pieces ih =>
    have hh := ih fun p hm => h p (List.mem_cons_of_mem _ hm)
    rw [List.flatMap_cons, List.append_assoc, List.singleton_append,
      List.splitOn_append_cons_self_of_not_mem (h piece List.mem_cons_self), hh, List.cons_append]

theorem reportsFrom_texts (line : Nat) (texts : List Text) :
    (reportsFrom line texts).map Report.text = texts := by
  induction texts generalizing line with
  | nil => rfl
  | cons text texts ih => exact congrArg (text :: ·) (ih (line + 1))

theorem mem_reportsFrom {line : Nat} {texts : List Text} {r : Report}
    (h : r ∈ reportsFrom line texts) : ∃ n, ∃ text ∈ texts, r = Report.ofLine n text := by
  obtain ⟨⟨text, n⟩, hm, rfl⟩ := List.mem_map.mp h
  exact ⟨n, text, List.fst_mem_of_mem_zipIdx hm, rfl⟩

/-- The records of reports whose texts are lines. -/
theorem splitOn_outputLines {line : Nat} {texts : List Text} (h : ∀ text ∈ texts, '\n' ∉ text) :
    ((reportsFrom line texts).flatMap Report.outputLine).splitOn lineFeed =
      (reportsFrom line texts).map (fun r => Utf8.encode r.render) ++ [[]] := by
  have hpieces : ∀ piece ∈ (reportsFrom line texts).map (fun r => Utf8.encode r.render),
      lineFeed ∉ piece := by
    intro piece hp
    obtain ⟨r, hr, rfl⟩ := List.mem_map.mp hp
    obtain ⟨n, text, ht, rfl⟩ := mem_reportsFrom hr
    exact lineFeed_not_mem_encode (newline_not_mem_render (h text ht))
  have hh := splitOn_lineFeed hpieces
  rwa [List.flatMap_map] at hh

theorem newline_not_mem_texts {refills : List Refill} {text : Text}
    (h : text ∈ (Refill.inputLines refills).map lineText) : '\n' ∉ text := by
  obtain ⟨line, hl, rfl⟩ := List.mem_map.mp h
  exact newline_not_mem_lineText (isLine_of_mem_inputLines hl)

theorem texts_eq_of_renders_eq {line line' : Nat} {texts texts' : List Text}
    (h : (reportsFrom line texts).map (fun r => Utf8.encode r.render) =
      (reportsFrom line' texts').map (fun r => Utf8.encode r.render)) : texts = texts' := by
  induction texts generalizing line line' texts' with
  | nil =>
    have hlen := congrArg List.length h
    simp only [List.length_map, length_reportsFrom, List.length_nil] at hlen
    exact (List.length_eq_zero_iff.mp hlen.symm).symm
  | cons text texts ih =>
    cases texts' with
    | nil => cases h
    | cons text' texts' =>
      obtain ⟨hhead, htail⟩ := List.cons.inj h
      have hrender := congrArg Utf8.decode hhead
      rw [decode_encode, decode_encode] at hrender
      rw [text_eq_of_render_eq hrender, ih htail]

/-- Output lines are unambiguous: they begin like an error exactly if their line is rejected, tell
its text and its verdict, and hold no line feed. So what a session writes that goes well is one
record for each line that it reads, in order, and tells all its reports. -/
theorem output_unambiguous :
    (∀ line text, "Error: ".toList <+: (Report.ofLine line text).render ↔
      ∃ defect, (Report.ofLine line text).verdict = .rejected defect) ∧
    (∀ line line' text text',
      (Report.ofLine line text).render = (Report.ofLine line' text').render →
        text = text' ∧ (Report.ofLine line text).verdict = (Report.ofLine line' text').verdict) ∧
    (∀ line text, '\n' ∉ text → '\n' ∉ (Report.ofLine line text).render) ∧
    ∀ refills sink tally, (Session.ofRefills refills sink).result = .ok tally →
      let output := (Session.ofRefills refills sink).output
      let reports := Refill.reports refills
      (ReportStream.ofRefills refills).untilEnd = reports.map .ok ∧
      reports.map Report.text = (Refill.inputLines refills).map lineText ∧
      output.splitOn lineFeed = reports.map (fun r => Utf8.encode r.render) ++ [[]] ∧
      ∀ refills' sink' tally', (Session.ofRefills refills' sink').result = .ok tally' →
        (Session.ofRefills refills' sink').output = output → Refill.reports refills' = reports := by
  refine ⟨errorLabel_isPrefix_render_iff, fun line line' text text' h => ?_,
    fun line text h => newline_not_mem_render h, fun refills sink tally h => ?_⟩
  · obtain rfl := text_eq_of_render_eq h
    exact ⟨rfl, verdict_ofLine_eq line line' text⟩
  · have hsplit (refills : List Refill) :
        ((Refill.reports refills).flatMap Report.outputLine).splitOn lineFeed =
          (Refill.reports refills).map (fun r => Utf8.encode r.render) ++ [[]] :=
      splitOn_outputLines fun _ => newline_not_mem_texts
    obtain ⟨hu, _, _, ho⟩ := Session.ofRefills_eq_of_ok h
    refine ⟨hu, reportsFrom_texts 1 _, by rw [ho]; exact hsplit refills, ?_⟩
    intro refills' sink' tally' h' he
    obtain ⟨_, _, _, ho'⟩ := Session.ofRefills_eq_of_ok h'
    rw [ho, ho'] at he
    have hpieces := (hsplit refills').symm.trans ((congrArg (List.splitOn lineFeed) he).trans
      (hsplit refills))
    rw [Refill.reports, Refill.reports, texts_eq_of_renders_eq (List.append_cancel_right hpieces)]

theorem output_unambiguous_of_line_endings :
    let refills : List Refill := [.chunk [53, 59, 13, 10, 120], .endOfInput, .endOfInput,
      .failure ['x']]
    let plain : List Refill := [.chunk [53, 59, 10], .interruption, .chunk [120, 10]]
    let sink : Sink := ⟨some 73, true, false⟩
    let tally : Tally := ⟨2, 0, 2, 0⟩
    ((Report.ofLine 1 "5;".toList).render = (Report.ofLine 7 "5;".toList).render ∧
      '\n' ∉ "5;".toList ∧ (Session.ofRefills refills sink).result = .ok tally ∧
      (Session.ofRefills plain .unlimited).result = .ok tally ∧
      (Session.ofRefills plain .unlimited).output = (Session.ofRefills refills sink).output) ∧
    (Report.ofLine 1 "5;".toList).verdict = (Report.ofLine 7 "5;".toList).verdict ∧
    '\n' ∉ (Report.ofLine 1 "5;".toList).render ∧
    (Session.ofRefills refills sink).output.splitOn lineFeed =
      (Refill.reports refills).map (fun r => Utf8.encode r.render) ++ [[]] ∧
    Refill.reports plain = Refill.reports refills := by
  intro refills plain sink tally
  have hitems : (ReportStream.ofRefills refills).items 3 =
      ((Refill.reports refills).map .ok).map some ++ [none] := rfl
  have hitems' : (ReportStream.ofRefills plain).items 3 =
      ((Refill.reports plain).map .ok).map some ++ [none] := rfl
  have hs : Session.ofRefills refills sink = _ :=
    Session.ofRefills_of_takes (ReportStream.untilEnd_of_items hitems) ⟨by decide, rfl⟩
  have hs' : Session.ofRefills plain .unlimited = _ :=
    Session.ofRefills_of_takes (ReportStream.untilEnd_of_items hitems') ⟨by decide, rfl⟩
  obtain ⟨_, hinj, hline, hsession⟩ := output_unambiguous
  have hrender : (Report.ofLine 1 "5;".toList).render = (Report.ofLine 7 "5;".toList).render := by
    decide
  have hok : (Session.ofRefills refills sink).result = .ok tally := by
    rw [hs]
    decide
  have hok' : (Session.ofRefills plain .unlimited).result = .ok tally := by
    rw [hs']
    decide
  have hout : (Session.ofRefills plain .unlimited).output =
      (Session.ofRefills refills sink).output := by
    rw [hs, hs']
    decide
  obtain ⟨_, _, hsplit, htells⟩ := hsession refills sink tally hok
  exact ⟨⟨hrender, by decide, hok, hok', hout⟩, (hinj _ _ _ _ hrender).2, hline _ _ (by decide),
    hsplit, htells plain .unlimited tally hok' hout⟩

end LineGrammar
