import LineGrammar.Proofs.Dispatch
import LineGrammar.Proofs.Encoding
import LineGrammar.Proofs.Streaming

/-! Lines that are not UTF-8. Their replaced characters stand in no keyword and in no identifier,
but in a number any character may follow the first digit. What a line holds changes the report on
that line only. -/

namespace LineGrammar

/-- A word that holds more than marks is left, but for marks at its end. -/
theorem ClosesWith.exists_isPrefix {mark : Char} {words body : List Text}
    (h : ClosesWith mark words body) {w : Text} (hw : w ∈ words) {c : Char} (hc : c ∈ w)
    (hm : c ≠ mark) : ∃ v ∈ body, c ∈ v ∧ v <+: w := by
  cases h with
  | @attached front last k hk hne hlast =>
    rcases List.mem_append.mp hw with hw | hw
    · exact ⟨w, List.mem_append_left _ hw, hc, List.prefix_rfl⟩
    · obtain rfl := List.mem_singleton.mp hw
      have hl : c ∈ last := (List.mem_append.mp hc).resolve_right fun hr =>
        hm (List.eq_of_mem_replicate hr)
      exact ⟨last, by simp, hl, List.prefix_append _ _⟩
  | @detached _ k hk =>
    rcases List.mem_append.mp hw with hw | hw
    · exact ⟨w, hw, hc, List.prefix_rfl⟩
    · obtain rfl := List.mem_singleton.mp hw
      exact absurd (List.eq_of_mem_replicate hc) hm

theorem isNumber_of_accepted {line : Nat} {text : Text} {kind : Kind}
    (h : (Report.ofLine line text).verdict = .accepted kind) {w : Text} (hw : w ∈ text.runs)
    {c : Char} (hc : c ∈ w) (hs : Category.isStray c = true) (hm : isAnyMark c = false) :
    Category.isNumber w = true := by
  obtain ⟨first, later, body, _, hb, hu, _⟩ := (verdict_accepted_iff line text kind).mp h
  obtain ⟨v, hv, hcv, hp⟩ := hb.exists_isPrefix hw hc fun he => by
    simp [he, isAnyMark_char] at hm
  have hk := hu v hv
  rw [Category.ofWord_of_isStray hcv hs] at hk
  refine Category.isNumber_of_isPrefix hp ?_
  by_contra hn
  simp [hn] at hk

theorem isRejected_of_isStray {line : Nat} {text : Text} {w : Text} (hw : w ∈ text.runs) {c : Char}
    (hc : c ∈ w) (hs : Category.isStray c = true) (hm : isAnyMark c = false)
    (hn : Category.isNumber w = false) : (Report.ofLine line text).isRejected = true := by
  rw [Report.isRejected]
  cases hv : (Report.ofLine line text).verdict with
  | blank =>
    rw [(verdict_blank_iff line text).mp hv] at hw
    cases hw
  | accepted kind =>
    rw [isNumber_of_accepted hv hw hc hs hm] at hn
    cases hn
  | rejected defect => rfl

/-- A line without its line feed, between what comes before and behind it. -/
structure LineAt (front line rest : Bytes) : Prop where
  front : ∀ b ∈ front.getLast?, (b == lineFeed) = true
  line : ∀ b ∈ line, (b == lineFeed) = false
  rest : ∀ b ∈ rest.head?, (b == lineFeed) = true

/-- The texts of a line: none if no byte is there, not even a line feed. -/
def ownTexts (line rest : Bytes) : List Text :=
  if line = [] ∧ rest = [] then [] else [Utf8.decode (dropFinal carriageReturn line)]

theorem map_lineText_cutAfter {front line rest : Bytes} (h : LineAt front line rest) :
    (cutAfter (· == lineFeed) (front ++ line ++ rest)).map lineText =
      (cutAfter (· == lineFeed) front).map lineText ++
        (ownTexts line rest ++ (cutAfter (· == lineFeed) rest.tail).map lineText) := by
  rw [List.append_assoc, cutAfter_append_of_getLast? h.front, List.map_append, ownTexts]
  cases rest with
  | nil =>
    by_cases hl : line = []
    · simp [hl, cutAfter]
    · rw [List.append_nil, cutAfter_of_none h.line hl, if_neg (by simp [hl]), List.map_singleton,
        lineText_last h.line]
      rfl
  | cons b later =>
    obtain rfl : b = lineFeed := by simpa using h.rest b rfl
    have htext : lineText (line ++ [lineFeed]) = Utf8.decode (dropFinal carriageReturn line) := by
      simp [lineText, dropFinal]
    rw [cutAfter_append h.line (by simp), if_neg (by simp), List.map_cons, htext]
    rfl

/-- The reports around a line do not depend on it. -/
theorem exists_reports_around (front rest : Bytes) :
    ∃ earlier later : List Report, ∀ line, LineAt front line rest →
      (ReportStream.ofRefills [.chunk (front ++ line ++ rest)]).untilEnd =
        (earlier ++ reportsFrom (earlier.length + 1) (ownTexts line rest) ++ later).map .ok := by
  let texts := (cutAfter (· == lineFeed) front).map lineText
  let behind := (cutAfter (· == lineFeed) rest.tail).map lineText
  refine ⟨reportsFrom 1 texts, reportsFrom (1 + texts.length + 1) behind, fun line h => ?_⟩
  rw [untilEnd_chunk, map_lineText_cutAfter h, reportsFrom_append, reportsFrom_append,
    length_reportsFrom, Nat.add_comm _ 1, List.append_assoc]
  -- Nothing comes behind a line that is not there, so no number depends on it.
  by_cases he : line = [] ∧ rest = []
  · have hb : behind = [] := by simp [behind, he.2, cutAfter]
    have hr (n : Nat) : reportsFrom n [] = [] := rfl
    rw [show (cutAfter (· == lineFeed) rest.tail).map lineText = behind from rfl, hb, hr, hr]
  · rw [ownTexts, if_neg he]
    rfl

/-- A line that is not UTF-8 changes no report but its own. Some of its words hold a replacement, and
the line is rejected unless all of these words begin with a digit: what follows the first digit of
a number does not count. -/
theorem untilEnd_chunk_of_not_isValid {front line rest : Bytes} (h : LineAt front line rest)
    (hv : ¬ Utf8.IsValid (dropFinal carriageReturn line)) :
    ∃ (earlier later : List Report) (own : Report),
      (ReportStream.ofRefills [.chunk (front ++ line ++ rest)]).untilEnd =
        (earlier ++ own :: later).map .ok ∧
      own = Report.ofLine (earlier.length + 1) (Utf8.decode (dropFinal carriageReturn line)) ∧
      (∃ w ∈ own.text.runs, Utf8.replacement ∈ w) ∧
      (own.isRejected = true ∨
        ∀ w ∈ own.text.runs, Utf8.replacement ∈ w → Category.isNumber w = true) ∧
      ∀ other, LineAt front other rest → ∃ others : List Report,
        (ReportStream.ofRefills [.chunk (front ++ other ++ rest)]).untilEnd =
          (earlier ++ others ++ later).map .ok ∧
        others.length = if other = [] ∧ rest = [] then 0 else 1 := by
  obtain ⟨earlier, later, hreports⟩ := exists_reports_around front rest
  let text := Utf8.decode (dropFinal carriageReturn line)
  have hne : ¬ (line = [] ∧ rest = []) := by
    rintro ⟨rfl, _⟩
    exact hv ⟨[], rfl⟩
  have hown := hreports line h
  rw [ownTexts, if_neg hne] at hown
  refine ⟨earlier, later, Report.ofLine (earlier.length + 1) text, ?_, rfl, ?_, ?_, ?_⟩
  · rw [hown, List.append_assoc]
    rfl
  · exact exists_mem_runs (replacement_mem_decode hv) (by decide)
  · by_cases hn : ∀ w ∈ text.runs, Utf8.replacement ∈ w → Category.isNumber w = true
    · exact .inr hn
    · push Not at hn
      obtain ⟨w, hw, hc, hnum⟩ := hn
      exact .inl (isRejected_of_isStray hw hc (by decide) (by decide) (by simpa using hnum))
  · intro other ho
    refine ⟨_, hreports other ho, ?_⟩
    rw [length_reportsFrom, ownTexts]
    split <;> rfl

theorem untilEnd_chunk_of_lone_byte :
    let front : Bytes := [120, 32, 61, 32, 49, 59, 10]
    let line : Bytes := [49, 0xFF, 32, 0xFF, 59, 13]
    let rest : Bytes := [10, 121]
    (LineAt front line rest ∧ ¬ Utf8.IsValid (dropFinal carriageReturn line)) ∧
    ∃ (earlier later : List Report) (own : Report),
      (ReportStream.ofRefills [.chunk (front ++ line ++ rest)]).untilEnd =
        (earlier ++ own :: later).map .ok ∧ own.isRejected = true ∧
      ∀ other, LineAt front other rest → ∃ others : List Report,
        (ReportStream.ofRefills [.chunk (front ++ other ++ rest)]).untilEnd =
          (earlier ++ others ++ later).map .ok ∧ others.length = 1 := by
  intro front line rest
  have h : LineAt front line rest := by
    constructor <;> simp [front, line, rest, lineFeed]
  have hv : ¬ Utf8.IsValid (dropFinal carriageReturn line) := by decide
  have hw : [Utf8.replacement, ';'] ∈ (Utf8.decode (dropFinal carriageReturn line)).runs := by
    decide
  obtain ⟨earlier, later, own, hu, ho, _, hr, hothers⟩ := untilEnd_chunk_of_not_isValid h hv
  refine ⟨⟨h, hv⟩, earlier, later, own, hu, hr.resolve_right fun hall => ?_, ?_⟩
  · have hn := hall [Utf8.replacement, ';'] (by rw [ho]; exact hw) (by decide)
    cases hn
  · intro other hother
    simpa [rest] using hothers other hother

/-- Behind a digit a byte that is not UTF-8 goes unnoticed. -/
theorem accepted_of_invalid_number :
    let line : Bytes := [120, 32, 61, 32, 53, 0xFF, 59]
    ¬ Utf8.IsValid (dropFinal carriageReturn line) ∧
    (ReportStream.ofRefills [.chunk (line ++ [lineFeed])]).untilEnd =
      [.ok ⟨1, ['x', ' ', '=', ' ', '5', Utf8.replacement, ';'], .accepted .assignment⟩] := by
  intro line
  refine ⟨by decide, ?_⟩
  rw [untilEnd_chunk]
  rfl

end LineGrammar
