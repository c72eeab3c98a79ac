import Mathlib.Data.List.Chain
import Mathlib.Data.List.Forall2
import LineGrammar.Log

/-! The lines of a log, word for word: what each event is written as and at which level, and which
levels a log shows. The texts stand here once more, so that the log is held against them. -/

namespace LineGrammar

theorem inRanges_iff {n : Nat} {ranges : List (Nat × Nat)}
    (h : ranges.Pairwise fun range later => range.1 < later.1) :
    inRanges n ranges = true ↔ ∃ range ∈ ranges, range.1 ≤ n ∧ n ≤ range.2 := by
  induction ranges with
  | nil => simp [inRanges]
  | cons range later ih =>
    obtain ⟨hlow, hlater⟩ := List.pairwise_cons.mp h
    simp only [inRanges, Bool.and_eq_true, Bool.or_eq_true, decide_eq_true_eq, ih hlater,
      List.exists_mem_cons_iff]
    constructor
    · rintro ⟨hfrom, hto | hl⟩
      · exact .inl ⟨hfrom, hto⟩
      · exact .inr hl
    · rintro (⟨hfrom, hto⟩ | ⟨found, hm, hfrom, hto⟩)
      · exact ⟨hfrom, .inl hto⟩
      -- The search may stop early, since no later range begins below this one.
      · exact ⟨(hlow found hm).le.trans hfrom, .inr ⟨found, hm, hfrom, hto⟩⟩

theorem hiddenRanges_increasing :
    hiddenRanges.Pairwise fun range later => range.1 < later.1 := by
  have hchain : (hiddenRanges.map Prod.fst).IsChain (· < ·) := by decide +kernel
  exact List.pairwise_map.mp hchain.pairwise

theorem isHidden_iff (c : Char) :
    isHidden c = true ↔ ∃ range ∈ hiddenRanges, range.1 ≤ c.toNat ∧ c.toNat ≤ range.2 :=
  inRanges_iff hiddenRanges_increasing

/-- Of the blank characters, only the space shows. -/
theorem isHidden_of_isBlank {c : Char} (h : isBlank c = true) (hs : c ≠ ' ') :
    isHidden c = true := by
  have hranges : ∀ blank ∈ blankRanges, blank = (0x20, 0x20) ∨
      ∃ range ∈ hiddenRanges, range.1 ≤ blank.1 ∧ blank.2 ≤ range.2 := by
    decide +kernel
  rw [isBlank, List.any_eq_true] at h
  obtain ⟨blank, hm, hb⟩ := h
  simp only [Bool.and_eq_true, decide_eq_true_eq] at hb
  rcases hranges blank hm with rfl | ⟨range, hr, hlow, hhigh⟩
  · have hspace : c = ' ' := Char.toNat_inj.mp (hb.2.antisymm hb.1)
    exact absurd hspace hs
  · exact (isHidden_iff c).mpr ⟨range, hr, hlow.trans hb.1, hb.2.trans hhigh⟩

namespace Text

/-- How a character stands between quotes. -/
inductive Escaped : Char → String → Prop
  | quote : Escaped '"' "\\\""
  | backslash : Escaped '\\' "\\\\"
  | tab : Escaped '\t' "\\t"
  | newline : Escaped '\n' "\\n"
  | carriageReturn : Escaped '\r' "\\r"
  | null : Escaped '\x00' "\\0"
  | hidden {c : Char} {range : Nat × Nat} (hn : c ∉ ['\t', '\n', '\r', '\x00'])
      (hr : range ∈ hiddenRanges) (hlow : range.1 ≤ c.toNat) (hhigh : c.toNat ≤ range.2) :
      Escaped c ("\\u\x7b" ++ String.ofList (Nat.toDigits 16 c.toNat) ++ "\x7d")
  | shown {c : Char} (hn : c ∉ ['"', '\\'])
      (hh : ∀ range ∈ hiddenRanges, ¬ (range.1 ≤ c.toNat ∧ c.toNat ≤ range.2)) :
      Escaped c (String.singleton c)

inductive Quoted : Text → String → Prop
  | mk {t : Text} {pieces : List String} (h : List.Forall₂ Escaped t pieces) :
      Quoted t ("\"" ++ String.join pieces ++ "\"")

theorem escaped_escape (c : Char) : Escaped c (String.ofList (escape c)) := by
  rw [escape]
  by_cases hmark : c = '"' ∨ c = '\\'
  · rw [if_pos hmark]
    rcases hmark with rfl | rfl
    · exact .quote
    · exact .backslash
  rw [if_neg hmark]
  by_cases htab : c = '\t'
  · rw [if_pos htab]
    exact htab ▸ .tab
  rw [if_neg htab]
  by_cases hfeed : c = '\n'
  · rw [if_pos hfeed]
    exact hfeed ▸ .newline
  rw [if_neg hfeed]
  by_cases hreturn : c = '\r'
  · rw [if_pos hreturn]
    exact hreturn ▸ .carriageReturn
  rw [if_neg hreturn]
  by_cases hnull : c.toNat = 0
  · rw [if_pos hnull]
    have hc : c = '\x00' := Char.toNat_inj.mp hnull
    exact hc ▸ .null
  rw [if_neg hnull]
  by_cases hh : isHidden c = true
  · obtain ⟨range, hr, hlow, hhigh⟩ := (isHidden_iff c).mp hh
    have hc : c ≠ '\x00' := fun he => hnull (he ▸ rfl)
    rw [if_pos hh, String.ofList_append, String.ofList_append]
    exact .hidden (by simp [htab, hfeed, hreturn, hc]) hr hlow hhigh
  · rw [if_neg hh]
    push Not at hmark
    exact .shown (by simp [hmark]) fun range hr hb => hh ((isHidden_iff c).mpr ⟨range, hr, hb⟩)

theorem quoted_quoted (t : Text) : Quoted t (String.ofList t.quoted) := by
  have hpieces : List.Forall₂ Escaped t (t.map fun c => String.ofList (escape c)) :=
    List.forall₂_map_right_iff.mpr (List.forall₂_same.mpr fun c _ => escaped_escape c)
  have hjoin : String.ofList (t.flatMap escape) =
      String.join (t.map fun c => String.ofList (escape c)) := by
    rw [← String.toList_inj, String.toList_join, String.toList_ofList, List.flatMap_map]
    simp only [String.toList_ofList]
  have hquoted : String.ofList t.quoted =
      "\"" ++ String.ofList (t.flatMap escape) ++ "\"" := by
    rw [← String.toList_inj]
    simp [quoted]
  rw [hquoted, hjoin]
  exact .mk hpieces

example : String.ofList (quoted ['5', '"', '\u0080', '\u200B', 'e', '\u0301']) =
    "\"5\\\"\\u\x7b80\x7d\\u\x7b200b\x7de\\u\x7b301\x7d\"" := by
  decide +kernel

end Text

/-- The name of a category in the line of its token, and its name in a list of categories. -/
inductive Category.Named : Category → String → String → Prop
  | declaration : Named .declaration "Declaration" "Declaration"
  | comparison : Named .comparison "Equator" "Equator"
  | openGroup : Named .openGroup "OPENPAREN" "OpenParen"
  | closeGroup : Named .closeGroup "CLOSEPAREN" "CloseParen"
  | operator : Named .operator "Operator" "Operator"
  | conditional : Named .conditional "Conditional" "Conditional"
  | loop : Named .loop "Loop" "Loop"
  | assignment : Named .assignment "Assignment" "Assignment"
  | number : Named .number "Number" "Number"
  | identifier : Named .identifier "Variable" "Variable"
  | semicolon : Named (.endMark .semicolon) ";" "Terminator(Semicolon)"
  | colon : Named (.endMark .colon) ":" "Terminator(Colon)"
  | unknown : Named .unknown "Unknown Token" "UnknownToken"

theorem Category.named_label (c : Category) :
    c.Named (String.ofList c.label) (String.ofList c.logName) := by
  cases c
  case endMark mark => cases mark <;> constructor
  all_goals constructor

inductive Kind.Named : Kind → String → Prop
  | declaration : Named .declaration "declaration"
  | assignment : Named .assignment "assignment"
  | conditional : Named .conditional "conditional"
  | loop : Named .loop "loop"

theorem Kind.named_label (k : Kind) : k.Named (String.ofList k.label) := by
  cases k <;> constructor

/-- The message of a defect, and its explanation with the facts of the case. -/
inductive Defect.Told : Defect → String → String → Prop
  | missingSemicolon : Told (.missingEndMark .semicolon) "No end of line" "expected trailing ';'"
  | missingColon :
      Told (.missingEndMark .colon) "Colon must end Conditional or Loop" "expected trailing ':'"
  | declarationLength (count : Nat) :
      Told (.declarationLength count) "Invalid Type Declaration"
        s!"expected 3 tokens, found {count}"
  | assignmentTarget {found : Category} {name listed : String} (hf : found.Named name listed) :
      Told (.assignmentTarget found) "First Token Must be Variable" s!"assignment target is {name}"
  | noComparison : Told .noComparison "No Equators" "no comparison keyword"
  | manyComparisons (count : Nat) :
      Told (.manyComparisons count) "Too Many Equators" s!"{count} comparison keywords"
  | unevenGroups (opened closed : Nat) :
      Told (.unevenGroups opened closed) "Paren Count Mismatch"
        s!"{opened} OPENPAREN against {closed} CLOSEPAREN"
  | malformedOperand :
      Told .malformedOperand "Subexpression Syntax Error" "malformed subexpression"
  | unknownToken (text : String) (column : Nat) :
      Told (.unknownToken text.toList column) "Unknown Token" s!"'{text}' at column {column}"
  | unrecognized : Told .unrecognized "Unrecognized Statement" "no statement rule applies"

theorem ofList_decimal (n : Nat) : String.ofList (Text.decimal n) = toString n :=
  rfl

theorem Defect.told_explanation (d : Defect) :
    d.Told (String.ofList d.message) (String.ofList d.explanation) := by
  rw [explanation.eq_def]
  cases d with
  | missingEndMark expected => cases expected <;> constructor
  | declarationLength count =>
    dsimp only
    rw [String.ofList_append, String.ofList_toList, ofList_decimal]
    exact .declarationLength count
  | assignmentTarget found =>
    dsimp only
    rw [String.ofList_append, String.ofList_toList]
    exact .assignmentTarget found.named_label
  | noComparison => exact .noComparison
  | manyComparisons count =>
    dsimp only
    rw [String.ofList_append, String.ofList_toList, ofList_decimal]
    exact .manyComparisons count
  | unevenGroups opened closed =>
    dsimp only
    simp only [String.ofList_append, String.ofList_toList, ofList_decimal]
    exact .unevenGroups opened closed
  | malformedOperand => exact .malformedOperand
  | unknownToken text column =>
    have ht := Told.unknownToken (String.ofList text) column
    rw [String.toList_ofList] at ht
    dsimp only
    simp only [String.ofList_append, String.ofList_toList, ofList_decimal]
    exact ht
  | unrecognized => exact .unrecognized

/-- A line of a log, and the level that it stands at. -/
structure LogLine where
  level : Level
  text : String

namespace LogEvent

/-- The line of an event. -/
inductive Written : LogEvent → LogLine → Prop
  | token {t : Token} {word name listed : String} (hw : Text.Quoted t.text word)
      (hc : t.category.Named name listed) :
      Written (.token t) ⟨.trace, "TRACE run: linecheck::checker::lexer: " ++
        s!"classified token word={word} category={name}"⟩
  | unrecognized (line : Nat) {cs : List Category} {names : List String} {list : String}
      (hn : List.Forall₂ (fun c listed => ∃ name, c.Named name listed) cs names)
      (hl : list = ", ".intercalate names) :
      Written (.unrecognized line cs) ⟨.debug,
        "DEBUG run: linecheck::checker::validator::statement: " ++
        s!"unrecognized statement line={line} categories=[{list}]"⟩
  | blank (line : Nat) :
      Written (.verdict line .blank) ⟨.debug, "DEBUG run: linecheck::checker::driver: " ++
        s!"blank line line={line}"⟩
  | accepted (line : Nat) {kind : Kind} {name : String} (hk : kind.Named name) :
      Written (.verdict line (.accepted kind)) ⟨.debug,
        "DEBUG run: linecheck::checker::driver: " ++ s!"accepted line={line} kind={name}"⟩
  | rejected (line : Nat) {defect : Defect} {message detail : String}
      (hd : defect.Told message detail) :
      Written (.verdict line (.rejected defect)) ⟨.debug,
        "DEBUG run: linecheck::checker::driver: " ++
        s!"rejected line={line} error={message} detail={detail}"⟩
  | finished (checked accepted rejected blank : Nat) :
      Written (.finished ⟨checked, accepted, rejected, blank⟩) ⟨.info,
        "INFO run: linecheck::checker::driver: " ++
        s!"finished checked={checked} accepted={accepted} rejected={rejected} blank={blank}"⟩

def line (e : LogEvent) : LogLine :=
  ⟨e.level, String.ofList e.render⟩

/-- The line of an event is put together from its level, its origin and its description. -/
theorem Written.of_description {e : LogEvent} {line : LogLine} {label origin rest : String}
    (h : e.Written line) (hlevel : e.level = line.level) (hlabel : e.level.label = label.toList)
    (horigin : e.origin = origin.toList)
    (htext : line.text = label ++ " run: " ++ origin ++ ": " ++ rest)
    (hrest : String.ofList e.description = rest) : e.Written e.line := by
  have hrender : String.ofList e.render = line.text := by
    rw [render, hlabel, horigin, htext, ← hrest]
    simp only [String.ofList_append, String.ofList_toList]
  have hline : e.line = line := by rw [LogEvent.line, hrender, hlevel]
  exact hline ▸ h

theorem ofList_commaSeparated (names : List Text) :
    String.ofList (commaSeparated names) = ", ".intercalate (names.map String.ofList) := by
  have hnames : (names.map String.ofList).map String.toList = names := by
    rw [List.map_map]
    exact List.map_id'' (fun _ => String.toList_ofList) names
  rw [← String.toList_inj, String.toList_intercalate, hnames, String.toList_ofList]
  rfl

theorem forall₂_named (cs : List Category) :
    List.Forall₂ (fun c listed => ∃ name, c.Named name listed) cs
      ((cs.map Category.logName).map String.ofList) := by
  rw [List.map_map]
  exact List.forall₂_map_right_iff.mpr (List.forall₂_same.mpr fun c _ => ⟨_, c.named_label⟩)

/-- Every event is written as its line. -/
theorem written_line (e : LogEvent) : e.Written e.line := by
  cases e with
  | token t =>
    refine (Written.token (Text.quoted_quoted t.text) t.category.named_label).of_description rfl rfl
      rfl rfl ?_
    rw [description.eq_def]
    simp only [String.ofList_append, String.ofList_toList]
    rfl
  | unrecognized line cs =>
    have hlist := ofList_commaSeparated (cs.map Category.logName)
    refine (Written.unrecognized line (forall₂_named cs) hlist).of_description rfl rfl rfl rfl ?_
    rw [description.eq_def]
    simp only [String.ofList_append, String.ofList_toList, ofList_decimal]
    rfl
  | verdict line found =>
    cases found with
    | blank =>
      refine (Written.blank line).of_description rfl rfl rfl rfl ?_
      rw [description.eq_def]
      simp only [String.ofList_append, String.ofList_toList, ofList_decimal]
      rfl
    | accepted kind =>
      refine (Written.accepted line kind.named_label).of_description rfl rfl rfl rfl ?_
      rw [description.eq_def]
      simp only [String.ofList_append, String.ofList_toList, ofList_decimal]
      rfl
    | rejected defect =>
      refine (Written.rejected line defect.told_explanation).of_description rfl rfl rfl rfl ?_
      rw [description.eq_def]
      simp only [String.ofList_append, String.ofList_toList, ofList_decimal]
      rfl
  | finished tally =>
    obtain ⟨checked, accepted, rejected, blank⟩ := tally
    refine (Written.finished checked accepted rejected blank).of_description rfl rfl rfl rfl ?_
    rw [description.eq_def]
    simp only [String.ofList_append, String.ofList_toList, ofList_decimal]
    rfl

end LogEvent

theorem LogEvent.forall₂_written (log : List LogEvent) :
    List.Forall₂ Written log (log.map LogEvent.line) :=
  List.forall₂_map_right_iff.mpr (List.forall₂_same.mpr fun e _ => e.written_line)

theorem Tally.ofList_render (checked accepted rejected blank : Nat) :
    String.ofList (Tally.render ⟨checked, accepted, rejected, blank⟩) =
      s!"{checked} lines checked: {accepted} accepted, {rejected} rejected, {blank} blank" := by
  rw [render]
  simp only [String.ofList_append, String.ofList_toList, ofList_decimal]
  rfl

/-- The levels that a log shows: those at or above the one that it is set to. Where it is not set,
warnings are the last of them. -/
inductive Level.ShownAt : Option String → List Level → Prop
  | unset : ShownAt none [.error, .warn]
  | off : ShownAt (some "off") []
  | error : ShownAt (some "error") [.error]
  | warn : ShownAt (some "warn") [.error, .warn]
  | info : ShownAt (some "info") [.error, .warn, .info]
  | debug : ShownAt (some "debug") [.error, .warn, .info, .debug]
  | trace : ShownAt (some "trace") [.error, .warn, .info, .debug, .trace]

theorem Level.ShownAt.shows_ofSetting {setting? : Option String} {levels : List Level}
    (h : ShownAt setting? levels) (level : Level) :
    (Verbosity.ofSetting (setting?.map String.toList)).shows level = decide (level ∈ levels) := by
  cases h <;> cases level <;> rfl

/-- Nothing is too detailed for the most detailed log. -/
theorem Level.ShownAt.mem_of_trace {levels : List Level} (h : ShownAt (some "trace") levels)
    (level : Level) : level ∈ levels := by
  have hshows : (Verbosity.ofSetting ((some "trace").map String.toList)).shows level = true := by
    cases level <;> rfl
  exact of_decide_eq_true ((h.shows_ofSetting level).symm.trans hshows)

/-- The lines that a log shows are those of its levels. -/
theorem map_render_filter {v : Verbosity} {levels : List Level}
    (h : ∀ level, v.shows level = decide (level ∈ levels)) (log : List LogEvent) :
    (log.filter (v.shows ·.level)).map LogEvent.render =
      ((log.map LogEvent.line).filter (·.level ∈ levels)).map (·.text.toList) := by
  have hlevel : (fun e : LogEvent => v.shows e.level) =
      (fun line : LogLine => decide (line.level ∈ levels)) ∘ LogEvent.line :=
    funext fun e => h e.level
  have htext : (fun line : LogLine => line.text.toList) ∘ LogEvent.line = LogEvent.render :=
    funext fun _ => String.toList_ofList
  rw [List.filter_map, List.map_map, htext, hlevel]

end LineGrammar
