import LineGrammar.Proofs.Dispatch
import LineGrammar.Proofs.Tokens

/-! What a defect says about its line. The facts that it carries are facts of the line, and a line
is rejected with a defect exactly if the defect describes it. -/

namespace LineGrammar

def EndsIn (words : List Text) (mark : EndMark) : Prop :=
  ∃ last ∈ words.getLast?, last.getLast? = some mark.char

/-- The category of the first word, which is taken without marks at its end if it is the only
one. -/
def headCategory? : List Text → Option Category
  | [] => none
  | [only] => some (Category.ofWord (dropTrailing isAnyMark only))
  | first :: _ :: _ => some (Category.ofWord first)

namespace Statement

/-- The line ends as its head requires, and no token is unknown. -/
structure Complete (s : Statement) : Prop where
  ended : EndsIn s.text.runs s.head.requiredMark
  known : .unknown ∉ s.categories

/-- The operands that are looked at: the one of an assignment, the left one of a guard, and the
right one if the left one is an operand indeed. -/
inductive Examines (s : Statement) : List Category → Prop where
  | assigned {operand : List Category} (hhead : s.head = .identifier)
      (hc : s.categories = .identifier :: .assignment :: (operand ++ [.endMark .semicolon])) :
      Examines s operand
  | left {left right : List Category} (hhead : s.head = .conditional ∨ s.head = .loop)
      (hc : s.categories = s.head :: (left ++ .comparison :: right ++ [.endMark .colon]))
      (hl : .comparison ∉ left) (hr : .comparison ∉ right) : Examines s left
  | right {left right : List Category} (hhead : s.head = .conditional ∨ s.head = .loop)
      (hc : s.categories = s.head :: (left ++ .comparison :: right ++ [.endMark .colon]))
      (hl : .comparison ∉ left) (hr : .comparison ∉ right) (ho : IsOperand left) :
      Examines s right

end Statement

/-- The categories of first words that make an assignment without a target. -/
def wrongTargets : List Category :=
  [.comparison, .openGroup, .closeGroup, .operator, .assignment, .number]

/-- What each defect says about the line of a statement. -/
inductive Describes (s : Statement) : Defect → Prop where
  | missingEndMark {expected : EndMark}
      (hexpected : expected = .colon ↔ s.head = .conditional ∨ s.head = .loop)
      (hlast : ¬ EndsIn s.text.runs expected) : Describes s (.missingEndMark expected)
  | unknownToken {front later : List Token} {t : Token} {before after : Text}
      (hlast : EndsIn s.text.runs s.head.requiredMark) (htokens : s.tokens = front ++ t :: later)
      (hfront : ∀ u ∈ front, u.category ≠ .unknown) (hcategory : t.category = .unknown)
      (hunknown : Category.ofWord t.text = .unknown) (hne : t.text ≠ [])
      (hsolid : ∀ c ∈ t.text, isBlank c = false) (htext : s.text = before ++ t.text ++ after)
      (hstart : before.byteSize = t.start) :
      Describes s (.unknownToken t.text (before.length + 1))
  | declarationLength (hs : s.Complete) (hhead : s.head = .declaration)
      (hmin : 2 ≤ s.tokens.length) (hne : s.tokens.length ≠ 3) :
      Describes s (.declarationLength s.tokens.length)
  | assignmentTarget {word : Text} {second : Token} (hs : s.Complete)
      (hsecond : s.tokens[1]? = some second) (hsign : second.text = ['='])
      (hword : s.text.runs.head? = some word) (hhead : s.head = Category.ofWord word)
      (hfound : Category.ofWord word ∈ wrongTargets) :
      Describes s (.assignmentTarget (Category.ofWord word))
  | noComparison (hs : s.Complete) (hhead : s.head = .conditional ∨ s.head = .loop)
      (hnone : .comparison ∉ s.categories) : Describes s .noComparison
  | manyComparisons (hs : s.Complete) (hhead : s.head = .conditional ∨ s.head = .loop)
      (hmany : 2 ≤ s.categories.count .comparison) :
      Describes s (.manyComparisons (s.categories.count .comparison))
  | operand {cs : List Category} {defect : Defect} (hs : s.Complete) (hcs : s.Examines cs)
      (hd : OperandDefect cs defect) : Describes s defect
  | unrecognized (hs : s.Complete) (hhead : s.head ∉ [.declaration, .conditional, .loop])
      (hsecond : ∀ t ∈ s.tokens[1]?, t.text ≠ ['=']) : Describes s .unrecognized

theorem dropTrailing_ne_self_iff {mark : Char} {w : Text} :
    dropTrailing (· == mark) w ≠ w ↔ w.getLast? = some mark := by
  rw [dropTrailing_eq_rdropWhile, Ne, List.rdropWhile_eq_self_iff]
  constructor
  · intro h
    by_contra hn
    refine h fun hne he => hn ?_
    rw [List.getLast?_eq_some_getLast hne]
    simpa using he
  · intro h hn
    have hne : w ≠ [] := by
      rintro rfl
      cases h
    rw [List.getLast?_eq_some_getLast hne, Option.some.injEq] at h
    exact hn hne (by simp [h])

theorem closesWith_iff_endsIn (words : List Text) (mark : EndMark) :
    (∃ body, ClosesWith mark.char words body) ↔ EndsIn words mark := by
  cases words using List.reverseRecOn with
  | nil =>
    constructor
    · rintro ⟨body, hb⟩
      generalize hw : ([] : List Text) = words at hb
      cases hb <;> simp at hw
    · rintro ⟨last, hl, _⟩
      cases hl
  | append_singleton front last =>
    have he : EndsIn (front ++ [last]) mark ↔ last.getLast? = some mark.char := by
      simp [EndsIn]
    rw [he, ← dropTrailing_ne_self_iff]
    exact ⟨fun ⟨_, hb⟩ => (closesWith_concat_iff.mp hb).1,
      fun hd => ⟨_, closesWith_concat_iff.mpr ⟨hd, rfl⟩⟩⟩

section

variable {line : Nat} {text : Text} {s : Statement}

theorem endMark?_iff_endsIn (h : Statement.ofLine? line text = some s) :
    s.endMark? = some s.head.requiredMark ↔ EndsIn s.text.runs s.head.requiredMark := by
  obtain ⟨first, later, hw, rfl⟩ := Statement.ofLine?_eq_some h
  rw [endMark?_tokensOf_iff (List.cons_ne_nil first later) rfl, closesWith_iff_endsIn,
    ← map_text_words, hw]

theorem eligible_iff_complete (h : Statement.ofLine? line text = some s) :
    s.Eligible ↔ s.Complete :=
  ⟨fun he => ⟨(endMark?_iff_endsIn h).mp he.marked, he.known⟩,
    fun hc => ⟨(endMark?_iff_endsIn h).mpr hc.ended, hc.known⟩⟩

theorem mem_tokens (h : Statement.ofLine? line text = some s) {t : Token} (ht : t ∈ s.tokens) :
    (t.text = [s.head.requiredMark.char] ∧ t.category = .endMark s.head.requiredMark) ∨
      (t.text ≠ [] ∧ t.category = Category.ofWord t.text ∧ (∀ c ∈ t.text, isBlank c = false) ∧
        ∃ before after, s.text = before ++ t.text ++ after ∧ before.byteSize = t.start) := by
  obtain ⟨-, before, word, after, ts, hparts⟩ := Statement.exists_parts h
  cases hm : t.isMark with
  | true =>
    obtain ⟨htext, hc, -⟩ := hparts.closing.of_isMark (hparts.mem_closing ht hm) hm
    exact .inl ⟨htext, hc⟩
  | false =>
    have hstands := hparts.standsIn ht
    obtain ⟨front, later, htext, hstart⟩ := Word.StandsIn.placed hstands
    rw [Nat.zero_add] at hstart
    exact .inr ⟨Word.StandsIn.nonempty hstands, hparts.category_eq ht hm,
      Word.StandsIn.solid hstands, front, later, htext, hstart⟩

theorem headCategory?_runs (h : Statement.ofLine? line text = some s) :
    headCategory? s.text.runs = some s.head := by
  obtain ⟨first, later, hw, rfl⟩ := Statement.ofLine?_eq_some h
  rw [← map_text_words, hw]
  cases later <;> rfl

theorem second_eq_assignment_iff (h : Statement.ofLine? line text = some s) :
    s.categories[1]? = some .assignment ↔ ∃ t, s.tokens[1]? = some t ∧ t.text = ['='] := by
  have hsign : ∀ t ∈ s.tokens, t.category = .assignment ↔ t.text = ['='] := by
    intro t ht
    rcases mem_tokens h ht with ⟨htext, hc⟩ | ⟨_, hc, _⟩
    · rw [htext, hc]
      cases s.head.requiredMark <;> decide
    · rw [hc, Category.ofWord_eq_assignment_iff]
  rw [Statement.categories, List.getElem?_map, Option.map_eq_some_iff]
  constructor
  · rintro ⟨t, ht, hc⟩
    exact ⟨t, ht, (hsign t (List.mem_of_getElem? ht)).mp hc⟩
  · rintro ⟨t, ht, hc⟩
    exact ⟨t, ht, (hsign t (List.mem_of_getElem? ht)).mpr hc⟩

theorem head_eq_ofWord_of_assignment (h : Statement.ofLine? line text = some s)
    (hr : s.Reaches .assignment) :
    ∃ word, s.text.runs.head? = some word ∧ s.head = Category.ofWord word := by
  obtain ⟨operand, hc, _⟩ := categories_of_assignment h hr
  obtain ⟨_, body, hb, hbody⟩ := Statement.exists_closesWith h hr.1.marked
  have hlen : 2 ≤ body.length := by
    have he := congrArg List.length (hc.symm.trans hbody)
    simp only [List.length_cons, List.length_append, List.length_map, List.length_nil] at he
    omega
  have hwords := hlen.trans hb.length_le
  obtain ⟨first, later, hw, rfl⟩ := Statement.ofLine?_eq_some h
  rw [← map_text_words, hw] at hwords ⊢
  cases later with
  | nil => simp at hwords
  | cons next later => exact ⟨first.text, rfl, rfl⟩

theorem head_mem_wrongTargets (h : Statement.ofLine? line text = some s)
    (hr : s.Reaches .assignment) (hi : s.head ≠ .identifier) : s.head ∈ wrongTargets := by
  have hu : s.head ≠ .unknown := by
    obtain ⟨inner, hc, _⟩ := categories_of_reaches h hr
    intro he
    exact hr.1.known (by rw [hc, he]; exact List.mem_cons_self)
  have hm : ∀ mark, s.head ≠ .endMark mark := by
    obtain ⟨word, _, hw⟩ := head_eq_ofWord_of_assignment h hr
    exact fun mark => hw ▸ ofWord_ne_endMark word mark
  have hrule := hr.2
  revert hu hm hi hrule
  cases s.head <;> simp [Statement.ruleOf?, wrongTargets]

theorem count_comparison_of_guard {head : Category} (hhead : head = .conditional ∨ head = .loop)
    (inner : List Category) (mark : EndMark) :
    (head :: (inner ++ [.endMark mark])).count .comparison = inner.count .comparison := by
  rcases hhead with rfl | rfl <;> simp

theorem ruleOf?_guard_iff {head : Category} {cs : List Category} :
    Statement.ruleOf? head cs = some .guard ↔ head = .conditional ∨ head = .loop := by
  cases head <;> simp [Statement.ruleOf?]

theorem requiredMark_eq_colon_iff (head : Category) :
    head.requiredMark = .colon ↔ head = .conditional ∨ head = .loop := by
  cases head <;> simp [Category.requiredMark, Category.opensBlock]

theorem describes_of_unknown (h : Statement.ofLine? line text = some s)
    (hm : s.endMark? = some s.head.requiredMark) {front later : List Token} {t : Token}
    (ht : s.tokens = front ++ t :: later) (hu : t.category = .unknown)
    (hfront : ∀ u ∈ front, u.category ≠ .unknown) :
    Describes s (.unknownToken t.text (s.text.column t.start)) := by
  have hmem : t ∈ s.tokens := by simp [ht]
  rcases mem_tokens h hmem with ⟨_, hc⟩ | ⟨hne, hc, hsolid, before, after, htext, hstart⟩
  · rw [hu] at hc
    cases hc
  · have hcolumn : s.text.column t.start = before.length + 1 := by
      rw [htext, ← hstart, List.append_assoc, column_byteSize]
    rw [hcolumn]
    exact .unknownToken ((endMark?_iff_endsIn h).mp hm) ht hfront hu (hc.symm.trans hu) hne hsolid
      htext hstart

theorem describes_of_guard (hs : s.Complete) (hhead : s.head = .conditional ∨ s.head = .loop)
    {inner : List Category} {defect : Defect}
    (hc : s.categories = s.head :: (inner ++ [.endMark s.head.requiredMark]))
    (hd : GuardDefect inner defect) : Describes s defect := by
  have hcount := count_comparison_of_guard hhead inner s.head.requiredMark
  rw [← hc] at hcount
  have hcolon : s.head.requiredMark = .colon := (requiredMark_eq_colon_iff s.head).mpr hhead
  rw [hcolon] at hc
  cases hd with
  | noComparison hz =>
    exact .noComparison hs hhead (List.count_eq_zero.mp (hcount.trans hz))
  | manyComparisons hm =>
    rw [← hcount] at hm ⊢
    exact .manyComparisons hs hhead hm
  | left he hl hr hd => exact .operand hs (.left hhead (he ▸ hc) hl hr) hd
  | right he hl hr ho hd => exact .operand hs (.right hhead (he ▸ hc) hl hr ho) hd

theorem describes_of_rule (h : Statement.ofLine? line text = some s) {rule : Rule}
    (hr : s.Reaches rule) {defect : Defect} (he : rule.check s.categories = .error defect) :
    Describes s defect := by
  have hs : s.Complete := (eligible_iff_complete h).mp hr.1
  obtain ⟨inner, hc, hn⟩ := categories_of_reaches h hr
  cases rule with
  | declaration =>
    have hhead : s.head = .declaration := by
      have hrule := hr.2
      revert hrule
      cases s.head <;> simp [Statement.ruleOf?]
    have hlen : s.categories.length = s.tokens.length := List.length_map _
    have hmin : 2 ≤ s.categories.length := by
      rw [hc, List.length_cons, List.length_append, List.length_singleton]
      omega
    simp only [Rule.check, Statement.checkDeclaration] at he
    split at he
    · cases he
    · next hne =>
      cases he
      rw [hlen] at hmin hne ⊢
      exact .declarationLength hs hhead hmin hne
  | guard =>
    rw [hc, Rule.check, checkGuard_eq_error_iff hn] at he
    exact describes_of_guard hs (ruleOf?_guard_iff.mp hr.2) hc he
  | assignment =>
    obtain ⟨operand, hc, hn⟩ := categories_of_assignment h hr
    by_cases hi : s.head = .identifier
    · rw [hc, Rule.check, hi, checkAssignment_concat, check_eq_error_iff hn] at he
      rw [hi] at hc
      exact .operand hs (.assigned hi hc) he
    · rw [hc, Rule.check, checkAssignment_of_ne hi] at he
      cases he
      obtain ⟨second, hsecond, hsign⟩ := (second_eq_assignment_iff h).mp (second_of_assignment hr.2)
      obtain ⟨word, hword, hhead⟩ := head_eq_ofWord_of_assignment h hr
      have hfound := head_mem_wrongTargets h hr hi
      rw [hhead] at hfound ⊢
      exact .assignmentTarget hs hsecond hsign hword hhead hfound

theorem ruleOf?_eq_none_iff {head : Category} {cs : List Category} :
    Statement.ruleOf? head cs = none ↔
      head ∉ [.declaration, .conditional, .loop] ∧ cs[1]? ≠ some .assignment := by
  cases head <;> simp [Statement.ruleOf?]

theorem describes_of_judge (h : Statement.ofLine? line text = some s) {defect : Defect}
    (he : s.judge = .error defect) : Describes s defect := by
  rcases s.judge_cases with hm | ⟨hm, front, t, later, ht, hu, hfront⟩ | ⟨rule, hr⟩ | ⟨hel, hr⟩
  · rw [Statement.judge_of_not_marked hm] at he
    cases he
    exact .missingEndMark (requiredMark_eq_colon_iff s.head) (mt (endMark?_iff_endsIn h).mpr hm)
  · rw [Statement.judge_of_unknown hm ht hfront hu] at he
    cases he
    exact describes_of_unknown h hm ht hu hfront
  · rw [Statement.judge_of_reaches hr, map_eq_error_iff] at he
    exact describes_of_rule h hr he
  · rw [Statement.judge_of_no_rule hel hr] at he
    cases he
    obtain ⟨hhead, hsecond⟩ := ruleOf?_eq_none_iff.mp hr
    refine .unrecognized ((eligible_iff_complete h).mp hel) hhead fun t ht hsign => ?_
    exact hsecond ((second_eq_assignment_iff h).mpr ⟨t, ht, hsign⟩)

theorem judge_of_check (h : Statement.ofLine? line text = some s) (hs : s.Complete) {rule : Rule}
    (hrule : Statement.ruleOf? s.head s.categories = some rule) {defect : Defect}
    (he : rule.check s.categories = .error defect) : s.judge = .error defect := by
  have hr : s.Reaches rule := ⟨(eligible_iff_complete h).mpr hs, hrule⟩
  rw [Statement.judge_of_reaches hr, map_eq_error_iff, he]

theorem judge_of_guardDefect (h : Statement.ofLine? line text = some s) (hs : s.Complete)
    (hhead : s.head = .conditional ∨ s.head = .loop) {defect : Defect}
    (hd : ∀ inner, s.categories = s.head :: (inner ++ [.endMark .colon]) →
      GuardDefect inner defect) : s.judge = .error defect := by
  have hrule : Statement.ruleOf? s.head s.categories = some .guard := ruleOf?_guard_iff.mpr hhead
  obtain ⟨inner, hc, hn⟩ := categories_of_reaches h ⟨(eligible_iff_complete h).mpr hs, hrule⟩
  have hcolon : s.head.requiredMark = .colon := (requiredMark_eq_colon_iff s.head).mpr hhead
  refine judge_of_check h hs hrule ?_
  rw [hc, Rule.check, checkGuard_eq_error_iff hn]
  exact hd inner (hcolon ▸ hc)

theorem judge_of_assigned (h : Statement.ofLine? line text = some s) (hs : s.Complete)
    (hhead : s.head = .identifier) {operand : List Category} {defect : Defect}
    (hc : s.categories = .identifier :: .assignment :: (operand ++ [.endMark .semicolon]))
    (hd : OperandDefect operand defect) : s.judge = .error defect := by
  have hrule : Statement.ruleOf? s.head s.categories = some .assignment := by
    rw [hhead, hc]
    rfl
  obtain ⟨found, hf, hn⟩ :=
    categories_of_assignment h ⟨(eligible_iff_complete h).mpr hs, hrule⟩
  have he : operand = found := by
    rw [hc, hhead, List.cons_inj_right, List.cons_inj_right] at hf
    exact (List.append_inj' hf rfl).1
  refine judge_of_check h hs hrule ?_
  rw [hc, Rule.check, checkAssignment_concat, check_eq_error_iff (he ▸ hn)]
  exact hd

theorem judge_of_describes (h : Statement.ofLine? line text = some s) {defect : Defect}
    (hd : Describes s defect) : s.judge = .error defect := by
  cases hd with
  | @missingEndMark expected hexpected hlast =>
    have he : expected = s.head.requiredMark := by
      rw [← requiredMark_eq_colon_iff] at hexpected
      cases expected <;> cases hm : s.head.requiredMark <;> simp_all
    rw [he] at hlast ⊢
    exact Statement.judge_of_not_marked (mt (endMark?_iff_endsIn h).mp hlast)
  | @unknownToken front later t before after hlast htokens hfront hcategory _ _ _ htext hstart =>
    have hcolumn : s.text.column t.start = before.length + 1 := by
      rw [htext, ← hstart, List.append_assoc, column_byteSize]
    rw [← hcolumn]
    exact Statement.judge_of_unknown ((endMark?_iff_endsIn h).mpr hlast) htokens hfront hcategory
  | declarationLength hs hhead _ hne =>
    have hlen : s.categories.length = s.tokens.length := List.length_map _
    refine judge_of_check h hs (by rw [hhead]; rfl) ?_
    rw [Rule.check, Statement.checkDeclaration, hlen, if_neg hne]
  | assignmentTarget hs hsecond hsign _ hhead hfound =>
    rw [← hhead] at hfound ⊢
    have hrule : Statement.ruleOf? s.head s.categories = some .assignment := by
      have hc := (second_eq_assignment_iff h).mpr ⟨_, hsecond, hsign⟩
      revert hfound
      cases s.head <;> simp [Statement.ruleOf?, wrongTargets, hc]
    have hi : s.head ≠ .identifier := by
      intro hi
      rw [hi] at hfound
      exact absurd hfound (by decide)
    obtain ⟨operand, hc, _⟩ :=
      categories_of_assignment h ⟨(eligible_iff_complete h).mpr hs, hrule⟩
    refine judge_of_check h hs hrule ?_
    rw [hc, Rule.check, checkAssignment_of_ne hi]
  | noComparison hs hhead hnone =>
    refine judge_of_guardDefect h hs hhead fun inner hc => .noComparison ?_
    rw [← count_comparison_of_guard hhead inner .colon, ← hc]
    exact List.count_eq_zero.mpr hnone
  | manyComparisons hs hhead hmany =>
    refine judge_of_guardDefect h hs hhead fun inner hc => ?_
    have hcount := count_comparison_of_guard hhead inner .colon
    rw [← hc] at hcount
    rw [hcount] at hmany ⊢
    exact .manyComparisons hmany
  | operand hs hcs hd =>
    have hinner : ∀ {front inner : List Category},
        s.categories = s.head :: (front ++ [.endMark .colon]) →
        s.categories = s.head :: (inner ++ [.endMark .colon]) → inner = front := by
      intro front inner hf hi
      rw [hf, List.cons_inj_right] at hi
      exact (List.append_inj' hi rfl).1.symm
    cases hcs with
    | assigned hhead hc => exact judge_of_assigned h hs hhead hc hd
    | left hhead hc hl hr =>
      exact judge_of_guardDefect h hs hhead fun inner hi => .left (hinner hc hi) hl hr hd
    | right hhead hc hl hr ho =>
      exact judge_of_guardDefect h hs hhead fun inner hi => .right (hinner hc hi) hl hr ho hd
  | unrecognized hs hhead hsecond =>
    refine Statement.judge_of_no_rule ((eligible_iff_complete h).mpr hs) ?_
    refine ruleOf?_eq_none_iff.mpr ⟨hhead, fun hc => ?_⟩
    obtain ⟨t, ht, hsign⟩ := (second_eq_assignment_iff h).mp hc
    exact hsecond t ht hsign

end

theorem verdict_rejected_iff_judge (line : Nat) (text : Text) (defect : Defect) :
    (Report.ofLine line text).verdict = .rejected defect ↔
      ∃ s, Statement.ofLine? line text = some s ∧ s.judge = .error defect := by
  rw [Report.ofLine]
  cases hs : Statement.ofLine? line text with
  | none => simp
  | some s => simpa using Verdict.ofStatement_eq_rejected_iff

/-- A line is rejected with a defect exactly if it was read as a statement, under the category of
its first word, that the defect describes. -/
theorem verdict_rejected_iff_describes (line : Nat) (text : Text) (defect : Defect) :
    (Report.ofLine line text).verdict = .rejected defect ↔
      ∃ s, Statement.ofLine? line text = some s ∧ s.text = text ∧
        headCategory? text.runs = some s.head ∧ Describes s defect := by
  rw [verdict_rejected_iff_judge]
  constructor
  · rintro ⟨s, hs, hj⟩
    have htext : s.text = text := (start_le_of_mem_ofLine? hs).1
    exact ⟨s, hs, htext, htext ▸ headCategory?_runs hs, describes_of_judge hs hj⟩
  · rintro ⟨s, hs, _, _, hd⟩
    exact ⟨s, hs, judge_of_describes hs hd⟩

example : (Report.ofLine 1 "5é = $;".toList).verdict = .rejected (.unknownToken ['$'] 6) := by
  decide

end LineGrammar
