import LineGrammar.Proofs.Categories
import LineGrammar.Proofs.Failures

/-! Which rule a statement is judged by. The head selects the rule, the rule reads the tokens, and
both agree: where a rule is reached, the head is the category of the first token. -/

namespace LineGrammar

inductive Rule where
  | declaration
  | guard
  | assignment
deriving DecidableEq, Repr

def Rule.check : Rule → List Category → Except Defect Unit
  | declaration => Statement.checkDeclaration
  | guard => Statement.checkGuard
  | assignment => Statement.checkAssignment

/-- The kind of a statement that passes a rule. -/
def Rule.kind (head : Category) : Rule → Kind
  | declaration => .declaration
  | guard => if head = .loop then .loop else .conditional
  | assignment => .assignment

namespace Statement

/-- The rule for a head and the categories of all tokens, if there is one. -/
def ruleOf? (head : Category) (cs : List Category) : Option Rule :=
  match head with
  | .declaration => some .declaration
  | .conditional | .loop => some .guard
  | _ => if cs[1]? = some .assignment then some .assignment else none

/-- Neither the end mark nor an unknown token stops the judgement before the rules. -/
structure Eligible (s : Statement) : Prop where
  marked : s.endMark? = some s.head.requiredMark
  known : .unknown ∉ s.categories

def Reaches (s : Statement) (rule : Rule) : Prop :=
  s.Eligible ∧ ruleOf? s.head s.categories = some rule

theorem rule_eq (head : Category) (cs : List Category) :
    Statement.rule head cs =
      match ruleOf? head cs with
      | some rule => (rule.check cs).map fun _ => rule.kind head
      | none => .error .unrecognized := by
  cases head
  case declaration => rfl
  case conditional => rfl
  case loop => rfl
  all_goals
    simp only [Statement.rule, ruleOf?]
    split <;> rfl

theorem judge_of_not_marked {s : Statement} (h : s.endMark? ≠ some s.head.requiredMark) :
    s.judge = .error (.missingEndMark s.head.requiredMark) := by
  rw [judge, if_pos h]

theorem judge_of_unknown {s : Statement} (hm : s.endMark? = some s.head.requiredMark)
    {front later : List Token} {t : Token} (ht : s.tokens = front ++ t :: later)
    (hfront : ∀ u ∈ front, u.category ≠ .unknown) (hu : t.category = .unknown) :
    s.judge = .error (.unknownToken t.text (s.text.column t.start)) := by
  have hf : s.tokens.find? (·.category == .unknown) = some t := by
    rw [ht, List.find?_eq_some_iff_append]
    exact ⟨by simp [hu], front, later, rfl, fun u hm => by simpa using hfront u hm⟩
  rw [judge, if_neg (not_not_intro hm), hf]

theorem judge_of_eligible {s : Statement} (h : s.Eligible) :
    s.judge = Statement.rule s.head s.categories := by
  have hf : s.tokens.find? (·.category == .unknown) = none := by
    rw [List.find?_eq_none]
    intro t ht
    have hn : t.category ≠ .unknown := fun he => h.known (he ▸ List.mem_map_of_mem ht)
    simpa using hn
  rw [judge, if_neg (not_not_intro h.marked), hf]

theorem judge_of_reaches {s : Statement} {rule : Rule} (h : s.Reaches rule) :
    s.judge = (rule.check s.categories).map fun _ => rule.kind s.head := by
  rw [judge_of_eligible h.1, rule_eq, h.2]

theorem judge_of_no_rule {s : Statement} (h : s.Eligible)
    (hr : ruleOf? s.head s.categories = none) : s.judge = .error .unrecognized := by
  rw [judge_of_eligible h, rule_eq, hr]

/-- All that a judgement can come from. -/
theorem judge_cases (s : Statement) :
    s.endMark? ≠ some s.head.requiredMark ∨
    (s.endMark? = some s.head.requiredMark ∧ ∃ front t later, s.tokens = front ++ t :: later ∧
      t.category = .unknown ∧ ∀ u ∈ front, u.category ≠ .unknown) ∨
    (∃ rule, s.Reaches rule) ∨ (s.Eligible ∧ ruleOf? s.head s.categories = none) := by
  by_cases hm : s.endMark? = some s.head.requiredMark
  · refine .inr ?_
    cases hf : s.tokens.find? (·.category == .unknown) with
    | some t =>
      obtain ⟨hu, front, later, ht, hfront⟩ := List.find?_eq_some_iff_append.mp hf
      have hknown : ∀ u ∈ front, u.category ≠ .unknown := fun u hu => by simpa using hfront u hu
      exact .inl ⟨hm, front, t, later, ht, by simpa using hu, hknown⟩
    | none =>
      have he : s.Eligible := by
        refine ⟨hm, fun hu => ?_⟩
        obtain ⟨t, ht, hc⟩ := List.mem_map.mp hu
        simpa [hc] using List.find?_eq_none.mp hf t ht
      cases hr : ruleOf? s.head s.categories with
      | some rule => exact .inr (.inl ⟨rule, he, hr⟩)
      | none => exact .inr (.inr ⟨he, rfl⟩)
  · exact .inl hm

theorem eq_of_endMark_mem {mark found : EndMark} {ws : List Word}
    (h : .endMark found ∈ (tokensOf mark ws).map Token.category) : found = mark := by
  have hword : ∀ words : List Text, .endMark found ∉ words.map Category.ofWord :=
    fun words => not_mem_map_ofWord_iff.mpr fun w _ => ofWord_ne_endMark w found
  cases ws using List.reverseRecOn with
  | nil => simp [tokensOf] at h
  | append_singleton front last =>
    rw [tokensOf_concat, List.map_append, map_category_closingTokens] at h
    rcases List.mem_append.mp h with h | h
    · rw [List.map_map] at h
      obtain ⟨w, _, hw⟩ := List.mem_map.mp h
      exact absurd hw (ofWord_ne_endMark w.text found)
    · rcases List.mem_append.mp h with h | h
      · exact absurd h (hword _)
      · split at h
        · cases h
        · simpa using h

/-- A statement that ends with a mark has the one that its head requires, and the words of its line
close with it. -/
theorem exists_closesWith {line : Nat} {text : Text} {s : Statement} {mark : EndMark}
    (h : ofLine? line text = some s) (hm : s.endMark? = some mark) :
    mark = s.head.requiredMark ∧ ∃ body, ClosesWith mark.char text.runs body ∧
      s.categories = body.map Category.ofWord ++ [.endMark mark] := by
  obtain ⟨first, later, hw, rfl⟩ := ofLine?_eq_some h
  have hmem : .endMark mark ∈ (tokensOf (headOf first later).requiredMark
      (first :: later)).map Token.category := by
    rw [endMark?] at hm
    split at hm
    · next found hl =>
      cases hm
      exact List.mem_of_getLast? hl
    · cases hm
  obtain rfl := eq_of_endMark_mem hmem
  obtain ⟨body, hb⟩ := (endMark?_tokensOf_iff (List.cons_ne_nil first later) rfl).mp hm
  refine ⟨rfl, body, ?_, map_category_tokensOf hb⟩
  rwa [← map_text_words, hw]

end Statement

def isAnyMark (c : Char) : Bool :=
  c == ';' || c == ':'

theorem isAnyMark_char (mark : EndMark) : isAnyMark mark.char = true := by
  cases mark <;> rfl

theorem isStray_of_isAnyMark {c : Char} (h : isAnyMark c = true) : Category.isStray c = true := by
  simp only [isAnyMark, Bool.or_eq_true, beq_iff_eq] at h
  rcases h with rfl | rfl <;> decide

theorem isAnyMark_of_isDigit (c : Char) (h : c.isDigit = true) : isAnyMark c = false := by
  cases hm : isAnyMark c with
  | false => rfl
  | true =>
    simp only [isAnyMark, Bool.or_eq_true, beq_iff_eq] at hm
    rcases hm with rfl | rfl <;> exact absurd h (by decide)

theorem dropTrailing_append_of_pos {α : Type} {p : α → Bool} {t : List α}
    (h : ∀ a ∈ t, p a = true) (l : List α) : dropTrailing p (l ++ t) = dropTrailing p l := by
  have hr : ∀ a ∈ t.reverse, p a = true := fun a ha => h a (List.mem_reverse.mp ha)
  rw [dropTrailing, dropTrailing, List.reverse_append, List.dropWhile_append_of_pos hr]

/-- Marks at the end of a word that is known belong to a number, or there are none. -/
theorem ofWord_dropTrailing_isAnyMark {w : Text} (h : Category.ofWord w ≠ .unknown) :
    Category.ofWord (dropTrailing isAnyMark w) = Category.ofWord w := by
  by_cases hm : ∃ c ∈ w, isAnyMark c = true
  · obtain ⟨c, hc, hm⟩ := hm
    have hw := Category.ofWord_of_isStray hc (isStray_of_isAnyMark hm)
    have hn : Category.isNumber w = true := by
      by_contra hn
      rw [if_neg hn] at hw
      exact h hw
    have hd : Category.isNumber (dropTrailing isAnyMark w) = true := by
      rwa [Category.isNumber_dropTrailing isAnyMark_of_isDigit]
    rw [Category.ofWord_of_isNumber hn, Category.ofWord_of_isNumber hd]
  · have hself : dropTrailing isAnyMark w = w := by
      rw [dropTrailing_eq_rdropWhile, List.rdropWhile_eq_self_iff]
      exact fun hne ht => hm ⟨_, List.getLast_mem hne, ht⟩
    rw [hself]

/-- What a word leaves without one of the marks decides the head of a line that has no other. -/
theorem headOf_only (first : Word) (mark : EndMark) :
    Statement.headOf first [] =
      Category.ofWord (dropTrailing isAnyMark (dropTrailing (· == mark.char) first.text)) := by
  obtain ⟨k, hk⟩ := exists_dropTrailing_append_replicate mark.char first.text
  have hall : ∀ c ∈ List.replicate k mark.char, isAnyMark c = true := by
    intro c hc
    rw [List.eq_of_mem_replicate hc]
    exact isAnyMark_char mark
  have hd := dropTrailing_append_of_pos hall (dropTrailing (· == mark.char) first.text)
  rw [hk] at hd
  rw [← hd]
  rfl

theorem head?_of_only {w : Text} {head : Category} {body : List Text}
    (hhead : ∀ mark : EndMark,
      head = Category.ofWord (dropTrailing isAnyMark (dropTrailing (· == mark.char) w)))
    (hb : ClosesWith head.requiredMark.char [w] body)
    (hu : ∀ v ∈ body, Category.ofWord v ≠ .unknown) :
    (∃ v, body = [v] ∧ Category.ofWord v = head) ∨
      (body = [] ∧ head = .unknown ∧ ∃ k, 1 ≤ k ∧ w = List.replicate k ';') := by
  have hh := hhead head.requiredMark
  change ClosesWith _ ([] ++ [w]) body at hb
  generalize hw : [] ++ [w] = words at hb
  cases hb with
  | @attached front v k hk hne hlast =>
    obtain ⟨rfl, hl⟩ := List.append_inj' hw rfl
    obtain rfl := List.singleton_inj.mp hl
    rw [dropTrailing_append_replicate hlast, ofWord_dropTrailing_isAnyMark (hu v (by simp))] at hh
    exact .inl ⟨v, rfl, hh.symm⟩
  | @detached front k hk =>
    obtain ⟨rfl, hl⟩ := List.append_inj' hw rfl
    obtain rfl := List.singleton_inj.mp hl
    have hempty : ([] : Text).getLast? ≠ some head.requiredMark.char := by simp
    have hd := dropTrailing_append_replicate hempty k
    rw [List.nil_append] at hd
    rw [hd] at hh
    have hunknown : head = .unknown := hh
    exact .inr ⟨rfl, hunknown, k, hk, by rw [hunknown]; rfl⟩

theorem head?_categories {line : Nat} {text : Text} {s : Statement} {mark : EndMark}
    (h : Statement.ofLine? line text = some s) (hm : s.endMark? = some mark)
    (hu : .unknown ∉ s.categories) :
    s.categories.head? = some s.head ∨
      (s.categories = [.endMark .semicolon] ∧ s.head = .unknown ∧
        ∃ k, 1 ≤ k ∧ text.runs = [List.replicate k ';']) := by
  obtain ⟨rfl, body, hb, hc⟩ := Statement.exists_closesWith h hm
  obtain ⟨first, later, hw, rfl⟩ := Statement.ofLine?_eq_some h
  have hknown : ∀ v ∈ body, Category.ofWord v ≠ .unknown := by
    rw [hc] at hu
    exact fun v hv he => hu (List.mem_append_left _ (he ▸ List.mem_map_of_mem hv))
  rw [hc]
  rw [← map_text_words, hw, List.map_cons] at hb ⊢
  cases later with
  | cons next later =>
    rw [List.map_cons] at hb
    obtain ⟨rest, rfl⟩ := List.head?_eq_some_iff.mp hb.head?_eq
    exact .inl rfl
  | nil =>
    rcases head?_of_only (headOf_only first) hb hknown with
      ⟨v, rfl, hv⟩ | ⟨rfl, hunknown, k, hk, hw⟩
    · exact .inl (by simp [hv])
    · refine .inr ⟨?_, hunknown, k, hk, by rw [hw]; rfl⟩
      have hsemicolon : (Statement.headOf first []).requiredMark = .semicolon := by
        rw [show Statement.headOf first [] = .unknown from hunknown]
        rfl
      simp [hsemicolon]

theorem ruleOf?_of_endMark {head : Category} {mark : EndMark}
    (h : head = .unknown ∨ head = .endMark mark) :
    Statement.ruleOf? head [.endMark mark] = none := by
  rcases h with rfl | rfl <;> simp [Statement.ruleOf?]

/-- Where a rule is reached, the tokens are the head, words, and the end mark. -/
theorem categories_of_reaches {line : Nat} {text : Text} {s : Statement} {rule : Rule}
    (h : Statement.ofLine? line text = some s) (hr : s.Reaches rule) :
    ∃ inner, s.categories = s.head :: (inner ++ [.endMark s.head.requiredMark]) ∧
      ∀ c ∈ inner, ∀ mark, c ≠ .endMark mark := by
  obtain ⟨⟨hm, hu⟩, hrule⟩ := hr
  obtain ⟨_, body, _, hc⟩ := Statement.exists_closesWith h hm
  cases body with
  | nil =>
    have hnone : Statement.ruleOf? s.head s.categories = none := by
      rw [hc]
      apply ruleOf?_of_endMark
      rcases head?_categories h hm hu with hh | ⟨_, hh, _⟩
      · rw [hc] at hh
        exact .inr (Option.some.inj hh).symm
      · exact .inl hh
    rw [hnone] at hrule
    cases hrule
  | cons w later =>
    rcases head?_categories h hm hu with hh | ⟨hone, _⟩
    · rw [hc] at hh
      have hhead : Category.ofWord w = s.head := Option.some.inj hh
      refine ⟨later.map Category.ofWord, by rw [hc, List.map_cons, hhead]; rfl, ?_⟩
      intro c hmem mark
      obtain ⟨v, _, rfl⟩ := List.mem_map.mp hmem
      exact ofWord_ne_endMark v mark
    · rw [hone] at hc
      simp at hc

theorem second_of_assignment {head : Category} {cs : List Category}
    (h : Statement.ruleOf? head cs = some .assignment) : cs[1]? = some .assignment := by
  unfold Statement.ruleOf? at h
  split at h
  · cases h
  · cases h
  · cases h
  · split at h
    · assumption
    · cases h

theorem categories_of_assignment {line : Nat} {text : Text} {s : Statement}
    (h : Statement.ofLine? line text = some s) (hr : s.Reaches .assignment) :
    ∃ operand, s.categories =
        s.head :: .assignment :: (operand ++ [.endMark s.head.requiredMark]) ∧
      ∀ c ∈ operand, ∀ mark, c ≠ .endMark mark := by
  obtain ⟨inner, hc, hn⟩ := categories_of_reaches h hr
  have hsecond := second_of_assignment hr.2
  rw [hc, List.getElem?_cons_succ] at hsecond
  cases inner with
  | nil => cases hsecond
  | cons c operand =>
    obtain rfl : c = .assignment := by simpa using hsecond
    exact ⟨operand, hc, fun c hm => hn c (List.mem_cons_of_mem _ hm)⟩

theorem map_eq_error_iff {α : Type} {x : Except Defect Unit} {a : α} {defect : Defect} :
    (x.map fun _ => a) = .error defect ↔ x = .error defect := by
  cases x <;> simp [Except.map]

theorem reaches_of_judge_eq_error {line : Nat} {text : Text} {s : Statement} {found : Category}
    (h : Statement.ofLine? line text = some s) (he : s.judge = .error (.assignmentTarget found)) :
    s.Reaches .assignment ∧ s.head = found ∧ found ≠ .identifier := by
  rcases s.judge_cases with hm | ⟨hm, _, _, _, ht, hu, hfront⟩ | ⟨rule, hr⟩ | ⟨hel, hr⟩
  · rw [Statement.judge_of_not_marked hm] at he
    cases he
  · rw [Statement.judge_of_unknown hm ht hfront hu] at he
    cases he
  · rw [Statement.judge_of_reaches hr, map_eq_error_iff] at he
    cases rule with
    | declaration =>
      simp only [Rule.check, Statement.checkDeclaration] at he
      split at he <;> cases he
    | guard =>
      obtain ⟨inner, hc, hn⟩ := categories_of_reaches h hr
      rw [hc, Rule.check, checkGuard_eq_error_iff hn] at he
      cases he with
      | left _ _ _ hd => cases hd
      | right _ _ _ _ hd => cases hd
    | assignment =>
      obtain ⟨operand, hc, hn⟩ := categories_of_assignment h hr
      rw [hc, Rule.check] at he
      by_cases hi : s.head = .identifier
      · rw [hi, checkAssignment_concat, check_eq_error_iff hn] at he
        cases he
      · rw [checkAssignment_of_ne hi] at he
        cases he
        exact ⟨hr, rfl, hi⟩
  · rw [Statement.judge_of_no_rule hel hr] at he
    cases he

/-- Head and tokens agree. A statement that ends with a mark and has no unknown token begins with
the category of its head, unless its line is one word of semicolons; so every rule that is reached
finds the head in front, the end mark at the end, and never the case it keeps for anything else. -/
theorem head_agrees {line : Nat} {text : Text} {s : Statement}
    (h : Statement.ofLine? line text = some s) :
    (s.endMark? ≠ none → .unknown ∉ s.categories →
      s.categories.head? = some s.head ∨
        (s.categories = [.endMark .semicolon] ∧ s.head = .unknown ∧
          ∃ k, 1 ≤ k ∧ text.runs = [List.replicate k ';'])) ∧
    (∀ rule, s.Reaches rule →
      s.judge = ((rule.check s.categories).map fun _ => rule.kind s.head) ∧
        2 ≤ s.tokens.length ∧ s.categories.head? = some s.head) ∧
    (s.Reaches .assignment → s.head = .identifier → ∃ operand last,
      s.categories = .identifier :: .assignment :: (operand ++ [last]) ∧
        s.judge = (Operand.check operand).map fun _ => .assignment) ∧
    s.judge ≠ .error (.assignmentTarget .identifier) := by
  refine ⟨fun hm hu => ?_, fun rule hr => ?_, fun hr hi => ?_, fun he => ?_⟩
  · obtain ⟨mark, hm⟩ := Option.ne_none_iff_exists'.mp hm
    exact head?_categories h hm hu
  · obtain ⟨inner, hc, _⟩ := categories_of_reaches h hr
    have hlen := congrArg List.length hc
    simp only [Statement.categories, List.length_map, List.length_cons, List.length_append] at hlen
    exact ⟨Statement.judge_of_reaches hr, by omega, by rw [hc]; rfl⟩
  · obtain ⟨operand, hc, _⟩ := categories_of_assignment h hr
    have hj := Statement.judge_of_reaches hr
    rw [hi] at hc
    rw [hc, Rule.check, checkAssignment_concat] at hj
    exact ⟨operand, _, hc, hj⟩
  · exact (reaches_of_judge_eq_error h he).2.2 rfl

theorem head_agrees_of_stray_colon :
    let s : Statement := ⟨1, "x = 5:;".toList, .identifier,
      [⟨['x'], .identifier, 0⟩, ⟨['='], .assignment, 2⟩, ⟨['5', ':'], .number, 4⟩,
        ⟨[';'], .endMark .semicolon, 6⟩]⟩
    (Statement.ofLine? 1 "x = 5:;".toList = some s ∧ s.endMark? ≠ none ∧
      .unknown ∉ s.categories ∧ s.Reaches .assignment) ∧
    (s.categories.head? = some s.head ∨
      (s.categories = [.endMark .semicolon] ∧ s.head = .unknown ∧
        ∃ k, 1 ≤ k ∧ Text.runs "x = 5:;".toList = [List.replicate k ';'])) ∧
    2 ≤ s.tokens.length ∧
    (∃ operand last, s.categories = .identifier :: .assignment :: (operand ++ [last]) ∧
      s.judge = (Operand.check operand).map fun _ => .assignment) ∧
    s.judge ≠ .error (.assignmentTarget .identifier) := by
  intro s
  have hs : Statement.ofLine? 1 "x = 5:;".toList = some s := by decide
  have hr : s.Reaches .assignment := ⟨⟨by decide, by decide⟩, by decide⟩
  obtain ⟨hhead, hrule, hoperand, hjudge⟩ := head_agrees hs
  exact ⟨⟨hs, by decide, by decide, hr⟩, hhead (by decide) (by decide), (hrule _ hr).2.1,
    hoperand hr rfl, hjudge⟩

end LineGrammar
