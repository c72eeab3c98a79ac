import LineGrammar.Proofs.Diagnoses

/-! The judgement on any statement, also on one whose head, texts and categories do not belong
together. Which tokens a rule looks at is said by their positions among all tokens. -/

namespace LineGrammar

/-- The positions of comparisons strictly between the first category and the last one. -/
def comparisons (cs : List Category) : List Nat :=
  (cs.findIdxs (· == .comparison)).filter fun i => 0 < i ∧ i + 1 < cs.length

/-- The categories strictly between two positions. -/
def between (cs : List Category) (i j : Nat) : List Category :=
  (cs.take j).drop (i + 1)

namespace Statement

/-- Every token begins between two characters of the text, or at one of its ends. -/
def Fits (s : Statement) : Prop :=
  ∀ t ∈ s.tokens, ∃ before after, s.text = before ++ after ∧ before.byteSize = t.start

/-- What a statement is judged to be. The end mark comes first, then the leftmost unknown token,
then the rule of the head. -/
inductive Judgement (s : Statement) : Except Defect Kind → Prop where
  | missingEndMark (h : ∀ t ∈ s.tokens.getLast?, t.category ≠ .endMark s.head.requiredMark) :
      Judgement s (.error (.missingEndMark s.head.requiredMark))
  | unknownToken {i : Nat} {t : Token} {before after : Text}
      (hm : s.endMark? = some s.head.requiredMark) (ht : s.tokens[i]? = some t)
      (hu : t.category = .unknown) (hfirst : ∀ j < i, s.categories[j]? ≠ some .unknown)
      (htext : s.text = before ++ after) (hstart : before.byteSize = t.start) :
      Judgement s (.error (.unknownToken t.text (before.length + 1)))
  | declaration (hs : s.Eligible) (hhead : s.head = .declaration) (hlen : s.tokens.length = 3) :
      Judgement s (.ok .declaration)
  | declarationLength (hs : s.Eligible) (hhead : s.head = .declaration)
      (hlen : s.tokens.length ≠ 3) :
      Judgement s (.error (.declarationLength s.tokens.length))
  | noComparison (hs : s.Eligible) (hhead : s.head = .conditional ∨ s.head = .loop)
      (hnone : comparisons s.categories = []) : Judgement s (.error .noComparison)
  | manyComparisons (hs : s.Eligible) (hhead : s.head = .conditional ∨ s.head = .loop)
      (hmany : 2 ≤ (comparisons s.categories).length) :
      Judgement s (.error (.manyComparisons (comparisons s.categories).length))
  | left {k : Nat} {defect : Defect} (hs : s.Eligible)
      (hhead : s.head = .conditional ∨ s.head = .loop) (hone : comparisons s.categories = [k])
      (hl : Operand.check (between s.categories 0 k) = .error defect) :
      Judgement s (.error defect)
  | right {k : Nat} {defect : Defect} (hs : s.Eligible)
      (hhead : s.head = .conditional ∨ s.head = .loop) (hone : comparisons s.categories = [k])
      (hl : Operand.check (between s.categories 0 k) = .ok ())
      (hr : Operand.check (between s.categories k (s.tokens.length - 1)) = .error defect) :
      Judgement s (.error defect)
  | guard {k : Nat} {kind : Kind} (hs : s.Eligible)
      (hhead : s.head = .conditional ∧ kind = .conditional ∨ s.head = .loop ∧ kind = .loop)
      (hone : comparisons s.categories = [k])
      (hl : Operand.check (between s.categories 0 k) = .ok ())
      (hr : Operand.check (between s.categories k (s.tokens.length - 1)) = .ok ()) :
      Judgement s (.ok kind)
  | unrecognized (hs : s.Eligible) (hhead : s.head ∉ [.declaration, .conditional, .loop])
      (hsecond : s.categories[1]? ≠ some .assignment) : Judgement s (.error .unrecognized)
  | assignmentTarget {found : Category} (hs : s.Eligible)
      (hhead : s.head ∉ [.declaration, .conditional, .loop])
      (hsecond : s.categories[1]? = some .assignment) (hfirst : s.categories[0]? = some found)
      (hfound : found ≠ .identifier) : Judgement s (.error (.assignmentTarget found))
  | operand {defect : Defect} (hs : s.Eligible)
      (hhead : s.head ∉ [.declaration, .conditional, .loop])
      (hsecond : s.categories[1]? = some .assignment)
      (hfirst : s.categories[0]? = some .identifier)
      (ho : Operand.check (between s.categories 1 (s.tokens.length - 1)) = .error defect) :
      Judgement s (.error defect)
  | assignment (hs : s.Eligible) (hhead : s.head ∉ [.declaration, .conditional, .loop])
      (hsecond : s.categories[1]? = some .assignment)
      (hfirst : s.categories[0]? = some .identifier)
      (ho : Operand.check (between s.categories 1 (s.tokens.length - 1)) = .ok ()) :
      Judgement s (.ok .assignment)

end Statement

theorem between_eq {cs front middle later : List Category} {c d : Category} {i j : Nat}
    (hcs : cs = front ++ c :: (middle ++ d :: later)) (hi : i = front.length)
    (hj : j = i + 1 + middle.length) : between cs i j = middle := by
  have hsplit : cs = (front ++ [c]) ++ middle ++ d :: later := by simp [hcs]
  have htake : ((front ++ [c]) ++ middle).length = j := by
    rw [hj, hi, List.length_append, List.length_append, List.length_singleton]
  have hdrop : (front ++ [c]).length = i + 1 := by
    rw [hi, List.length_append, List.length_singleton]
  rw [between, hsplit, List.take_left' htake, List.drop_left' hdrop]

theorem comparisons_cons_concat (first last : Category) (inner : List Category) :
    comparisons (first :: (inner ++ [last])) = inner.findIdxs (· == .comparison) 1 := by
  have hinner : ∀ i ∈ inner.findIdxs (· == .comparison) 1, 0 < i ∧ i + 1 < inner.length + 2 := by
    intro i hi
    have hge := List.ge_of_mem_findIdxs i hi
    have hlt := List.lt_add_of_mem_findIdxs i hi
    omega
  have hfilter : (inner.findIdxs (· == .comparison) 1).filter
      (fun i => 0 < i ∧ i + 1 < inner.length + 2) = inner.findIdxs (· == .comparison) 1 :=
    List.filter_eq_self.mpr fun i hi => decide_eq_true (hinner i hi)
  have hlen : (first :: (inner ++ [last])).length = inner.length + 2 := by simp
  rw [comparisons, hlen, ← List.singleton_append, List.findIdxs_append, List.findIdxs_append,
    List.filter_append, List.filter_append, List.findIdxs_singleton, List.findIdxs_singleton]
  simp only [List.length_singleton, Nat.zero_add, hfilter]
  split <;> split <;> simp [Nat.add_comm 1]

theorem length_comparisons (cs : List Category) :
    (comparisons cs).length = cs.tail.dropLast.count .comparison := by
  rcases cs with _ | ⟨first, later⟩
  · rfl
  · cases later using List.reverseRecOn with
    | nil => cases first <;> rfl
    | append_singleton inner last =>
      rw [comparisons_cons_concat, List.length_findIdxs, List.tail_cons, List.dropLast_concat,
        List.count]

theorem exists_split_of_comparisons {cs : List Category} {k : Nat} (h : comparisons cs = [k]) :
    ∃ first left right last, cs = first :: (left ++ .comparison :: right ++ [last]) ∧
      .comparison ∉ left ∧ .comparison ∉ right ∧ k = left.length + 1 := by
  have hcount := length_comparisons cs
  rw [h, List.length_singleton] at hcount
  rcases cs with _ | ⟨first, later⟩
  · cases hcount
  · cases later using List.reverseRecOn with
    | nil => cases hcount
    | append_singleton inner last =>
      rw [List.tail_cons, List.dropLast_concat] at hcount
      obtain ⟨left, right, rfl, hl, hr⟩ := count_eq_one_iff_split.mp hcount.symm
      have hnone : left.findIdxs (· == .comparison) 1 = [] :=
        List.findIdxs_eq_nil_iff.mpr fun c hc => beq_false_of_ne (ne_of_mem_of_not_mem hc hl)
      rw [comparisons_cons_concat, List.findIdxs_append, hnone, List.findIdxs_cons] at h
      have hk : 1 + left.length = k := (List.cons.inj h).1
      exact ⟨first, left, right, last, rfl, hl, hr, by omega⟩

/-- The only comparison of a guard splits what lies between the first category and the last. -/
theorem checkGuard_of_comparisons {cs : List Category} {k : Nat} (h : comparisons cs = [k]) :
    Statement.checkGuard cs =
      (Operand.check (between cs 0 k)).bind fun _ =>
        Operand.check (between cs k (cs.length - 1)) := by
  obtain ⟨first, left, right, last, hcs, hl, hr, hk⟩ := exists_split_of_comparisons h
  have hlen : cs.length = left.length + right.length + 3 := by
    rw [hcs]
    simp only [List.length_cons, List.length_append, List.length_nil]
    omega
  have hfront : cs = [] ++ first :: (left ++ .comparison :: (right ++ [last])) := by simp [hcs]
  have hback : cs = (first :: left) ++ .comparison :: (right ++ [last]) := by simp [hcs]
  have hleft : between cs 0 k = left := between_eq hfront rfl (by omega)
  have hright : between cs k (cs.length - 1) = right := between_eq hback hk (by omega)
  rw [hleft, hright, hcs, checkGuard_of_split hl hr]

theorem checkGuard_of_none {cs : List Category} (h : comparisons cs = []) :
    Statement.checkGuard cs = .error .noComparison := by
  have hcount := length_comparisons cs
  rw [h, List.length_nil] at hcount
  simp only [Statement.checkGuard, ← hcount]

theorem checkGuard_of_many {cs : List Category} (h : 2 ≤ (comparisons cs).length) :
    Statement.checkGuard cs = .error (.manyComparisons (comparisons cs).length) := by
  have hcount := length_comparisons cs
  rw [hcount] at h ⊢
  simp only [Statement.checkGuard]
  split <;> first | omega | rfl

theorem checkAssignment_of_identifier {cs : List Category} {mark : EndMark}
    (hlast : cs.getLast? = some (.endMark mark)) (hsecond : cs[1]? = some .assignment)
    (hfirst : cs[0]? = some .identifier) :
    Statement.checkAssignment cs = Operand.check (between cs 1 (cs.length - 1)) := by
  obtain ⟨front, hcs⟩ := List.getLast?_eq_some_iff.mp hlast
  rcases front with _ | ⟨c, _ | ⟨d, operand⟩⟩
  · simp [hcs] at hfirst
  · simp [hcs] at hsecond
  · obtain rfl : c = .identifier := by simpa [hcs] using hfirst
    obtain rfl : d = .assignment := by simpa [hcs] using hsecond
    have hback : cs = [.identifier] ++ .assignment :: (operand ++ [.endMark mark]) := hcs
    have hlen : cs.length - 1 = 1 + 1 + operand.length := by
      rw [hcs]
      simp
      omega
    have hoperand : between cs 1 (cs.length - 1) = operand := between_eq hback rfl hlen
    rw [hoperand, hcs]
    exact checkAssignment_concat operand (.endMark mark)

namespace Statement

variable {s : Statement}

theorem endMark?_eq_some_iff {mark : EndMark} :
    s.endMark? = some mark ↔ ∃ t ∈ s.tokens.getLast?, t.category = .endMark mark := by
  rw [endMark?, categories, List.getLast?_map]
  cases s.tokens.getLast? with
  | none => simp
  | some t => cases hc : t.category <;> simp [hc]

theorem exists_judgement_of_eligible (hs : s.Eligible) : ∃ result, s.Judgement result := by
  by_cases hd : s.head = .declaration
  · by_cases hlen : s.tokens.length = 3
    · exact ⟨_, .declaration hs hd hlen⟩
    · exact ⟨_, .declarationLength hs hd hlen⟩
  by_cases hg : s.head = .conditional ∨ s.head = .loop
  · match hc : comparisons s.categories with
    | [] => exact ⟨_, .noComparison hs hg hc⟩
    | [k] =>
      cases hl : Operand.check (between s.categories 0 k) with
      | error defect => exact ⟨_, .left hs hg hc hl⟩
      | ok =>
        cases hr : Operand.check (between s.categories k (s.tokens.length - 1)) with
        | error defect => exact ⟨_, .right hs hg hc hl hr⟩
        | ok =>
          rcases hg with hg | hg
          · exact ⟨_, .guard hs (.inl ⟨hg, rfl⟩) hc hl hr⟩
          · exact ⟨_, .guard hs (.inr ⟨hg, rfl⟩) hc hl hr⟩
    | _ :: _ :: _ => exact ⟨_, .manyComparisons hs hg (by simp [hc])⟩
  · have hhead : s.head ∉ [.declaration, .conditional, .loop] := by simp_all
    by_cases hsecond : s.categories[1]? = some .assignment
    · obtain ⟨hlen, _⟩ := List.getElem?_eq_some_iff.mp hsecond
      have hfirst : s.categories[0]? = some s.categories[0] := List.getElem?_eq_getElem _
      by_cases hi : s.categories[0] = .identifier
      · rw [hi] at hfirst
        cases ho : Operand.check (between s.categories 1 (s.tokens.length - 1)) with
        | error defect => exact ⟨_, .operand hs hhead hsecond hfirst ho⟩
        | ok => exact ⟨_, .assignment hs hhead hsecond hfirst ho⟩
      · exact ⟨_, .assignmentTarget hs hhead hsecond hfirst hi⟩
    · exact ⟨_, .unrecognized hs hhead hsecond⟩

theorem first_unknown {front later : List Token} {t : Token} (ht : s.tokens = front ++ t :: later)
    (hfront : ∀ u ∈ front, u.category ≠ .unknown) :
    s.tokens[front.length]? = some t ∧ ∀ j < front.length, s.categories[j]? ≠ some .unknown := by
  refine ⟨by simp [ht], fun j hj hc => ?_⟩
  rw [categories, ht, List.getElem?_map, List.getElem?_append_left hj, Option.map_eq_some_iff] at hc
  obtain ⟨u, hmem, hc⟩ := hc
  exact hfront u (List.mem_of_getElem? hmem) hc

theorem judge_of_first_unknown {i : Nat} {t : Token} (hm : s.endMark? = some s.head.requiredMark)
    (ht : s.tokens[i]? = some t) (hu : t.category = .unknown)
    (hfirst : ∀ j < i, s.categories[j]? ≠ some .unknown) :
    s.judge = .error (.unknownToken t.text (s.text.column t.start)) := by
  obtain ⟨hi, rfl⟩ := List.getElem?_eq_some_iff.mp ht
  have hsplit : s.tokens = s.tokens.take i ++ s.tokens[i] :: s.tokens.drop (i + 1) := by simp
  refine judge_of_unknown hm hsplit (fun u hmem hc => ?_) hu
  obtain ⟨j, hj, rfl⟩ := List.mem_take_iff_getElem.mp hmem
  have hget : s.tokens[j]? = some s.tokens[j] := List.getElem?_eq_getElem _
  refine hfirst j (by omega) ?_
  rw [categories, List.getElem?_map, hget, Option.map_some, hc]

/-- Every statement that fits is judged. -/
theorem exists_judgement (h : s.Fits) : ∃ result, s.Judgement result := by
  rcases s.judge_cases with hm | ⟨hm, front, t, later, ht, hu, hfront⟩ | ⟨_, hs, _⟩ | ⟨hs, _⟩
  · refine ⟨_, .missingEndMark fun t ht hc => hm ?_⟩
    exact endMark?_eq_some_iff.mpr ⟨t, ht, hc⟩
  · obtain ⟨before, after, htext, hstart⟩ := h t (by simp [ht])
    obtain ⟨hi, hfirst⟩ := first_unknown ht hfront
    exact ⟨_, .unknownToken hm hi hu hfirst htext hstart⟩
  · exact exists_judgement_of_eligible hs
  · exact exists_judgement_of_eligible hs

theorem reaches_assignment (hs : s.Eligible)
    (hhead : s.head ∉ [.declaration, .conditional, .loop])
    (hsecond : s.categories[1]? = some .assignment) : s.Reaches .assignment := by
  refine ⟨hs, ?_⟩
  revert hhead
  cases s.head <;> simp [ruleOf?, hsecond]

theorem checkAssignment_of_judgement (hs : s.Eligible)
    (hsecond : s.categories[1]? = some .assignment)
    (hfirst : s.categories[0]? = some .identifier) :
    checkAssignment s.categories =
      Operand.check (between s.categories 1 (s.tokens.length - 1)) := by
  have hlen : s.categories.length = s.tokens.length := List.length_map _
  obtain ⟨t, ht, hc⟩ := endMark?_eq_some_iff.mp hs.marked
  have hlast : s.categories.getLast? = some (.endMark s.head.requiredMark) := by
    rw [categories, List.getLast?_map, ht, Option.map_some, hc]
  rw [checkAssignment_of_identifier hlast hsecond hfirst, hlen]

theorem judge_of_judgement {result : Except Defect Kind} (h : s.Judgement result) :
    s.judge = result := by
  have hlen : s.categories.length = s.tokens.length := List.length_map _
  have hguard (hs : s.Eligible) (hhead : s.head = .conditional ∨ s.head = .loop) :=
    judge_of_reaches ⟨hs, ruleOf?_guard_iff.mpr hhead⟩
  cases h with
  | missingEndMark h =>
    refine judge_of_not_marked fun hm => ?_
    obtain ⟨t, ht, hc⟩ := endMark?_eq_some_iff.mp hm
    exact h t ht hc
  | unknownToken hm ht hu hfirst htext hstart =>
    rw [judge_of_first_unknown hm ht hu hfirst, htext, ← hstart, column_byteSize]
  | declaration hs hhead hn =>
    rw [judge_of_eligible hs, hhead, Statement.rule, checkDeclaration, hlen, if_pos hn]
    rfl
  | declarationLength hs hhead hn =>
    rw [judge_of_eligible hs, hhead, Statement.rule, checkDeclaration, hlen, if_neg hn]
    rfl
  | noComparison hs hhead hnone =>
    rw [hguard hs hhead, Rule.check, checkGuard_of_none hnone]
    rfl
  | manyComparisons hs hhead hmany =>
    rw [hguard hs hhead, Rule.check, checkGuard_of_many hmany]
    rfl
  | left hs hhead hone hl =>
    rw [hguard hs hhead, Rule.check, checkGuard_of_comparisons hone, hl]
    rfl
  | right hs hhead hone hl hr =>
    rw [hguard hs hhead, Rule.check, checkGuard_of_comparisons hone, hl, hlen]
    exact congrArg (Except.map _) hr
  | guard hs hhead hone hl hr =>
    rw [hguard hs (hhead.imp And.left And.left), Rule.check, checkGuard_of_comparisons hone, hl,
      hlen]
    rcases hhead with ⟨hhead, rfl⟩ | ⟨hhead, rfl⟩
    · rw [hhead]
      exact congrArg (Except.map _) hr
    · rw [hhead]
      exact congrArg (Except.map _) hr
  | unrecognized hs hhead hsecond =>
    exact judge_of_no_rule hs (ruleOf?_eq_none_iff.mpr ⟨hhead, hsecond⟩)
  | assignmentTarget hs hhead hsecond hfirst hfound =>
    obtain ⟨later, hc⟩ := List.head?_eq_some_iff.mp (List.head?_eq_getElem?.trans hfirst)
    rw [judge_of_reaches (reaches_assignment hs hhead hsecond), hc, Rule.check,
      checkAssignment_of_ne hfound]
    rfl
  | operand hs hhead hsecond hfirst ho =>
    rw [judge_of_reaches (reaches_assignment hs hhead hsecond), Rule.check,
      checkAssignment_of_judgement hs hsecond hfirst, ho]
    rfl
  | assignment hs hhead hsecond hfirst ho =>
    rw [judge_of_reaches (reaches_assignment hs hhead hsecond), Rule.check,
      checkAssignment_of_judgement hs hsecond hfirst, ho]
    rfl

theorem expected_of_judgement {mark : EndMark} (h : s.Judgement (.error (.missingEndMark mark))) :
    mark = s.head.requiredMark ∧
      ∀ t ∈ s.tokens.getLast?, t.category ≠ .endMark s.head.requiredMark := by
  cases h with
  | missingEndMark h => exact ⟨rfl, h⟩
  | left _ _ _ hl => rcases defect_of_check hl with hd | hd <;> cases hd
  | right _ _ _ _ hr => rcases defect_of_check hr with hd | hd <;> cases hd
  | operand _ _ _ _ ho => rcases defect_of_check ho with hd | hd <;> cases hd

/-- Statements are judged as described, whatever their tokens are, and the end mark is missing
exactly if it is not the category of the last token. -/
theorem judge_eq_iff_judgement (h : s.Fits) :
    (∀ result, s.judge = result ↔ s.Judgement result) ∧
      ∀ mark, s.judge = .error (.missingEndMark mark) ↔ mark = s.head.requiredMark ∧
        ∀ t ∈ s.tokens.getLast?, t.category ≠ .endMark s.head.requiredMark := by
  have hiff (result : Except Defect Kind) : s.judge = result ↔ s.Judgement result := by
    constructor
    · rintro rfl
      obtain ⟨result, hr⟩ := exists_judgement h
      rwa [judge_of_judgement hr]
    · exact judge_of_judgement
  refine ⟨hiff, fun mark => ?_⟩
  rw [hiff]
  constructor
  · exact expected_of_judgement
  · rintro ⟨rfl, hlast⟩
    exact .missingEndMark hlast

/-- A mark stands first, and nothing but the end belongs to the head. -/
theorem judge_eq_iff_judgement_of_inner_mark :
    let s : Statement := ⟨1, "aéb".toList, .conditional, [⟨['a'], .endMark .semicolon, 0⟩,
      ⟨['='], .comparison, 1⟩, ⟨['b'], .unknown, 3⟩, ⟨[':'], .endMark .colon, 4⟩]⟩
    s.Fits ∧ (∀ result, s.judge = result ↔ s.Judgement result) ∧
      s.Judgement (.error (.unknownToken ['b'] 3)) := by
  intro s
  have hfits : s.Fits := by
    intro t ht
    rcases List.mem_cons.mp ht with rfl | ht
    · exact ⟨[], "aéb".toList, rfl, rfl⟩
    rcases List.mem_cons.mp ht with rfl | ht
    · exact ⟨['a'], "éb".toList, rfl, rfl⟩
    rcases List.mem_cons.mp ht with rfl | ht
    · exact ⟨"aé".toList, ['b'], rfl, rfl⟩
    · obtain rfl := List.mem_singleton.mp ht
      exact ⟨"aéb".toList, [], rfl, rfl⟩
  obtain ⟨hiff, -⟩ := judge_eq_iff_judgement hfits
  exact ⟨hfits, hiff, (hiff _).mp (by decide)⟩

example : judge ⟨1, [], .loop, [⟨[':'], .endMark .colon, 0⟩]⟩ = .error .noComparison := by decide

end Statement

end LineGrammar
