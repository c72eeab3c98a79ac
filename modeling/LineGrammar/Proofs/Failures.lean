import LineGrammar.Proofs.Grammar

/-! What is wrong where the check of an operand, a guard or an assignment fails. Each check fails
with exactly the defects that its relation lists, and with no two of them. -/

namespace LineGrammar

inductive OperandDefect (cs : List Category) : Defect → Prop where
  | unevenGroups (h : cs.count .openGroup ≠ cs.count .closeGroup) :
      OperandDefect cs (.unevenGroups (cs.count .openGroup) (cs.count .closeGroup))
  | malformed (h : cs.count .openGroup = cs.count .closeGroup) (hn : ¬ IsOperand cs) :
      OperandDefect cs .malformedOperand

/-- What is wrong between the keyword and the end mark. The left operand comes first. -/
inductive GuardDefect (inner : List Category) : Defect → Prop where
  | noComparison (h : inner.count .comparison = 0) : GuardDefect inner .noComparison
  | manyComparisons (h : 2 ≤ inner.count .comparison) :
      GuardDefect inner (.manyComparisons (inner.count .comparison))
  | left {left right : List Category} {defect : Defect} (he : inner = left ++ .comparison :: right)
      (hl : .comparison ∉ left) (hr : .comparison ∉ right) (hd : OperandDefect left defect) :
      GuardDefect inner defect
  | right {left right : List Category} {defect : Defect} (he : inner = left ++ .comparison :: right)
      (hl : .comparison ∉ left) (hr : .comparison ∉ right) (ho : IsOperand left)
      (hd : OperandDefect right defect) : GuardDefect inner defect

theorem check_eq_error_iff {cs : List Category} (h : ∀ c ∈ cs, ∀ mark, c ≠ .endMark mark)
    {defect : Defect} : Operand.check cs = .error defect ↔ OperandDefect cs defect := by
  have hok := check_eq_ok_iff h
  constructor
  · intro he
    have hn : ¬ IsOperand cs := fun ho => by simp [hok.mpr ho] at he
    rw [Operand.check] at he
    split at he
    · next hu =>
      cases he
      exact .unevenGroups hu
    · next hb =>
      split at he
      · cases he
      · cases he
        exact .malformed (Decidable.not_not.mp hb) hn
  · intro hd
    cases hd with
    | unevenGroups hu => rw [Operand.check, if_pos hu]
    | malformed hb hn =>
      have hne : Operand.check cs ≠ .ok () := mt hok.mp hn
      rw [Operand.check, if_neg (not_not_intro hb)] at hne ⊢
      split at hne
      · exact absurd rfl hne
      · next hw => rw [if_neg hw]

theorem checkGuard_of_split {left right : List Category} (hl : .comparison ∉ left)
    (hr : .comparison ∉ right) (first last : Category) :
    Statement.checkGuard (first :: (left ++ .comparison :: right ++ [last])) =
      (Operand.check left).bind fun _ => Operand.check right := by
  have hcount : (left ++ .comparison :: right).count .comparison = 1 :=
    count_eq_one_iff_split.mpr ⟨left, right, rfl, hl, hr⟩
  simp only [Statement.checkGuard, List.tail_cons, List.dropLast_concat, hcount]
  rw [takeWhile_ne_append hl, dropWhile_ne_append hl]
  rfl

theorem checkGuard_eq_error_iff {inner : List Category}
    (h : ∀ c ∈ inner, ∀ mark, c ≠ .endMark mark) (first last : Category) {defect : Defect} :
    Statement.checkGuard (first :: (inner ++ [last])) = .error defect ↔
      GuardDefect inner defect := by
  constructor
  · intro he
    by_cases hone : inner.count .comparison = 1
    · obtain ⟨left, right, rfl, hl, hr⟩ := count_eq_one_iff_split.mp hone
      have hleft : ∀ c ∈ left, ∀ mark, c ≠ .endMark mark :=
        fun c hc => h c (List.mem_append_left _ hc)
      have hright : ∀ c ∈ right, ∀ mark, c ≠ .endMark mark :=
        fun c hc => h c (List.mem_append_right _ (List.mem_cons_of_mem _ hc))
      rw [checkGuard_of_split hl hr] at he
      cases hc : Operand.check left with
      | ok =>
        rw [hc] at he
        exact .right rfl hl hr ((check_eq_ok_iff hleft).mp hc) ((check_eq_error_iff hright).mp he)
      | error found =>
        rw [hc] at he
        cases he
        exact .left rfl hl hr ((check_eq_error_iff hleft).mp hc)
    · simp only [Statement.checkGuard, List.tail_cons, List.dropLast_concat] at he
      split at he
      · next hz =>
        cases he
        exact .noComparison hz
      · next ho => exact absurd ho hone
      · next hz _ =>
        have hpos : inner.count .comparison ≠ 0 := hz
        cases he
        exact .manyComparisons (show 2 ≤ inner.count .comparison by omega)
  · intro hd
    cases hd with
    | noComparison hz =>
      simp only [Statement.checkGuard, List.tail_cons, List.dropLast_concat, hz]
    | manyComparisons hm =>
      simp only [Statement.checkGuard, List.tail_cons, List.dropLast_concat]
      split
      · next hz => omega
      · next ho => omega
      · rfl
    | left he hl hr hd =>
      rw [he] at h ⊢
      have hleft := (check_eq_error_iff fun c hc => h c (List.mem_append_left _ hc)).mpr hd
      rw [checkGuard_of_split hl hr, hleft]
      rfl
    | right he hl hr ho hd =>
      rw [he] at h ⊢
      have hleft := (check_eq_ok_iff fun c hc => h c (List.mem_append_left _ hc)).mpr ho
      have hright := (check_eq_error_iff fun c hc =>
        h c (List.mem_append_right _ (List.mem_cons_of_mem _ hc))).mpr hd
      rw [checkGuard_of_split hl hr, hleft]
      exact hright

theorem checkAssignment_of_ne {first : Category} (h : first ≠ .identifier) (later : List Category) :
    Statement.checkAssignment (first :: later) = .error (.assignmentTarget first) := by
  cases first <;> first | rfl | exact absurd rfl h

end LineGrammar
