import LineGrammar.Proofs.Operands

/-! Larger operands from smaller ones, by an operator between two of them or by a group around one.
The last category of an operand is not asked to fit the one before it until something follows, so
an operand can only be built on if it is closed. -/

namespace LineGrammar

namespace Operand

/-- The last category fits the one before it, or it is the only one. -/
def Closed (cs : List Category) : Prop :=
  cs.length = 1 ∨ ∃ front c last, cs = front ++ [c, last] ∧ c.admits last = true

theorem closed_iff_isChain {cs : List Category} (h : check cs = .ok ()) :
    Closed cs ↔ cs.IsChain (fun c next => c.admits next = true) := by
  obtain ⟨front, last, rfl⟩ := exists_concat_of_check h
  obtain ⟨-, -, hfront⟩ := (check_concat_eq_ok_iff front last).mp h
  constructor
  · rintro (hone | ⟨before, c, final, he, hadmits⟩)
    · obtain rfl : front = [] := by simpa using hone
      exact List.isChain_singleton last
    · have he' : front ++ [last] = (before ++ [c]) ++ [final] := by simpa using he
      obtain ⟨rfl, hlast⟩ := List.append_inj' he' rfl
      obtain rfl : last = final := by simpa using hlast
      rw [he, List.isChain_append_cons_cons]
      exact ⟨hfront, hadmits, List.isChain_singleton last⟩
  · intro hchain
    cases front using List.reverseRecOn with
    | nil => exact .inl rfl
    | append_singleton before c =>
      rw [List.append_assoc, List.singleton_append] at hchain ⊢
      exact .inr ⟨before, c, last, rfl, (List.isChain_append_cons_cons.mp hchain).2.1⟩

end Operand

theorem operator_admits_iff (c : Category) :
    Category.operator.admits c = true ↔ c = .number ∨ c = .identifier ∨ c = .openGroup := by
  cases c <;> simp [Category.admits]

theorem openGroup_admits_iff (c : Category) :
    Category.openGroup.admits c = true ↔ c = .number ∨ c = .identifier := by
  cases c <;> simp [Category.admits]

theorem admits_operator_of_isFinal {c : Category} (h : Operand.isFinal c = true) :
    c.admits .operator = true := by
  cases c <;> simp_all [Category.admits, Operand.isFinal]

/-- Both operands were fine before, so only what the operator newly joins is left to ask: the last
two categories on the left, and the operator with what follows it, unless nothing comes after
that. -/
theorem check_operation_iff {left front : List Category} {last : Category}
    (hl : Operand.check left = .ok ()) (hr : Operand.check (front ++ [last]) = .ok ()) :
    Operand.check (left ++ .operator :: (front ++ [last])) = .ok () ↔
      Operand.Closed left ∧ ∀ c ∈ front.head?, Category.operator.admits c = true := by
  obtain ⟨before, final, rfl⟩ := exists_concat_of_check hl
  obtain ⟨hb, hfinal, -⟩ := (check_concat_eq_ok_iff before final).mp hl
  obtain ⟨hb', hlast, hfront⟩ := (check_concat_eq_ok_iff front last).mp hr
  have hbalanced := hb.operation hb'
  have hadmits : ∀ c ∈ (before ++ [final]).getLast?, c.admits .operator = true := by
    intro c hc
    obtain rfl : final = c := by simpa using hc
    exact admits_operator_of_isFinal hfinal
  rw [← List.cons_append, ← List.append_assoc] at hbalanced ⊢
  rw [Operand.closed_iff_isChain hl, check_concat_eq_ok_iff, List.isChain_append, List.isChain_cons]
  constructor
  · rintro ⟨-, -, hchain, ⟨hhead, -⟩, -⟩
    exact ⟨hchain, hhead⟩
  · rintro ⟨hchain, hhead⟩
    refine ⟨hbalanced, hlast, hchain, ⟨hhead, hfront⟩, ?_⟩
    intro c hc next hn
    obtain rfl : Category.operator = next := by simpa using hn
    exact hadmits c hc

theorem check_group_iff {cs : List Category} (h : Operand.check cs = .ok ()) :
    Operand.check (.openGroup :: cs ++ [.closeGroup]) = .ok () ↔
      Operand.Closed cs ∧ ∀ c ∈ cs.head?, Category.openGroup.admits c = true := by
  have hbalanced : Operand.Balanced cs := ((check_eq_ok_iff_wellFormed cs).mp h).1
  rw [Operand.closed_iff_isChain h, check_concat_eq_ok_iff, List.isChain_cons]
  constructor
  · rintro ⟨-, -, hhead, hchain⟩
    exact ⟨hchain, hhead⟩
  · rintro ⟨hchain, hhead⟩
    exact ⟨hbalanced.group, rfl, hhead, hchain⟩

theorem head_of_front_iff (front : List Category) (last : Category) :
    (∀ c ∈ front.head?, Category.operator.admits c = true) ↔
      (front ++ [last]).length = 1 ∨
      ∃ c ∈ (front ++ [last]).head?, c = .number ∨ c = .identifier ∨ c = .openGroup := by
  cases front with
  | nil => simp
  | cons c front => simp [operator_admits_iff]

/-- Which operands may be joined by an operator, and around which one a group may be put. -/
theorem check_join_iff {left right : List Category} (hl : Operand.check left = .ok ())
    (hr : Operand.check right = .ok ()) :
    (Operand.check (left ++ .operator :: right) = .ok () ↔
      Operand.Closed left ∧ (right.length = 1 ∨
        ∃ c ∈ right.head?, c = .number ∨ c = .identifier ∨ c = .openGroup)) ∧
    (Operand.check (.openGroup :: left ++ [.closeGroup]) = .ok () ↔
      Operand.Closed left ∧ ∃ c ∈ left.head?, c = .number ∨ c = .identifier) := by
  constructor
  · obtain ⟨front, last, rfl⟩ := exists_concat_of_check hr
    rw [check_operation_iff hl hr, head_of_front_iff]
  · rw [check_group_iff hl]
    apply and_congr_right
    intro _
    cases left with
    | nil => cases hl
    | cons c left => simp [openGroup_admits_iff]

/-- A group that closes too early may stand on the left, and behind the operator one category may
stand that no table allows there. -/
theorem check_join_iff_of_crossed_groups :
    let left : List Category := [.closeGroup, .operator, .openGroup, .number]
    let right : List Category := [.comparison]
    (Operand.check left = .ok () ∧ Operand.check right = .ok ()) ∧
    (Operand.check (left ++ .operator :: right) = .ok () ↔
      Operand.Closed left ∧ (right.length = 1 ∨
        ∃ c ∈ right.head?, c = .number ∨ c = .identifier ∨ c = .openGroup)) ∧
    (Operand.check (.openGroup :: left ++ [.closeGroup]) = .ok () ↔
      Operand.Closed left ∧ ∃ c ∈ left.head?, c = .number ∨ c = .identifier) := by
  intro left right
  have hl : Operand.check left = .ok () := by decide
  have hr : Operand.check right = .ok () := by decide
  exact ⟨⟨hl, hr⟩, check_join_iff hl hr⟩

end LineGrammar
