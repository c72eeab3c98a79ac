import Mathlib.Data.List.Chain
import LineGrammar.Operand

/-! Which lists of categories are operands, said by position, and that the check accepts exactly
these. The last category is bound by no table: it only must not leave the operand open. -/

namespace LineGrammar

/-- The categories of words that may stand right behind a category inside an operand. Behind
those without a list any category may stand. -/
def Category.successors : Category → Option (List Category)
  | .openGroup => some [.number, .identifier]
  | .closeGroup => some [.operator]
  | .number => some [.operator, .closeGroup]
  | .operator => some [.number, .identifier, .openGroup]
  | _ => none

def Category.Precedes (c next : Category) : Prop :=
  ∀ allowed ∈ c.successors, next ∈ allowed

structure IsOperand (cs : List Category) : Prop where
  nonempty : cs ≠ []
  balanced : cs.count .openGroup = cs.count .closeGroup
  complete : cs.getLast? ≠ some .operator ∧ cs.getLast? ≠ some .openGroup
  linked : ∀ i (h : i + 2 < cs.length), cs[i].Precedes cs[i + 1]

theorem admits_iff_precedes {c next : Category} (h : ∀ mark, next ≠ .endMark mark) :
    c.admits next = true ↔ c.Precedes next := by
  cases c <;> cases next <;> simp_all [Category.admits, Category.Precedes, Category.successors]

theorem linked_iff_isChain (cs : List Category) :
    Operand.linked cs = true ↔ cs.IsChain (fun c next => c.admits next = true) := by
  induction cs with
  | nil => simp [Operand.linked]
  | cons c later ih =>
    cases later with
    | nil => simp [Operand.linked]
    | cons next later => simp [Operand.linked, ih]

theorem linked_dropLast_iff {cs : List Category} (h : ∀ c ∈ cs, ∀ mark, c ≠ .endMark mark) :
    Operand.linked cs.dropLast = true ↔
      ∀ i (hi : i + 2 < cs.length), cs[i].Precedes cs[i + 1] := by
  rw [linked_iff_isChain, List.isChain_iff_getElem]
  constructor
  · intro hc i hi
    have hh := hc i (by simp only [List.length_dropLast]; omega)
    simp only [List.getElem_dropLast] at hh
    exact (admits_iff_precedes (h _ (List.getElem_mem _))).mp hh
  · intro hc i hi
    simp only [List.length_dropLast] at hi
    simp only [List.getElem_dropLast]
    exact (admits_iff_precedes (h _ (List.getElem_mem _))).mpr (hc i (by omega))

theorem isFinal_iff (c : Category) :
    Operand.isFinal c = true ↔ c ≠ .operator ∧ c ≠ .openGroup := by
  cases c <;> simp [Operand.isFinal]

theorem any_isFinal_getLast?_iff (cs : List Category) :
    cs.getLast?.any Operand.isFinal = true ↔
      cs ≠ [] ∧ cs.getLast? ≠ some .operator ∧ cs.getLast? ≠ some .openGroup := by
  cases h : cs.getLast? with
  | none => simp [List.getLast?_eq_none_iff.mp h]
  | some c =>
    have hne : cs ≠ [] := by
      intro he
      simp [he] at h
    simp [isFinal_iff, hne]

theorem wellFormed_iff {cs : List Category} (h : ∀ c ∈ cs, ∀ mark, c ≠ .endMark mark) :
    Operand.wellFormed cs = true ↔
      (cs ≠ [] ∧ cs.getLast? ≠ some .operator ∧ cs.getLast? ≠ some .openGroup) ∧
      ∀ i (hi : i + 2 < cs.length), cs[i].Precedes cs[i + 1] := by
  rw [Operand.wellFormed, Bool.and_eq_true, any_isFinal_getLast?_iff, linked_dropLast_iff h]

theorem check_eq_ok_iff_wellFormed (cs : List Category) : Operand.check cs = .ok () ↔
    cs.count .openGroup = cs.count .closeGroup ∧ Operand.wellFormed cs = true := by
  rw [Operand.check]
  split
  · next hu => simp [hu]
  · next hb => split <;> simp_all

theorem check_eq_ok_iff {cs : List Category} (h : ∀ c ∈ cs, ∀ mark, c ≠ .endMark mark) :
    Operand.check cs = .ok () ↔ IsOperand cs := by
  rw [check_eq_ok_iff_wellFormed, wellFormed_iff h]
  exact ⟨fun ⟨hb, ⟨hne, hc⟩, hl⟩ => ⟨hne, hb, hc, hl⟩,
    fun ⟨hne, hb, hc, hl⟩ => ⟨hb, ⟨hne, hc⟩, hl⟩⟩

def Operand.Balanced (cs : List Category) : Prop :=
  cs.count .openGroup = cs.count .closeGroup

theorem Operand.Balanced.operation {left right : List Category} (hl : Balanced left)
    (hr : Balanced right) : Balanced (left ++ .operator :: right) := by
  rw [Balanced, List.count_append, List.count_append, hl, List.count_cons_of_ne (by decide),
    List.count_cons_of_ne (by decide), hr]

theorem Operand.Balanced.group {cs : List Category} (h : Balanced cs) :
    Balanced (.openGroup :: cs ++ [.closeGroup]) := by
  simp [Balanced, List.count_append, show cs.count .openGroup = cs.count .closeGroup from h]

theorem check_of_balanced {cs : List Category} (h : Operand.Balanced cs) :
    Operand.check cs = .ok () ∨ Operand.check cs = .error .malformedOperand := by
  have heven : cs.count .openGroup = cs.count .closeGroup := h
  rw [Operand.check, if_neg (not_not_intro heven)]
  split
  · exact .inl rfl
  · exact .inr rfl

theorem defect_of_check {cs : List Category} {defect : Defect}
    (h : Operand.check cs = .error defect) :
    defect = .unevenGroups (cs.count .openGroup) (cs.count .closeGroup) ∨
      defect = .malformedOperand := by
  rw [Operand.check] at h
  split at h
  · cases h
    exact .inl rfl
  · split at h
    · cases h
    · cases h
      exact .inr rfl

/-- The check, split at the last category: it must be final, and only those before it are linked. -/
theorem check_concat_eq_ok_iff (front : List Category) (last : Category) :
    Operand.check (front ++ [last]) = .ok () ↔
      Operand.Balanced (front ++ [last]) ∧ Operand.isFinal last = true ∧
      front.IsChain (fun c next => c.admits next = true) := by
  rw [check_eq_ok_iff_wellFormed, Operand.wellFormed, Bool.and_eq_true, List.dropLast_concat,
    linked_iff_isChain, List.getLast?_concat, Option.any_some, Operand.Balanced]

theorem exists_concat_of_check {cs : List Category} (h : Operand.check cs = .ok ()) :
    ∃ front last, cs = front ++ [last] := by
  cases cs using List.reverseRecOn with
  | nil => cases h
  | append_singleton front last => exact ⟨front, last, rfl⟩

end LineGrammar
