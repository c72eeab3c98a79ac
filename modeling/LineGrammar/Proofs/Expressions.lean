import LineGrammar.Proofs.Operands

/-! Arithmetic expressions, nested to any depth, and which of them are accepted as operands: the
check looks at neighbours only, and has no place for a group that opens or closes right behind
another one. The last category alone is not looked at. And what an operand of numbers is when its
groups are taken away: numbers and operators by turns. -/

namespace LineGrammar

mutual

inductive Term where
  | number
  | identifier
  | group (e : Expression)

/-- Terms with operators between them. -/
inductive Expression where
  | term (t : Term)
  | operation (t : Term) (later : Expression)

end

mutual

def Term.categories : Term → List Category
  | .number => [.number]
  | .identifier => [.identifier]
  | .group e => .openGroup :: e.categories ++ [.closeGroup]

def Expression.categories : Expression → List Category
  | .term t => t.categories
  | .operation t later => t.categories ++ .operator :: later.categories

end

/-- No group opens right behind where one opens, and none closes right behind where one closes, but
at the very end. -/
structure GroupsApart (cs : List Category) : Prop where
  opened : ∀ before after, cs ≠ before ++ .openGroup :: .openGroup :: after
  closed : ∀ before after, cs = before ++ .closeGroup :: .closeGroup :: after → after = []

namespace Category

def Begins (c : Category) : Prop :=
  c = .number ∨ c = .identifier ∨ c = .openGroup

def Ends (c : Category) : Prop :=
  c = .number ∨ c = .identifier ∨ c = .closeGroup

/-- Neighbours in an expression. What the table leaves out are groups that open or close
together. -/
def Fits (c next : Category) : Prop :=
  c.admits next = true ∨ c = next ∧ (c = .openGroup ∨ c = .closeGroup)

theorem Begins.fits_openGroup {c : Category} (h : c.Begins) : Fits .openGroup c := by
  rcases h with rfl | rfl | rfl <;> simp [Fits, admits]

theorem Begins.fits_operator {c : Category} (h : c.Begins) : Fits .operator c := by
  rcases h with rfl | rfl | rfl <;> simp [Fits, admits]

theorem Ends.fits_closeGroup {c : Category} (h : c.Ends) : c.Fits .closeGroup := by
  rcases h with rfl | rfl | rfl <;> simp [Fits, admits]

theorem Ends.fits_operator {c : Category} (h : c.Ends) : c.Fits .operator := by
  rcases h with rfl | rfl | rfl <;> simp [Fits, admits]

theorem Ends.isFinal {c : Category} (h : c.Ends) : Operand.isFinal c = true := by
  rcases h with rfl | rfl | rfl <;> rfl

end Category

/-- What holds of the categories of every term and of every expression. -/
structure IsArithmetic (cs : List Category) : Prop where
  nonempty : cs ≠ []
  begins : ∀ c ∈ cs.head?, c.Begins
  ends : ∀ c ∈ cs.getLast?, c.Ends
  balanced : Operand.Balanced cs
  fits : cs.IsChain Category.Fits

namespace IsArithmetic

theorem single {c : Category} (hb : c.Begins) (he : c.Ends) (h : Operand.Balanced [c]) :
    IsArithmetic [c] := by
  refine ⟨List.cons_ne_nil c [], ?_, ?_, h, List.isChain_singleton c⟩
  · intro first hf
    exact Option.some.inj hf ▸ hb
  · intro last hl
    exact Option.some.inj hl ▸ he

theorem group {cs : List Category} (h : IsArithmetic cs) :
    IsArithmetic (.openGroup :: cs ++ [.closeGroup]) := by
  have hopened : (Category.openGroup :: cs).IsChain Category.Fits :=
    h.fits.cons fun c hc => (h.begins c hc).fits_openGroup
  refine ⟨by simp, ?_, ?_, h.balanced.group, hopened.append (List.isChain_singleton _) ?_⟩
  · intro c hc
    exact Option.some.inj hc ▸ .inr (.inr rfl)
  · intro c hc
    rw [List.getLast?_concat] at hc
    exact Option.some.inj hc ▸ .inr (.inr rfl)
  · intro c hc next hn
    rw [List.getLast?_cons_of_ne_nil h.nonempty] at hc
    exact Option.some.inj hn ▸ (h.ends c hc).fits_closeGroup

theorem operation {left right : List Category} (hl : IsArithmetic left)
    (hr : IsArithmetic right) : IsArithmetic (left ++ .operator :: right) := by
  have hlater : (Category.operator :: right).IsChain Category.Fits :=
    hr.fits.cons fun c hc => (hr.begins c hc).fits_operator
  refine ⟨by simp, ?_, ?_, hl.balanced.operation hr.balanced, hl.fits.append hlater ?_⟩
  · rw [List.head?_append_of_ne_nil left hl.nonempty]
    exact hl.begins
  · rw [List.getLast?_append_of_ne_nil left (List.cons_ne_nil _ _),
      List.getLast?_cons_of_ne_nil hr.nonempty]
    exact hr.ends
  · intro c hc next hn
    exact Option.some.inj hn ▸ (hl.ends c hc).fits_operator

end IsArithmetic

mutual

theorem Term.isArithmetic : ∀ t : Term, IsArithmetic t.categories
  | .number => .single (.inl rfl) (.inl rfl) rfl
  | .identifier => .single (.inr (.inl rfl)) (.inr (.inl rfl)) rfl
  | .group e => e.isArithmetic.group

theorem Expression.isArithmetic : ∀ e : Expression, IsArithmetic e.categories
  | .term t => t.isArithmetic
  | .operation t later => t.isArithmetic.operation later.isArithmetic

end

/-- Neighbours are the last two, or they stand before the last one. -/
theorem last_pair_or_earlier {front before after : List Category} {last c next : Category}
    (h : front ++ [last] = before ++ c :: next :: after) :
    (after = [] ∧ last = next) ∨ ∃ later, front = before ++ c :: next :: later := by
  cases after using List.reverseRecOn with
  | nil =>
    have he : front ++ [last] = (before ++ [c]) ++ [next] := by simpa using h
    exact .inl ⟨rfl, by simpa using (List.append_inj' he rfl).2⟩
  | append_singleton later final =>
    have he : front ++ [last] = (before ++ c :: next :: later) ++ [final] := by simpa using h
    exact .inr ⟨later, (List.append_inj' he rfl).1⟩

/-- In an expression, what stands before the last category is linked exactly if groups are apart. -/
theorem isChain_admits_iff_groupsApart {front : List Category} {last : Category}
    (h : IsArithmetic (front ++ [last])) :
    front.IsChain (fun c next => c.admits next = true) ↔ GroupsApart (front ++ [last]) := by
  rw [List.isChain_iff_forall_rel_of_append_cons_cons]
  constructor
  · intro hlinked
    constructor
    · intro before after he
      rcases last_pair_or_earlier he with ⟨-, rfl⟩ | ⟨later, hf⟩
      · cases (h.ends _ List.getLast?_concat).isFinal
      · cases hlinked hf
    · intro before after he
      rcases last_pair_or_earlier he with ⟨hnil, -⟩ | ⟨later, hf⟩
      · exact hnil
      · cases hlinked hf
  · rintro hapart c next before after rfl
    have he := List.append_assoc before (c :: next :: after) [last]
    rcases List.isChain_iff_forall_rel_of_append_cons_cons.mp h.fits he with
      hadmits | ⟨rfl, rfl | rfl⟩
    · exact hadmits
    · exact absurd he (hapart.opened before (after ++ [last]))
    · exact absurd (hapart.closed before (after ++ [last]) he) (by simp)

/-- Expressions are accepted exactly if their groups are apart. All others are malformed, for the
groups of an expression are even. -/
theorem check_expression (e : Expression) :
    (Operand.check e.categories = .ok () ↔ GroupsApart e.categories) ∧
    (Operand.check e.categories = .error .malformedOperand ↔ ¬ GroupsApart e.categories) := by
  have h := e.isArithmetic
  have hok : Operand.check e.categories = .ok () ↔ GroupsApart e.categories := by
    cases hc : e.categories using List.reverseRecOn with
    | nil => exact absurd hc h.nonempty
    | append_singleton front last =>
      rw [hc] at h
      have hfinal := (h.ends last List.getLast?_concat).isFinal
      rw [check_concat_eq_ok_iff, ← isChain_admits_iff_groupsApart h]
      exact ⟨fun hh => hh.2.2, fun hh => ⟨h.balanced, hfinal, hh⟩⟩
  refine ⟨hok, ?_, fun hapart => (check_of_balanced h.balanced).resolve_left (mt hok.mp hapart)⟩
  intro herror hapart
  rw [hok.mpr hapart] at herror
  cases herror

example : Operand.check (Expression.term (.group (.term (.group (.term .number))))).categories =
    .error .malformedOperand := by
  decide

namespace Category

/-- The categories of operands without identifiers. -/
def literals : List Category :=
  [number, operator, openGroup, closeGroup]

def isGroupMark : Category → Bool
  | openGroup | closeGroup => true
  | _ => false

/-- Which of number and operator is met first from a category on. -/
def announces : Category → Category
  | openGroup => number
  | closeGroup => operator
  | c => c

theorem announces_of_admits : ∀ c ∈ literals, ∀ next ∈ literals, c.admits next = true →
    if c.isGroupMark then next.isGroupMark = false ∧ next = c.announces
      else next.announces ≠ c := by
  decide

theorem announces_of_not_isGroupMark {c : Category} (h : c.isGroupMark = false) :
    c.announces = c := by
  cases c <;> simp_all [announces, isGroupMark]

theorem number_or_operator : ∀ c ∈ literals, c.isGroupMark = false → c = number ∨ c = operator := by
  decide

end Category

def ungrouped (cs : List Category) : List Category :=
  cs.filter (!·.isGroupMark)

/-- Numbers and operators by turns. -/
structure Alternates (cs : List Category) : Prop where
  members : ∀ c ∈ cs, c = .number ∨ c = .operator
  turns : cs.IsChain (· ≠ ·)

theorem ungrouped_cons_of_isGroupMark {c : Category} (h : c.isGroupMark = true)
    (cs : List Category) : ungrouped (c :: cs) = ungrouped cs := by
  simp [ungrouped, h]

theorem ungrouped_cons {c : Category} (h : c.isGroupMark = false) (cs : List Category) :
    ungrouped (c :: cs) = c :: ungrouped cs := by
  simp [ungrouped, h]

theorem turns_ungrouped {cs : List Category} (hl : ∀ c ∈ cs, c ∈ Category.literals)
    (h : cs.IsChain (fun c next => c.admits next = true)) :
    (ungrouped cs).IsChain (· ≠ ·) ∧
      ∀ c ∈ cs.head?, ∀ d ∈ (ungrouped cs).head?, d = c.announces := by
  -- Marks are passed over, so what is carried along is the category that the first one announces.
  induction cs with
  | nil => exact ⟨List.isChain_nil, by simp⟩
  | cons c later ih =>
    obtain ⟨hhead, hlater⟩ := List.isChain_cons.mp h
    obtain ⟨hturns, hannounced⟩ := ih (fun d hd => hl d (List.mem_cons_of_mem _ hd)) hlater
    have hstep : ∀ next ∈ later.head?, if c.isGroupMark then
        next.isGroupMark = false ∧ next = c.announces else next.announces ≠ c := by
      intro next hn
      have hmem : next ∈ c :: later := List.mem_cons_of_mem c (List.mem_of_mem_head? hn)
      exact Category.announces_of_admits c (hl c List.mem_cons_self) next (hl next hmem)
        (hhead next hn)
    have hnext : ∀ d ∈ (ungrouped later).head?, ∃ next ∈ later.head?, d = next.announces := by
      intro d hd
      cases later with
      | nil => cases hd
      | cons next rest => exact ⟨next, rfl, hannounced next rfl d hd⟩
    cases hmark : c.isGroupMark with
    | true =>
      rw [ungrouped_cons_of_isGroupMark hmark]
      refine ⟨hturns, fun first hf d hd => ?_⟩
      obtain rfl := Option.some.inj hf
      obtain ⟨next, hn, rfl⟩ := hnext d hd
      have hs := hstep next hn
      rw [hmark, if_pos rfl] at hs
      rw [Category.announces_of_not_isGroupMark hs.1, hs.2]
    | false =>
      rw [ungrouped_cons hmark]
      constructor
      · apply hturns.cons
        intro d hd
        obtain ⟨next, hn, rfl⟩ := hnext d hd
        have hs := hstep next hn
        rw [hmark] at hs
        exact hs.symm
      · intro first hf d hd
        obtain rfl := Option.some.inj hf
        obtain rfl := Option.some.inj hd
        exact (Category.announces_of_not_isGroupMark hmark).symm

/-- In an operand without identifiers, but for its last category, no two marks of groups stand side
by side, and without the marks numbers and operators alternate. -/
theorem alternates_of_check {cs : List Category} (hl : ∀ c ∈ cs, c ∈ Category.literals)
    (h : Operand.check cs = .ok ()) :
    cs.dropLast.IsChain (fun c next => ¬ (c.isGroupMark = true ∧ next.isGroupMark = true)) ∧
      Alternates (ungrouped cs.dropLast) := by
  obtain ⟨front, last, rfl⟩ := exists_concat_of_check h
  obtain ⟨-, -, hlinked⟩ := (check_concat_eq_ok_iff front last).mp h
  have hfront : ∀ c ∈ front, c ∈ Category.literals := fun c hc => hl c (List.mem_append_left _ hc)
  rw [List.dropLast_concat]
  refine ⟨?_, ?_, (turns_ungrouped hfront hlinked).1⟩
  · apply hlinked.imp_of_mem_imp
    rintro c next hc hn hadmits ⟨hmark, hmark'⟩
    have hs := Category.announces_of_admits c (hfront c hc) next (hfront next hn) hadmits
    rw [if_pos hmark, hmark'] at hs
    cases hs.1
  · intro c hc
    obtain ⟨hmem, hmark⟩ := List.mem_filter.mp hc
    exact Category.number_or_operator c (hfront c hmem) (by simpa using hmark)

/-- Crossed groups, and a number at the end where the table has none. -/
theorem alternates_of_crossed_groups :
    let cs : List Category := [.number, .closeGroup, .operator, .openGroup, .number, .operator,
      .number, .number]
    ((∀ c ∈ cs, c ∈ Category.literals) ∧ Operand.check cs = .ok ()) ∧
    cs.dropLast.IsChain (fun c next => ¬ (c.isGroupMark = true ∧ next.isGroupMark = true)) ∧
      Alternates (ungrouped cs.dropLast) :=
  ⟨⟨by decide, by decide⟩, alternates_of_check (by decide) (by decide)⟩

end LineGrammar
