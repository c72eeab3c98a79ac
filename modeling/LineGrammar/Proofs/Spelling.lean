import LineGrammar.Proofs.Judgements

/-! How words are spelled. A line is judged by the categories of its words and by the marks behind
the last one; neither the blanks between words nor the spelling of a word changes what is found,
except that an unknown token is named as it is spelled and at the column where it stands. -/

namespace LineGrammar

/-- Verdicts on two statements that are the same, or that name the tokens at the same place. -/
inductive Statement.Alike (s s' : Statement) : Verdict → Verdict → Prop where
  | same {v : Verdict} (h : ∀ text column, v ≠ .rejected (.unknownToken text column)) :
      Alike s s' v v
  | unknown {i : Nat} {t t' : Token} (ht : s.tokens[i]? = some t) (hu : t.category = .unknown)
      (ht' : s'.tokens[i]? = some t') (hu' : t'.category = .unknown) :
      Alike s s' (.rejected (.unknownToken t.text (s.text.column t.start)))
        (.rejected (.unknownToken t'.text (s'.text.column t'.start)))

/-- The words of a line spelled anew, all but the marks behind the last word. -/
inductive Respelled : List Text → List Text → Prop where
  | intro {front front' : List Text} {u v marks : Text}
      (hfront : front.map Category.ofWord = front'.map Category.ofWord)
      (hmarks : ∀ c ∈ marks, isAnyMark c = true) (hu : ∀ c ∈ u.getLast?, isAnyMark c = false)
      (hv : ∀ c ∈ v.getLast?, isAnyMark c = false) (hempty : u = [] ↔ v = [])
      (hlast : Category.ofWord u = Category.ofWord v) :
      Respelled (front ++ [u ++ marks]) (front' ++ [v ++ marks])

namespace Statement

variable {s s' : Statement}

theorem judge_ne_unknownToken (hs : s.Eligible) (text : Text) (column : Nat) :
    s.judge ≠ .error (.unknownToken text column) := by
  obtain ⟨result, hr⟩ := exists_judgement_of_eligible hs
  rw [judge_of_judgement hr]
  rintro rfl
  cases hr with
  | unknownToken _ ht hu => exact hs.known (hu ▸ List.mem_map_of_mem (List.mem_of_getElem? ht))
  | left _ _ _ hl => rcases defect_of_check hl with hd | hd <;> cases hd
  | right _ _ _ _ hr => rcases defect_of_check hr with hd | hd <;> cases hd
  | operand _ _ _ _ ho => rcases defect_of_check ho with hd | hd <;> cases hd

theorem exists_unknown_at {i : Nat} (h : s.categories[i]? = some .unknown) :
    ∃ t, s.tokens[i]? = some t ∧ t.category = .unknown := by
  rwa [categories, List.getElem?_map, Option.map_eq_some_iff] at h

theorem alike_of_judge_eq (h : s.judge = s'.judge)
    (hn : ∀ text column, s.judge ≠ .error (.unknownToken text column)) :
    s.Alike s' (Verdict.ofStatement s) (Verdict.ofStatement s') := by
  have hv : Verdict.ofStatement s = Verdict.ofStatement s' := by
    rw [Verdict.ofStatement, Verdict.ofStatement, h]
  rw [← hv]
  exact .same fun text column hr => hn text column (Verdict.ofStatement_eq_rejected_iff.mp hr)

/-- Nothing but the head and the categories decides, apart from how an unknown token is named. -/
theorem alike_of_categories_eq (hhead : s.head = s'.head) (hc : s.categories = s'.categories) :
    s.Alike s' (Verdict.ofStatement s) (Verdict.ofStatement s') := by
  have hmark : s'.endMark? = s.endMark? := by rw [endMark?, endMark?, hc]
  have heligible (hs : s.Eligible) :
      s.Alike s' (Verdict.ofStatement s) (Verdict.ofStatement s') := by
    have hs' : s'.Eligible := ⟨hmark.trans (hhead ▸ hs.marked), hc ▸ hs.known⟩
    apply alike_of_judge_eq _ (judge_ne_unknownToken hs)
    rw [judge_of_eligible hs, judge_of_eligible hs', hhead, hc]
  -- the texts of tokens and their places are read for the first unknown token only
  rcases s.judge_cases with hm | ⟨hm, front, t, later, ht, hu, hfront⟩ | ⟨_, hs, _⟩ | ⟨hs, _⟩
  · have hj := judge_of_not_marked hm
    rw [← hmark, hhead] at hm
    apply alike_of_judge_eq
    · rw [hj, judge_of_not_marked hm, hhead]
    · simp [hj]
  · obtain ⟨hi, hfirst⟩ := first_unknown ht hfront
    have hcategory : s'.categories[front.length]? = some .unknown := by
      rw [← hc, categories, List.getElem?_map, hi, Option.map_some, hu]
    obtain ⟨t', hi', hu'⟩ := exists_unknown_at hcategory
    have hj := judge_of_first_unknown hm hi hu hfirst
    have hj' := judge_of_first_unknown (hmark.trans (hhead ▸ hm)) hi' hu' (hc ▸ hfirst)
    rw [Verdict.ofStatement_eq_rejected_iff.mpr hj, Verdict.ofStatement_eq_rejected_iff.mpr hj']
    exact .unknown hi hu hi' hu'
  · exact heligible hs
  · exact heligible hs

end Statement

/-- Whatever stands in front of marks is forgotten, unless it makes a number. -/
theorem ofWord_append_marks {marks : Text} (hmarks : ∀ c ∈ marks, isAnyMark c = true)
    (hne : marks ≠ []) (w : Text) :
    Category.ofWord (w ++ marks) = if Category.ofWord w = .number then .number else .unknown := by
  obtain ⟨c, hc⟩ := List.exists_mem_of_ne_nil marks hne
  have hstray := isStray_of_isAnyMark (hmarks c hc)
  have hnumber : Category.isNumber (w ++ marks) = Category.isNumber w := by
    rw [← Category.isNumber_dropTrailing isAnyMark_of_isDigit, dropTrailing_append_of_pos hmarks,
      Category.isNumber_dropTrailing isAnyMark_of_isDigit]
  rw [Category.ofWord_of_isStray (List.mem_append_right w hc) hstray, hnumber]
  simp only [Category.isNumber_iff]

theorem getLast?_append_dropTrailing {mark : Char} {w : Text} (h : w.getLast? ≠ some mark)
    (marks : Text) : (w ++ dropTrailing (· == mark) marks).getLast? ≠ some mark := by
  by_cases hd : dropTrailing (· == mark) marks = []
  · rwa [hd, List.append_nil]
  · rw [List.getLast?_append_of_ne_nil w hd]
    exact getLast?_dropTrailing mark marks

/-- What is taken off the end of a word is taken off the marks behind it. -/
theorem dropTrailing_append_of_getLast? {mark : Char} {w : Text} (h : w.getLast? ≠ some mark)
    (marks : Text) :
    dropTrailing (· == mark) (w ++ marks) = w ++ dropTrailing (· == mark) marks := by
  obtain ⟨k, hk⟩ := exists_dropTrailing_append_replicate mark marks
  nth_rewrite 1 [← hk]
  rw [← List.append_assoc]
  exact dropTrailing_append_replicate (getLast?_append_dropTrailing h marks) k

/-- The categories at the end of a line, from its last word. -/
def closingCategories (mark : EndMark) (last : Text) : List Category :=
  (remainder mark.char last).map Category.ofWord ++
    if dropTrailing (· == mark.char) last = last then [] else [.endMark mark]

theorem categories_of_runs {line : Nat} {text : Text} {s : Statement} {front : List Text}
    {last : Text} (h : Statement.ofLine? line text = some s) (hr : text.runs = front ++ [last]) :
    s.categories =
      front.map Category.ofWord ++ closingCategories s.head.requiredMark last := by
  obtain ⟨first, later, hw, rfl⟩ := Statement.ofLine?_eq_some h
  rw [← map_text_words, hw] at hr
  obtain ⟨ws, rest, hws, rfl, hlast⟩ := List.map_eq_append_iff.mp hr
  obtain ⟨w, rfl, rfl⟩ := List.map_eq_singleton_iff.mp hlast
  rw [Statement.categories]
  simp only [hws]
  rw [tokensOf_concat, List.map_append, map_category_closingTokens, List.map_map, List.map_map]
  rfl

theorem exists_ofLine?_of_runs {text : Text} {front : List Text} {last : Text}
    (h : text.runs = front ++ [last]) (line : Nat) :
    ∃ s, Statement.ofLine? line text = some s := by
  rw [← map_text_words] at h
  rw [Statement.ofLine?]
  cases hw : text.words with
  | nil => simp [hw] at h
  | cons first later => exact ⟨_, rfl⟩

theorem headCategory?_concat (front : List Text) (last : Text) :
    headCategory? (front ++ [last]) =
      some (((front.map Category.ofWord).head?).getD
        (Category.ofWord (dropTrailing isAnyMark last))) := by
  cases front with
  | nil => rfl
  | cons first later => cases later <;> rfl

theorem dropTrailing_append_marks {w marks : Text} (hw : ∀ c ∈ w.getLast?, isAnyMark c = false)
    (hmarks : ∀ c ∈ marks, isAnyMark c = true) : dropTrailing isAnyMark (w ++ marks) = w := by
  rw [dropTrailing_append_of_pos hmarks, dropTrailing_eq_rdropWhile, List.rdropWhile_eq_self_iff]
  intro hne hlast
  rw [hw _ (List.getLast?_eq_some_getLast hne)] at hlast
  cases hlast

theorem getLast?_ne_mark {w : Text} (h : ∀ c ∈ w.getLast?, isAnyMark c = false) (mark : EndMark) :
    w.getLast? ≠ some mark.char := by
  intro hl
  have hm := h _ hl
  rw [isAnyMark_char] at hm
  cases hm

theorem closingCategories_append {w : Text} (hw : ∀ c ∈ w.getLast?, isAnyMark c = false)
    (marks : Text) (mark : EndMark) :
    closingCategories mark (w ++ marks) =
      (if w = [] ∧ dropTrailing (· == mark.char) marks = [] then [] else
        [Category.ofWord (w ++ dropTrailing (· == mark.char) marks)]) ++
      if dropTrailing (· == mark.char) marks = marks then [] else [.endMark mark] := by
  rw [closingCategories, remainder, dropTrailing_append_of_getLast? (getLast?_ne_mark hw mark),
    apply_ite (List.map Category.ofWord)]
  simp

theorem ofWord_append_marks_eq {u v marks : Text} (h : Category.ofWord u = Category.ofWord v)
    (hmarks : ∀ c ∈ marks, isAnyMark c = true) :
    Category.ofWord (u ++ marks) = Category.ofWord (v ++ marks) := by
  by_cases hne : marks = []
  · rw [hne, List.append_nil, List.append_nil, h]
  · rw [ofWord_append_marks hmarks hne, ofWord_append_marks hmarks hne, h]

theorem categories_eq_of_respelled {words words' : List Text} (h : Respelled words words') :
    headCategory? words = headCategory? words' ∧ ∃ front front' last last',
      words = front ++ [last] ∧ words' = front' ++ [last'] ∧
      front.map Category.ofWord = front'.map Category.ofWord ∧
      ∀ mark, closingCategories mark last = closingCategories mark last' := by
  obtain ⟨hfront, hmarks, hu, hv, hempty, hlast⟩ := h
  rename_i front front' u v marks
  refine ⟨?_, front, front', u ++ marks, v ++ marks, rfl, rfl, hfront, fun mark => ?_⟩
  · rw [headCategory?_concat, headCategory?_concat, hfront, dropTrailing_append_marks hu hmarks,
      dropTrailing_append_marks hv hmarks, hlast]
  · have hrest : ∀ c ∈ dropTrailing (· == mark.char) marks, isAnyMark c = true :=
      fun c hc => hmarks c ((List.rdropWhile_prefix _ _).subset hc)
    rw [closingCategories_append hu, closingCategories_append hv,
      ofWord_append_marks_eq hlast hrest]
    simp only [hempty]

/-- Lines that differ in blanks and in the spelling of words alone are judged alike. -/
theorem alike_of_respelled {text text' : Text} (h : Respelled text.runs text'.runs)
    (line line' : Nat) :
    ∃ s s', Statement.ofLine? line text = some s ∧ Statement.ofLine? line' text' = some s' ∧
      s.Alike s' (Report.ofLine line text).verdict (Report.ofLine line' text').verdict := by
  obtain ⟨hhead, front, front', last, last', hr, hr', hfront, hlast⟩ := categories_eq_of_respelled h
  obtain ⟨s, hs⟩ := exists_ofLine?_of_runs hr line
  obtain ⟨s', hs'⟩ := exists_ofLine?_of_runs hr' line'
  have htext : s.text = text := (start_le_of_mem_ofLine? hs).1
  have htext' : s'.text = text' := (start_le_of_mem_ofLine? hs').1
  have heq : s.head = s'.head := by
    have hh := headCategory?_runs hs
    rw [htext, hhead, ← htext', headCategory?_runs hs'] at hh
    exact (Option.some.inj hh).symm
  have hc : s.categories = s'.categories := by
    rw [categories_of_runs hs hr, categories_of_runs hs' hr', hfront, hlast, heq]
  refine ⟨s, s', hs, hs', ?_⟩
  rw [Report.ofLine, Report.ofLine, hs, hs']
  exact Statement.alike_of_categories_eq heq hc

/-- Marks of both kinds stay on the last word, which is unknown with and without them. -/
theorem alike_of_respelled_of_mixed_marks :
    let text : Text := "y = 5 ADD a+b:;;".toList
    let text' : Text := "\tname  = 17; MUL é:;;\u3000".toList
    Respelled text.runs text'.runs ∧
    ∃ s s', Statement.ofLine? 1 text = some s ∧ Statement.ofLine? 2 text' = some s' ∧
      s.Alike s' (Report.ofLine 1 text).verdict (Report.ofLine 2 text').verdict := by
  intro text text'
  have hr : text.runs = ["y".toList, "=".toList, "5".toList, "ADD".toList] ++
      ["a+b".toList ++ ":;;".toList] := by decide
  have hr' : text'.runs = ["name".toList, "=".toList, "17;".toList, "MUL".toList] ++
      ["é".toList ++ ":;;".toList] := by decide
  have h : Respelled text.runs text'.runs := by
    rw [hr, hr']
    refine .intro (by decide) (by simp [isAnyMark]) (fun c hc => ?_) (fun c hc => ?_) (by decide)
      (by decide)
    · obtain rfl : 'b' = c := Option.some.inj hc
      rfl
    · obtain rfl : 'é' = c := Option.some.inj hc
      rfl
  exact ⟨h, alike_of_respelled h 1 2⟩

end LineGrammar
