import LineGrammar.Proofs.Closing
import LineGrammar.Proofs.Operands
import LineGrammar.Proofs.Words
import LineGrammar.Report

/-! The grammar of a line over its words, and that exactly the lines of the grammar are accepted,
each as the kind of statement that it is. -/

namespace LineGrammar

def OperandWords (words : List Text) : Prop :=
  IsOperand (words.map Category.ofWord)

inductive Guard : List Text → Prop where
  | compare {left right : List Text} {q : Text} (hq : Category.ofWord q = .comparison)
      (honly : ∀ w ∈ left ++ right, Category.ofWord w ≠ .comparison)
      (hleft : OperandWords left) (hright : OperandWords right) : Guard (left ++ q :: right)

/-- The statements of each kind, as words without the end mark. -/
inductive Sentence : Kind → List Text → Prop where
  | declaration {d n : Text} (hd : Category.ofWord d = .declaration) :
      Sentence .declaration [d, n]
  | assignment {v e : Text} {operand : List Text} (hv : Category.ofWord v = .identifier)
      (he : Category.ofWord e = .assignment) (ho : OperandWords operand) :
      Sentence .assignment (v :: e :: operand)
  | conditional {k : Text} {guard : List Text} (hk : Category.ofWord k = .conditional)
      (hg : Guard guard) : Sentence .conditional (k :: guard)
  | loop {k : Text} {guard : List Text} (hk : Category.ofWord k = .loop) (hg : Guard guard) :
      Sentence .loop (k :: guard)

def Kind.endMark : Kind → EndMark
  | .declaration | .assignment => .semicolon
  | .conditional | .loop => .colon

/-- A line, as its words, is a statement of a kind with the end mark of that kind. -/
def Derives (kind : Kind) (words : List Text) : Prop :=
  ∃ body, ClosesWith kind.endMark.char words body ∧
    (∀ w ∈ body, Category.ofWord w ≠ .unknown) ∧ Sentence kind body

theorem checkOperand_ofWords_iff (words : List Text) :
    Operand.check (words.map Category.ofWord) = .ok () ↔ OperandWords words := by
  apply check_eq_ok_iff
  intro c hc mark
  obtain ⟨w, _, rfl⟩ := List.mem_map.mp hc
  exact ofWord_ne_endMark w mark

theorem checkGuard_eq_ok_iff (cs : List Category) :
    Statement.checkGuard cs = .ok () ↔
      cs.tail.dropLast.count .comparison = 1 ∧
      Operand.check (cs.tail.dropLast.takeWhile (· != .comparison)) = .ok () ∧
      Operand.check (cs.tail.dropLast.dropWhile (· != .comparison)).tail = .ok () := by
  simp only [Statement.checkGuard]
  split
  · next h => simp [h]
  · next h =>
    cases Operand.check (cs.tail.dropLast.takeWhile (· != .comparison)) <;>
      simp [h, bind, Except.bind]
  · next h => simp_all

theorem count_eq_one_iff_split {α : Type} [DecidableEq α] {a : α} {l : List α} :
    l.count a = 1 ↔ ∃ left right, l = left ++ a :: right ∧ a ∉ left ∧ a ∉ right := by
  constructor
  · intro h
    have hm : a ∈ l := List.count_pos_iff.mp (by omega)
    obtain ⟨left, right, rfl, hl⟩ := List.eq_append_cons_of_mem hm
    refine ⟨left, right, rfl, hl, ?_⟩
    simp only [List.count_append, List.count_cons_self, List.count_eq_zero_of_not_mem hl] at h
    exact List.count_eq_zero.mp (by omega)
  · rintro ⟨left, right, rfl, hl, hr⟩
    simp [List.count_eq_zero_of_not_mem hl, List.count_eq_zero_of_not_mem hr]

theorem takeWhile_ne_append {α : Type} [DecidableEq α] {a : α} {left : List α} (h : a ∉ left)
    (right : List α) : (left ++ a :: right).takeWhile (· != a) = left := by
  rw [List.takeWhile_append_of_pos (by grind)]
  simp

theorem dropWhile_ne_append {α : Type} [DecidableEq α] {a : α} {left : List α} (h : a ∉ left)
    (right : List α) : (left ++ a :: right).dropWhile (· != a) = a :: right := by
  rw [List.dropWhile_append_of_pos (by grind)]
  simp

theorem not_mem_map_ofWord_iff {c : Category} {words : List Text} :
    c ∉ words.map Category.ofWord ↔ ∀ w ∈ words, Category.ofWord w ≠ c := by
  simp

theorem checkGuard_words_iff (k : Category) (guard : List Text) (mark : EndMark) :
    Statement.checkGuard (k :: guard.map Category.ofWord ++ [.endMark mark]) = .ok () ↔
      Guard guard := by
  rw [checkGuard_eq_ok_iff]
  simp only [List.cons_append, List.tail_cons, List.dropLast_concat]
  constructor
  · rintro ⟨hcount, hl, hr⟩
    obtain ⟨left, right, he, hnl, hnr⟩ := count_eq_one_iff_split.mp hcount
    rw [he, takeWhile_ne_append hnl] at hl
    rw [he, dropWhile_ne_append hnl, List.tail_cons] at hr
    obtain ⟨left, rest, rfl, rfl, hrest⟩ := List.map_eq_append_iff.mp he
    obtain ⟨q, right, rfl, hq, rfl⟩ := List.map_eq_cons_iff.mp hrest
    refine .compare hq ?_ ((checkOperand_ofWords_iff left).mp hl)
      ((checkOperand_ofWords_iff right).mp hr)
    intro w hw
    rcases List.mem_append.mp hw with hw | hw
    · exact not_mem_map_ofWord_iff.mp hnl w hw
    · exact not_mem_map_ofWord_iff.mp hnr w hw
  · rintro ⟨hq, honly, hleft, hright⟩
    rename_i left right q
    have hnl : Category.comparison ∉ left.map Category.ofWord :=
      not_mem_map_ofWord_iff.mpr fun w hw => honly w (List.mem_append_left _ hw)
    have hnr : Category.comparison ∉ right.map Category.ofWord :=
      not_mem_map_ofWord_iff.mpr fun w hw => honly w (List.mem_append_right _ hw)
    rw [List.map_append, List.map_cons, hq, takeWhile_ne_append hnl, dropWhile_ne_append hnl]
    exact ⟨count_eq_one_iff_split.mpr ⟨_, _, rfl, hnl, hnr⟩,
      (checkOperand_ofWords_iff left).mpr hleft, (checkOperand_ofWords_iff right).mpr hright⟩

theorem checkDeclaration_eq_ok_iff (cs : List Category) :
    Statement.checkDeclaration cs = .ok () ↔ cs.length = 3 := by
  simp [Statement.checkDeclaration]

theorem checkAssignment_concat (cs : List Category) (last : Category) :
    Statement.checkAssignment (.identifier :: .assignment :: (cs ++ [last])) =
      Operand.check cs := by
  cases cs with
  | nil => rfl
  | cons c later =>
    rw [List.cons_append, Statement.checkAssignment, ← List.cons_append, List.dropLast_concat]

theorem checkAssignment_words_iff (words : List Text) (mark : EndMark) :
    (words.map Category.ofWord ++ [Category.endMark mark])[1]? = some .assignment ∧
        Statement.checkAssignment (words.map Category.ofWord ++ [.endMark mark]) = .ok () ↔
      ∃ v e operand, words = v :: e :: operand ∧ Category.ofWord v = .identifier ∧
        Category.ofWord e = .assignment ∧ OperandWords operand := by
  constructor
  · rintro ⟨he, hc⟩
    rcases words with _ | ⟨v, _ | ⟨e, operand⟩⟩
    · simp at he
    · simp at he
    · have he : Category.ofWord e = .assignment := by simpa using he
      rw [List.map_cons, List.map_cons, List.cons_append, List.cons_append, he] at hc
      cases hv : Category.ofWord v with
      | identifier =>
        rw [hv, checkAssignment_concat, checkOperand_ofWords_iff] at hc
        exact ⟨v, e, operand, rfl, hv, he, hc⟩
      | _ => simp [hv, Statement.checkAssignment] at hc
  · rintro ⟨v, e, operand, rfl, hv, he, ho⟩
    refine ⟨by simp [he], ?_⟩
    rw [List.map_cons, List.map_cons, List.cons_append, List.cons_append, hv, he,
      checkAssignment_concat, checkOperand_ofWords_iff]
    exact ho

/-- Which check the head selects for a kind. -/
def Kind.Passes (head : Category) (cs : List Category) : Kind → Prop
  | .declaration => head = .declaration ∧ Statement.checkDeclaration cs = .ok ()
  | .assignment => head ∉ [.declaration, .conditional, .loop] ∧
      cs[1]? = some .assignment ∧ Statement.checkAssignment cs = .ok ()
  | .conditional => head = .conditional ∧ Statement.checkGuard cs = .ok ()
  | .loop => head = .loop ∧ Statement.checkGuard cs = .ok ()

theorem map_eq_ok_iff {α : Type} {x : Except Defect Unit} {a b : α} :
    (x.map fun _ => a) = .ok b ↔ a = b ∧ x = .ok () := by
  cases x <;> simp [Except.map]

theorem rule_eq_ok_iff (head : Category) (cs : List Category) (kind : Kind) :
    Statement.rule head cs = .ok kind ↔ kind.Passes head cs := by
  unfold Statement.rule
  split
  · cases kind <;> simp [map_eq_ok_iff, Kind.Passes]
  · cases kind <;> simp [map_eq_ok_iff, Kind.Passes]
  · cases kind <;> simp [map_eq_ok_iff, Kind.Passes]
  · next hd hc hl =>
    split <;> cases kind <;> simp_all [map_eq_ok_iff, Kind.Passes]

theorem Sentence.two_le_length {kind : Kind} {body : List Text} (h : Sentence kind body) :
    2 ≤ body.length := by
  cases h with
  | declaration => simp
  | assignment => simp
  | conditional _ hg => cases hg; simp; omega
  | loop _ hg => cases hg; simp; omega

theorem two_le_length_of_rule {head : Category} {body : List Text} {mark : EndMark} {kind : Kind}
    (h : Statement.rule head (body.map Category.ofWord ++ [.endMark mark]) = .ok kind) :
    2 ≤ body.length := by
  rw [rule_eq_ok_iff] at h
  have hguard : Statement.checkGuard (body.map Category.ofWord ++ [.endMark mark]) = .ok () →
      2 ≤ body.length := by
    intro hg
    rcases body with _ | ⟨k, _ | ⟨w, body⟩⟩
    · simp [Statement.checkGuard] at hg
    · simp [Statement.checkGuard] at hg
    · simp
  cases kind with
  | declaration =>
    have hh := (checkDeclaration_eq_ok_iff _).mp h.2
    simp only [List.length_append, List.length_map, List.length_singleton] at hh
    omega
  | assignment =>
    obtain ⟨v, e, operand, rfl, _⟩ := (checkAssignment_words_iff body mark).mp h.2
    simp
  | conditional => exact hguard h.2
  | loop => exact hguard h.2

theorem rule_words_iff {first : Text} {body : List Text} {mark : EndMark} {kind : Kind}
    (h : body.head? = some first) :
    Statement.rule (Category.ofWord first) (body.map Category.ofWord ++ [.endMark mark]) =
      .ok kind ↔ Sentence kind body := by
  obtain ⟨rest, rfl⟩ : ∃ rest, body = first :: rest := by
    cases body with
    | nil => simp at h
    | cons w rest => exact ⟨rest, by simpa using h⟩
  rw [rule_eq_ok_iff]
  cases kind with
  | declaration =>
    rw [Kind.Passes, checkDeclaration_eq_ok_iff]
    constructor
    · rintro ⟨hd, hl⟩
      obtain ⟨n, rfl⟩ := List.length_eq_one_iff.mp (show rest.length = 1 by simpa using hl)
      exact .declaration hd
    · intro hs
      cases hs with
      | declaration hd => exact ⟨hd, by simp⟩
  | assignment =>
    rw [Kind.Passes, checkAssignment_words_iff]
    constructor
    · rintro ⟨_, v, e, operand, hw, hv, he, ho⟩
      rw [hw]
      exact .assignment hv he ho
    · intro hs
      cases hs with
      | assignment hv he ho => exact ⟨by simp [hv], _, _, _, rfl, hv, he, ho⟩
  | conditional =>
    rw [Kind.Passes, List.map_cons, checkGuard_words_iff]
    constructor
    · rintro ⟨hk, hg⟩
      exact .conditional hk hg
    · intro hs
      cases hs with
      | conditional hk hg => exact ⟨hk, hg⟩
  | loop =>
    rw [Kind.Passes, List.map_cons, checkGuard_words_iff]
    constructor
    · rintro ⟨hk, hg⟩
      exact .loop hk hg
    · intro hs
      cases hs with
      | loop hk hg => exact ⟨hk, hg⟩

theorem Sentence.requiredMark {kind : Kind} {first : Text} {body : List Text}
    (h : Sentence kind body) (hf : body.head? = some first) :
    (Category.ofWord first).requiredMark = kind.endMark := by
  cases h <;> simp_all [Category.requiredMark, Category.opensBlock, Kind.endMark]

theorem judge_eq_ok_iff (s : Statement) (kind : Kind) :
    s.judge = .ok kind ↔ s.endMark? = some s.head.requiredMark ∧
      (∀ c ∈ s.categories, c ≠ .unknown) ∧ Statement.rule s.head s.categories = .ok kind := by
  rw [Statement.judge]
  split
  · next hm => simp [hm]
  · next hm =>
    have hm := Decidable.not_not.mp hm
    split
    · next t ht =>
      have hu : Category.unknown ∈ s.categories := by
        have hc : t.category = .unknown := by simpa using List.find?_some ht
        exact hc ▸ List.mem_map_of_mem (List.mem_of_find?_eq_some ht)
      simp only [reduceCtorEq, false_iff]
      exact fun hh => hh.2.1 _ hu rfl
    · next ht =>
      have hu : ∀ c ∈ s.categories, c ≠ .unknown := by
        intro c hc
        obtain ⟨t, hmem, rfl⟩ := List.mem_map.mp hc
        simpa using List.find?_eq_none.mp ht t hmem
      exact ⟨fun hr => ⟨hm, hu, hr⟩, fun hh => hh.2.2⟩

theorem endMark?_tokensOf_iff {s : Statement} {mark : EndMark} {ws : List Word} (hne : ws ≠ [])
    (hs : s.tokens = Statement.tokensOf mark ws) :
    s.endMark? = some mark ↔ ∃ body, ClosesWith mark.char (ws.map Word.text) body := by
  rw [Statement.endMark?, Statement.categories]
  rw [hs]
  constructor
  · intro h
    cases ws using List.reverseRecOn with
    | nil => exact absurd rfl hne
    | append_singleton front last =>
      rw [List.map_append, List.map_singleton]
      refine ⟨_, closesWith_concat_iff.mpr ⟨?_, rfl⟩⟩
      intro he
      rw [tokensOf_concat, List.map_append, map_category_closingTokens, if_pos he,
        List.append_nil, List.map_map] at h
      split at h
      · next found hl =>
        rcases List.mem_append.mp (List.mem_of_getLast? hl) with hm | hm
        · obtain ⟨w, _, hw⟩ := List.mem_map.mp hm
          exact ofWord_ne_endMark w.text found hw
        · obtain ⟨w, _, hw⟩ := List.mem_map.mp hm
          exact ofWord_ne_endMark w found hw
      · simp at h
  · rintro ⟨body, hb⟩
    simp [map_category_tokensOf hb]

theorem Verdict.ofStatement_eq_accepted_iff {s : Statement} {kind : Kind} :
    ofStatement s = .accepted kind ↔ s.judge = .ok kind := by
  rw [ofStatement]
  split <;> simp_all

theorem Verdict.ofStatement_eq_rejected_iff {s : Statement} {defect : Defect} :
    ofStatement s = .rejected defect ↔ s.judge = .error defect := by
  rw [ofStatement]
  split <;> simp_all

theorem verdict_blank_iff (line : Nat) (text : Text) :
    (Report.ofLine line text).verdict = .blank ↔ text.runs = [] := by
  rw [← map_text_words, List.map_eq_nil_iff]
  rw [Report.ofLine, Statement.ofLine?]
  cases text.words with
  | nil => simp
  | cons first later =>
    simp only [Option.map_some, Option.getD_some, reduceCtorEq, iff_false, Verdict.ofStatement]
    split <;> simp

theorem verdict_accepted_iff (line : Nat) (text : Text) (kind : Kind) :
    (Report.ofLine line text).verdict = .accepted kind ↔
      ∃ first later body, text.words = first :: later ∧
        ClosesWith (Statement.headOf first later).requiredMark.char text.runs body ∧
        (∀ w ∈ body, Category.ofWord w ≠ .unknown) ∧
        Statement.rule (Statement.headOf first later) (body.map Category.ofWord ++
          [.endMark (Statement.headOf first later).requiredMark]) = .ok kind := by
  rw [← map_text_words]
  rw [Report.ofLine, Statement.ofLine?]
  cases text.words with
  | nil => simp
  | cons first later =>
    let head := Statement.headOf first later
    let s : Statement :=
      ⟨line, text, head, Statement.tokensOf head.requiredMark (first :: later)⟩
    change Verdict.ofStatement s = .accepted kind ↔ _
    rw [Verdict.ofStatement_eq_accepted_iff, judge_eq_ok_iff,
      endMark?_tokensOf_iff (List.cons_ne_nil first later) rfl]
    constructor
    · rintro ⟨⟨body, hb⟩, hu, hr⟩
      have hc : s.categories = _ := map_category_tokensOf hb
      rw [hc] at hu hr
      refine ⟨first, later, body, rfl, hb, ?_, hr⟩
      exact fun w hw => hu _ (List.mem_append_left _ (List.mem_map_of_mem hw))
    · rintro ⟨_, _, body, he, hb, hu, hr⟩
      obtain ⟨rfl, rfl⟩ := List.cons.inj he
      have hc : s.categories = _ := map_category_tokensOf hb
      rw [hc]
      refine ⟨⟨body, hb⟩, ?_, hr⟩
      intro c hm
      rcases List.mem_append.mp hm with hm | hm
      · obtain ⟨w, hw, rfl⟩ := List.mem_map.mp hm
        exact hu w hw
      · obtain rfl := List.mem_singleton.mp hm
        simp

/-- The whole language of lines: blank exactly without a word, and accepted as a kind exactly if
the words derive from it. -/
theorem verdict_ofLine_iff (line : Nat) (text : Text) :
    ((Report.ofLine line text).verdict = .blank ↔ text.runs = []) ∧
    ∀ kind, (Report.ofLine line text).verdict = .accepted kind ↔ Derives kind text.runs := by
  refine ⟨verdict_blank_iff line text, fun kind => ?_⟩
  rw [verdict_accepted_iff]
  constructor
  · rintro ⟨first, later, body, hw, hb, hu, hr⟩
    have hruns : text.runs = first.text :: later.map Word.text := by
      rw [← map_text_words, hw, List.map_cons]
    have hlen := (two_le_length_of_rule hr).trans hb.length_le
    cases later with
    | nil => simp [hruns] at hlen
    | cons next later =>
      have hf : body.head? = some first.text := by
        rw [hruns] at hb
        exact hb.head?_eq
      have hs : Sentence kind body := (rule_words_iff hf).mp hr
      have hm : (Statement.headOf first (next :: later)).requiredMark = kind.endMark :=
        hs.requiredMark hf
      exact ⟨body, hm ▸ hb, hu, hs⟩
  · rintro ⟨body, hb, hu, hs⟩
    have hlen := hs.two_le_length.trans hb.length_le
    rw [← map_text_words, List.length_map] at hlen
    match hw : text.words with
    | [] => simp [hw] at hlen
    | [_] => simp [hw] at hlen
    | first :: next :: later =>
      have hruns : text.runs = first.text :: next.text :: later.map Word.text := by
        rw [← map_text_words, hw, List.map_cons, List.map_cons]
      have hf : body.head? = some first.text := by
        rw [hruns] at hb
        exact hb.head?_eq
      have hm : (Statement.headOf first (next :: later)).requiredMark = kind.endMark :=
        hs.requiredMark hf
      exact ⟨first, next :: later, body, rfl, hm ▸ hb, hu, (rule_words_iff hf).mpr hs⟩

end LineGrammar
