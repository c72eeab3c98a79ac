import LineGrammar.Judgement
import LineGrammar.Proofs.Categories

/-! How a list of words closes with an end mark, and that the tokens of a line say so: a token of
the mark stands last exactly if the words close with it, behind the words that are left. -/

namespace LineGrammar

theorem dropTrailing_eq_rdropWhile {α : Type} (p : α → Bool) (l : List α) :
    dropTrailing p l = l.rdropWhile p := rfl

theorem dropTrailing_append_replicate {mark : Char} {w : Text} (h : w.getLast? ≠ some mark)
    (k : Nat) : dropTrailing (· == mark) (w ++ List.replicate k mark) = w := by
  induction k with
  | zero =>
    rw [dropTrailing_eq_rdropWhile, List.replicate_zero, List.append_nil,
      List.rdropWhile_eq_self_iff]
    intro hne he
    exact h (by simpa [List.getLast?_eq_some_getLast hne] using he)
  | succ k ih =>
    rw [dropTrailing_eq_rdropWhile] at ih ⊢
    rw [List.replicate_succ', ← List.append_assoc, List.rdropWhile_concat_pos _ _ _ (by simp), ih]

theorem getLast?_dropTrailing (mark : Char) (w : Text) :
    (dropTrailing (· == mark) w).getLast? ≠ some mark := by
  intro h
  have hne : w.rdropWhile (· == mark) ≠ [] := by
    intro he
    rw [dropTrailing_eq_rdropWhile, he] at h
    simp at h
  have hlast := List.rdropWhile_last_not (· == mark) w hne
  rw [dropTrailing_eq_rdropWhile, List.getLast?_eq_some_getLast hne, Option.some.injEq] at h
  simp [h] at hlast

theorem exists_dropTrailing_append_replicate (mark : Char) (w : Text) :
    ∃ k, dropTrailing (· == mark) w ++ List.replicate k mark = w := by
  refine ⟨(w.rtakeWhile (· == mark)).length, ?_⟩
  have hr : w.rtakeWhile (· == mark) = List.replicate (w.rtakeWhile (· == mark)).length mark :=
    List.eq_replicate_length.mpr fun c hc => by simpa using List.mem_rtakeWhile_imp hc
  rw [← hr]
  exact List.rdropWhile_append_rtakeWhile

/-- A list of words ends with a mark, once or more, either at the end of a word of which
something is left or as a word of its own. The second list is what is left. -/
inductive ClosesWith (mark : Char) : List Text → List Text → Prop where
  | attached {front : List Text} {w : Text} {k : Nat} (hk : 1 ≤ k) (hne : w ≠ [])
      (hlast : w.getLast? ≠ some mark) :
      ClosesWith mark (front ++ [w ++ List.replicate k mark]) (front ++ [w])
  | detached {front : List Text} {k : Nat} (hk : 1 ≤ k) :
      ClosesWith mark (front ++ [List.replicate k mark]) front

def remainder (mark : Char) (last : Text) : List Text :=
  if dropTrailing (· == mark) last = [] then [] else [dropTrailing (· == mark) last]

theorem ne_append_replicate {mark : Char} {k : Nat} (hk : 1 ≤ k) (w : Text) :
    w ≠ w ++ List.replicate k mark := by
  intro he
  have hlen := congrArg List.length he
  simp only [List.length_append, List.length_replicate] at hlen
  omega

theorem closesWith_concat_iff {mark : Char} {front body : List Text} {last : Text} :
    ClosesWith mark (front ++ [last]) body ↔
      dropTrailing (· == mark) last ≠ last ∧ body = front ++ remainder mark last := by
  constructor
  · intro h
    generalize hw : front ++ [last] = words at h
    cases h with
    | @attached front' w k hk hne hlast =>
      obtain ⟨rfl, hl⟩ := List.append_inj' hw rfl
      obtain rfl := List.singleton_inj.mp hl
      have hd := dropTrailing_append_replicate hlast k
      refine ⟨?_, by simp [remainder, hd, hne]⟩
      rw [hd]
      exact ne_append_replicate hk w
    | @detached front' k hk =>
      obtain ⟨rfl, hl⟩ := List.append_inj' hw rfl
      obtain rfl := List.singleton_inj.mp hl
      have hd : dropTrailing (· == mark) (List.replicate k mark) = [] := by
        have he : ([] : Text).getLast? ≠ some mark := by simp
        simpa using dropTrailing_append_replicate he k
      refine ⟨?_, by simp [remainder, hd]⟩
      rw [hd]
      exact ne_append_replicate hk []
  · rintro ⟨hne, rfl⟩
    obtain ⟨k, hk⟩ := exists_dropTrailing_append_replicate mark last
    have hpos : 1 ≤ k := by
      cases k with
      | zero => exact absurd (by simpa using hk) hne
      | succ k => omega
    by_cases he : dropTrailing (· == mark) last = []
    · rw [he, List.nil_append] at hk
      rw [remainder, if_pos he, List.append_nil, ← hk]
      exact .detached hpos
    · rw [remainder, if_neg he]
      nth_rewrite 1 [← hk]
      exact .attached hpos he (getLast?_dropTrailing mark last)

theorem ClosesWith.length_le {mark : Char} {words body : List Text}
    (h : ClosesWith mark words body) : body.length ≤ words.length := by
  cases h <;> simp

theorem ClosesWith.head?_eq {mark : Char} {first next : Text} {later body : List Text}
    (h : ClosesWith mark (first :: next :: later) body) : body.head? = some first := by
  generalize hw : first :: next :: later = words at h
  cases h with
  | @attached front w k hk hne hlast => cases front <;> simp_all
  | @detached _ k hk => cases body <;> simp_all

theorem ofWord_ne_endMark (w : Text) (mark : EndMark) : Category.ofWord w ≠ .endMark mark := by
  rw [Category.ofWord]
  split
  · next category hl =>
    have hm := mem_of_lookup_eq_some hl
    simp only [Category.keywords, List.mem_cons, Prod.mk.injEq, List.not_mem_nil, or_false] at hm
    rintro rfl
    simp at hm
  · repeat' split
    all_goals simp

def Token.isMark (t : Token) : Bool :=
  match t.category with
  | .endMark _ => true
  | _ => false

theorem isMark_token (w : Word) : w.token.isMark = false := by
  rw [Token.isMark]
  split
  · next mark h => exact absurd h (ofWord_ne_endMark w.text mark)
  · rfl

theorem tokensOf_concat (mark : EndMark) (front : List Word) (last : Word) :
    Statement.tokensOf mark (front ++ [last]) =
      front.map Word.token ++ last.closingTokens mark := by
  induction front with
  | nil => rfl
  | cons w front ih =>
    cases front with
    | nil => simp [Statement.tokensOf]
    | cons next front => simpa [Statement.tokensOf] using ih

theorem Statement.ofLine?_eq_some {line : Nat} {text : Text} {s : Statement}
    (h : Statement.ofLine? line text = some s) :
    ∃ first later, text.words = first :: later ∧
      s = ⟨line, text, headOf first later,
        tokensOf (headOf first later).requiredMark (first :: later)⟩ := by
  rw [Statement.ofLine?] at h
  split at h
  · cases h
  · next first later hw =>
    cases h
    exact ⟨first, later, hw, rfl⟩

theorem byteSize_replicate (mark : EndMark) (k : Nat) :
    Text.byteSize (List.replicate k mark.char) = k := by
  have hsize : mark.char.utf8Size = 1 := by cases mark <;> rfl
  induction k with
  | zero => rfl
  | succ k ih => rw [List.replicate_succ, Text.byteSize_cons, ih, hsize, Nat.add_comm]

theorem closingTokens_plain {mark : EndMark} {w : Text} (hne : w ≠ [])
    (hlast : w.getLast? ≠ some mark.char) (offset : Nat) :
    Word.closingTokens mark ⟨offset, w⟩ = [Word.token ⟨offset, w⟩] := by
  have hbody : Word.body mark ⟨offset, w⟩ = ⟨offset, w⟩ := by
    have hd := dropTrailing_append_replicate hlast 0
    rw [List.replicate_zero, List.append_nil] at hd
    rw [Word.body, hd]
  rw [Word.closingTokens, hbody, if_neg hne, if_pos rfl, List.append_nil]

theorem closingTokens_attached {mark : EndMark} {w : Text} (hne : w ≠ [])
    (hlast : w.getLast? ≠ some mark.char) (offset k : Nat) :
    Word.closingTokens mark ⟨offset, w ++ List.replicate (k + 1) mark.char⟩ =
      [Word.token ⟨offset, w⟩, ⟨[mark.char], .endMark mark, offset + w.byteSize + k⟩] := by
  have hbody : Word.body mark ⟨offset, w ++ List.replicate (k + 1) mark.char⟩ = ⟨offset, w⟩ := by
    rw [Word.body, dropTrailing_append_replicate hlast]
  have hshort : (⟨offset, w⟩ : Word) ≠ ⟨offset, w ++ List.replicate (k + 1) mark.char⟩ :=
    fun he => ne_append_replicate (Nat.succ_pos k) w (congrArg Word.text he)
  have hstart : Word.stop ⟨offset, w ++ List.replicate (k + 1) mark.char⟩ - 1 =
      offset + w.byteSize + k := by
    rw [Word.stop, Text.byteSize_append, byteSize_replicate]
    show offset + (w.byteSize + (k + 1)) - 1 = offset + w.byteSize + k
    omega
  rw [Word.closingTokens, hbody, if_neg hne, if_neg hshort, hstart]
  rfl

theorem closingTokens_detached (mark : EndMark) (offset k : Nat) :
    Word.closingTokens mark ⟨offset, List.replicate (k + 1) mark.char⟩ =
      [⟨[mark.char], .endMark mark, offset + k⟩] := by
  have hbody : Word.body mark ⟨offset, List.replicate (k + 1) mark.char⟩ = ⟨offset, []⟩ := by
    have hd := dropTrailing_append_replicate (show [].getLast? ≠ some mark.char by simp) (k + 1)
    rw [List.nil_append] at hd
    rw [Word.body, hd]
  have hshort : (⟨offset, []⟩ : Word) ≠ ⟨offset, List.replicate (k + 1) mark.char⟩ :=
    fun he => ne_append_replicate (Nat.succ_pos k) [] (congrArg Word.text he)
  rw [Word.closingTokens, hbody, if_pos rfl, if_neg hshort, Word.stop, byteSize_replicate]
  rfl

theorem body_eq_iff (mark : EndMark) (w : Word) :
    w.body mark = w ↔ dropTrailing (· == mark.char) w.text = w.text := by
  cases w
  simp [Word.body]

theorem map_category_closingTokens (mark : EndMark) (w : Word) :
    (w.closingTokens mark).map Token.category =
      (remainder mark.char w.text).map Category.ofWord ++
        if dropTrailing (· == mark.char) w.text = w.text then [] else [.endMark mark] := by
  rw [Word.closingTokens, List.map_append, apply_ite (List.map Token.category),
    apply_ite (List.map Token.category), remainder, apply_ite (List.map Category.ofWord)]
  simp only [body_eq_iff, List.map_nil, List.map_singleton]
  rfl

theorem map_category_tokensOf {mark : EndMark} {ws : List Word} {body : List Text}
    (h : ClosesWith mark.char (ws.map Word.text) body) :
    (Statement.tokensOf mark ws).map Token.category =
      body.map Category.ofWord ++ [.endMark mark] := by
  cases ws using List.reverseRecOn with
  | nil =>
    generalize hw : List.map Word.text [] = words at h
    cases h <;> simp at hw
  | append_singleton front last =>
    rw [List.map_append, List.map_singleton, closesWith_concat_iff] at h
    obtain ⟨hne, rfl⟩ := h
    simp [tokensOf_concat, map_category_closingTokens, hne, Word.token]

end LineGrammar
