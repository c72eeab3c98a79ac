import LineGrammar.Proofs.Dispatch
import LineGrammar.Proofs.Spans

/-! Numbers that are given names. Wherever a number may stand an identifier may stand too, so an
accepted line stays one of its kind when identifiers are put in the place of some of its numbers. -/

namespace LineGrammar

/-- A category is kept, or a number becomes an identifier. -/
def Category.Loosens (c c' : Category) : Prop :=
  c' = c ∨ (c = .number ∧ c' = .identifier)

/-- A text that may take the place of a token: its own, or any identifier if it is a number. -/
def Token.ReplacedBy (t : Token) (v : Text) : Prop :=
  v = t.text ∨ (t.category = .number ∧ Category.ofWord v = .identifier)

instance (t : Token) (v : Text) : Decidable (t.ReplacedBy v) :=
  inferInstanceAs (Decidable (_ ∨ _))

namespace Text

/-- What follows the longest beginning of a text that takes at most `budget` bytes. -/
def beyond (budget : Nat) (t : Text) : Text :=
  t.drop (t.fitting budget).length

/-- A text that begins at an offset, with another text in the place of each token. What stands
between the tokens is left as it is. -/
def rewrite (f : Token → Text) (offset : Nat) : List Token → Text → Text
  | [], t => t
  | u :: later, t =>
    t.fitting (u.start - offset) ++ f u ++ rewrite f u.stop later (t.beyond (u.stop - offset))

end Text

namespace Category.Loosens

variable {c c' next next' : Category}

theorem eq_of_ne (h : c.Loosens c') (hc : c ≠ .number) : c' = c :=
  h.resolve_right fun hn => hc hn.1

theorem eq_iff (h : c.Loosens c') {d : Category} (hn : d ≠ .number) (hi : d ≠ .identifier) :
    c' = d ↔ c = d := by
  rcases h with rfl | ⟨rfl, rfl⟩
  · exact Iff.rfl
  · exact ⟨fun hd => absurd hd.symm hi, fun hd => absurd hd.symm hn⟩

/-- An identifier follows where a number does, and anything follows it. -/
theorem precedes (h : c.Loosens c') (hnext : next.Loosens next') (hp : c.Precedes next) :
    c'.Precedes next' := by
  rcases h with rfl | ⟨rfl, rfl⟩
  · rcases hnext with rfl | ⟨rfl, rfl⟩
    · exact hp
    · cases c' <;> simp_all [Precedes, successors]
  · simp [Precedes, successors]

end Category.Loosens

section Grammar

variable {α : Type} {l : List α}

theorem IsOperand.loosen {a b : α → Category} (hab : ∀ x ∈ l, (a x).Loosens (b x))
    (h : IsOperand (l.map a)) : IsOperand (l.map b) := by
  have hcount {d : Category} (hn : d ≠ .number) (hi : d ≠ .identifier) :
      (l.map b).count d = (l.map a).count d := by
    rw [List.count_eq_countP, List.count_eq_countP, List.countP_map, List.countP_map]
    exact List.countP_congr fun x hx => by simpa using (hab x hx).eq_iff hn hi
  have hlast {d : Category} (hn : d ≠ .number) (hi : d ≠ .identifier)
      (hd : (l.map a).getLast? ≠ some d) : (l.map b).getLast? ≠ some d := by
    rw [List.getLast?_map] at hd ⊢
    cases hl : l.getLast? with
    | none => simp
    | some x =>
      rw [hl, Option.map_some, ne_eq, Option.some.injEq] at hd
      rw [Option.map_some, ne_eq, Option.some.injEq]
      exact mt ((hab x (List.mem_of_getLast? hl)).eq_iff hn hi).mp hd
  constructor
  case nonempty => simpa using h.nonempty
  case balanced => rw [hcount (by decide) (by decide), hcount (by decide) (by decide), h.balanced]
  case complete =>
    exact ⟨hlast (by decide) (by decide) h.complete.1, hlast (by decide) (by decide) h.complete.2⟩
  case linked =>
    intro i hi
    rw [List.length_map] at hi
    have hp := h.linked i (by rwa [List.length_map])
    rw [List.getElem_map, List.getElem_map] at hp ⊢
    exact (hab _ (List.getElem_mem _)).precedes (hab _ (List.getElem_mem _)) hp

variable {a b : α → Text}

theorem OperandWords.loosen
    (hab : ∀ x ∈ l, (Category.ofWord (a x)).Loosens (Category.ofWord (b x)))
    (h : OperandWords (l.map a)) : OperandWords (l.map b) := by
  rw [OperandWords, List.map_map] at h ⊢
  exact h.loosen hab

theorem Guard.loosen (hab : ∀ x ∈ l, (Category.ofWord (a x)).Loosens (Category.ofWord (b x)))
    (h : Guard (l.map a)) : Guard (l.map b) := by
  generalize hl : l.map a = words at h
  obtain ⟨hq, honly, hleft, hright⟩ := h
  obtain ⟨xs, rest, rfl, rfl, hrest⟩ := List.map_eq_append_iff.mp hl
  obtain ⟨x, ys, rfl, rfl, rfl⟩ := List.map_eq_cons_iff.mp hrest
  have hx := hab x (by simp)
  rw [List.map_append, List.map_cons]
  refine .compare (hx.eq_of_ne (by simp [hq]) ▸ hq) (fun w hw => ?_)
    (hleft.loosen fun y hy => hab y (by simp [hy])) (hright.loosen fun y hy => hab y (by simp [hy]))
  rw [← List.map_append] at hw honly
  obtain ⟨y, hy, rfl⟩ := List.mem_map.mp hw
  rw [ne_eq, (hab y (by grind)).eq_iff (by decide) (by decide)]
  exact honly _ (List.mem_map_of_mem hy)

theorem Sentence.loosen {kind : Kind}
    (hab : ∀ x ∈ l, (Category.ofWord (a x)).Loosens (Category.ofWord (b x)))
    (h : Sentence kind (l.map a)) : Sentence kind (l.map b) := by
  have hkeep {x : α} {c : Category} (hx : x ∈ l) (hc : Category.ofWord (a x) = c)
      (hn : c ≠ .number) : Category.ofWord (b x) = c := by
    rw [(hab x hx).eq_of_ne (hc ▸ hn), hc]
  generalize hl : l.map a = words at h
  cases h with
  | declaration hd =>
    obtain ⟨x, rest, rfl, rfl, hrest⟩ := List.map_eq_cons_iff.mp hl
    obtain ⟨y, rfl, rfl⟩ := List.map_eq_singleton_iff.mp hrest
    exact .declaration (hkeep (by simp) hd (by decide))
  | assignment hv he ho =>
    obtain ⟨x, rest, rfl, rfl, hrest⟩ := List.map_eq_cons_iff.mp hl
    obtain ⟨y, rest, rfl, rfl, rfl⟩ := List.map_eq_cons_iff.mp hrest
    exact .assignment (hkeep (by simp) hv (by decide)) (hkeep (by simp) he (by decide))
      (ho.loosen fun z hz => hab z (by simp [hz]))
  | conditional hk hg =>
    obtain ⟨x, rest, rfl, rfl, rfl⟩ := List.map_eq_cons_iff.mp hl
    exact .conditional (hkeep (by simp) hk (by decide)) (hg.loosen fun z hz => hab z (by simp [hz]))
  | loop hk hg =>
    obtain ⟨x, rest, rfl, rfl, rfl⟩ := List.map_eq_cons_iff.mp hl
    exact .loop (hkeep (by simp) hk (by decide)) (hg.loosen fun z hz => hab z (by simp [hz]))

end Grammar

theorem isStray_of_isBlank {c : Char} (h : isBlank c = true) : Category.isStray c = true := by
  have hall : ∀ n ∈ whiteSpace, Category.isStray (Char.ofNat n) = true := by decide
  rw [← Char.ofNat_toNat c]
  exact hall _ ((isBlank_iff c).mp h)

theorem isStray_of_mem_identifier {v : Text} (h : Category.ofWord v = .identifier) {c : Char}
    (hc : c ∈ v) : Category.isStray c = false := by
  by_contra hs
  rw [Category.ofWord_of_isStray hc (Bool.of_not_eq_false hs)] at h
  split at h <;> cases h

namespace Word

variable {w : Word} {v : Text}

theorem loosens_of_replacedBy (h : w.token.ReplacedBy v) :
    (Category.ofWord w.text).Loosens (Category.ofWord v) :=
  h.imp (fun hv => congrArg Category.ofWord hv) id

theorem ne_nil_of_replacedBy (h : w.token.ReplacedBy v) (hne : w.text ≠ []) : v ≠ [] := by
  rcases h with rfl | ⟨-, hv⟩
  · exact hne
  · rintro rfl
    exact absurd hv (by decide)

theorem solid_of_replacedBy (h : w.token.ReplacedBy v) (hw : ∀ c ∈ w.text, isBlank c = false) :
    ∀ c ∈ v, isBlank c = false := by
  rcases h with rfl | ⟨-, hv⟩
  · exact hw
  · intro c hc
    by_contra hb
    have hs := isStray_of_mem_identifier hv hc
    rw [isStray_of_isBlank (Bool.of_not_eq_false hb)] at hs
    cases hs

/-- A name takes no mark from the end of a number. -/
theorem getLast?_ne_of_replacedBy (h : w.token.ReplacedBy v) {mark : EndMark}
    (hw : w.text.getLast? ≠ some mark.char) : v.getLast? ≠ some mark.char := by
  rcases h with rfl | ⟨-, hv⟩
  · exact hw
  · intro hl
    have hs := isStray_of_mem_identifier hv (List.mem_of_getLast? hl)
    rw [isStray_of_isAnyMark (isAnyMark_char mark)] at hs
    cases hs

end Word

namespace Text

theorem fitting_append_of_le {s : Text} {budget : Nat} (h : s.byteSize ≤ budget) (t : Text) :
    fitting budget (s ++ t) = s ++ fitting (budget - s.byteSize) t := by
  induction s generalizing budget with
  | nil => rfl
  | cons c s ih =>
    rw [byteSize_cons] at h
    rw [List.cons_append, fitting, if_pos (by omega), ih (by omega), byteSize_cons, Nat.sub_add_eq]
    rfl

theorem beyond_append_of_le {s : Text} {budget : Nat} (h : s.byteSize ≤ budget) (t : Text) :
    beyond budget (s ++ t) = beyond (budget - s.byteSize) t := by
  rw [beyond, fitting_append_of_le h, List.length_append, List.drop_length_add_append, beyond]

theorem beyond_zero (t : Text) : beyond 0 t = t := by
  have hfit := fitting_byteSize [] t
  rw [byteSize_nil, List.nil_append] at hfit
  rw [beyond, hfit]
  rfl

variable {f : Token → Text} {offset : Nat} {ts : List Token}

/-- Nothing is changed in front of the first token. -/
theorem rewrite_append {front : Text} (h : ∀ u ∈ ts, offset + front.byteSize ≤ u.start) (t : Text) :
    rewrite f offset ts (front ++ t) = front ++ rewrite f (offset + front.byteSize) ts t := by
  cases ts with
  | nil => rfl
  | cons u later =>
    have hstart := h u List.mem_cons_self
    have hstop : u.start ≤ u.stop := Nat.le_add_right _ _
    rw [rewrite, rewrite, fitting_append_of_le (by omega), beyond_append_of_le (by omega),
      ← Nat.sub_add_eq, ← Nat.sub_add_eq]
    simp only [List.append_assoc]

theorem rewrite_token (u : Token) (t : Text) :
    rewrite f u.start (u :: ts) (u.text ++ t) = f u ++ rewrite f u.stop ts t := by
  have hfit : fitting 0 (u.text ++ t) = [] := fitting_byteSize [] _
  have hstop : u.stop - u.start = u.text.byteSize := by rw [Token.stop, Nat.add_sub_cancel_left]
  rw [rewrite, hstop, Nat.sub_self, hfit, beyond_append_of_le le_rfl, Nat.sub_self, beyond_zero]
  rfl

theorem rewrite_word (w t : Text) :
    rewrite f offset (Word.token ⟨offset, w⟩ :: ts) (w ++ t) =
      f (Word.token ⟨offset, w⟩) ++ rewrite f (offset + w.byteSize) ts t :=
  rewrite_token (Word.token ⟨offset, w⟩) t

theorem rewrite_cons_blank {c : Char} (hc : isBlank c = true) {front : Text}
    (hts : ∀ u ∈ ts, offset + byteSize (c :: front) ≤ u.start) (t : Text) :
    rewrite f offset ((wordsFrom offset (c :: front)).map Word.token ++ ts) (c :: front ++ t) =
      c :: rewrite f (offset + c.utf8Size)
        ((wordsFrom (offset + c.utf8Size) front).map Word.token ++ ts) (front ++ t) := by
  rw [wordsFrom_cons_blank hc]
  refine @rewrite_append f offset _ [c] (fun u hu => ?_) (front ++ t)
  rcases List.mem_append.mp hu with hu | hu
  · obtain ⟨w, hw, rfl⟩ := List.mem_map.mp hu
    exact le_start_of_mem_wordsFrom hw
  · refine le_trans ?_ (hts u hu)
    simp only [byteSize_cons, byteSize_nil]
    omega

/-- Words in front of a blank are rewritten one by one. -/
theorem runs_rewrite {front : Text} (hfront : ∀ c ∈ front.getLast?, isBlank c = true)
    (hf : ∀ w ∈ front.wordsFrom offset, w.token.ReplacedBy (f w.token))
    (hts : ∀ u ∈ ts, offset + front.byteSize ≤ u.start) (t : Text) :
    runs (rewrite f offset ((front.wordsFrom offset).map Word.token ++ ts) (front ++ t)) =
      ((front.wordsFrom offset).map fun w => f w.token) ++
        runs (rewrite f (offset + front.byteSize) ts t) := by
  induction front using Text.run_induction generalizing offset with
  | nil => simp [wordsFrom_nil]
  | blank c front hc ih =>
    rw [rewrite_cons_blank hc hts, runs_cons_blank hc]
    rw [wordsFrom_cons_blank hc] at hf ⊢
    rw [byteSize_cons, ← Nat.add_assoc] at hts ⊢
    exact ih (blank_getLast?_of_cons hfront) hf hts
  | run w front hne hw hnext ih =>
    obtain ⟨d, front, rfl, hlast⟩ := exists_cons_of_run hne hw hfront
    rw [wordsFrom_run hne hw hnext] at hf ⊢
    rw [byteSize_append, ← Nat.add_assoc] at hts ⊢
    have hword := hf _ List.mem_cons_self
    have hrest := ih hlast (fun v hv => hf v (List.mem_cons_of_mem _ hv)) hts
    -- the blank behind the run stays, so the new word ends where the old one did
    rw [rewrite_cons_blank (hnext d rfl) hts] at hrest
    rw [List.append_assoc, List.map_cons, List.cons_append, rewrite_word,
      rewrite_cons_blank (hnext d rfl) hts,
      runs_run (Word.ne_nil_of_replacedBy hword hne) (Word.solid_of_replacedBy hword hw)
        (by simpa using hnext), hrest]
    rfl

theorem rewrite_marks {mark : EndMark} {k : Nat}
    (h : f ⟨[mark.char], .endMark mark, offset + k⟩ = [mark.char]) (t : Text) :
    rewrite f offset [⟨[mark.char], .endMark mark, offset + k⟩]
        (List.replicate (k + 1) mark.char ++ t) = List.replicate (k + 1) mark.char ++ t := by
  have hsize := byteSize_replicate mark k
  have hfront := @rewrite_append f offset [⟨[mark.char], .endMark mark, offset + k⟩]
    (List.replicate k mark.char) (by simp [hsize]) ([mark.char] ++ t)
  rw [hsize] at hfront
  have hmark :
      rewrite f (offset + k) [⟨[mark.char], .endMark mark, offset + k⟩] ([mark.char] ++ t) =
        [mark.char] ++ t := by
    refine (rewrite_token _ t).trans ?_
    rw [h]
    rfl
  rw [List.replicate_succ', List.append_assoc, hfront, hmark]

theorem runs_append_blank {w b : Text} (hne : w ≠ []) (hw : ∀ c ∈ w, isBlank c = false)
    (hb : ∀ c ∈ b, isBlank c = true) : runs (w ++ b) = [w] := by
  have hnone : runs b = [] := by
    rw [← map_text_words, words, wordsFrom_blank hb, List.map_nil]
  rw [runs_run hne hw fun c hc => hb c (List.mem_of_mem_head? hc), hnone]

end Text

theorem text_eq_of_replacedBy {mark : EndMark} {start : Nat} {w v : Text}
    (h : Token.ReplacedBy ⟨w, .endMark mark, start⟩ v) : v = w :=
  h.resolve_right fun hn => by cases hn.1

section Closing

variable {mark : EndMark} {before word after : Text} {f : Token → Text}

theorem runs_rewrite_detached {k : Nat} (h : LastWord before (List.replicate (k + 1) mark.char))
    (hafter : ∀ c ∈ after, isBlank c = true)
    (hf : ∀ t ∈ Word.closingTokens mark ⟨before.byteSize, List.replicate (k + 1) mark.char⟩,
      t.ReplacedBy (f t)) :
    Text.runs (Text.rewrite f before.byteSize
        (Word.closingTokens mark ⟨before.byteSize, List.replicate (k + 1) mark.char⟩)
        (List.replicate (k + 1) mark.char ++ after)) = [List.replicate (k + 1) mark.char] := by
  rw [closingTokens_detached] at hf ⊢
  have hmark := text_eq_of_replacedBy (hf _ (List.mem_singleton_self _))
  rw [Text.rewrite_marks hmark, Text.runs_append_blank h.nonempty h.solid hafter]

theorem runs_rewrite_attached {w : Text} {k : Nat}
    (h : LastWord before (w ++ List.replicate (k + 1) mark.char)) (hne : w ≠ [])
    (hlast : w.getLast? ≠ some mark.char) (hafter : ∀ c ∈ after, isBlank c = true)
    (hf : ∀ t ∈ Word.closingTokens mark ⟨before.byteSize, w ++ List.replicate (k + 1) mark.char⟩,
      t.ReplacedBy (f t)) :
    (Word.token ⟨before.byteSize, w⟩).ReplacedBy (f (Word.token ⟨before.byteSize, w⟩)) ∧
    Text.runs (Text.rewrite f before.byteSize
        (Word.closingTokens mark ⟨before.byteSize, w ++ List.replicate (k + 1) mark.char⟩)
        (w ++ List.replicate (k + 1) mark.char ++ after)) =
      [f (Word.token ⟨before.byteSize, w⟩) ++ List.replicate (k + 1) mark.char] := by
  rw [closingTokens_attached hne hlast] at hf ⊢
  have hword := hf _ List.mem_cons_self
  have hmark := text_eq_of_replacedBy
    (hf _ (List.mem_cons_of_mem _ (List.mem_singleton_self _)))
  have hsolid : ∀ c ∈ f (Word.token ⟨before.byteSize, w⟩) ++ List.replicate (k + 1) mark.char,
      isBlank c = false := by
    intro c hc
    rcases List.mem_append.mp hc with hc | hc
    · exact Word.solid_of_replacedBy hword (fun d hd => h.solid d (List.mem_append_left _ hd)) c hc
    · exact h.solid c (List.mem_append_right _ hc)
  have hnonempty := List.append_ne_nil_of_left_ne_nil (Word.ne_nil_of_replacedBy hword hne)
    (List.replicate (k + 1) mark.char)
  refine ⟨hword, ?_⟩
  rw [List.append_assoc, Text.rewrite_word, Text.rewrite_marks hmark, ← List.append_assoc,
    Text.runs_append_blank hnonempty hsolid hafter]

/-- A line that closes with a mark still does when its words are replaced, with the words that are
left replaced. -/
theorem exists_closesWith_rewrite {body : List Text} (h : LastWord before word)
    (hafter : ∀ c ∈ after, isBlank c = true)
    (hb : ClosesWith mark.char (before.runs ++ [word]) body)
    (hf : ∀ t ∈ Statement.tokensOf mark (before.words ++ [⟨before.byteSize, word⟩]),
      t.ReplacedBy (f t)) :
    ∃ ws : List Word, body = ws.map Word.text ∧ (∀ w ∈ ws, w.token.ReplacedBy (f w.token)) ∧
      ClosesWith mark.char (Text.runs (Text.rewrite f 0
        (Statement.tokensOf mark (before.words ++ [⟨before.byteSize, word⟩]))
        (before ++ (word ++ after)))) (ws.map fun w => f w.token) := by
  obtain ⟨hne, rfl⟩ := closesWith_concat_iff.mp hb
  rw [tokensOf_concat] at hf ⊢
  have hwords : ∀ w ∈ before.words, w.token.ReplacedBy (f w.token) :=
    fun w hw => hf _ (List.mem_append_left _ (List.mem_map_of_mem hw))
  have hclosing := fun t ht => hf t (List.mem_append_right _ ht)
  have hstart : ∀ u ∈ Word.closingTokens mark ⟨before.byteSize, word⟩,
      0 + before.byteSize ≤ u.start := by
    intro u hu
    rw [Nat.zero_add]
    have hstands := (closingWord_closingTokens mark h.nonempty _).standsIn h.solid hu
    exact (Word.StandsIn.bounds hstands).1
  rw [Text.words, Text.runs_rewrite h.behind hwords hstart, Nat.zero_add]
  -- the last word is taken apart into what is left of it and its marks
  have hlast := getLast?_dropTrailing mark.char word
  obtain ⟨k, hk⟩ := exists_dropTrailing_append_replicate mark.char word
  rw [remainder]
  generalize dropTrailing (· == mark.char) word = w at hne hlast hk ⊢
  subst hk
  obtain ⟨k, rfl⟩ : ∃ n, k = n + 1 := Nat.exists_eq_succ_of_ne_zero (by rintro rfl; simp at hne)
  by_cases hw : w = []
  · subst hw
    rw [List.nil_append] at hclosing h ⊢
    rw [runs_rewrite_detached h hafter hclosing]
    exact ⟨before.words, by simp [map_text_words], hwords, .detached (Nat.succ_pos k)⟩
  · obtain ⟨hword, hruns⟩ := runs_rewrite_attached h hw hlast hafter hclosing
    refine ⟨before.words ++ [⟨before.byteSize, w⟩], by simp [map_text_words, hw], ?_, ?_⟩
    · intro v hv
      rcases List.mem_append.mp hv with hv | hv
      · exact hwords v hv
      · rwa [List.mem_singleton.mp hv]
    · rw [hruns, List.map_append, List.map_singleton]
      exact .attached (Nat.succ_pos k) (Word.ne_nil_of_replacedBy hword hw)
        (Word.getLast?_ne_of_replacedBy hword hlast)

end Closing

theorem headOf_of_closesWith {t : Text} {mark : Char} {body : List Text} {first : Word}
    {later : List Word} (hw : t.words = first :: later) (hb : ClosesWith mark t.runs body)
    (hlen : 2 ≤ body.length) :
    body.head? = some first.text ∧ Statement.headOf first later = Category.ofWord first.text := by
  have hle := hlen.trans hb.length_le
  rw [← map_text_words, hw, List.map_cons] at hb hle
  cases later with
  | nil => simp at hle
  | cons next later => exact ⟨hb.head?_eq, rfl⟩

theorem exists_sentence_of_accepted {line : Nat} {text : Text} {kind : Kind}
    (h : (Report.ofLine line text).verdict = .accepted kind) :
    ∃ s body, Statement.ofLine? line text = some s ∧
      s.tokens = Statement.tokensOf kind.endMark text.words ∧
      ClosesWith kind.endMark.char text.runs body ∧ (∀ w ∈ body, Category.ofWord w ≠ .unknown) ∧
      Sentence kind body := by
  obtain ⟨first, later, body, hw, hb, hu, hr⟩ := (verdict_accepted_iff line text kind).mp h
  obtain ⟨hfirst, hhead⟩ := headOf_of_closesWith hw hb (two_le_length_of_rule hr)
  have hs : Sentence kind body := (rule_words_iff hfirst).mp (hhead ▸ hr)
  have hm : (Statement.headOf first later).requiredMark = kind.endMark := by
    rw [hhead, hs.requiredMark hfirst]
  refine ⟨_, body, by rw [Statement.ofLine?, hw], ?_, hm ▸ hb, hu, hs⟩
  rw [hw, hm]

theorem accepted_of_sentence {text : Text} {kind : Kind} {body : List Text}
    (hb : ClosesWith kind.endMark.char text.runs body)
    (hu : ∀ w ∈ body, Category.ofWord w ≠ .unknown) (hs : Sentence kind body) (line : Nat) :
    (Report.ofLine line text).verdict = .accepted kind := by
  have hlen := hs.two_le_length
  obtain ⟨first, later, hw⟩ : ∃ first later, text.words = first :: later := by
    apply List.exists_cons_of_ne_nil
    intro hnil
    have hle := hlen.trans hb.length_le
    simp [← map_text_words, hnil] at hle
  obtain ⟨hfirst, hhead⟩ := headOf_of_closesWith hw hb hlen
  refine (verdict_accepted_iff line text kind).mpr ⟨first, later, body, hw, ?_⟩
  rw [hhead, hs.requiredMark hfirst]
  exact ⟨hb, hu, (rule_words_iff hfirst).mpr hs⟩

/-- Accepted lines stay accepted, as the same kind, when identifiers are put in the place of numbers
among their tokens. -/
theorem accepted_rewrite {line : Nat} {text : Text} {kind : Kind}
    (h : (Report.ofLine line text).verdict = .accepted kind) :
    ∃ s, Statement.ofLine? line text = some s ∧
      ∀ f : Token → Text, (∀ t ∈ s.tokens, t.ReplacedBy (f t)) →
        ∀ line', (Report.ofLine line' (text.rewrite f 0 s.tokens)).verdict = .accepted kind := by
  obtain ⟨s, body, hs, htokens, hb, hu, hsentence⟩ := exists_sentence_of_accepted h
  refine ⟨s, hs, fun f hf line' => ?_⟩
  obtain ⟨rfl, before, word, after, _, hparts⟩ := Statement.exists_parts hs
  have hwords := hparts.lastWord.words_append hparts.blank
  rw [← hparts.text_eq] at hwords
  have hruns : s.text.runs = before.runs ++ [word] := by
    rw [← map_text_words, hwords, List.map_append, map_text_words]
    rfl
  rw [hruns] at hb
  rw [htokens, hwords] at hf ⊢
  obtain ⟨ws, rfl, hws, hcloses⟩ := exists_closesWith_rewrite hparts.lastWord hparts.blank hb hf
  have hloosens := fun w hw => Word.loosens_of_replacedBy (hws w hw)
  rw [← List.append_assoc, ← hparts.text_eq] at hcloses
  refine accepted_of_sentence hcloses (fun v hv => ?_) (hsentence.loosen hloosens) line'
  obtain ⟨w, hw, rfl⟩ := List.mem_map.mp hv
  rw [ne_eq, (hloosens w hw).eq_iff (by decide) (by decide)]
  exact hu _ (List.mem_map_of_mem hw)

/-- Both numbers hold a colon, which goes with them, and the second one keeps its semicolons. -/
theorem accepted_rewrite_of_inner_marks :
    let text : Text := "x  = 5: ADD\u30007:;; ".toList
    let f : Token → Text := fun t =>
      if t.start = 5 then "total".toList else if t.category = .number then "y-1".toList else t.text
    (Report.ofLine 1 text).verdict = .accepted .assignment ∧
    ∃ s, Statement.ofLine? 1 text = some s ∧ (∀ t ∈ s.tokens, t.ReplacedBy (f t)) ∧
      text.rewrite f 0 s.tokens = "x  = total ADD\u3000y-1;; ".toList ∧
      (Report.ofLine 2 (text.rewrite f 0 s.tokens)).verdict = .accepted .assignment := by
  intro text f
  have haccepted : (Report.ofLine 1 text).verdict = .accepted .assignment := by decide
  obtain ⟨s, hs, hrewrite⟩ := accepted_rewrite haccepted
  let tokens : List Token := [⟨['x'], .identifier, 0⟩, ⟨['='], .assignment, 3⟩,
    ⟨['5', ':'], .number, 5⟩, ⟨"ADD".toList, .operator, 8⟩, ⟨['7', ':'], .number, 14⟩,
    ⟨[';'], .endMark .semicolon, 17⟩]
  have htokens : s.tokens = tokens := by
    have heq : Statement.ofLine? 1 text = some ⟨1, text, .identifier, tokens⟩ := by decide
    rw [Option.some.inj (hs.symm.trans heq)]
  have hf : ∀ t ∈ s.tokens, t.ReplacedBy (f t) := by
    rw [htokens]
    decide
  refine ⟨haccepted, s, hs, hf, ?_, hrewrite f hf 2⟩
  rw [htokens]
  decide

/-- Not the other way round: a number is not followed by what an identifier is. -/
example : (Report.ofLine 1 "x = a b c;".toList).verdict = .accepted .assignment ∧
    (Report.ofLine 1 "x = 5 b c;".toList).verdict = .rejected .malformedOperand := by decide

end LineGrammar
