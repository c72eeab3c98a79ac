import Mathlib.Data.List.DropRight
import Mathlib.Data.List.TakeWhile
import LineGrammar.Text.Words

/-! The words of a text are its maximal runs of characters that are not blank. Reading them skips
a blank and takes a run as a whole; every other fact about words follows from these two rules. -/

namespace LineGrammar

/-- The pieces between blank characters that are not empty. -/
def Text.runs (t : Text) : List Text :=
  (t.splitOnP isBlank).filter (· ≠ [])

/-- A text is empty, or begins with a blank, or begins with a run that the next character does
not extend. -/
theorem Text.run_induction {motive : Text → Prop} (nil : motive [])
    (blank : ∀ c t, isBlank c = true → motive t → motive (c :: t))
    (run : ∀ w t, w ≠ [] → (∀ c ∈ w, isBlank c = false) → (∀ c ∈ t.head?, isBlank c = true) →
      motive t → motive (w ++ t)) (t : Text) : motive t := by
  induction hn : t.length using Nat.strongRecOn generalizing t with
  | ind n ih =>
    cases t with
    | nil => exact nil
    | cons c rest =>
      by_cases hc : isBlank c = true
      · exact blank c rest hc (ih rest.length (by simp [← hn]) rest rfl)
      · let w := (c :: rest).takeWhile (!isBlank ·)
        let later := (c :: rest).dropWhile (!isBlank ·)
        have hw : w = c :: rest.takeWhile (!isBlank ·) := by simp [w, hc]
        have happend : w ++ later = c :: rest := List.takeWhile_append_dropWhile
        have hlen := congrArg List.length happend
        simp only [hw, List.length_append, List.length_cons] at hlen
        simp only [List.length_cons] at hn
        rw [← happend]
        refine run w later (by simp [hw]) ?_ ?_ (ih later.length (by omega) later rfl)
        · intro d hd
          simpa using List.mem_takeWhile_imp hd
        · intro d hd
          have hh := List.head?_dropWhile_not (!isBlank ·) (c :: rest)
          rw [show ((c :: rest).dropWhile (!isBlank ·)).head? = some d from hd] at hh
          simpa using hh

theorem wordsFrom_nil (offset : Nat) : Text.wordsFrom offset [] = [] := rfl

theorem wordsFrom_cons_blank {c : Char} (hc : isBlank c = true) (offset : Nat) (t : Text) :
    Text.wordsFrom offset (c :: t) = Text.wordsFrom (offset + c.utf8Size) t := by
  simp [Text.wordsFrom, hc]

theorem Word.start_extend_le {c : Char} {offset bound : Nat} {ws : List Word}
    (hb : bound ≤ offset) (hws : ∀ w ∈ ws, bound ≤ w.start) :
    ∀ w ∈ Word.extend c offset ws, bound ≤ w.start := by
  cases ws with
  | nil => simpa [Word.extend] using hb
  | cons v vs =>
    rw [Word.extend]
    split <;> simp_all

theorem le_start_of_mem_wordsFrom {w : Word} {offset : Nat} {t : Text}
    (h : w ∈ t.wordsFrom offset) : offset ≤ w.start := by
  induction t generalizing offset w with
  | nil => simp [Text.wordsFrom] at h
  | cons c t ih =>
    by_cases hc : isBlank c = true
    · rw [wordsFrom_cons_blank hc] at h
      exact (Nat.le_add_right _ _).trans (ih h)
    · simp only [Text.wordsFrom, hc] at h
      have hh : ∀ v ∈ Text.wordsFrom (offset + c.utf8Size) t, offset ≤ v.start :=
        fun v hv => (Nat.le_add_right _ _).trans (ih hv)
      exact Word.start_extend_le le_rfl hh w h

theorem Word.extend_of_gap {c : Char} {offset : Nat} {ws : List Word}
    (h : ∀ w ∈ ws, offset + c.utf8Size < w.start) :
    Word.extend c offset ws = ⟨offset, [c]⟩ :: ws := by
  cases ws with
  | nil => rfl
  | cons v vs => simp [Word.extend, Nat.ne_of_gt (h v (by simp))]

theorem wordsFrom_run {w t : Text} (hne : w ≠ []) (hw : ∀ c ∈ w, isBlank c = false)
    (ht : ∀ c ∈ t.head?, isBlank c = true) (offset : Nat) :
    Text.wordsFrom offset (w ++ t) =
      ⟨offset, w⟩ :: Text.wordsFrom (offset + Text.byteSize w) t := by
  induction w generalizing offset with
  | nil => exact absurd rfl hne
  | cons c w ih =>
    have hc : isBlank c = false := hw c (by simp)
    cases w with
    | nil =>
      have hgap : ∀ v ∈ t.wordsFrom (offset + c.utf8Size), offset + c.utf8Size < v.start := by
        intro v hv
        cases t with
        | nil => simp [Text.wordsFrom] at hv
        | cons d t =>
          rw [wordsFrom_cons_blank (ht d (by simp))] at hv
          have hle := le_start_of_mem_wordsFrom hv
          have hpos := Char.utf8Size_pos d
          omega
      simp [Text.wordsFrom, hc, Word.extend_of_gap hgap]
    | cons d w =>
      have hh := ih (by simp) (fun x hx => hw x (by simp [hx])) (offset + c.utf8Size)
      rw [List.cons_append, Text.wordsFrom, hh]
      simp [hc, Word.extend, Nat.add_assoc]

theorem runs_cons_blank {c : Char} (hc : isBlank c = true) (t : Text) :
    Text.runs (c :: t) = Text.runs t := by
  simp [Text.runs, List.splitOnP_cons_eq_if_modifyHead, hc]

theorem runs_run {w t : Text} (hne : w ≠ []) (hw : ∀ c ∈ w, isBlank c = false)
    (ht : ∀ c ∈ t.head?, isBlank c = true) : Text.runs (w ++ t) = w :: Text.runs t := by
  cases t with
  | nil => simp [Text.runs, List.splitOnP_eq_singleton hw, hne]
  | cons c t =>
    rw [runs_cons_blank (ht c (by simp))]
    simp [Text.runs, List.splitOnP_append_cons _ _ (ht c (by simp)),
      List.splitOnP_eq_singleton hw, hne]

theorem exists_mem_runs {c : Char} {t : Text} (hm : c ∈ t) (hc : isBlank c = false) :
    ∃ w ∈ t.runs, c ∈ w := by
  induction t using Text.run_induction with
  | nil => simp at hm
  | blank d t hd ih =>
    have ht : c ∈ t := (List.mem_cons.mp hm).resolve_left fun he => by simp [he, hd] at hc
    rw [runs_cons_blank hd]
    exact ih ht
  | run w t hne hw ht ih =>
    rw [runs_run hne hw ht]
    rcases List.mem_append.mp hm with hm | hm
    · exact ⟨w, List.mem_cons_self, hm⟩
    · obtain ⟨v, hv, hvm⟩ := ih hm
      exact ⟨v, List.mem_cons_of_mem _ hv, hvm⟩

theorem map_text_wordsFrom (offset : Nat) (t : Text) :
    (t.wordsFrom offset).map Word.text = t.runs := by
  induction t using Text.run_induction generalizing offset with
  | nil => rfl
  | blank c t hc ih => rw [wordsFrom_cons_blank hc, runs_cons_blank hc, ih]
  | run w t hne hw ht ih => rw [wordsFrom_run hne hw ht, runs_run hne hw ht, List.map_cons, ih]

theorem map_text_words (t : Text) : t.words.map Word.text = t.runs :=
  map_text_wordsFrom 0 t

/-- A word stands in a text at its offset, is not empty and holds no blank. -/
structure Word.StandsIn (w : Word) (offset : Nat) (t : Text) : Prop where
  nonempty : w.text ≠ []
  solid : ∀ c ∈ w.text, isBlank c = false
  placed : ∃ before after, t = before ++ w.text ++ after ∧ offset + before.byteSize = w.start

theorem Word.StandsIn.behind {w : Word} {offset : Nat} {front t : Text}
    (h : w.StandsIn (offset + front.byteSize) t) : w.StandsIn offset (front ++ t) := by
  obtain ⟨before, after, rfl, hs⟩ := h.placed
  refine ⟨h.nonempty, h.solid, front ++ before, after, by simp, ?_⟩
  rw [Text.byteSize_append, ← Nat.add_assoc, hs]

theorem standsIn_of_mem_wordsFrom {w : Word} {offset : Nat} {t : Text}
    (h : w ∈ t.wordsFrom offset) : w.StandsIn offset t := by
  induction t using Text.run_induction generalizing offset with
  | nil => simp [Text.wordsFrom] at h
  | blank c t hc ih =>
    rw [wordsFrom_cons_blank hc] at h
    have hb : w.StandsIn offset ([c] ++ t) := (ih h).behind
    exact hb
  | run v t hne hv ht ih =>
    rw [wordsFrom_run hne hv ht] at h
    rcases List.mem_cons.mp h with rfl | h
    · exact ⟨hne, hv, [], t, rfl, rfl⟩
    · exact (ih h).behind

theorem Word.StandsIn.append {w : Word} {offset : Nat} {t : Text} (h : w.StandsIn offset t)
    (later : Text) : w.StandsIn offset (t ++ later) := by
  obtain ⟨before, after, rfl, hs⟩ := h.placed
  exact ⟨h.nonempty, h.solid, before, after ++ later, by simp, hs⟩

theorem Word.StandsIn.start_lt_stop {w : Word} {offset : Nat} {t : Text} (h : w.StandsIn offset t) :
    w.start < w.stop := by
  obtain ⟨c, rest, hc⟩ := List.exists_cons_of_ne_nil h.nonempty
  have hpos := Char.utf8Size_pos c
  rw [Word.stop, hc, Text.byteSize_cons]
  omega

theorem Word.StandsIn.bounds {w : Word} {offset : Nat} {t : Text} (h : w.StandsIn offset t) :
    offset ≤ w.start ∧ w.stop ≤ offset + t.byteSize := by
  obtain ⟨before, after, rfl, hs⟩ := h.placed
  rw [Word.stop, Text.byteSize_append, Text.byteSize_append]
  omega

theorem stop_le_of_mem_wordsFrom {w : Word} {offset : Nat} {t : Text}
    (h : w ∈ t.wordsFrom offset) : w.stop ≤ offset + t.byteSize :=
  (standsIn_of_mem_wordsFrom h).bounds.2

theorem pairwise_wordsFrom (offset : Nat) (t : Text) :
    (t.wordsFrom offset).Pairwise fun w v => w.stop ≤ v.start := by
  induction t using Text.run_induction generalizing offset with
  | nil => exact List.Pairwise.nil
  | blank c t hc ih =>
    rw [wordsFrom_cons_blank hc]
    exact ih _
  | run w t hne hw ht ih =>
    rw [wordsFrom_run hne hw ht, List.pairwise_cons]
    exact ⟨fun v hv => le_start_of_mem_wordsFrom hv, ih _⟩

theorem wordsFrom_blank {b : Text} (hb : ∀ c ∈ b, isBlank c = true) (offset : Nat) :
    Text.wordsFrom offset b = [] := by
  induction b generalizing offset with
  | nil => rfl
  | cons c b ih => rw [wordsFrom_cons_blank (hb c (by simp)), ih fun d hd => hb d (by simp [hd])]

theorem blank_getLast?_of_cons {c : Char} {t : Text}
    (h : ∀ d ∈ (c :: t).getLast?, isBlank d = true) : ∀ d ∈ t.getLast?, isBlank d = true := by
  intro d hd
  apply h
  rw [List.getLast?_cons, show t.getLast? = some d from hd]
  rfl

/-- A text that begins with a run and ends in a blank goes on behind the run. -/
theorem exists_cons_of_run {w t : Text} (hne : w ≠ []) (hw : ∀ c ∈ w, isBlank c = false)
    (h : ∀ c ∈ (w ++ t).getLast?, isBlank c = true) :
    ∃ d later, t = d :: later ∧ ∀ c ∈ (d :: later).getLast?, isBlank c = true := by
  cases t with
  | nil =>
    rw [List.append_nil] at h
    have hblank := h _ (List.getLast?_eq_some_getLast hne)
    rw [hw _ (List.getLast_mem hne)] at hblank
    cases hblank
  | cons d later =>
    rw [List.getLast?_append_of_ne_nil _ (List.cons_ne_nil _ _)] at h
    exact ⟨d, later, rfl, h⟩

/-- What lies behind a blank is read as if nothing stood in front of it. -/
theorem wordsFrom_append {front : Text} (h : ∀ c ∈ front.getLast?, isBlank c = true) (offset : Nat)
    (t : Text) :
    Text.wordsFrom offset (front ++ t) =
      Text.wordsFrom offset front ++ Text.wordsFrom (offset + front.byteSize) t := by
  induction front using Text.run_induction generalizing offset with
  | nil => simp [wordsFrom_nil]
  | blank c front hc ih =>
    rw [List.cons_append, wordsFrom_cons_blank hc, wordsFrom_cons_blank hc,
      ih (blank_getLast?_of_cons h), Text.byteSize_cons, Nat.add_assoc]
  | run w front hne hw hfront ih =>
    obtain ⟨d, front, rfl, hlast⟩ := exists_cons_of_run hne hw h
    rw [List.append_assoc, wordsFrom_run hne hw (by simpa using hfront),
      wordsFrom_run hne hw hfront, ih hlast, Text.byteSize_append, Nat.add_assoc, List.cons_append]

theorem wordsFrom_append_blank {b : Text} (hb : ∀ c ∈ b, isBlank c = true) (offset : Nat)
    (t : Text) : Text.wordsFrom offset (t ++ b) = Text.wordsFrom offset t := by
  induction t using Text.run_induction generalizing offset with
  | nil => simpa [wordsFrom_nil] using wordsFrom_blank hb offset
  | blank c t hc ih => rw [List.cons_append, wordsFrom_cons_blank hc, wordsFrom_cons_blank hc, ih]
  | run w t hne hw ht ih =>
    have htb : ∀ c ∈ (t ++ b).head?, isBlank c = true := by
      cases t with
      | nil => exact fun c hc => hb c (List.mem_of_mem_head? (by simpa using hc))
      | cons d t => simpa using ht
    rw [List.append_assoc, wordsFrom_run hne hw htb, wordsFrom_run hne hw ht, ih]

/-- The last word of a text, behind a text that is empty or ends in a blank. -/
structure LastWord (before word : Text) : Prop where
  behind : ∀ c ∈ before.getLast?, isBlank c = true
  nonempty : word ≠ []
  solid : ∀ c ∈ word, isBlank c = false

theorem LastWord.words_append {before word after : Text} (h : LastWord before word)
    (hafter : ∀ c ∈ after, isBlank c = true) :
    Text.words (before ++ word ++ after) = before.words ++ [⟨before.byteSize, word⟩] := by
  have hrun := wordsFrom_run h.nonempty h.solid (t := []) (by simp) before.byteSize
  rw [List.append_nil, wordsFrom_nil] at hrun
  rw [Text.words, List.append_assoc, wordsFrom_append h.behind, wordsFrom_append_blank hafter,
    Nat.zero_add, hrun]
  rfl

theorem exists_lastWord {t : Text} {c : Char} (hm : c ∈ t) (hc : isBlank c = false) :
    ∃ before word after, t = before ++ word ++ after ∧ LastWord before word ∧
      ∀ c ∈ after, isBlank c = true := by
  let shown := t.rdropWhile isBlank
  let before := shown.rdropWhile (!isBlank ·)
  let word := shown.rtakeWhile (!isBlank ·)
  let after := t.rtakeWhile isBlank
  have hshown : before ++ word = shown := List.rdropWhile_append_rtakeWhile
  have ht : shown ++ after = t := List.rdropWhile_append_rtakeWhile
  have hne : shown ≠ [] := by
    intro he
    rw [List.rdropWhile_eq_nil_iff.mp he c hm] at hc
    cases hc
  refine ⟨before, word, after, by rw [hshown, ht], ⟨?_, ?_, ?_⟩, ?_⟩
  · intro d hd
    have hnil : before ≠ [] := List.ne_nil_of_mem (List.mem_of_getLast? hd)
    have hlast := List.rdropWhile_last_not (!isBlank ·) shown hnil
    obtain rfl : before.getLast hnil = d :=
      Option.some.inj ((List.getLast?_eq_some_getLast hnil).symm.trans hd)
    simpa using hlast
  · intro he
    have hlast := List.rtakeWhile_eq_nil_iff.mp he hne
    simp only [Bool.not_eq_true', Bool.not_eq_false] at hlast
    exact List.rdropWhile_last_not isBlank t hne hlast
  · intro d hd
    simpa using List.mem_rtakeWhile_imp hd
  · intro d hd
    exact List.mem_rtakeWhile_imp hd

end LineGrammar
