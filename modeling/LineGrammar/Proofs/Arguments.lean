import Mathlib.Data.Bool.Basic
import LineGrammar.CommandLine.Arguments
import LineGrammar.Proofs.Categories

/-! Arguments are read as an invocation exactly if they spell it. The flags may stand in any order
and on either side of the operand, be written out or be joined behind one dash. -/

namespace LineGrammar

namespace Flag

def letter : Flag → Char
  | file => 'f'
  | summary => 's'
  | help => 'h'
  | version => 'V'

def name : Flag → Text
  | file => "file".toList
  | summary => "summary".toList
  | help => "help".toList
  | version => "version".toList

theorem ofLetter?_eq_some_iff {c : Char} {f : Flag} : ofLetter? c = some f ↔ c = f.letter := by
  constructor
  · intro h
    have hmem := mem_of_lookup_eq_some h
    simp only [List.mem_cons, Prod.mk.injEq, List.not_mem_nil, or_false] at hmem
    rcases hmem with ⟨rfl, rfl⟩ | ⟨rfl, rfl⟩ | ⟨rfl, rfl⟩ | ⟨rfl, rfl⟩ <;> rfl
  · rintro rfl
    cases f <;> rfl

theorem ofName?_eq_some_iff {n : Text} {f : Flag} : ofName? n = some f ↔ n = f.name := by
  constructor
  · intro h
    have hmem := mem_of_lookup_eq_some h
    simp only [List.mem_cons, Prod.mk.injEq, List.not_mem_nil, or_false] at hmem
    rcases hmem with ⟨rfl, rfl⟩ | ⟨rfl, rfl⟩ | ⟨rfl, rfl⟩ | ⟨rfl, rfl⟩ <;> rfl
  · rintro rfl
    cases f <;> rfl

/-- The flags that are up. The other two never are, as nothing is read behind them. -/
def raised (readsFile summarizes : Bool) : List Flag :=
  (if readsFile then [file] else []) ++ if summarizes then [summary] else []

variable (readsFile summarizes : Bool)

@[simp] theorem count_file_raised :
    (raised readsFile summarizes).count file = readsFile.toNat := by
  cases readsFile <;> cases summarizes <;> rfl

@[simp] theorem count_summary_raised :
    (raised readsFile summarizes).count summary = summarizes.toNat := by
  cases readsFile <;> cases summarizes <;> rfl

@[simp] theorem count_help_raised : (raised readsFile summarizes).count help = 0 := by
  cases readsFile <;> cases summarizes <;> rfl

@[simp] theorem count_version_raised : (raised readsFile summarizes).count version = 0 := by
  cases readsFile <;> cases summarizes <;> rfl

theorem raised_file_append (flags : List Flag) :
    (raised false summarizes ++ file :: flags).Perm (raised true summarizes ++ flags) :=
  List.perm_middle

theorem raised_summary_append (flags : List Flag) :
    (raised readsFile false ++ summary :: flags).Perm (raised readsFile true ++ flags) := by
  rw [raised, raised, List.append_assoc, List.append_assoc]
  rfl

theorem eq_false_of_toNat_add {up later : Bool} {n : Nat} (h : up.toNat + (n + 1) = later.toNat) :
    up = false := by
  have hle := later.toNat_le
  exact Bool.toNat_eq_zero.mp (by omega)

end Flag

theorem foldlM_cons_eq_ok_iff {α β ε : Type} {f : β → α → Except ε β} {start later : β} {a : α}
    {l : List α} : (a :: l).foldlM f start = .ok later ↔
      ∃ next, f start a = .ok next ∧ l.foldlM f next = .ok later := by
  rw [List.foldlM_cons]
  cases f start a with
  | ok next =>
    constructor
    · intro h
      exact ⟨next, rfl, h⟩
    · rintro ⟨_, hn, h⟩
      cases hn
      exact h
  | error e =>
    constructor
    · intro h
      cases h
    · rintro ⟨_, hn, _⟩
      cases hn

/-- Arguments, and the flags and operands that they stand for. -/
inductive Spells : List Text → List Flag → List Text → Prop where
  | nil : Spells [] [] []
  | name (f : Flag) {arguments : List Text} {flags : List Flag} {operands : List Text}
      (later : Spells arguments flags operands) :
      Spells (('-' :: '-' :: f.name) :: arguments) (f :: flags) operands
  | letters (f : Flag) (fs : List Flag) {arguments : List Text} {flags : List Flag}
      {operands : List Text} (later : Spells arguments flags operands) :
      Spells (('-' :: (f :: fs).map Flag.letter) :: arguments) (f :: fs ++ flags) operands
  | operand (text : Text) (h : text = ['-'] ∨ text.head? ≠ some '-') {arguments : List Text}
      {flags : List Flag} {operands : List Text} (later : Spells arguments flags operands) :
      Spells (text :: arguments) flags (text :: operands)
  | dashes (operands : List Text) : Spells (['-', '-'] :: operands) [] operands

/-- No flag is given twice, and there is one operand. -/
def Invocation.SpelledBy (i : Invocation) (arguments : List Text) : Prop :=
  ∃ flags : List Flag, Spells arguments flags [i.contents] ∧
    flags.Perm (Flag.raised i.readsFile i.summarizes)

namespace Draft

/-- What a draft needs to become an invocation: the flags and operands still to come. -/
structure Completes (d : Draft) (flags : List Flag) (operands : List Text) (i : Invocation) :
    Prop where
  flags : (Flag.raised d.readsFile d.summarizes ++ flags).Perm
    (Flag.raised i.readsFile i.summarizes)
  operands : d.contents.toList ++ operands = [i.contents]

variable {d : Draft} {f : Flag} {fs flags : List Flag} {operand : Text} {operands : List Text}
  {i : Invocation}

/-- A flag that is still to come has not been given yet. -/
theorem Completes.raise (h : d.Completes (f :: flags) operands i) :
    ∃ later, d.raise (some f) = .ok later ∧ later.Completes flags operands i ∧
      later.flagsEnded = d.flagsEnded := by
  have hcount := List.perm_iff_count.mp h.flags f
  rw [List.count_append, List.count_cons_self] at hcount
  cases f with
  | file =>
    simp only [Flag.count_file_raised] at hcount
    have hd := Flag.eq_false_of_toNat_add hcount
    refine ⟨{ d with readsFile := true }, by simp [Draft.raise, hd], ⟨?_, h.operands⟩, rfl⟩
    have hflags := h.flags
    rw [hd] at hflags
    exact (Flag.raised_file_append _ _).symm.trans hflags
  | summary =>
    simp only [Flag.count_summary_raised] at hcount
    have hd := Flag.eq_false_of_toNat_add hcount
    refine ⟨{ d with summarizes := true }, by simp [Draft.raise, hd], ⟨?_, h.operands⟩, rfl⟩
    have hflags := h.flags
    rw [hd] at hflags
    exact (Flag.raised_summary_append _ _).symm.trans hflags
  | help =>
    simp only [Flag.count_help_raised] at hcount
    omega
  | version =>
    simp only [Flag.count_version_raised] at hcount
    omega

theorem Completes.fill (h : d.Completes flags (operand :: operands) i) :
    ∃ later, d.fill operand = .ok later ∧ later.Completes flags operands i ∧
      later.flagsEnded = d.flagsEnded := by
  cases hc : d.contents with
  | none =>
    have ho := h.operands
    rw [hc] at ho
    exact ⟨{ d with contents := some operand }, by simp [Draft.fill, hc], ⟨h.flags, ho⟩, rfl⟩
  | some contents =>
    have ho := congrArg List.length h.operands
    simp [hc] at ho

theorem Completes.letters (h : d.Completes (fs ++ flags) operands i) :
    ∃ later, (fs.map Flag.letter).foldlM
        (fun draft letter => draft.raise (Flag.ofLetter? letter)) d = .ok later ∧
      later.Completes flags operands i ∧ later.flagsEnded = d.flagsEnded := by
  induction fs generalizing d with
  | nil => exact ⟨d, rfl, h, rfl⟩
  | cons f fs ih =>
    obtain ⟨next, hn, hnext, he⟩ := Completes.raise h
    obtain ⟨later, hl, hlater, he'⟩ := ih hnext
    rw [← Flag.ofLetter?_eq_some_iff.mpr rfl] at hn
    exact ⟨later, foldlM_cons_eq_ok_iff.mpr ⟨_, hn, hl⟩, hlater, he'.trans he⟩

theorem read_operand (he : d.flagsEnded = false) (h : operand = ['-'] ∨ operand.head? ≠ some '-') :
    d.read operand = d.fill operand := by
  rw [read.eq_def, he]
  rcases h with rfl | h
  · rfl
  · cases operand with
    | nil => rfl
    | cons c operand =>
      have hc : c ≠ '-' := fun hc => h (congrArg some hc)
      simp [hc]

theorem read_letters (he : d.flagsEnded = false) (f : Flag) (fs : List Flag) :
    d.read ('-' :: (f :: fs).map Flag.letter) = ((f :: fs).map Flag.letter).foldlM
      (fun draft letter => draft.raise (Flag.ofLetter? letter)) d := by
  rw [read.eq_def, he]
  cases f <;> rfl

theorem read_name (he : d.flagsEnded = false) (f : Flag) :
    d.read ('-' :: '-' :: f.name) = d.raise (some f) := by
  rw [read.eq_def, he, ← Flag.ofName?_eq_some_iff.mpr rfl]
  cases f <;> rfl

/-- Behind the dashes only operands are read. -/
theorem Completes.fillAll (h : d.Completes flags operands i) (he : d.flagsEnded = true) :
    ∃ later, operands.foldlM read d = .ok later ∧ later.Completes flags [] i := by
  induction operands generalizing d with
  | nil => exact ⟨d, rfl, h⟩
  | cons operand operands ih =>
    obtain ⟨next, hn, hnext, hkept⟩ := h.fill
    obtain ⟨later, hl, hlater⟩ := ih hnext (hkept.trans he)
    exact ⟨later, foldlM_cons_eq_ok_iff.mpr ⟨_, (if_pos he).trans hn, hl⟩, hlater⟩

theorem Completes.read {arguments : List Text} (hs : Spells arguments flags operands)
    (h : d.Completes flags operands i) (he : d.flagsEnded = false) :
    ∃ later, arguments.foldlM Draft.read d = .ok later ∧ later.Completes [] [] i := by
  -- One argument takes from what is still to come what it spells.
  induction hs generalizing d with
  | nil => exact ⟨d, rfl, h⟩
  | name f _ ih =>
    obtain ⟨next, hn, hnext, hkept⟩ := h.raise
    obtain ⟨later, hl, hlater⟩ := ih hnext (hkept.trans he)
    exact ⟨later, foldlM_cons_eq_ok_iff.mpr ⟨_, (read_name he f).trans hn, hl⟩, hlater⟩
  | letters f fs _ ih =>
    obtain ⟨next, hn, hnext, hkept⟩ := h.letters
    obtain ⟨later, hl, hlater⟩ := ih hnext (hkept.trans he)
    exact ⟨later, foldlM_cons_eq_ok_iff.mpr ⟨_, (read_letters he f fs).trans hn, hl⟩, hlater⟩
  | operand text ht _ ih =>
    obtain ⟨next, hn, hnext, hkept⟩ := h.fill
    obtain ⟨later, hl, hlater⟩ := ih hnext (hkept.trans he)
    exact ⟨later, foldlM_cons_eq_ok_iff.mpr ⟨_, (read_operand he ht).trans hn, hl⟩, hlater⟩
  | dashes operands =>
    have hd : d.read ['-', '-'] = .ok { d with flagsEnded := true } := by
      rw [Draft.read, he]
      rfl
    obtain ⟨later, hl, hlater⟩ :=
      Completes.fillAll (d := { d with flagsEnded := true }) ⟨h.flags, h.operands⟩ rfl
    exact ⟨later, foldlM_cons_eq_ok_iff.mpr ⟨_, hd, hl⟩, hlater⟩

theorem Completes.finish (h : d.Completes [] [] i) : d.finish = .ok i := by
  obtain ⟨readsFile, summarizes, contents⟩ := i
  have hf := List.perm_iff_count.mp h.flags .file
  have hs := List.perm_iff_count.mp h.flags .summary
  simp only [List.append_nil, Flag.count_file_raised, Flag.count_summary_raised] at hf hs
  have hr : d.readsFile = readsFile := by rw [← Bool.ofNat_toNat d.readsFile, hf, Bool.ofNat_toNat]
  have hz : d.summarizes = summarizes := by
    rw [← Bool.ofNat_toNat d.summarizes, hs, Bool.ofNat_toNat]
  have ho := h.operands
  cases hc : d.contents with
  | none =>
    rw [hc] at ho
    cases ho
  | some found =>
    rw [hc] at ho
    cases ho
    simp [Draft.finish, hc, hr, hz]

variable {next : Draft}

/-- What a draft needs after a step, it needed before the step, and besides what the step gave it. -/
theorem completes_of_raise {raised : Option Flag} (hn : d.raise raised = .ok next) :
    next.flagsEnded = d.flagsEnded ∧ ∃ f, raised = some f ∧ ∀ {flags operands i},
      next.Completes flags operands i → d.Completes (f :: flags) operands i := by
  rw [Draft.raise.eq_def] at hn
  split at hn
  · cases hr : d.readsFile with
    | true => simp [hr] at hn
    | false =>
      simp only [hr, Bool.false_eq_true, if_false, Except.ok.injEq] at hn
      subst hn
      refine ⟨rfl, .file, rfl, fun h => ⟨?_, h.operands⟩⟩
      rw [hr]
      exact (Flag.raised_file_append _ _).trans h.flags
  · cases hz : d.summarizes with
    | true => simp [hz] at hn
    | false =>
      simp only [hz, Bool.false_eq_true, if_false, Except.ok.injEq] at hn
      subst hn
      refine ⟨rfl, .summary, rfl, fun h => ⟨?_, h.operands⟩⟩
      rw [hz]
      exact (Flag.raised_summary_append _ _).trans h.flags
  all_goals cases hn

theorem completes_of_fill (hn : d.fill operand = .ok next) :
    next.flagsEnded = d.flagsEnded ∧ ∀ {flags operands i},
      next.Completes flags operands i → d.Completes flags (operand :: operands) i := by
  cases hc : d.contents with
  | some contents => simp [Draft.fill, hc] at hn
  | none =>
    simp only [Draft.fill, hc, Option.isSome_none, Bool.false_eq_true, if_false,
      Except.ok.injEq] at hn
    subst hn
    refine ⟨rfl, fun h => ⟨h.flags, ?_⟩⟩
    rw [hc]
    exact h.operands

theorem completes_of_letters {letters : Text}
    (hn : letters.foldlM (fun draft letter => draft.raise (Flag.ofLetter? letter)) d = .ok next) :
    next.flagsEnded = d.flagsEnded ∧ ∃ fs : List Flag, letters = fs.map Flag.letter ∧
      ∀ {flags operands i}, next.Completes flags operands i →
        d.Completes (fs ++ flags) operands i := by
  induction letters generalizing d with
  | nil =>
    cases hn
    exact ⟨rfl, [], rfl, id⟩
  | cons letter letters ih =>
    obtain ⟨middle, hm, hl⟩ := foldlM_cons_eq_ok_iff.mp hn
    obtain ⟨hkept, f, hf, hstep⟩ := completes_of_raise hm
    obtain ⟨hkept', fs, rfl, hsteps⟩ := ih hl
    refine ⟨hkept'.trans hkept, f :: fs, ?_, fun h => hstep (hsteps h)⟩
    rw [Flag.ofLetter?_eq_some_iff.mp hf, List.map_cons]

theorem completes_of_operands (he : d.flagsEnded = true)
    (hn : operands.foldlM read d = .ok next) (h : next.Completes [] [] i) :
    d.Completes [] operands i := by
  induction operands generalizing d with
  | nil =>
    cases hn
    exact h
  | cons operand operands ih =>
    obtain ⟨middle, hm, hl⟩ := foldlM_cons_eq_ok_iff.mp hn
    obtain ⟨hkept, hstep⟩ := completes_of_fill ((if_pos he).symm.trans hm)
    exact hstep (ih (hkept.trans he) hl)

theorem dash_or_head?_ne {text : Text} (h : ∀ letter letters, text ≠ '-' :: letter :: letters) :
    text = ['-'] ∨ text.head? ≠ some '-' := by
  cases text with
  | nil => exact .inr (by simp)
  | cons c later =>
    by_cases hc : c = '-'
    · subst hc
      cases later with
      | nil => exact .inl rfl
      | cons letter letters => exact absurd rfl (h letter letters)
    · exact .inr fun hh => hc (Option.some.inj hh)

/-- Each argument that was read spells what its step took from the needs of the draft. -/
theorem exists_spells_of_read {arguments : List Text} (he : d.flagsEnded = false)
    (hn : arguments.foldlM Draft.read d = .ok next) (h : next.Completes [] [] i) :
    ∃ flags operands, Spells arguments flags operands ∧ d.Completes flags operands i := by
  induction arguments generalizing d with
  | nil =>
    cases hn
    exact ⟨[], [], .nil, h⟩
  | cons argument arguments ih =>
    obtain ⟨middle, hm, hl⟩ := foldlM_cons_eq_ok_iff.mp hn
    rw [Draft.read.eq_def, if_neg (by simp [he])] at hm
    split at hm
    · cases hm
      have hd := completes_of_operands rfl hl h
      exact ⟨[], arguments, .dashes arguments, hd.flags, hd.operands⟩
    · obtain ⟨hkept, f, hf, hstep⟩ := completes_of_raise hm
      obtain ⟨flags, operands, hs, hd⟩ := ih (hkept.trans he) hl
      rw [Flag.ofName?_eq_some_iff.mp hf]
      exact ⟨f :: flags, operands, .name f hs, hstep hd⟩
    · obtain ⟨hkept, fs, hf, hstep⟩ := completes_of_letters hm
      obtain ⟨flags, operands, hs, hd⟩ := ih (hkept.trans he) hl
      cases fs with
      | nil => cases hf
      | cons f fs =>
        rw [hf]
        exact ⟨f :: fs ++ flags, operands, .letters f fs hs, hstep hd⟩
    · next hlong =>
      obtain ⟨hkept, hstep⟩ := completes_of_fill hm
      obtain ⟨flags, operands, hs, hd⟩ := ih (hkept.trans he) hl
      exact ⟨flags, argument :: operands, .operand argument (dash_or_head?_ne hlong) hs, hstep hd⟩

theorem completes_of_finish (h : d.finish = .ok i) : d.Completes [] [] i := by
  cases hc : d.contents with
  | none => simp [Draft.finish, hc] at h
  | some contents =>
    simp only [Draft.finish, hc, Except.ok.injEq] at h
    subst h
    exact ⟨by rw [List.append_nil], by rw [hc]; rfl⟩

end Draft

/-- The arguments that are read as an invocation are its spellings and no others. -/
theorem Invocation.ofArguments_eq_ok_iff {i : Invocation} {arguments : List Text} :
    ofArguments arguments = .ok i ↔ i.SpelledBy arguments := by
  constructor
  · intro h
    rw [ofArguments] at h
    cases hn : arguments.foldlM Draft.read {} with
    | error detour =>
      rw [hn] at h
      cases h
    | ok next =>
      rw [hn] at h
      obtain ⟨flags, operands, hs, hd⟩ :=
        Draft.exists_spells_of_read rfl hn (Draft.completes_of_finish h)
      obtain rfl : operands = [i.contents] := hd.operands
      exact ⟨flags, hs, hd.flags⟩
  · rintro ⟨flags, hs, hf⟩
    obtain ⟨later, hl, hlater⟩ := Draft.Completes.read (d := {}) hs ⟨hf, rfl⟩ rfl
    rw [ofArguments, hl]
    exact hlater.finish

example : Invocation.ofArguments ["-sf".toList, "input.txt".toList] =
    .ok ⟨true, true, "input.txt".toList⟩ :=
  rfl

end LineGrammar
