import LineGrammar.Proofs.Arguments
import LineGrammar.Proofs.Logging
import LineGrammar.Proofs.Merging
import Mathlib.Data.List.ModifyLast

/-! What is printed depends on what is checked and on nothing else. An operand, a file and standard
input are checked alike, and neither the level of the log nor the summary nor the verdicts themselves
change the output or the exit code. -/

namespace LineGrammar

/-- The bytes that an invocation checks: those of its operand, or what the file that the operand
names or standard input holds. -/
inductive Invocation.Presents (i : Invocation) (input : Bytes) (files : Directory) :
    Bytes → Prop where
  | operand (h : i.readsFile = false) : Presents i input files (Utf8.encode i.contents)
  | file {bytes : Bytes} (h : i.readsFile = true) (hn : i.contents ≠ ['-'])
      (hf : files.find? i.contents = some (.file bytes)) : Presents i input files bytes
  | standardInput (h : i.readsFile = true) (hn : i.contents = ['-']) : Presents i input files input

theorem Invocation.Presents.refills?_source {i : Invocation} {input : Bytes} {files : Directory}
    {bytes : Bytes} (h : i.Presents input files bytes) :
    i.source.refills? input files = some [.chunk bytes] := by
  cases h with
  | operand h => simp [source, h, Source.refills?]
  | file h hn hf => simp [source, h, hn, Source.refills?, hf, Entry.refills]
  | standardInput h hn => simp [source, h, hn, Source.refills?]

/-- The records of the lines that bytes hold. -/
def Bytes.printed (bytes : Bytes) : Bytes :=
  (Refill.reports [.chunk bytes]).flatMap Report.outputLine

/-- The reports on a text, one a line. A carriage return at the very end is not printed. -/
def Text.printed (t : Text) : Bytes :=
  let records := (Report.ofText t).map Report.render
  let shown := if t.getLast? = some '\r' then records.modifyLast (dropFinal '\r') else records
  shown.flatMap fun record => Utf8.encode record ++ [lineFeed]

theorem exists_render_eq (v : Verdict) :
    ∃ front : Text, ∀ line text, (Report.mk line text v).render = front ++ text := by
  cases v with
  | rejected defect => exact ⟨_, fun _ _ => rfl⟩
  | blank => exact ⟨[], fun _ _ => rfl⟩
  | accepted kind => exact ⟨[], fun _ _ => rfl⟩

theorem dropFinal_render (r : Report) :
    dropFinal '\r' { r with text := r.text ++ ['\r'] }.render = r.render := by
  obtain ⟨line, text, verdict⟩ := r
  obtain ⟨front, hr⟩ := exists_render_eq verdict
  rw [hr, hr, ← List.append_assoc, dropFinal_concat]

theorem map_render_concat_carriageReturn (line : Nat) (front : List Text) (last : Text) :
    ((reportsFrom line (front ++ [last ++ ['\r']])).map Report.render).modifyLast
        (dropFinal '\r') =
      (reportsFrom line (front ++ [last])).map Report.render := by
  have hlast : dropFinal '\r' (Report.ofLine (line + front.length) (last ++ ['\r'])).render =
      (Report.ofLine (line + front.length) last).render := by
    rw [ofLine_append_carriageReturn]
    exact dropFinal_render (Report.ofLine (line + front.length) last)
  rw [reportsFrom_concat, reportsFrom_concat, List.map_append, List.map_append, List.map_singleton,
    List.map_singleton, List.modifyLast_concat, hlast]

theorem printed_encode (t : Text) : Bytes.printed (Utf8.encode t) = t.printed := by
  have hreports : (Refill.reports [.chunk (Utf8.encode t)]).map Report.render =
      if t.getLast? = some '\r' then
        ((Report.ofText t).map Report.render).modifyLast (dropFinal '\r')
      else (Report.ofText t).map Report.render := by
    have hiff := getLast?_decode_eq_iff (Utf8.encode t)
    have hl := lines_decode (Utf8.encode t)
    rw [decode_encode] at hiff hl
    rw [ofText_eq, Refill.reports, inputLines_chunk]
    rcases hl with ⟨hc, hl⟩ | ⟨hc, front, last, hf, hl⟩
    · rw [if_neg (mt hiff.mp hc), hl]
    · rw [if_pos (hiff.mpr hc), hl, hf, map_render_concat_carriageReturn]
  rw [Text.printed, ← hreports, List.flatMap_map]
  rfl

theorem outlook_chunk (bytes : Bytes) :
    (Reader.ofRefills [.chunk bytes]).outlook = [.chunk bytes] := by
  simp [Reader.outlook, Reader.ofRefills, Refill.merged, Refill.prepend]

/-- However bytes arrive, the same is printed. -/
theorem Transcript.ofRefills_of_outlook (summarizes : Bool) (v : Verbosity) {refills : List Refill}
    {bytes : Bytes} (h : (Reader.ofRefills refills).outlook = [.chunk bytes]) :
    ∃ notes, ofRefills summarizes v refills = ⟨0, bytes.printed, notes⟩ := by
  have halike : ReportStream.Alike (.ofRefills refills) (.ofRefills [.chunk bytes]) :=
    ⟨h.trans (outlook_chunk bytes).symm, rfl, rfl⟩
  have hu := halike.untilEnd_eq.trans (untilEnd_chunk_reports bytes)
  exact ⟨_, Transcript.ofRefills_eq summarizes v hu⟩

/-- An invocation exits with zero and prints the records of the bytes that it checks, however it is
spelled, wherever the bytes come from and in whatever pieces they arrive, however many lines are
rejected and whatever is written besides. If the bytes are those of a text, the records are those
of the reports on the text. -/
theorem execute_of_spelledBy {i : Invocation} {arguments : List Text} (hs : i.SpelledBy arguments)
    {input : Bytes} {files : Directory} {bytes : Bytes} (hp : i.Presents input files bytes)
    (v : Verbosity) :
    (∃ notes, execute arguments input files v = .transcript ⟨0, bytes.printed, notes⟩) ∧
      (∀ refills, (Reader.ofRefills refills).outlook = [.chunk bytes] →
        ∃ notes, i.reply v (some refills) = .transcript ⟨0, bytes.printed, notes⟩) ∧
      ∀ t : Text, bytes = Utf8.encode t → bytes.printed = t.printed := by
  have hreply : ∀ refills, (Reader.ofRefills refills).outlook = [.chunk bytes] →
      ∃ notes, i.reply v (some refills) = .transcript ⟨0, bytes.printed, notes⟩ := by
    intro refills h
    obtain ⟨notes, hn⟩ := Transcript.ofRefills_of_outlook i.summarizes v h
    exact ⟨notes, congrArg Reply.transcript hn⟩
  refine ⟨?_, hreply, ?_⟩
  · rw [execute, Invocation.ofArguments_eq_ok_iff.mpr hs]
    dsimp only
    rw [hp.refills?_source]
    exact hreply _ (outlook_chunk bytes)
  · rintro t rfl
    exact printed_encode t

/-- A text that begins with a dash, stands behind two of them and ends with a carriage return; and
the same bytes in a file, and on standard input. -/
theorem execute_of_spelledBy_dashes :
    let text : Text := "-x;\r".toList
    let arguments : List Text := ["-s".toList, "--".toList, text]
    let i : Invocation := ⟨false, true, text⟩
    let bytes : Bytes := Utf8.encode text
    let pieces : List Refill := [.chunk (bytes.take 2), .interruption, .chunk (bytes.drop 2)]
    let files : Directory := [("b".toList, [10]), ("a".toList, bytes)]
    let named : List Text := ["a".toList, "--file".toList]
    let ofFile : Invocation := ⟨true, false, "a".toList⟩
    let piped : List Text := ["--file".toList, "-".toList]
    let ofInput : Invocation := ⟨true, false, "-".toList⟩
    (i.SpelledBy arguments ∧ i.Presents [] [] bytes ∧
      ofFile.SpelledBy named ∧ ofFile.Presents [10] files bytes ∧
      ofInput.SpelledBy piped ∧ ofInput.Presents bytes files bytes) ∧
      (∃ notes, execute arguments [] [] (some .trace) = .transcript ⟨0, bytes.printed, notes⟩) ∧
      (∃ notes, i.reply (some .trace) (some pieces) = .transcript ⟨0, bytes.printed, notes⟩) ∧
      (∃ notes, execute named [10] files none = .transcript ⟨0, bytes.printed, notes⟩) ∧
      (∃ notes, execute piped bytes files .default = .transcript ⟨0, bytes.printed, notes⟩) ∧
      bytes.printed = text.printed := by
  intro text arguments i bytes pieces files named ofFile piped ofInput
  have hs : i.SpelledBy arguments :=
    ⟨[.summary], .letters .summary [] (.dashes [text]), .refl _⟩
  have hp : i.Presents [] [] bytes := .operand rfl
  have hname : "a".toList = ['-'] ∨ "a".toList.head? ≠ some '-' := .inr (by decide)
  have hsFile : ofFile.SpelledBy named :=
    ⟨[.file], .operand _ hname (.name .file .nil), .refl _⟩
  have hpFile : ofFile.Presents [10] files bytes := .file rfl (by decide) (by decide)
  have hsInput : ofInput.SpelledBy piped :=
    ⟨[.file], .name .file (.operand _ (.inl rfl) .nil), .refl _⟩
  have hpInput : ofInput.Presents bytes files bytes := .standardInput rfl rfl
  obtain ⟨he, hr, ht⟩ := execute_of_spelledBy hs hp (some .trace)
  have heFile := (execute_of_spelledBy hsFile hpFile none).1
  have heInput := (execute_of_spelledBy hsInput hpInput .default).1
  exact ⟨⟨hs, hp, hsFile, hpFile, hsInput, hpInput⟩, he, hr pieces (by decide), heFile, heInput,
    ht text rfl⟩

end LineGrammar
