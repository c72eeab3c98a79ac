import LineGrammar.Log
import LineGrammar.Stream.Session

/-! A session with its log. Every step that is written to the log stands here once more, with its
event where it happens; without the log it is the step of the same name. -/

namespace LineGrammar

/-- A value, and the events written on the way to it. -/
structure Logged (α : Type) where
  value : α
  events : List LogEvent

namespace Logged

instance : Monad Logged where
  pure a := ⟨a, []⟩
  bind x f :=
    let y := f x.value
    ⟨y.value, x.events ++ y.events⟩

/-- Events that are too detailed are left out. -/
def write (v : Verbosity) (e : LogEvent) : Logged Unit :=
  ⟨(), if v.shows e.level then [e] else []⟩

def token (v : Verbosity) (w : Word) : Logged Token := do
  write v (.token w.token)
  return w.token

def closingTokens (v : Verbosity) (mark : EndMark) (w : Word) : Logged (List Token) :=
  let marks := if w.body mark = w then [] else [⟨[mark.char], .endMark mark, w.stop - 1⟩]
  if (w.body mark).text = [] then return marks
  else do
    let t ← token v (w.body mark)
    return t :: marks

def tokensOf (v : Verbosity) (mark : EndMark) : List Word → Logged (List Token)
  | [] => return []
  | [last] => closingTokens v mark last
  | w :: next :: later => do
    let t ← token v w
    let ts ← tokensOf v mark (next :: later)
    return t :: ts

/-- The category of the head is found without an event. -/
def ofLine? (v : Verbosity) (line : Nat) (text : Text) : Logged (Option Statement) :=
  match text.words with
  | [] => return none
  | first :: later => do
    let head := Statement.headOf first later
    let tokens ← tokensOf v head.requiredMark (first :: later)
    return some ⟨line, text, head, tokens⟩

def rule (v : Verbosity) (line : Nat) (head : Category) (cs : List Category) :
    Logged (Except Defect Kind) :=
  match head with
  | .declaration => return (Statement.checkDeclaration cs).map fun _ => .declaration
  | .conditional => return (Statement.checkGuard cs).map fun _ => .conditional
  | .loop => return (Statement.checkGuard cs).map fun _ => .loop
  | _ =>
    if cs[1]? = some .assignment then
      return (Statement.checkAssignment cs).map fun _ => .assignment
    else do
      write v (.unrecognized line cs)
      return .error .unrecognized

def judge (v : Verbosity) (s : Statement) : Logged (Except Defect Kind) :=
  if s.endMark? ≠ some s.head.requiredMark then
    return .error (.missingEndMark s.head.requiredMark)
  else
    match s.tokens.find? (·.category == .unknown) with
    | some t => return .error (.unknownToken t.text (s.text.column t.start))
    | none => rule v s.line s.head s.categories

def verdict (v : Verbosity) : Option Statement → Logged Verdict
  | none => return .blank
  | some s => do
    match ← judge v s with
    | .ok kind => return .accepted kind
    | .error defect => return .rejected defect

def report (v : Verbosity) (line : Nat) (text : Text) : Logged Report := do
  let s? ← ofLine? v line text
  let found ← verdict v s?
  write v (.verdict line found)
  return ⟨line, text, found⟩

def next (v : Verbosity) (s : ReportStream) : Logged (ReportStream.Item × ReportStream) :=
  if s.failed then return (none, s)
  else
    match s.reader.readLine with
    | (.line bytes, reader) => do
      let r ← report v (s.line + 1) (lineText bytes)
      return (some (.ok r), ⟨reader, s.line + 1, false⟩)
    | (.ended, reader) => return (none, ⟨reader, s.line, false⟩)
    | (.failed fault, reader) => return (some (.error fault), ⟨reader, s.line, true⟩)

def finish (v : Verbosity) (sink : Sink) (tally : Tally) : Logged Session :=
  match sink.flush with
  | .error fault => return ⟨[], .error fault⟩
  | .ok _ => do
    write v (.finished tally)
    return ⟨[], .ok tally⟩

@[simp] theorem value_pure {α : Type} (a : α) : (pure a : Logged α).value = a := rfl

@[simp] theorem events_pure {α : Type} (a : α) : (pure a : Logged α).events = [] := rfl

@[simp] theorem value_bind {α β : Type} (x : Logged α) (f : α → Logged β) :
    (x >>= f).value = (f x.value).value := rfl

@[simp] theorem events_bind {α β : Type} (x : Logged α) (f : α → Logged β) :
    (x >>= f).events = x.events ++ (f x.value).events := rfl

@[simp] theorem value_token (v : Verbosity) (w : Word) : (token v w).value = w.token := rfl

@[simp] theorem value_closingTokens (v : Verbosity) (mark : EndMark) (w : Word) :
    (closingTokens v mark w).value = w.closingTokens mark := by
  rw [closingTokens, Word.closingTokens]
  split <;> rfl

@[simp] theorem value_tokensOf (v : Verbosity) (mark : EndMark) (ws : List Word) :
    (tokensOf v mark ws).value = Statement.tokensOf mark ws := by
  induction ws with
  | nil => rfl
  | cons w ws ih =>
    cases ws with
    | nil => exact value_closingTokens v mark w
    | cons next later => exact congrArg (w.token :: ·) ih

@[simp] theorem value_ofLine? (v : Verbosity) (line : Nat) (text : Text) :
    (ofLine? v line text).value = Statement.ofLine? line text := by
  rw [ofLine?, Statement.ofLine?]
  cases text.words with
  | nil => rfl
  | cons first later => simp

@[simp] theorem value_rule (v : Verbosity) (line : Nat) (head : Category) (cs : List Category) :
    (rule v line head cs).value = Statement.rule head cs := by
  cases head
  case declaration => rfl
  case conditional => rfl
  case loop => rfl
  all_goals
    rw [rule, Statement.rule]
    · split <;> rfl
    all_goals simp

@[simp] theorem value_judge (v : Verbosity) (s : Statement) : (judge v s).value = s.judge := by
  rw [judge, Statement.judge]
  split
  · rfl
  · cases s.tokens.find? (·.category == .unknown) with
    | none => exact value_rule v s.line s.head s.categories
    | some t => rfl

@[simp] theorem value_verdict (v : Verbosity) (s? : Option Statement) :
    (verdict v s?).value = (s?.map Verdict.ofStatement).getD .blank := by
  cases s? with
  | none => rfl
  | some s =>
    have hd : (verdict v (some s)).value = Verdict.ofStatement s := by
      rw [verdict, Verdict.ofStatement, value_bind, value_judge]
      cases s.judge <;> rfl
    exact hd

@[simp] theorem value_report (v : Verbosity) (line : Nat) (text : Text) :
    (report v line text).value = .ofLine line text := by
  simp only [report, Report.ofLine, value_bind, value_ofLine?, value_verdict, value_pure]

@[simp] theorem value_next (v : Verbosity) (s : ReportStream) : (next v s).value = s.next := by
  rw [next, ReportStream.next]
  split
  · rfl
  · cases s.reader.readLine with
    | mk read reader => cases read <;> simp

/-- The session over what is left of a stream, from a sink and a tally that others have used. -/
def session (v : Verbosity) (sink : Sink) (tally : Tally) (s : ReportStream) : Logged Session :=
  let found := next v s
  match h : found.value.1 with
  | none => do
    let _ ← found
    finish v sink tally
  | some (.error fault) => do
    let _ ← found
    return ⟨[], .error fault⟩
  | some (.ok report) =>
    have : found.value.2.reader.size < s.reader.size := by
      rw [value_next] at h ⊢
      exact ReportStream.size_next_lt (by simp [h])
    do
      let _ ← found
      match sink.write report.outputLine with
      | (taken, .error fault) => return ⟨taken, .error fault⟩
      | (taken, .ok sink) => do
        let rest ← session v sink (tally.add report.verdict) found.value.2
        return ⟨taken ++ rest.output, rest.result⟩
termination_by s.reader.size
decreasing_by exact this

/-- One round of a session. -/
theorem session_eq (v : Verbosity) (sink : Sink) (tally : Tally) (s : ReportStream) :
    session v sink tally s = (do
      let found ← next v s
      match found.1 with
      | none => finish v sink tally
      | some (.error fault) => return ⟨[], .error fault⟩
      | some (.ok report) =>
        match sink.write report.outputLine with
        | (taken, .error fault) => return ⟨taken, .error fault⟩
        | (taken, .ok sink) => do
          let rest ← session v sink (tally.add report.verdict) found.2
          return ⟨taken ++ rest.output, rest.result⟩) := by
  have hbind {α β : Type} (x : Logged α) (f : α → Logged β) : x >>= f = x >>= fun _ => f x.value :=
    rfl
  rw [session]
  split
  · next h =>
    refine Eq.trans ?_ (hbind _ _).symm
    simp only [h]
  · next fault h =>
    refine Eq.trans ?_ (hbind _ _).symm
    simp only [h]
  · next report h =>
    refine Eq.trans ?_ (hbind _ _).symm
    simp only [h]

end Logged

end LineGrammar
