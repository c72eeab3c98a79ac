import LineGrammar.Category
import LineGrammar.Text.Lines
import LineGrammar.Text.Words

/-! A line that is not blank, as a list of classified tokens. The first word is the head and
decides which mark must end the statement. Every copy of that mark at the end of the last word
is taken off, and one token for the mark, at its last copy, stands behind what is left. -/

namespace LineGrammar

structure Token where
  text : Text
  category : Category
  start : Nat
deriving DecidableEq, Repr

def Token.stop (t : Token) : Nat :=
  t.start + t.text.byteSize

structure Statement where
  line : Nat
  text : Text
  head : Category
  tokens : List Token
deriving DecidableEq, Repr

namespace Word

def token (w : Word) : Token :=
  ⟨w.text, Category.ofWord w.text, w.start⟩

def body (mark : EndMark) (w : Word) : Word :=
  ⟨w.start, dropTrailing (· == mark.char) w.text⟩

def closingTokens (mark : EndMark) (w : Word) : List Token :=
  (if (w.body mark).text = [] then [] else [(w.body mark).token]) ++
    if w.body mark = w then [] else [⟨[mark.char], .endMark mark, w.stop - 1⟩]

end Word

namespace Statement

/-- The category of the first word. An only word is taken without any mark at its end. -/
def headOf (first : Word) (later : List Word) : Category :=
  if later = [] then
    Category.ofWord (dropTrailing (fun c => c == ';' || c == ':') first.text)
  else Category.ofWord first.text

def tokensOf (mark : EndMark) : List Word → List Token
  | [] => []
  | [last] => last.closingTokens mark
  | w :: next :: later => w.token :: tokensOf mark (next :: later)

def ofLine? (line : Nat) (text : Text) : Option Statement :=
  match text.words with
  | [] => none
  | first :: later =>
    let head := headOf first later
    some ⟨line, text, head, tokensOf head.requiredMark (first :: later)⟩

def categories (s : Statement) : List Category :=
  s.tokens.map Token.category

def endMark? (s : Statement) : Option EndMark :=
  match s.categories.getLast? with
  | some (.endMark mark) => some mark
  | _ => none

end Statement

end LineGrammar
